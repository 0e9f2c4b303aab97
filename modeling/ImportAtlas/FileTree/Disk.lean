import ImportAtlas.FileTree
import ImportAtlas.Step
/-!
# Working on a file tree

A step on the disk may change the tree and may be refused.  Reading changes nothing, so it is a
function of the tree.
-/
namespace ImportAtlas

namespace FileTree

/-- The text of a source file. -/
def source (t : FileTree) (path : String) : Except Error String :=
  match t.file? path with
  | none => .error .storage
  | some f => match f.text? with
    | some text => .ok text
    | none => .error (.notText path)

end FileTree

/-- A step that may change a tree. -/
abbrev Disk := Step FileTree

namespace Disk

open FileTree (Located)

/-- Puts a file where there is a file or nothing yet. -/
def write (path : String) (file : File) : Disk Unit := do
  match (← get).locate path with
  | .found place (.file _) => modify (·.put place (.file file))
  | .vacant place => modify (·.put place (.file file))
  | _ => throw .storage

/-- Follows steps from a place and makes the directories that are missing. -/
def makeSteps : List String → List String → Disk Unit
  | _, [] => pure ()
  | place, step :: steps => do
    if step = "." then makeSteps place steps
    else if step = ".." then
      if place = [] then throw .storage else makeSteps place.dropLast steps
    else
      let next := place ++ [step]
      match (← get).get? next with
      | some (.directory _) => makeSteps next steps
      | some (.file _) => throw .storage
      | none =>
        modify (·.put next (.directory []))
        makeSteps next steps

/-- Makes a directory and those it is in.  A directory that is missing cannot be made by the name of
a single dot, though those it is in can. -/
def makeDirectories (path : String) : Disk Unit := do
  if path = "" || (← get).hasDirectory path then pure ()
  else if Path.isAbsolute path then throw .storage
  else
    let parts := Path.parts path
    if endsInDot then
      makeSteps [] parts.dropLast
      throw .storage
    else makeSteps [] parts
where
  endsInDot : Bool :=
    ((Text.pieces '/' path.toList).filter (· ≠ [])).getLast? = some ['.']

/-- Moves a file to where there is a file or nothing yet. -/
def move (path target : String) : Disk Unit := do
  let t ← get
  match t.locate path, t.locate target with
  | .found place (.file f), .found target (.file _) => set ((t.erase place).put target (.file f))
  | .found place (.file f), .vacant target => set ((t.erase place).put target (.file f))
  | _, _ => throw .storage

/-- Removes a file or a whole directory. -/
def remove (path : String) : Disk Unit := do
  let t ← get
  match t.locate path with
  | .found place _ => if place = [] then throw .storage else set (t.erase place)
  | _ => throw .storage

/-- Sets when a file was last changed. -/
def touch (path : String) (mtime : Int64) : Disk Unit := do
  let t ← get
  match t.locate path with
  | .found place (.file f) => set (t.put place (.file { f with mtime }))
  | .found _ (.directory _) => pure ()
  | _ => throw .storage

end Disk
end ImportAtlas
