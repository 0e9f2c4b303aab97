import ImportAtlas.Path
import ImportAtlas.Text.Order
/-!
# Trees of files

A directory is a row of named entries in the order of their names, and a `FileTree` is what is in the
directory that everything is relative to.  A file is its bytes and the time of its last change; it
has a text only if the bytes are UTF-8.

A *place* is a row of names leading down from the top.  `get?` says what is at a place and `alter`
changes it; a path, with its dots and double dots, is first followed to a place (`locate`).  A path
that leaves the tree, or an absolute one, leads nowhere: nothing is known of what is out there.
-/
namespace ImportAtlas

structure File where
  bytes : ByteArray
  /-- When the file was last changed, in nanoseconds since 1970; before that, negative. -/
  mtime : Int64

namespace File

def text? (f : File) : Option String := String.fromUTF8? f.bytes

def ofText (text : String) (mtime : Int64) : File := ⟨text.toByteArray, mtime⟩

theorem text?_ofText (text : String) (mtime : Int64) : (ofText text mtime).text? = some text := by
  show String.fromUTF8? text.toByteArray = some text
  rw [String.fromUTF8?, dif_pos text.isValidUTF8]
  rfl

end File

inductive Entry where
  | file (file : File)
  | directory (entries : List (String × Entry))

abbrev FileTree := List (String × Entry)

namespace FileTree

/-! ## Places -/

def get? : FileTree → List String → Option Entry
  | t, [] => some (.directory t)
  | t, name :: names => match t.lookup name with
    | some (.directory entries) => get? entries names
    | some (.file f) => if names = [] then some (.file f) else none
    | none => none

/-- The entry of one name changed as `change` says, where `none` is no entry. -/
def alterEntry (change : Option Entry → Option Entry) (name : String) : FileTree → FileTree
  | [] => ((change none).map (name, ·)).toList
  | (n, e) :: rest =>
    if name < n then ((change none).map (name, ·)).toList ++ (n, e) :: rest
    else if name = n then ((change (some e)).map (name, ·)).toList ++ rest
    else (n, e) :: alterEntry change name rest

/-- The entry at a place changed; where the directories of the place are not there, nothing is. -/
def alter (change : Option Entry → Option Entry) : List String → FileTree → FileTree
  | [], t => t
  | [name], t => alterEntry change name t
  | name :: names, t => alterEntry (fun
    | some (.directory entries) => some (.directory (alter change names entries))
    | e => e) name t

def put (t : FileTree) (place : List String) (e : Entry) : FileTree := alter (fun _ => some e) place t

def erase (t : FileTree) (place : List String) : FileTree := alter (fun _ => none) place t

/-! ## Paths -/

/-- Where a path leads. -/
inductive Located where
  | found (place : List String) (entry : Entry)
  /-- The directory is there, and the last name is not in it. -/
  | vacant (place : List String)
  /-- A directory on the way is missing. -/
  | absent
  /-- A file is where a directory would have to be. -/
  | blocked

/-- Follows steps from a place and the entry there. -/
def follow (t : FileTree) : List String → Entry → List String → Located
  | place, e, [] => .found place e
  | _, .file _, _ :: _ => .blocked
  | place, .directory entries, step :: steps =>
    if step = "." then follow t place (.directory entries) steps
    else if step = ".." then
      if place = [] then .absent
      else match t.get? place.dropLast with
        | some e => follow t place.dropLast e steps
        | none => .absent
    else match entries.lookup step with
      | some e => follow t (place ++ [step]) e steps
      | none => if steps = [] then .vacant (place ++ [step]) else .absent

def locate (t : FileTree) (path : String) : Located :=
  if path = "" || Path.isAbsolute path then .absent
  else follow t [] (.directory t) (Path.steps path)

def entryAt? (t : FileTree) (path : String) : Option Entry :=
  match t.locate path with
  | .found _ e => some e
  | _ => none

def file? (t : FileTree) (path : String) : Option File :=
  match t.entryAt? path with
  | some (.file f) => some f
  | _ => none

def directory? (t : FileTree) (path : String) : Option FileTree :=
  match t.entryAt? path with
  | some (.directory entries) => some entries
  | _ => none

def hasFile (t : FileTree) (path : String) : Bool := (t.file? path).isSome

def hasDirectory (t : FileTree) (path : String) : Bool := (t.directory? path).isSome

end FileTree

/-- The paths of everything beneath an entry that itself is at `path`; directories end in a slash. -/
def Entry.paths (path : String) : Entry → List String
  | .file _ => [path]
  | .directory entries => (path ++ "/") :: beneath (path ++ "/") entries
where
  beneath (path : String) : List (String × Entry) → List String
    | [] => []
    | (name, e) :: rest => e.paths (path ++ name) ++ beneath path rest

/-- The sorted paths of everything in a tree. -/
def FileTree.listing (t : FileTree) : List String := Text.sorted (Entry.paths.beneath "" t)

end ImportAtlas
