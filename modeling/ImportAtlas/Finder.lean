import ImportAtlas.FileTree.Disk
import ImportAtlas.Source
/-!
# Finding packages

A package is looked for on search paths, and the first one that has an answer gives it.  The
directory that the segments of the name lead to must hold a package file, and the directory around it
must not, for else the package is not a top-level one; neither is a name that turns out to be a plain
module.  A directory without a package file is no answer, but it is remembered for the refusal.

The files of a package are met on a walk in the order of names.  What a directory without a package
file holds cannot be imported, nor what is hidden, so the walk passes over it, and of the files it
takes those with a Python ending and no other dot.
-/
namespace ImportAtlas
namespace Finder

/-! ## The package's directory -/

/-- The directory holds a package file. -/
def isRegular (t : FileTree) (directory : String) : Bool :=
  t.hasFile (Path.join directory packageFile)

/-- On the given search path, the directory around the package is a package itself. -/
def hasRegularParent (t : FileTree) (searchPath : String) (package : ModuleName) : Bool :=
  match package.parent? with
  | some p => isRegular t (Path.descend searchPath p.segments)
  | none => false

def ending : String := ".py"

/-- The package's directory on the search paths; `met` tells that a directory of its name has been
seen before them. -/
def directoryOn (t : FileTree) (package : ModuleName) (met : Bool) :
    List String → Except Error String
  | [] => .error (if met then .namespacePackage package.text else .packageNotFound package.text)
  | searchPath :: rest =>
    let candidate := Path.descend searchPath package.segments
    if isRegular t candidate then
      if hasRegularParent t searchPath package then .error (.notTopLevel package.text)
      else .ok candidate
    else if t.hasFile (Path.withEnding candidate ending) then .error (.notTopLevel package.text)
    else directoryOn t package (met || t.hasDirectory candidate) rest

/-- Without search paths, packages are looked for at the top of the tree. -/
def searchPathsOr (searchPaths : List String) : List String :=
  if searchPaths = [] then ["."] else searchPaths

def packageDirectory (searchPaths : List String) (t : FileTree) (package : ModuleName) :
    Except Error String :=
  directoryOn t package false (searchPathsOr searchPaths)

/-! ## The package's files -/

def isHidden (name : String) : Bool := name.startsWith "."

/-- The name without its Python ending, if the ending's dot is the only one. -/
def stem? (name : String) : Option String :=
  let stem := name.toList.take (name.length - ending.length)
  if stem ++ ending.toList = name.toList ∧ stem ≠ [] ∧ '.' ∉ stem then some (.ofList stem) else none

def packageStem : String := "__init__"

/-- The module at a row of names beneath a package.  The package file stands for the package itself,
and a directory of its stem adds nothing to the name either. -/
def moduleAt (package : ModuleName) (names : List String) : Except Error ModuleName :=
  ModuleName.parse (".".intercalate (package.text :: names.filter (· ≠ packageStem)))

/-- Times before 1970 count as 1970. -/
def timestamp (f : File) : Int64 := if f.mtime < 0 then 0 else f.mtime

def holdsPackageFile (entries : List (String × Entry)) : Bool := (entries.lookup packageFile).isSome

mutual

/-- The source files of one entry, `names` leading from the package to its directory. -/
def sourcesOf (package : ModuleName) (directory : String) (names : List String) (name : String) :
    Entry → Except Error (List SourceFile)
  | .file f => match stem? name with
    | some stem => do
      let m ← moduleAt package (names ++ [stem])
      return [⟨m, Path.join directory name, timestamp f⟩]
    | none => .ok []
  | .directory entries =>
    if isHidden name || !holdsPackageFile entries then .ok []
    else sourcesIn package (Path.join directory name) (names ++ [name]) entries
termination_by structural e => e

/-- The source files of the entries of a directory. -/
def sourcesIn (package : ModuleName) (directory : String) (names : List String) :
    List (String × Entry) → Except Error (List SourceFile)
  | [] => .ok []
  | (name, e) :: rest => do
    let here ← sourcesOf package directory names name e
    let more ← sourcesIn package directory names rest
    return here ++ more
termination_by structural entries => entries

end

/-- A package with its source files. -/
def find (searchPaths : List String) (t : FileTree) (package : ModuleName) :
    Except Error FoundPackage := do
  let directory ← packageDirectory searchPaths t package
  match t.directory? directory with
  | none => .error .storage
  | some entries => do
    let files ← sourcesIn package directory [] entries
    return ⟨package, directory, files⟩

end Finder
end ImportAtlas
