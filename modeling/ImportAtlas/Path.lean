import ImportAtlas.Text.Space
/-!
# Paths

A path is a text with slashes, kept as it was given, for paths are shown to people: what is joined to
`src/` shows as `src/pkg`, and what is joined to `.` as `./pkg`.  Where a path leads is read off its
steps, one for each piece between slashes, in which an empty piece is as good as a dot.
-/
namespace ImportAtlas
namespace Path

/-- The path of `name` within `directory`.  An absolute `name` stands by itself. -/
def join (directory name : String) : String :=
  if name.startsWith "/" || directory = "" then name
  else if directory.endsWith "/" then directory ++ name
  else directory ++ "/" ++ name

/-- The path beneath `directory` that takes one step for each segment. -/
def descend (directory : String) (segments : List (List Char)) : String :=
  segments.foldl (fun path segment => join path (.ofList segment)) directory

def isAbsolute (path : String) : Bool := path.startsWith "/"

def steps (path : String) : List String :=
  (Text.pieces '/' path.toList).map fun piece => if piece = [] then "." else .ofList piece

/-- The steps that go somewhere. -/
def parts (path : String) : List String := (steps path).filter (· ≠ ".")

/-- The name at the end of a path, if it ends in a name. -/
def fileName? (path : String) : Option String := (parts path).getLast?.filter (· ≠ "..")

/-- The path with an ending added to its last name. -/
def withEnding (path ending : String) : String :=
  .ofList ((path.toList.reverse.dropWhile (· = '/')).reverse) ++ ending

end Path
end ImportAtlas
