import ImportAtlas.Graph
/-!
# Patterns for names

A pattern is a row of parts between dots: a name stands for itself, `*` for any one segment and `**`
for any run of one or more.  A part with a star and anything else in it is refused, and so are two
`**` side by side, which would mean no more than one.

`Matches` is what a pattern means, cut by cut; `Part.matchesAll` decides it by trying how many
segments each `**` takes.
-/
namespace ImportAtlas

namespace Pattern

inductive Part where
  | name (segment : List Char)
  | one
  | oneOrMore
deriving DecidableEq

/-- What one part may stand for. -/
def Part.Covers : Part → List (List Char) → Prop
  | .name segment, block => block = [segment]
  | .one, block => block.length = 1
  | .oneOrMore, block => block ≠ []

/-- The segments can be cut into blocks, one for each part in order. -/
inductive Matches : List Part → List (List Char) → Prop where
  | nil : Matches [] []
  | cons {part : Part} {parts : List Part} {block rest : List (List Char)} :
    part.Covers block → Matches parts rest → Matches (part :: parts) (block ++ rest)

/-- Decides a match; `**` is tried on every nonempty run. -/
def matchesAll : List Part → List (List Char) → Bool
  | [], segments => segments.isEmpty
  | _ :: _, [] => false
  | .name expected :: parts, segment :: segments =>
    expected = segment && matchesAll parts segments
  | .one :: parts, _ :: segments => matchesAll parts segments
  | .oneOrMore :: parts, _ :: segments =>
    matchesAll parts segments || matchesAll (.oneOrMore :: parts) segments
termination_by parts segments => parts.length + segments.length

def Part.ofText? (text : List Char) : Option Part :=
  if text = [] then none
  else if text = ['*'] then some .one
  else if text = ['*', '*'] then some .oneOrMore
  else if '*' ∈ text then none
  else some (.name text)

/-- No two `**` are neighbours. -/
def Spaced : List Part → Prop
  | .oneOrMore :: .oneOrMore :: _ => False
  | _ :: parts => Spaced parts
  | [] => True

instance decidableSpaced : (parts : List Part) → Decidable (Spaced parts)
  | [] => .isTrue trivial
  | .name _ :: parts => decidableSpaced parts
  | .one :: parts => decidableSpaced parts
  | [.oneOrMore] => .isTrue trivial
  | .oneOrMore :: .oneOrMore :: _ => .isFalse id
  | .oneOrMore :: .name s :: parts => decidableSpaced (.name s :: parts)
  | .oneOrMore :: .one :: parts => decidableSpaced (.one :: parts)

end Pattern

open Pattern

/-- A pattern for module names, with the text it was read from. -/
structure ModulePattern where
  text : String
  parts : List Part

namespace ModulePattern

def ofString? (text : String) : Option ModulePattern := do
  let parts ← (Dotted.split text.toList).mapM Part.ofText?
  if Spaced parts then some ⟨text, parts⟩ else none

def parse (text : String) : Except Error ModulePattern :=
  match ofString? text with
  | some p => .ok p
  | none => .error (.invalidModulePattern text)

def isMatch (p : ModulePattern) (m : ModuleName) : Bool := matchesAll p.parts m.segments

end ModulePattern

/-- A pattern for imports: one pattern for each end, with an arrow between them. -/
structure ImportPattern where
  importer : ModulePattern
  imported : ModulePattern

namespace ImportPattern

/-- The text before the first occurrence of `mark` and the text after it. -/
def cut (mark : List Char) : List Char → Option (List Char × List Char)
  | [] => if mark = [] then some ([], []) else none
  | c :: rest =>
    if mark <+: c :: rest then some ([], (c :: rest).drop mark.length)
    else (cut mark rest).map fun (before, after) => (c :: before, after)

def arrow : List Char := " -> ".toList

def ofString? (text : String) : Option ImportPattern := do
  let (before, after) ← cut arrow text.toList
  return ⟨← ModulePattern.ofString? (.ofList before), ← ModulePattern.ofString? (.ofList after)⟩

def parse (text : String) : Except Error ImportPattern :=
  match ofString? text with
  | some p => .ok p
  | none => .error (.invalidImportPattern text)

def isMatch (p : ImportPattern) (i : Import) : Bool :=
  p.importer.isMatch i.importer && p.imported.isMatch i.imported

end ImportPattern

namespace Graph

def matchingModules (g : Graph) (text : String) : Except Error NameSet := do
  let p ← ModulePattern.parse text
  return .ofList (g.moduleList.filter p.isMatch)

def matchingImports (g : Graph) (text : String) : Except Error (List Import) := do
  let p ← ImportPattern.parse text
  return g.importList.filter p.isMatch

end Graph
end ImportAtlas
