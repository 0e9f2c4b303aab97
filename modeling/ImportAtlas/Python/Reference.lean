import ImportAtlas.Python.Syntax
/-!
# What a source refers to

Every name that an import statement takes is one `Reference`, in the order of the source: the dotted
path as written and the number of dots before it.  `from m import a, b` refers to `m.a` and `m.b`,
and `from m import *` to everything in `m`, which is written with a star for its last segment.

A reference is *guarded* if some `if` statement around it, near or far, asks for `TYPE_CHECKING`.
The branch does not matter: an `else` below a guard is below the guard.
-/
namespace ImportAtlas
namespace Python

structure Reference where
  /-- The dots before the path; none for an absolute one. -/
  dots : Nat
  path : ModuleName
  row : Nat
  guarded : Bool
deriving DecidableEq

/-- A word can be a segment of a name. -/
theorem Word.isSegment (w : Word) : ModuleName.IsSegment w.text.toList :=
  ⟨w.isWord.1, fun h => absurd (w.isWord.2 '.' h) (by decide)⟩

/-- The name that is written. -/
def DottedName.name (m : DottedName) : ModuleName :=
  .ofSegments (m.words.map (·.text.toList)) (by simp [DottedName.words]) fun s hs => by
    obtain ⟨w, -, rfl⟩ := List.mem_map.1 hs
    exact w.isSegment

/-- What stands for everything in a module. -/
def star : ModuleName := ModuleName.ofSegments [['*']] (by simp) (by decide)

def Selection.objects : Selection → List ModuleName
  | .everything => [star]
  | .names objects => objects.map (·.name)

namespace Origin

def dots : Origin → Nat
  | .absolute _ => 0
  | .relative above _ => above + 1

/-- The path of an object that is taken from there. -/
def path (object : ModuleName) : Origin → ModuleName
  | .absolute m => m.name.append object
  | .relative _ (some m) => m.name.append object
  | .relative _ none => object

end Origin

/-- The dots and the path of everything that a clause takes. -/
def ImportClause.objects : ImportClause → List (Nat × ModuleName)
  | .modules names => names.map fun m => (0, m.name)
  | .members source selection =>
    selection.objects.map fun object => (source.dots, source.path object)

def guardName : String := "TYPE_CHECKING"

/-- The bare name, or that attribute of anything. -/
def Expr.isGuard : Expr → Bool
  | .name id => id = guardName
  | .attribute id => id = guardName
  | .place => false
  | .other => false

/-- Only an `if` statement guards what is below it. -/
def guards (construct : Construct) (condition : Option Expr) : Bool :=
  construct = .ifStatement && (condition.map Expr.isGuard).getD false

mutual

/-- The references in a node, with `guarded` telling about what is around it. -/
def Node.references (guarded : Bool) : Node → List Reference
  | .importing row clause => clause.objects.map fun (dots, path) => ⟨dots, path, row, guarded⟩
  | .plain => []
  | .compound construct condition children =>
    references (guarded || guards construct condition) children
termination_by structural node => node

/-- The references in a row of nodes. -/
def references (guarded : Bool) : List Node → List Reference
  | [] => []
  | node :: nodes => node.references guarded ++ references guarded nodes
termination_by structural nodes => nodes

end

end Python
end ImportAtlas
