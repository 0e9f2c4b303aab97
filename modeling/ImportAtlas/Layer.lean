import ImportAtlas.Import
/-!
# Layers

An architecture is a list of layers, highest first, and imports may only go down.  One layer may
name several sibling modules.  Siblings of an *independent* layer may not import each other.  A
*closed* layer may not be bypassed: what is above it may not import what is below it directly.

Layers name tails of modules.  Read within a container, a tail is a name beneath the container; with
no container it is a whole name.  Reading a layer gives a `Level`, and `illegalPairs` lists, for a
list of levels, which module may not import which.
-/
namespace ImportAtlas

structure Layer where
  tails : Std.ExtTreeSet String
  independent : Bool := true
  closed : Bool := false

/-- A layer of one module. -/
def Layer.single (tail : String) : Layer := { tails := .ofList [tail] }

/-- A layer read within a container. -/
structure Level where
  modules : List ModuleName
  independent : Bool
  closed : Bool
deriving DecidableEq

def Layer.moduleOf (container : Option ModuleName) (tail : String) : Except Error ModuleName :=
  match container with
  | some c => ModuleName.parse (c.text ++ "." ++ tail)
  | none => ModuleName.parse tail

def Layer.within (layer : Layer) (container : Option ModuleName) : Except Error Level := do
  let modules ← layer.tails.toList.mapM (Layer.moduleOf container)
  return { modules, independent := layer.independent, closed := layer.closed }

namespace Level

/-- The pairs that `higher` makes illegal with the levels below it.  Once a closed level has been
passed (`bypassed`), `higher` may not import from there on either. -/
def pairsBelow (higher : ModuleName) : Bool → List Level → List Import
  | _, [] => []
  | bypassed, lower :: rest =>
    lower.modules.flatMap (fun m =>
      ⟨m, higher⟩ :: if bypassed then [⟨higher, m⟩] else []) ++
    pairsBelow higher (bypassed || lower.closed) rest

/-- The pairs that an independent level makes illegal between its own modules. -/
def siblingPairs (level : Level) : List Import :=
  if level.independent then
    level.modules.flatMap fun m => (level.modules.filter (· ≠ m)).map fun sibling => ⟨sibling, m⟩
  else []

/-- Every import between modules of the levels that the architecture forbids. -/
def illegalPairs : List Level → List Import
  | [] => []
  | level :: lower =>
    level.siblingPairs ++ level.modules.flatMap (pairsBelow · false lower) ++ illegalPairs lower

/-- The level modules that a chain from `i.importer` to `i.imported` must not pass through: passing
through them is somebody else's illegal import. -/
def excluded (levels : List Level) (i : Import) : List ModuleName :=
  (levels.flatMap (·.modules)).filter fun m => ¬ m.Overlaps i.importer ∧ ¬ m.Overlaps i.imported

end Level
end ImportAtlas
