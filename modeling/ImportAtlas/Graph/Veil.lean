import ImportAtlas.Graph
/-!
# Hiding imports for a while

Some questions are about the graph with part of its imports out of sight, and which part changes
from one step of the search to the next.  A `Veil` is a graph taken apart: what is visible and what
is hidden, each import on exactly one side with its sites.  `hide` and `reveal` move imports across
and ignore those that are not there to be moved, so lists with repetitions, or with imports that
never existed, do no harm.  `lift` puts everything back.

A question runs on a veil (`Veiled`) and hands back the lifted graph beside its answer
(`Graph.veiled`), so that "the graph is as before" is something to prove and not a convention.
-/
namespace ImportAtlas

structure Veil where
  visible : Graph
  hidden : Std.ExtTreeMap Import (List Site) := ∅

namespace Veil

def hideOne (v : Veil) (i : Import) : Veil :=
  match v.visible.imports[i]? with
  | none => v
  | some sites =>
    { visible := { v.visible with imports := v.visible.imports.erase i }
      hidden := v.hidden.insert i sites }

def revealOne (v : Veil) (i : Import) : Veil :=
  match v.hidden[i]? with
  | none => v
  | some sites =>
    { visible := { v.visible with imports := v.visible.imports.insert i sites }
      hidden := v.hidden.erase i }

def hide (v : Veil) (imports : List Import) : Veil := imports.foldl hideOne v

def reveal (v : Veil) (imports : List Import) : Veil := imports.foldl revealOne v

/-- The graph with nothing hidden any more. -/
def lift (v : Veil) : Graph :=
  { v.visible with imports := v.visible.imports ∪ v.hidden }

end Veil

/-- A search that may hide and reveal imports as it goes. -/
abbrev Veiled := StateM Veil

namespace Veiled

def hide (imports : List Import) : Veiled Unit := modify (·.hide imports)

def reveal (imports : List Import) : Veiled Unit := modify (·.reveal imports)

/-- The imports in sight, in order. -/
def imports : Veiled (List Import) := return (← get).visible.importList

end Veiled

/-- Runs a search on the graph: its answer, and the graph with the veil lifted. -/
def Graph.veiled {α : Type} (g : Graph) (search : Veiled α) : α × Graph :=
  let (answer, veil) := search.run { visible := g }
  (answer, veil.lift)

end ImportAtlas
