import ImportAtlas.Import
/-!
# Rings around a set of modules

Every search in the library asks how far modules are from a set of goals, counted in imports.  The
answer is laid out as rings: the goals themselves, then the modules that import a goal, then the
modules that import one of those, and so on, each module in the first ring it belongs to.

A ring is found by using imports up.  Once a module is in a ring, the imports it makes can only
lead to a ring no nearer than the one it is in, so they are dropped, and the next ring is read off
what is left.  Each round that finds anything drops at least one import, which is why the search
ends.

Chains are then walked inward, one ring per import.  Every module of a ring has an import into the
next ring inward, so a walk never gets stuck, and taking the least name each time gives the least
of all shortest chains.
-/
namespace ImportAtlas

/-- Modules in a row, each importing the next. -/
abbrev Chain := List ModuleName

namespace Rings

def importsInto (imports : List Import) (inner : NameSet) : List Import :=
  imports.filter fun i => inner.contains i.imported

/-- The modules that import a member of `inner`. -/
def next (imports : List Import) (inner : NameSet) : NameSet :=
  .ofList ((importsInto imports inner).map (·.importer))

/-- The imports that no member of `ring` makes. -/
def beyond (imports : List Import) (ring : NameSet) : List Import :=
  imports.filter fun i => !ring.contains i.importer

theorem length_beyond_next_lt {imports : List Import} {inner : NameSet}
    (h : importsInto imports inner ≠ []) :
    (beyond imports (next imports inner)).length < imports.length := by
  obtain ⟨i, hi⟩ := List.exists_mem_of_ne_nil _ h
  refine List.length_filter_lt_length_iff_exists.2 ⟨i, (List.mem_filter.1 hi).1, ?_⟩
  have : i.importer ∈ (importsInto imports inner).map (·.importer) :=
    List.mem_map.2 ⟨i, hi, rfl⟩
  simp [next, this]

/-- `inner` and the rings outside it, among imports that no member of `inner` makes. -/
def outward (imports : List Import) (inner : NameSet) : List NameSet :=
  if _h : importsInto imports inner = [] then [inner]
  else inner :: outward (beyond imports (next imports inner)) (next imports inner)
termination_by imports.length
decreasing_by exact length_beyond_next_lt ‹_›

/-- The goals, and outside them the modules at each distance from them, nearest first. -/
def around (imports : List Import) (goals : NameSet) : List NameSet :=
  outward (beyond imports goals) goals

/-- Every chain from `m` inward, one module from each ring, outermost ring first. -/
def descents (imports : List Import) (m : ModuleName) : List NameSet → List Chain
  | [] => [[m]]
  | ring :: inward =>
    (imports.filter fun i => i.importer = m ∧ ring.contains i.imported).flatMap fun i =>
      (descents imports i.imported inward).map (m :: ·)

/-- The least chain from `m` inward: the first import into each ring. -/
def descent? (imports : List Import) (m : ModuleName) : List NameSet → Option Chain
  | [] => some [m]
  | ring :: inward =>
    (imports.find? fun i => i.importer = m ∧ ring.contains i.imported).bind fun i =>
      (descent? imports i.imported inward).map (m :: ·)

/-- The rings inside the one that holds `m`, outermost first; `none` if no ring does. -/
def inwardOf? (m : ModuleName) : List NameSet → List NameSet → Option (List NameSet)
  | [], _ => none
  | ring :: outward, inward =>
    if ring.contains m then some inward else inwardOf? m outward (ring :: inward)

/-- The first nonempty answer over longer and longer walks inward. -/
def nearest? (walk : List NameSet → Option Chain) :
    List NameSet → List NameSet → Option Chain
  | [], _ => none
  | ring :: outward, inward =>
    match walk (ring :: inward) with
    | some chain => some chain
    | none => nearest? walk outward (ring :: inward)

end Rings

open Rings

/-- The modules outside `goals` from which a walk of imports leads into `goals`. -/
def reaching (imports : List Import) (goals : NameSet) : NameSet :=
  .ofList ((around imports goals).tail.flatMap (·.toList))

/-- **One shortest chain from a source to a goal, and of those the least by name.**  A chain makes
at least one import, so a module reaches itself only around a cycle. -/
def leastChain? (imports : List Import) (sources goals : NameSet) : Option Chain :=
  nearest? (fun inward => sources.toList.findSome? fun s => descent? imports s inward)
    (around imports goals) []

/-- Every shortest chain from `source` to `goal`; none when they are the same module. -/
def shortestChainsBetween (imports : List Import) (source goal : ModuleName) : List Chain :=
  if source = goal then []
  else match inwardOf? source (around imports (.ofList [goal])) [] with
    | some inward => descents imports source inward
    | none => []

end ImportAtlas
