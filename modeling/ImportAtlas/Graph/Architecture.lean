import ImportAtlas.Layer
import ImportAtlas.Graph.Reach
/-!
# Illegal dependencies between layers

For every pair of layer modules that may not import one another, look for the ways the one reaches
the other all the same.  An import between the two packages is a route of its own.  A longer route
is found by its middle, the modules outside both packages; many members may share the middle, so a
route has a set of heads, one middle, and a set of tails.

Longer routes are found one by one: take the least shortest chain, note its middle, and hide all
that the route consists of, from any head to any tail.  A longer chain that shares a hop with a
shorter one goes out of sight with it, so the routes of a dependency have no import in common, and
**taking away the imports of all routes takes away the dependency**.  Heads and tails are read off
the whole graph afterwards.
-/
namespace ImportAtlas

@[ext]
structure Route where
  heads : List ModuleName
  middle : List ModuleName
  tails : List ModuleName
deriving DecidableEq

namespace Route

instance : Ord Route := ⟨compareLex (compareOn heads) (compareLex (compareOn middle) (compareOn tails))⟩

instance : Std.TransOrd Route :=
  inferInstanceAs (Std.TransCmp
    (compareLex (compareOn heads) (compareLex (compareOn middle) (compareOn tails))))

instance : Std.LawfulEqOrd Route := ⟨eq_of_compareLex fun _ _ => Route.ext⟩

/-- The imports that a route consists of. -/
def imports (r : Route) : List Import :=
  match r.middle.head?, r.middle.getLast? with
  | some first, some last =>
    r.heads.map (⟨·, first⟩) ++ List.zipWith Import.mk r.middle r.middle.tail ++
      r.tails.map (⟨last, ·⟩)
  | _, _ => r.heads.flatMap fun h => r.tails.map (⟨h, ·⟩)

/-- The route of a single import. -/
def direct (i : Import) : Route := ⟨[i.importer], [], [i.imported]⟩

end Route

/-- An import that layers forbid, with the routes it takes. -/
@[ext]
structure Dependency where
  importer : ModuleName
  imported : ModuleName
  routes : List Route
deriving DecidableEq

namespace Dependency

instance : Ord Dependency :=
  ⟨compareLex (compareOn importer) (compareLex (compareOn imported) (compareOn routes))⟩

instance : Std.TransOrd Dependency :=
  inferInstanceAs (Std.TransCmp
    (compareLex (compareOn importer) (compareLex (compareOn imported) (compareOn routes))))

instance : Std.LawfulEqOrd Dependency := ⟨eq_of_compareLex fun _ _ => Dependency.ext⟩

end Dependency

namespace Graph

/-- The imports from one package into another. -/
def crossings (imports : List Import) (heads tails : NameSet) : List Import :=
  imports.filter fun i => heads.contains i.importer && tails.contains i.imported

theorem mem_crossings {imports : List Import} {heads tails : NameSet} {i : Import} :
    i ∈ crossings imports heads tails ↔
      i ∈ imports ∧ i.importer ∈ heads ∧ i.imported ∈ tails := by
  simp [crossings, Std.ExtTreeSet.contains_iff_mem]

/-- The interior of a chain. -/
def middleOf (chain : Chain) : List ModuleName := chain.tail.dropLast

/-- Pops middles off the shortest chains until no chain is left or the rounds are used up.  A chain
without a middle ends the search. -/
def popMiddles (heads tails : NameSet) : Nat → Veiled (List (List ModuleName))
  | 0 => return []
  | rounds + 1 => do
    match leastChain? (← Veiled.imports) heads tails with
    | none => return []
    | some chain =>
      match middleOf chain with
      | [] => return []
      | middle =>
        Veiled.hide (Route.imports ⟨heads.toList, middle, tails.toList⟩)
        return middle :: (← popMiddles heads tails rounds)

/-- The middles of the routes from `heads` to `tails` that pass through no module of `avoided` and
are no single import.  Each round hides an import, so there are never more rounds than imports. -/
def searchMiddles (heads tails : NameSet) (avoided : List ModuleName) :
    Veiled (List (List ModuleName)) := do
  let all ← Veiled.imports
  Veiled.hide (crossings all heads tails ++ avoided.flatMap (importsTouching all))
  popMiddles heads tails (← Veiled.imports).length

/-- The route with the given middle: all heads and tails that the graph has for it. -/
def routeThrough (g : Graph) (heads tails : NameSet) (middle : List ModuleName) : Option Route :=
  match middle.head?, middle.getLast? with
  | some first, some last => some
    { heads := heads.toList.filter (g.predecessors first).contains
      middle
      tails := tails.toList.filter (g.successors last).contains }
  | _, _ => none

/-- The dependency of one module on another around the avoided ones, and the graph after the
search. -/
def dependencyAfter (g : Graph) (i : Import) (avoided : List ModuleName) :
    Option Dependency × Graph :=
  let heads := g.closure i.importer
  let tails := g.closure i.imported
  let direct := (crossings g.importList heads tails).map Route.direct
  let members := (avoided.filter (· ∈ g.modules)).flatMap fun m => (g.closure m).toList
  let (middles, after) := g.veiled (searchMiddles heads tails members)
  let routes := Std.ExtTreeSet.ofList (direct ++ middles.filterMap (after.routeThrough heads tails))
  if routes.isEmpty then (none, after) else (some ⟨i.importer, i.imported, routes.toList⟩, after)

/-- The dependencies on a list of pairs, one search after the other on the same graph. -/
def dependenciesAfter (levels : List Level) : List Import → Graph → List Dependency × Graph
  | [], g => ([], g)
  | i :: pairs, g =>
    if i.importer ∈ g.modules ∧ i.imported ∈ g.modules then
      let (found, g) := g.dependencyAfter i (Level.excluded levels i)
      let (more, g) := dependenciesAfter levels pairs g
      (found.toList ++ more, g)
    else dependenciesAfter levels pairs g

/-- The containers by name, or the first that is missing. -/
def containers (g : Graph) : List String → Except Error NameSet
  | [] => .ok ∅
  | name :: names => match g.present name with
    | .ok m => return (← g.containers names).insert m
    | .error _ => .error (.noSuchContainer name)

/-- The readings of the layers: one for each container, or a single absolute one. -/
def readings (containers : NameSet) : List (Option ModuleName) :=
  if containers.isEmpty then [none] else containers.toList.map some

def searchReadings (layers : List Layer) :
    List (Option ModuleName) → Graph → Except Error (List Dependency) × Graph
  | [], g => (.ok [], g)
  | container :: rest, g =>
    match layers.mapM (·.within container) with
    | .error e => (.error e, g)
    | .ok levels =>
      let (found, g) := dependenciesAfter levels (Level.illegalPairs levels) g
      let (more, g) := searchReadings layers rest g
      (more.map (found ++ ·), g)

/-- The illegal dependencies, and the graph after the search. -/
def illegalDependenciesAfter (g : Graph) (layers : List Layer) (names : List String) :
    Except Error (Std.ExtTreeSet Dependency) × Graph :=
  match g.containers names with
  | .error e => (.error e, g)
  | .ok containers =>
    let (found, after) := searchReadings layers (readings containers) g
    (found.map (Std.ExtTreeSet.ofList ·), after)

/-- **Which layers import what they may not, and how.** -/
def illegalDependencies (g : Graph) (layers : List Layer) (names : List String) :
    Except Error (Std.ExtTreeSet Dependency) :=
  (g.illegalDependenciesAfter layers names).1

end Graph
end ImportAtlas
