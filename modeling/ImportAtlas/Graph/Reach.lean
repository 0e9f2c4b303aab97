import ImportAtlas.Graph.Hierarchy
import ImportAtlas.Graph.Rings
import ImportAtlas.Graph.Veil
/-!
# Reach and chains

What imports a module through others, what it imports through others, and by which chains.  Any of
these can be asked about packages, in which case every member of the package may start or end a
chain; the members themselves are never part of the answer about reach.

Between two packages there are two questions.  `shortestChain` wants one chain, the least of the
shortest.  `shortestChains` wants, **for each pair of members, all shortest chains that stay outside
both packages in between**, so that a short chain through one member does not cover up a longer one
that starts at another.  The imports at members other than the pair in question are out of sight
while that pair is searched.
-/
namespace ImportAtlas
namespace Graph

/-- The modules that import `name`, directly or through others. -/
def allImportersOf (g : Graph) (name : String) (asPackage : Bool) : Except Error NameSet := do
  let m ← g.present name
  return reaching g.importList (g.extent asPackage m)

/-- The modules that `name` imports, directly or through others. -/
def allImportedBy (g : Graph) (name : String) (asPackage : Bool) : Except Error NameSet := do
  let m ← g.present name
  return reaching (g.importList.map (·.flip)) (g.extent asPackage m)

def shortestChain (g : Graph) (importer imported : String) (asPackages : Bool) :
    Except Error (Option Chain) := do
  let a ← g.present importer
  let b ← g.present imported
  if asPackages then
    disjoint a b
  return leastChain? g.importList (g.extent asPackages a) (g.extent asPackages b)

def chainExists (g : Graph) (importer imported : String) (asPackages : Bool) :
    Except Error Bool := do
  return (← g.shortestChain importer imported asPackages).isSome

/-! ## All shortest chains -/

/-- The imports between members of one set. -/
def importsWithin (imports : List Import) (members : NameSet) : List Import :=
  imports.filter fun i => members.contains i.importer && members.contains i.imported

def importsTouching (imports : List Import) (m : ModuleName) : List Import :=
  imports.filter (·.Touches m)

theorem mem_importsWithin {imports : List Import} {members : NameSet} {i : Import} :
    i ∈ importsWithin imports members ↔
      i ∈ imports ∧ i.importer ∈ members ∧ i.imported ∈ members := by
  simp [importsWithin, Std.ExtTreeSet.contains_iff_mem]

theorem mem_importsTouching {imports : List Import} {m : ModuleName} {i : Import} :
    i ∈ importsTouching imports m ↔ i ∈ imports ∧ i.Touches m := by
  simp [importsTouching]

/-- Searches each pair with only that pair's imports in sight, of all imports at members.  A member
is put back out of sight when its turn is over. -/
def searchPairs (touching : ModuleName → List Import) (sources goals : List ModuleName) :
    Veiled (List Chain) := do
  let found ← goals.mapM fun goal => do
    Veiled.reveal (touching goal)
    let found ← sources.mapM fun source => do
      Veiled.reveal (touching source)
      let chains := shortestChainsBetween (← Veiled.imports) source goal
      Veiled.hide (touching source)
      return chains
    Veiled.hide (touching goal)
    return found.flatten
  return found.flatten

/-- Imports inside either package stay hidden throughout: a chain leaves the one package once and
enters the other once. -/
def searchChains (sources goals : NameSet) : Veiled (List Chain) := do
  let all ← Veiled.imports
  if (leastChain? all sources goals).isNone then
    return []
  Veiled.hide (importsWithin all sources ++ importsWithin all goals)
  let crossing ← Veiled.imports
  for m in sources.toList ++ goals.toList do
    Veiled.hide (importsTouching crossing m)
  searchPairs (importsTouching crossing) sources.toList goals.toList

/-- The chains, and the graph after the search. -/
def shortestChainsAfter (g : Graph) (importer imported : String) (asPackages : Bool) :
    Except Error (Std.ExtTreeSet Chain) × Graph :=
  let pair : Except Error (ModuleName × ModuleName) := do
    let a ← g.present importer
    let b ← g.present imported
    if asPackages then
      disjoint a b
    else if a = b then
      throw (.sharedDescendants importer imported)
    return (a, b)
  match pair with
  | .error e => (.error e, g)
  | .ok (a, b) =>
    let (chains, after) :=
      g.veiled (searchChains (g.extent asPackages a) (g.extent asPackages b))
    (.ok (.ofList chains), after)

def shortestChains (g : Graph) (importer imported : String) (asPackages : Bool) :
    Except Error (Std.ExtTreeSet Chain) :=
  (g.shortestChainsAfter importer imported asPackages).1

/-- Every simple chain was once an answer; there are too many of them. -/
def allSimpleChains (_ : Graph) (_importer _imported : String) : Except Error (List Chain) :=
  .error (.unsupported "find_all_simple_chains" "find_shortest_chains")

end Graph
end ImportAtlas
