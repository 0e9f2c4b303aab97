import ImportAtlas.Graph.Hierarchy
/-!
# Breaking cycles between children

Which imports to give up so that the children of a package no longer depend on each other in a
circle.  Put the children in an order and give up the imports that point backwards in it; the order
is found greedily, so that little points backwards.

The order is built from both ends.  A child that imports none of those left may go last, one that
none of those left imports may go first, and where there is neither, the child goes first whose
imports out of it outnumber the imports into it the most.  The first such child, in the order given,
is taken every time.
-/
namespace ImportAtlas

section Greedy

variable {α : Type} [DecidableEq α]

/-- How much goes from `a` to the others that are left. -/
def weightOut (weight : α → α → Nat) (left : List α) (a : α) : Nat :=
  (left.map (weight a ·)).foldr (· + ·) 0

/-- How much comes to `a` from the others that are left. -/
def weightIn (weight : α → α → Nat) (left : List α) (a : α) : Nat :=
  (left.map (weight · a)).foldr (· + ·) 0

/-- The first element of `a :: rest` at which `value` is greatest. -/
def firstGreatest (value : α → Int) : α → List α → α
  | a, [] => a
  | a, b :: rest => if value b ≤ value a then firstGreatest value a rest else firstGreatest value b rest

/-- Orders `n` elements that are left. -/
def greedyOrderOf (weight : α → α → Nat) : Nat → List α → List α
  | 0, _ => []
  | _, [] => []
  | n + 1, a :: rest =>
    let left := a :: rest
    match left.find? (weightOut weight left · = 0) with
    | some sink => greedyOrderOf weight n (left.erase sink) ++ [sink]
    | none => match left.find? (weightIn weight left · = 0) with
      | some source => source :: greedyOrderOf weight n (left.erase source)
      | none =>
        let best := firstGreatest
          (fun b => (weightOut weight left b : Int) - weightIn weight left b) a rest
        best :: greedyOrderOf weight n (left.erase best)

/-- An order of the elements in which little weight points backwards. -/
def greedyOrder (weight : α → α → Nat) (elements : List α) : List α :=
  greedyOrderOf weight elements.length elements

end Greedy

namespace Graph

/-- The imports between the packages of different children, each after the pair of children it
joins. -/
def importsAmong (g : Graph) (children : List ModuleName) : List (Import × Import) :=
  let owners : Std.ExtTreeMap ModuleName ModuleName :=
    .ofList (children.flatMap fun c => (g.closure c).toList.map (·, c))
  g.importList.filterMap fun i =>
    match owners[i.importer]?, owners[i.imported]? with
    | some a, some b => if a = b then none else some (⟨a, b⟩, i)
    | _, _ => none

/-- How many imports join each pair of children. -/
def weights (imports : List (Import × Import)) : Std.ExtTreeMap Import Nat :=
  imports.foldl (fun table i => table.insert i.1 ((table[i.1]?).getD 0 + 1)) ∅

/-- The imports between children that point backwards in an order of them. -/
def backward (order : List ModuleName) (imports : List (Import × Import)) : List Import :=
  (imports.filter fun i => order.idxOf i.1.imported < order.idxOf i.1.importer).map (·.2)

/-- The imports to give up so that the children of the package are in no cycle. -/
def cycleBreakers (g : Graph) (name : String) : Except Error (Std.ExtTreeSet Import) := do
  let p ← g.present name
  if g.isSquashed p then
    return ∅
  let children := (g.childrenOf p).toList
  let imports := g.importsAmong children
  let table := weights imports
  let order := greedyOrder (fun a b => (table[(⟨a, b⟩ : Import)]?).getD 0) children
  return .ofList (backward order imports)

end Graph
end ImportAtlas
