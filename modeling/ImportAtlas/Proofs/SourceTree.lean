import Mathlib.Data.List.Infix
import ImportAtlas.Python.Reference
import ImportAtlas.Python.Statement
/-!
# Where import statements stand

A place in a source is the row of numbers that leads down to a node: which of the statements at the top,
which of the statements in that one, and so on (`Node.at?`).  Places in lexicographic order are in the
order of the source.  What a statement refers to is told by the statement and by what is above its place
(`Node.referencesAt`, `Node.GuardedAt`), so an order of visiting nodes and a flag that is handed down are
no part of it.

**The references of a source are those of its import statements, place by place in order**
(`references_eq_flatMap`, `Node.mem_places`, `Node.pairwise_places`).
-/
namespace ImportAtlas
namespace Python

open Statement (childrenOf)

namespace Node

/-- A whole source as one node. -/
def ofSource (nodes : List Node) : Node := .compound .other none nodes

/-- The node at a place. -/
def at? : Node → List Nat → Option Node
  | node, [] => some node
  | node, i :: place => ((childrenOf node)[i]?).bind (·.at? place)

/-- An `if` statement that asks for `TYPE_CHECKING`, bare or as an attribute of anything. -/
def IsGuard : Node → Prop
  | .compound .ifStatement (some condition) _ =>
    condition = .name "TYPE_CHECKING" ∨ condition = .attribute "TYPE_CHECKING"
  | _ => False

/-- The place is in such a statement, in whatever branch and however deep. -/
def GuardedAt (tree : Node) (place : List Nat) : Prop :=
  ∃ above, above <+: place ∧ ∃ node, tree.at? above = some node ∧ node.IsGuard

variable {construct : Construct} {condition : Option Expr} {children : List Node} {node child tree : Node}
variable {i : Nat} {place : List Nat} {guarded : Bool}

theorem isGuard_condition_iff : ∀ {e : Expr},
    e.isGuard = true ↔ e = .name "TYPE_CHECKING" ∨ e = .attribute "TYPE_CHECKING"
  | .name id => decide_eq_true_iff.trans (by simp [guardName])
  | .attribute id => decide_eq_true_iff.trans (by simp [guardName])
  | .place => by simp [Expr.isGuard]
  | .other => by simp [Expr.isGuard]

theorem isGuard_compound_iff :
    (compound construct condition children).IsGuard ↔ guards construct condition = true := by
  cases construct with
  | ifStatement =>
    cases condition with
    | none => simp [IsGuard, guards]
    | some e => simp [IsGuard, guards, isGuard_condition_iff]
  | elifClause => simp [IsGuard, guards]
  | whileLoop => simp [IsGuard, guards]
  | other => simp [IsGuard, guards]

instance : (node : Node) → Decidable node.IsGuard
  | .importing _ _ => .isFalse id
  | .plain => .isFalse id
  | .compound _ _ _ => decidable_of_iff _ isGuard_compound_iff.symm

instance (tree : Node) (place : List Nat) : Decidable (tree.GuardedAt place) :=
  decidable_of_iff (∃ above ∈ place.inits, (tree.at? above).any (fun node => node.IsGuard) = true) <| by
    simp only [GuardedAt, List.mem_inits, Option.any_eq_true, decide_eq_true_eq]

theorem at?_compound_cons : (compound construct condition children).at? (i :: place) = some node ↔
    ∃ child, children[i]? = some child ∧ child.at? place = some node := by
  rw [at?, childrenOf, Option.bind_eq_some_iff]

theorem guardedAt_nil : tree.GuardedAt [] ↔ tree.IsGuard := by
  simp [GuardedAt, at?]

theorem guardedAt_cons (hchild : (childrenOf tree)[i]? = some child) :
    tree.GuardedAt (i :: place) ↔ tree.IsGuard ∨ child.GuardedAt place := by
  constructor
  · rintro ⟨above, hprefix, node, hnode, hguard⟩
    cases above with
    | nil =>
      obtain rfl := Option.some.inj hnode
      exact .inl hguard
    | cons j above =>
      obtain ⟨rfl, hbelow⟩ := List.cons_prefix_cons.1 hprefix
      rw [at?, hchild, Option.bind_some] at hnode
      exact .inr ⟨above, hbelow, node, hnode, hguard⟩
  · rintro (hguard | ⟨above, hprefix, node, hnode, hguard⟩)
    · exact ⟨[], List.nil_prefix, tree, rfl, hguard⟩
    · refine ⟨i :: above, List.cons_prefix_cons.2 ⟨rfl, hprefix⟩, node, ?_, hguard⟩
      rw [at?, hchild, Option.bind_some, hnode]

/-! ## Places -/

mutual

/-- Where the import statements of a node stand. -/
def places : Node → List (List Nat)
  | .importing _ _ => [[]]
  | .plain => []
  | .compound _ _ children => placesFrom 0 children
termination_by structural node => node

/-- Where the import statements of a row of nodes stand, the first of which is child `i`. -/
def placesFrom (i : Nat) : List Node → List (List Nat)
  | [] => []
  | node :: nodes => node.places.map (i :: ·) ++ placesFrom (i + 1) nodes
termination_by structural nodes => nodes

end

theorem mem_placesFrom {nodes : List Node} : place ∈ placesFrom i nodes ↔
    ∃ k node rest, nodes[k]? = some node ∧ rest ∈ node.places ∧ place = (i + k) :: rest := by
  induction nodes generalizing i with
  | nil => simp [placesFrom]
  | cons first nodes ih =>
    rw [placesFrom, List.mem_append, List.mem_map, ih]
    constructor
    · rintro (⟨rest, hrest, rfl⟩ | ⟨k, node, rest, hnode, hrest, rfl⟩)
      · exact ⟨0, first, rest, rfl, hrest, rfl⟩
      · exact ⟨k + 1, node, rest, hnode, hrest, by rw [Nat.add_assoc, Nat.add_comm 1]⟩
    · rintro ⟨k, node, rest, hnode, hrest, rfl⟩
      cases k with
      | zero =>
        obtain rfl := Option.some.inj hnode
        exact .inl ⟨rest, hrest, rfl⟩
      | succ k => exact .inr ⟨k, node, rest, hnode, hrest, by rw [Nat.add_assoc, Nat.add_comm 1]⟩

/-- **The places are those of the import statements.** -/
theorem mem_places : place ∈ node.places ↔ ∃ row clause, node.at? place = some (.importing row clause) := by
  induction place generalizing node with
  | nil =>
    cases node with
    | importing row clause => simp [places, at?]
    | plain => simp [places, at?]
    | compound construct condition children => simp [places, at?, mem_placesFrom]
  | cons i place ih =>
    cases node with
    | importing row clause => simp [places, at?, childrenOf]
    | plain => simp [places, at?, childrenOf]
    | compound construct condition children =>
      simp only [places, mem_placesFrom, at?_compound_cons, Nat.zero_add, List.cons.injEq]
      constructor
      · rintro ⟨k, child, rest, hchild, hrest, rfl, rfl⟩
        obtain ⟨row, clause, hat⟩ := ih.1 hrest
        exact ⟨row, clause, child, hchild, hat⟩
      · rintro ⟨row, clause, child, hchild, hat⟩
        exact ⟨i, child, place, hchild, ih.2 ⟨row, clause, hat⟩, rfl, rfl⟩

mutual

/-- **They come in the order of the source.** -/
theorem pairwise_places : ∀ node : Node, node.places.Pairwise (· < ·)
  | .importing _ _ => List.pairwise_singleton _ _
  | .plain => .nil
  | .compound _ _ children => pairwise_placesFrom 0 children

theorem pairwise_placesFrom (i : Nat) : ∀ nodes : List Node, (placesFrom i nodes).Pairwise (· < ·)
  | [] => .nil
  | node :: nodes => by
    rw [placesFrom, List.pairwise_append, List.pairwise_map]
    refine ⟨(pairwise_places node).imp fun hlt => List.cons_lt_cons_iff.2 (.inr ⟨rfl, hlt⟩),
      pairwise_placesFrom (i + 1) nodes, fun place hplace place' hplace' => ?_⟩
    -- across nodes, the places differ in their first number
    obtain ⟨rest, -, rfl⟩ := List.mem_map.1 hplace
    obtain ⟨k, -, rest', -, -, rfl⟩ := mem_placesFrom.1 hplace'
    exact List.cons_lt_cons_iff.2 (.inl (by omega))

end

end Node

/-! ## References -/

variable {tree child : Node} {i : Nat} {place : List Nat} {row : Nat} {clause : ImportClause}

/-- What the import statement at a place refers to: the names it takes, or everything in what it takes
from. -/
def Node.referencesAt (tree : Node) (place : List Nat) : List Reference :=
  let guarded := decide (tree.GuardedAt place)
  match tree.at? place with
  | some (.importing row (.modules names)) => names.map fun m => ⟨0, m.name, row, guarded⟩
  | some (.importing row (.members source .everything)) => [⟨source.dots, source.path star, row, guarded⟩]
  | some (.importing row (.members source (.names names))) =>
    names.map fun m => ⟨source.dots, source.path m.name, row, guarded⟩
  | _ => []

/-- The reference as it is if what is around it is guarded. -/
def Reference.within (guarded : Bool) (r : Reference) : Reference :=
  { r with guarded := guarded || r.guarded }

theorem Reference.within_false : Reference.within false = id := rfl

theorem referencesAt_of_importing (h : tree.at? place = some (.importing row clause)) :
    tree.referencesAt place =
      clause.objects.map fun (dots, path) => ⟨dots, path, row, decide (tree.GuardedAt place)⟩ := by
  unfold Node.referencesAt
  cases clause with
  | modules names => simp [h, ImportClause.objects]
  | members source selection => cases selection <;> simp [h, ImportClause.objects, Selection.objects]

/-- Seen from one node up, a reference is in that node too. -/
theorem referencesAt_cons (hchild : (childrenOf tree)[i]? = some child) (hplace : place ∈ child.places) :
    tree.referencesAt (i :: place) = (child.referencesAt place).map (.within (decide tree.IsGuard)) := by
  obtain ⟨row, clause, hat⟩ := Node.mem_places.1 hplace
  have hat' : tree.at? (i :: place) = some (.importing row clause) := by
    rw [Node.at?, hchild, Option.bind_some, hat]
  have hguard : decide (tree.GuardedAt (i :: place)) =
      (decide tree.IsGuard || decide (child.GuardedAt place)) := by
    rw [← Bool.decide_or, decide_eq_decide, Node.guardedAt_cons hchild]
  rw [referencesAt_of_importing hat', referencesAt_of_importing hat, List.map_map, hguard]
  rfl

mutual

theorem node_references_eq : ∀ (node : Node) (guarded : Bool), node.references guarded =
    node.places.flatMap fun place => (node.referencesAt place).map (.within guarded)
  | .importing row clause, guarded => by
    have hopen : ¬ (Node.importing row clause).GuardedAt [] := Node.guardedAt_nil.not.2 id
    rw [Node.references, Node.places, List.flatMap_singleton, referencesAt_of_importing rfl, List.map_map,
      decide_eq_false hopen]
    simp [Reference.within, Function.comp_def]
  | .plain, guarded => rfl
  | .compound construct condition children, guarded => by
    rw [Node.references, Node.places]
    refine references_eq_flatMap_placesFrom children 0 _ _ fun k child hchild place hplace => ?_
    have hguard : decide (Node.compound construct condition children).IsGuard =
        guards construct condition := by
      simp only [Node.isGuard_compound_iff, Bool.decide_eq_true]
    rw [Nat.zero_add, referencesAt_cons hchild hplace, List.map_map, hguard]
    refine List.map_congr_left fun r _ => ?_
    simp [Reference.within, Bool.or_assoc]

/-- What a row of nodes refers to is told by their places, whatever the nodes are numbered from. -/
theorem references_eq_flatMap_placesFrom : ∀ (nodes : List Node) (i : Nat) (guarded : Bool)
    (found : List Nat → List Reference), (∀ k node, nodes[k]? = some node → ∀ place ∈ node.places,
      found ((i + k) :: place) = (node.referencesAt place).map (.within guarded)) →
    references guarded nodes = (Node.placesFrom i nodes).flatMap found
  | [], i, guarded, found, _ => rfl
  | node :: nodes, i, guarded, found, h => by
    rw [references, Node.placesFrom, List.flatMap_append, List.flatMap_map, node_references_eq node]
    congr 1
    · refine List.flatMap_congr fun place hplace => ?_
      exact (h 0 node rfl place hplace).symm
    · refine references_eq_flatMap_placesFrom nodes (i + 1) guarded found fun k node hnode place hplace => ?_
      rw [Nat.add_assoc, Nat.add_comm 1]
      exact h (k + 1) node hnode place hplace

end

/-- **The references of a source are those of its import statements**, in the order of their places. -/
theorem references_eq_flatMap (nodes : List Node) : references false nodes =
    (Node.ofSource nodes).places.flatMap (Node.ofSource nodes).referencesAt := by
  have h := node_references_eq (.ofSource nodes) false
  simpa [Node.ofSource, Node.references, guards, Reference.within_false] using h

end Python
end ImportAtlas
