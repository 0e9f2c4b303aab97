import ImportAtlas.Proofs.SourceTree
import ImportAtlas.Scan
/-!
# Imports for type checking

Whether an import is for type checking only is settled by where it stands, and by nothing else: it is if
and only if its place is in an `if` statement that asks for `TYPE_CHECKING`.  An `elif` clause and a loop
are no such statement, whatever they ask for, and neither is an `if` with any other condition.

A scan that passes such imports over might as well have been given a source without them.  `unguarded`
deletes them from the tree and leaves the rest where it was, rows and all; what is left refers to just
what was not guarded (`references_unguarded`).

**The references of a source are those of its import statements in order, guarded by place, and leaving
out the guarded ones is scanning the source without them** (`references_of_source`).
-/
namespace ImportAtlas
namespace Python

/-! ## Deleting import statements -/

mutual

/-- A node without the import statements in it, if it is none itself. -/
def Node.bare? : Node → Option Node
  | .importing _ _ => none
  | .plain => some .plain
  | .compound construct condition children => some (.compound construct condition (bare children))
termination_by structural node => node

/-- Nodes without the import statements in them. -/
def bare : List Node → List Node
  | [] => []
  | node :: nodes => node.bare?.toList ++ bare nodes
termination_by structural nodes => nodes

end

mutual

/-- A node without the import statements that are guarded by it or by something in it. -/
def Node.unguarded : Node → Node
  | .compound construct condition children =>
    if (Node.compound construct condition children).IsGuard then
      .compound construct condition (bare children)
    else .compound construct condition (unguarded children)
  | node => node
termination_by structural node => node

/-- Nodes without the import statements that are guarded in them. -/
def unguarded : List Node → List Node
  | [] => []
  | node :: nodes => node.unguarded :: unguarded nodes
termination_by structural nodes => nodes

end

theorem references_append (guarded : Bool) (nodes more : List Node) :
    references guarded (nodes ++ more) = references guarded nodes ++ references guarded more := by
  induction nodes with
  | nil => rfl
  | cons node nodes ih => rw [List.cons_append, references, references, ih, List.append_assoc]

mutual

theorem references_bare? (guarded : Bool) : ∀ node : Node,
    references guarded node.bare?.toList = []
  | .importing _ _ => rfl
  | .plain => rfl
  | .compound construct condition children => by
    rw [Node.bare?, Option.toList_some, references, Node.references, references_bare, references,
      List.append_nil]

theorem references_bare (guarded : Bool) : ∀ nodes : List Node, references guarded (bare nodes) = []
  | [] => rfl
  | node :: nodes => by rw [bare, references_append, references_bare?, references_bare, List.append_nil]

end

mutual

/-- Below a guard everything is guarded. -/
theorem guarded_of_mem_node {r : Reference} : ∀ {node : Node}, r ∈ node.references true → r.guarded = true
  | .importing row clause, h => by
    obtain ⟨object, -, rfl⟩ := List.mem_map.1 h
    rfl
  | .plain, h => (List.not_mem_nil h).elim
  | .compound construct condition children, h => by
    rw [Node.references, Bool.true_or] at h
    exact guarded_of_mem_references h

theorem guarded_of_mem_references {r : Reference} : ∀ {nodes : List Node},
    r ∈ references true nodes → r.guarded = true
  | [], h => (List.not_mem_nil h).elim
  | node :: nodes, h => by
    rw [references, List.mem_append] at h
    exact h.elim guarded_of_mem_node guarded_of_mem_references

end

mutual

theorem node_references_unguarded : ∀ node : Node,
    node.unguarded.references false = (node.references false).filter (!·.guarded)
  | .importing row clause => by
    rw [Node.unguarded]
    · rw [Node.references, List.filter_map, List.filter_eq_self.2 (by simp)]
    · simp
  | .plain => rfl
  | .compound construct condition children => by
    rw [Node.unguarded]
    split
    · next hguard =>
      have hguards := Node.isGuard_compound_iff.1 hguard
      rw [Node.references, references_bare, Node.references, hguards, Bool.false_or, eq_comm,
        List.filter_eq_nil_iff]
      intro r hr
      simp [guarded_of_mem_references hr]
    · next hguard =>
      have hguards : guards construct condition = false :=
        Bool.eq_false_iff.2 (mt Node.isGuard_compound_iff.2 hguard)
      rw [Node.references, Node.references, hguards, Bool.false_or, references_unguarded]

/-- **What is left refers to what was not guarded.** -/
theorem references_unguarded : ∀ nodes : List Node,
    references false (unguarded nodes) = (references false nodes).filter (!·.guarded)
  | [] => rfl
  | node :: nodes => by
    rw [unguarded, references, references, List.filter_append, node_references_unguarded,
      references_unguarded]

end

/-! ## Scanning without them -/

/-- A scan that leaves guarded imports out finds what any scan finds without them. -/
theorem records_unguarded (context : ScanContext) (file : SourceFile) (text : List Char)
    (nodes : List Node) (excluding : Bool) :
    Scan.records { context with excludeTypeChecking := true } file text nodes =
      Scan.records { context with excludeTypeChecking := excluding } file text (unguarded nodes) := by
  have hcounts : (references false nodes).filter (Scan.counts { context with excludeTypeChecking := true }) =
      (references false (unguarded nodes)).filter
        (Scan.counts { context with excludeTypeChecking := excluding }) := by
    rw [references_unguarded, List.filter_filter]
    refine List.filter_congr fun r _ => ?_
    cases excluding <;> cases hguarded : r.guarded <;> simp [Scan.counts, hguarded]
  rw [Scan.records, Scan.records, hcounts]
  rfl

/-- **An import is for type checking if it stands in an `if` that asks for it.**  The references of a
source are those of its import statements, in the order of their places, one for each name that is taken
and one where everything is; they are guarded exactly if the place is.  And to leave out the guarded ones
is to scan the source without them, whether or not that scan would leave any out. -/
theorem references_of_source (nodes : List Node) :
    (∃ places : List (List Nat), places.Pairwise (· < ·) ∧
      (∀ place, place ∈ places ↔
        ∃ row clause, (Node.ofSource nodes).at? place = some (.importing row clause)) ∧
      references false nodes = places.flatMap (Node.ofSource nodes).referencesAt) ∧
    ∀ (context : ScanContext) (file : SourceFile) (text : List Char) (excluding : Bool),
      Scan.records { context with excludeTypeChecking := true } file text nodes =
        Scan.records { context with excludeTypeChecking := excluding } file text (unguarded nodes) :=
  ⟨⟨_, Node.pairwise_places _, fun _ => Node.mem_places, references_eq_flatMap nodes⟩,
    fun context file text excluding => records_unguarded context file text nodes excluding⟩

/-- Which conditions count, as they are written. -/
example : ((parse ("if t.TYPE_CHECKING:\n  import a\nelif b:\n  import c\n" ++
      "if d:\n  import e\nelif TYPE_CHECKING:\n  import f\nif (TYPE_CHECKING):\n  import g\n" ++
      "if not TYPE_CHECKING:\n  import h\nelse:\n  if TYPE_CHECKING:\n    import i\n")).toOption.map
    fun nodes => (references false nodes).map fun r => (r.path.text, r.guarded)) =
    some [("a", true), ("c", true), ("e", false), ("f", false), ("g", false), ("h", false), ("i", true)] := by
  decide +kernel

end Python
end ImportAtlas
