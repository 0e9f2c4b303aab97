import Mathlib.Algebra.BigOperators.Group.Multiset.Basic
import Mathlib.Algebra.Order.BigOperators.Group.List
import Mathlib.Algebra.Order.Ring.Nat
import Mathlib.Data.Fintype.Card
import Mathlib.Data.Fintype.EquivFin
import Mathlib.Data.Fintype.Sets
import Mathlib.Logic.Relation
import Mathlib.Order.WellFounded
import ImportAtlas.Graph.Cycle
/-!
# Greedy orders

What the order of `greedyOrder` has to do with cycles, for weights between elements of any kind.  One
step takes an element out of those left and puts it at one end of the order (`greedyOrderOf_cases`).
It goes to the back only if nothing goes from it to the others left, and to the front only if there
is no such element; then it gives the others at least as much as it takes from them, since on average
all do (`exists_weightIn_le`).

So the order is an order of the elements (`perm_greedyOrder`), and **if the weights are in no cycle,
places grow along them** (`Acyclic.idxOf_lt`): elements in no cycle always leave one that may go last,
and all of them are placed from the back.  That any places which grow along the weights rule out
cycles is true of every order (`acyclic_of_lt`).
-/
namespace ImportAtlas

/-- Nothing leads back to where it started. -/
def Acyclic {α : Type} (r : α → α → Prop) : Prop := ∀ a, ¬ Relation.TransGen r a a

section Relations

variable {α : Type} {r s : α → α → Prop}

theorem Acyclic.mono (h : Acyclic s) (hrs : ∀ a b, r a b → s a b) : Acyclic r :=
  fun a ha => h a (Relation.TransGen.mono hrs a a ha)

theorem acyclic_of_lt (place : α → Nat) (h : ∀ a b, r a b → place a < place b) : Acyclic r := by
  have hlt : ∀ {a b}, Relation.TransGen r a b → place a < place b := fun hab => by
    induction hab with
    | single hab => exact h _ _ hab
    | tail _ hbc ih => exact ih.trans (h _ _ hbc)
  exact fun a ha => Nat.lt_irrefl _ (hlt ha)

/-- Of some elements in no cycle one leads to no other. -/
theorem Acyclic.exists_last [DecidableEq α] (h : Acyclic r) {left : List α} (hne : left ≠ []) :
    ∃ x ∈ left, ∀ b ∈ left, ¬ r x b := by
  let back : { x // x ∈ left } → { x // x ∈ left } → Prop := fun a b => Relation.TransGen r b a
  have : IsTrans _ back := ⟨fun _ _ _ hab hbc => hbc.trans hab⟩
  have : Std.Irrefl back := ⟨fun a => h a⟩
  have hwf : WellFounded back := Finite.wellFounded_of_trans_of_irrefl back
  obtain ⟨a, ha⟩ := List.exists_mem_of_ne_nil left hne
  obtain ⟨⟨x, hx⟩, -, hmin⟩ := hwf.has_min Set.univ ⟨⟨a, ha⟩, trivial⟩
  exact ⟨x, hx, fun b hb hxb => hmin ⟨b, hb⟩ trivial (.single hxb)⟩

end Relations

section Orders

variable {α : Type} {weight : α → α → Nat} {left : List α} {a b : α}

/-- Some weight goes from the one to the other. -/
def Heavy (weight : α → α → Nat) (a b : α) : Prop := weight a b ≠ 0

/-- Nothing goes from `a` to those that are left. -/
def MayGoLast (weight : α → α → Nat) (left : List α) (a : α) : Prop := ∀ b ∈ left, weight a b = 0

theorem weightOut_eq_zero_iff : weightOut weight left a = 0 ↔ MayGoLast weight left a := by
  unfold weightOut MayGoLast
  induction left with
  | nil => simp
  | cons b left ih =>
    rw [List.map_cons, List.foldr_cons, Nat.add_eq_zero_iff, ih, List.forall_mem_cons]

theorem firstGreatest_mem (value : α → Int) : ∀ (a : α) (rest : List α),
    firstGreatest value a rest ∈ a :: rest
  | a, [] => List.mem_singleton.2 rfl
  | a, b :: rest => by
    rw [firstGreatest]
    split
    · have h := firstGreatest_mem value a rest
      rcases List.mem_cons.1 h with h | h
      · exact List.mem_cons.2 (.inl h)
      · exact List.mem_cons_of_mem _ (List.mem_cons_of_mem _ h)
    · exact List.mem_cons_of_mem _ (firstGreatest_mem value b rest)

theorem le_firstGreatest (value : α → Int) : ∀ (a : α) (rest : List α), ∀ b ∈ a :: rest,
    value b ≤ value (firstGreatest value a rest)
  | a, [], b, hb => by
    rw [List.mem_singleton.1 hb, firstGreatest]
  | a, c :: rest, b, hb => by
    rw [firstGreatest]
    split
    · next hle =>
      have hgreatest := le_firstGreatest value a rest
      rcases List.mem_cons.1 hb with rfl | hb
      · exact hgreatest b List.mem_cons_self
      · rcases List.mem_cons.1 hb with rfl | hb
        · exact hle.trans (hgreatest a List.mem_cons_self)
        · exact hgreatest b (List.mem_cons_of_mem _ hb)
    · next hlt =>
      have hgreatest := le_firstGreatest value c rest
      rcases List.mem_cons.1 hb with rfl | hb
      · exact (Int.le_of_lt (Int.not_le.1 hlt)).trans (hgreatest c List.mem_cons_self)
      · exact hgreatest b hb

/-- What goes out of the elements that are left is what comes into them. -/
theorem sum_weightOut (weight : α → α → Nat) (left : List α) :
    (left.map (weightOut weight left)).sum = (left.map (weightIn weight left)).sum := by
  have hswap := Multiset.sum_map_sum_map (left : Multiset α) (left : Multiset α) (f := weight)
  simp only [Multiset.map_coe, Multiset.sum_coe] at hswap
  exact hswap

/-- **Of the elements that are left one gives at least as much as it takes**: on average they do. -/
theorem exists_weightIn_le (weight : α → α → Nat) (hne : left ≠ []) :
    ∃ x ∈ left, weightIn weight left x ≤ weightOut weight left x :=
  List.exists_le_of_sum_le hne _ _ (sum_weightOut weight left).ge

variable [DecidableEq α]

/-- One step of the order: an element that may go last does, and only where there is none, some
element goes first that gives the others at least as much as it takes from them. -/
theorem greedyOrderOf_cases (weight : α → α → Nat) (n : Nat) (hne : left ≠ []) :
    ∃ x ∈ left,
      (MayGoLast weight left x ∧
        greedyOrderOf weight (n + 1) left = greedyOrderOf weight n (left.erase x) ++ [x]) ∨
      ((∀ y ∈ left, ¬ MayGoLast weight left y) ∧ weightIn weight left x ≤ weightOut weight left x ∧
        greedyOrderOf weight (n + 1) left = x :: greedyOrderOf weight n (left.erase x)) := by
  obtain ⟨a, rest, rfl⟩ := List.exists_cons_of_ne_nil hne
  rw [greedyOrderOf]
  cases hsink : (a :: rest).find? fun x => decide (weightOut weight (a :: rest) x = 0) with
  | some sink =>
    have hlast : weightOut weight (a :: rest) sink = 0 := by simpa using List.find?_some hsink
    exact ⟨sink, List.mem_of_find?_eq_some hsink, .inl ⟨weightOut_eq_zero_iff.1 hlast, rfl⟩⟩
  | none =>
    have hnone : ∀ y ∈ a :: rest, ¬ MayGoLast weight (a :: rest) y := fun y hy hlast =>
      List.find?_eq_none.1 hsink y hy (by simpa using weightOut_eq_zero_iff.2 hlast)
    cases hsource : (a :: rest).find? fun x => decide (weightIn weight (a :: rest) x = 0) with
    | some source =>
      have hfirst : weightIn weight (a :: rest) source = 0 := by simpa using List.find?_some hsource
      have hle : weightIn weight (a :: rest) source ≤ weightOut weight (a :: rest) source :=
        hfirst ▸ Nat.zero_le _
      exact ⟨source, List.mem_of_find?_eq_some hsource, .inr ⟨hnone, hle, rfl⟩⟩
    | none =>
      obtain ⟨x, hx, hle⟩ := exists_weightIn_le weight hne
      have hgreatest := le_firstGreatest
        (fun b => (weightOut weight (a :: rest) b : Int) - weightIn weight (a :: rest) b) a rest x hx
      exact ⟨_, firstGreatest_mem _ a rest, .inr ⟨hnone, by omega, rfl⟩⟩

theorem greedyOrderOf_nil (weight : α → α → Nat) (n : Nat) : greedyOrderOf weight n [] = [] := by
  cases n <;> rfl

theorem perm_greedyOrderOf (weight : α → α → Nat) : ∀ (n : Nat) (left : List α), left.length ≤ n →
    (greedyOrderOf weight n left).Perm left
  | 0, left, h => by
    rw [List.length_eq_zero_iff.1 (Nat.le_zero.1 h), greedyOrderOf_nil]
  | n + 1, left, h => by
    by_cases hne : left = []
    · rw [hne, greedyOrderOf_nil]
    · obtain ⟨x, hx, hstep⟩ := greedyOrderOf_cases weight n hne
      have hlength := List.length_erase_of_mem hx
      have ih := perm_greedyOrderOf weight n (left.erase x) (by omega)
      have hperm : (x :: greedyOrderOf weight n (left.erase x)).Perm left :=
        List.cons_perm_iff_perm_erase.2 ⟨hx, ih⟩
      rcases hstep with ⟨-, e⟩ | ⟨-, -, e⟩
      · rw [e]
        exact (List.perm_append_singleton x _).trans hperm
      · rwa [e]

/-- **The order is an order of the elements.** -/
theorem perm_greedyOrder (weight : α → α → Nat) (elements : List α) :
    (greedyOrder weight elements).Perm elements :=
  perm_greedyOrderOf weight _ elements (Nat.le_refl _)

theorem pairwise_greedyOrderOf (h : Acyclic (Heavy weight)) : ∀ (n : Nat) (left : List α),
    left.length ≤ n → (greedyOrderOf weight n left).Pairwise fun a b => weight b a = 0
  | 0, left, hn => by
    rw [List.length_eq_zero_iff.1 (Nat.le_zero.1 hn), greedyOrderOf_nil]
    exact .nil
  | n + 1, left, hn => by
    by_cases hne : left = []
    · rw [hne, greedyOrderOf_nil]
      exact .nil
    · obtain ⟨x, hx, hstep⟩ := greedyOrderOf_cases weight n hne
      have hlength := List.length_erase_of_mem hx
      have hle : (left.erase x).length ≤ n := by omega
      rcases hstep with ⟨hlast, e⟩ | ⟨hnone, -⟩
      · have hperm := perm_greedyOrderOf weight n _ hle
        rw [e]
        refine List.pairwise_append.2 ⟨pairwise_greedyOrderOf h n _ hle, List.pairwise_singleton _ _, ?_⟩
        intro b hb y hy
        obtain rfl := List.mem_singleton.1 hy
        exact hlast b (List.mem_of_mem_erase (hperm.mem_iff.1 hb))
      · -- elements in no cycle never leave it at that
        obtain ⟨y, hy, hlast⟩ := h.exists_last hne
        exact (hnone y hy fun b hb => Classical.byContradiction (hlast b hb)).elim

/-- **Without cycles, places grow along the weights.** -/
theorem Acyclic.idxOf_lt (h : Acyclic (Heavy weight)) {elements : List α} (ha : a ∈ elements)
    (hb : b ∈ elements) (hab : Heavy weight a b) :
    (greedyOrder weight elements).idxOf a < (greedyOrder weight elements).idxOf b := by
  have hperm := perm_greedyOrder weight elements
  have hpairwise : (greedyOrder weight elements).Pairwise fun a b => weight b a = 0 :=
    pairwise_greedyOrderOf h _ elements (Nat.le_refl _)
  have ha := hperm.mem_iff.2 ha
  have hb := hperm.mem_iff.2 hb
  rcases Nat.lt_trichotomy ((greedyOrder weight elements).idxOf a)
    ((greedyOrder weight elements).idxOf b) with hlt | heq | hlt
  · exact hlt
  · obtain rfl := (List.idxOf_inj ha).1 heq
    exact (h a (.single hab)).elim
  · have hzero := List.pairwise_iff_getElem.1 hpairwise _ _ (List.idxOf_lt_length_of_mem hb)
      (List.idxOf_lt_length_of_mem ha) hlt
    rw [List.getElem_idxOf, List.getElem_idxOf] at hzero
    exact (hab hzero).elim

end Orders
end ImportAtlas
