import ImportAtlas.Proofs.Cycle
/-!
# How much points backwards

The greedy order is not the best of all orders, but it is never a bad one: **at most as much weight
points backwards in it as forwards** (`weightBack_greedyOrder_le`), whatever the weights are.

A pair is accounted for when the first of its two elements is placed.  From one that goes last
nothing points back to those left.  One that goes first gives the others at least as much as it takes
from them, because on average they do and none has a greater balance (`greedyOrderOf_cases`).

Between the children of a package a weight is a number of imports, so at most half of the imports
between them are given up.
-/
namespace ImportAtlas

section Accounts

variable {α : Type} {weight : α → α → Nat} {left left' order : List α} {a x : α}

/-- All the weight that goes from an element of an order to one before it. -/
def weightBack (weight : α → α → Nat) : List α → Nat
  | [] => 0
  | a :: order => weightIn weight order a + weightBack weight order

/-- All the weight that goes from an element of an order to one after it. -/
def weightForth (weight : α → α → Nat) : List α → Nat
  | [] => 0
  | a :: order => weightOut weight order a + weightForth weight order

theorem weightOut_perm (h : left.Perm left') : weightOut weight left a = weightOut weight left' a :=
  (h.map (weight a ·)).sum_eq

theorem weightIn_perm (h : left.Perm left') : weightIn weight left a = weightIn weight left' a :=
  (h.map (weight · a)).sum_eq

theorem weightOut_cons : weightOut weight (x :: left) a = weight a x + weightOut weight left a := rfl

theorem weightIn_cons : weightIn weight (x :: left) a = weight x a + weightIn weight left a := rfl

/-- What comes in is what goes out if the weights are turned around. -/
theorem weightForth_eq_weightBack (weight : α → α → Nat) : ∀ order : List α,
    weightForth weight order = weightBack (fun a b => weight b a) order
  | [] => rfl
  | a :: order => by
    rw [weightForth, weightBack, weightForth_eq_weightBack weight order]
    rfl

theorem weightIn_concat : weightIn weight (left ++ [x]) a = weightIn weight left a + weight x a := by
  induction left with
  | nil => exact Nat.add_comm _ _
  | cons b left ih => rw [List.cons_append, weightIn_cons, weightIn_cons, ih, Nat.add_assoc]

theorem weightBack_concat (weight : α → α → Nat) (x : α) : ∀ order : List α,
    weightBack weight (order ++ [x]) = weightBack weight order + weightOut weight order x
  | [] => rfl
  | a :: order => by
    rw [List.cons_append, weightBack, weightBack, weightOut_cons, weightIn_concat,
      weightBack_concat weight x order]
    omega

theorem weightForth_concat (weight : α → α → Nat) (x : α) (order : List α) :
    weightForth weight (order ++ [x]) = weightForth weight order + weightIn weight order x := by
  rw [weightForth_eq_weightBack, weightForth_eq_weightBack, weightBack_concat]
  rfl

variable [DecidableEq α]

/-- Invariant of the greedy order: whatever is left, its order points back no more than forth. -/
theorem weightBack_greedyOrderOf_le (weight : α → α → Nat) : ∀ (n : Nat) (left : List α),
    left.length ≤ n → weightBack weight (greedyOrderOf weight n left) ≤
      weightForth weight (greedyOrderOf weight n left)
  | 0, left, h => by
    rw [List.length_eq_zero_iff.1 (Nat.le_zero.1 h), greedyOrderOf_nil]
    exact Nat.le_refl 0
  | n + 1, left, h => by
    by_cases hne : left = []
    · rw [hne, greedyOrderOf_nil]
      exact Nat.le_refl 0
    · obtain ⟨x, hx, hstep⟩ := greedyOrderOf_cases weight n hne
      have hlength := List.length_erase_of_mem hx
      have ih := weightBack_greedyOrderOf_le weight n (left.erase x) (by omega)
      have hrest := perm_greedyOrderOf weight n (left.erase x) (by omega)
      have hperm := List.cons_perm_iff_perm_erase.2 ⟨hx, hrest⟩
      generalize greedyOrderOf weight n (left.erase x) = order at hstep ih hperm
      rcases hstep with ⟨hlast, e⟩ | ⟨-, hle, e⟩
      · have hnone : weightOut weight order x = 0 := weightOut_eq_zero_iff.2 fun b hb =>
          hlast b (hperm.mem_iff.1 (List.mem_cons_of_mem x hb))
        rw [e, weightBack_concat, weightForth_concat, hnone]
        omega
      · have hin : weightIn weight (x :: order) x ≤ weightOut weight (x :: order) x := by
          rw [weightIn_perm hperm, weightOut_perm hperm]
          exact hle
        rw [weightIn_cons, weightOut_cons] at hin
        rw [e, weightBack, weightForth]
        omega

/-- **At most as much weight points backwards in a greedy order as forwards.** -/
theorem weightBack_greedyOrder_le (weight : α → α → Nat) (elements : List α) :
    weightBack weight (greedyOrder weight elements) ≤ weightForth weight (greedyOrder weight elements) :=
  weightBack_greedyOrderOf_le weight _ elements (Nat.le_refl _)

end Accounts

/-! ## Counting imports -/

section Counting

variable {arcs : List Import} {left order : List ModuleName} {a : ModuleName} {k : Import}

/-- The import leads from a module of the order to one before it. -/
def Backward (order : List ModuleName) (k : Import) : Prop :=
  k.importer ∈ order ∧ order.idxOf k.imported < order.idxOf k.importer

instance (order : List ModuleName) (k : Import) : Decidable (Backward order k) :=
  inferInstanceAs (Decidable (_ ∧ _))

theorem countP_or_of_disjoint {α : Type} {p q : α → Prop} [DecidablePred p] [DecidablePred q]
    (hpq : ∀ x, p x → ¬ q x) (l : List α) :
    l.countP (fun x => p x ∨ q x) = l.countP p + l.countP q := by
  induction l with
  | nil => rfl
  | cons x l ih =>
    simp only [List.countP_cons, ih, decide_eq_true_eq]
    by_cases hp : p x
    · simp [hp, hpq x hp]
      omega
    · simp [hp]
      omega

theorem weightIn_countP (arcs : List Import) (a : ModuleName) (hleft : left.Nodup) :
    weightIn (fun a b => arcs.countP (· = ⟨a, b⟩)) left a =
      arcs.countP fun k => k.importer ∈ left ∧ k.imported = a := by
  induction left with
  | nil => simp [weightIn]
  | cons b left ih =>
    obtain ⟨hb, hleft⟩ := List.nodup_cons.1 hleft
    have hdisjoint : ∀ k : Import, k = ⟨b, a⟩ → ¬ (k.importer ∈ left ∧ k.imported = a) := by
      rintro _ rfl ⟨hmem, -⟩
      exact hb hmem
    rw [weightIn_cons, ih hleft, ← countP_or_of_disjoint hdisjoint]
    refine List.countP_congr fun k _ => ?_
    cases k
    simp only [decide_eq_true_eq, List.mem_cons, Import.mk.injEq]
    rw [← or_and_right]

theorem backward_cons_iff (ha : a ∉ order) : Backward (a :: order) k ↔
    (k.importer ∈ order ∧ k.imported = a) ∨ Backward order k := by
  unfold Backward
  by_cases himporter : k.importer = a
  · rw [himporter, List.idxOf_cons_self]
    simp [ha]
  · have hmem : k.importer ∈ a :: order ↔ k.importer ∈ order := by simp [himporter]
    rw [hmem, List.idxOf_cons_ne order (Ne.symm himporter)]
    by_cases himported : k.imported = a
    · rw [himported, List.idxOf_cons_self]
      exact ⟨fun h => .inl ⟨h.1, rfl⟩, fun h => ⟨h.elim And.left And.left, Nat.succ_pos _⟩⟩
    · rw [List.idxOf_cons_ne order (Ne.symm himported)]
      simp [himported]

/-- **Where weights count imports, what points backwards is how many do.** -/
theorem weightBack_countP (arcs : List Import) (horder : order.Nodup) :
    weightBack (fun a b => arcs.countP (· = ⟨a, b⟩)) order = arcs.countP (Backward order ·) := by
  induction order with
  | nil => simp [weightBack, Backward]
  | cons a order ih =>
    obtain ⟨ha, horder⟩ := List.nodup_cons.1 horder
    have hdisjoint : ∀ k : Import, k.importer ∈ order ∧ k.imported = a → ¬ Backward order k := by
      rintro k ⟨-, rfl⟩ ⟨himporter, hback⟩
      rw [List.idxOf_eq_length ha] at hback
      exact Nat.lt_asymm hback (List.idxOf_lt_length_of_mem himporter)
    rw [weightBack, weightIn_countP arcs a horder, ih horder, ← countP_or_of_disjoint hdisjoint]
    refine List.countP_congr fun k _ => ?_
    simp only [decide_eq_true_eq, backward_cons_iff ha]

theorem weightForth_countP (arcs : List Import) (horder : order.Nodup) :
    weightForth (fun a b => arcs.countP (· = ⟨a, b⟩)) order =
      arcs.countP (fun k => Backward order k.flip) := by
  have hflip : (fun a b => arcs.countP (· = ⟨b, a⟩)) =
      fun a b => (arcs.map (·.flip)).countP (· = ⟨a, b⟩) := by
    funext a b
    rw [List.countP_map]
    refine List.countP_congr fun k _ => ?_
    cases k
    simp [Import.flip, and_comm]
  rw [weightForth_eq_weightBack, hflip, weightBack_countP _ horder, List.countP_map]
  rfl

/-- **At most half of the imports point backwards** in the greedy order by their numbers. -/
theorem two_mul_countP_backward_le (arcs : List Import) {elements : List ModuleName}
    (helements : elements.Nodup) :
    2 * arcs.countP (Backward (greedyOrder (fun a b => arcs.countP (· = ⟨a, b⟩)) elements) ·) ≤
      arcs.length := by
  have hnodup := (perm_greedyOrder (fun a b => arcs.countP (· = ⟨a, b⟩)) elements).nodup_iff.2 helements
  have hle := weightBack_greedyOrder_le (fun a b => arcs.countP (· = ⟨a, b⟩)) elements
  generalize greedyOrder (fun a b => arcs.countP (· = ⟨a, b⟩)) elements = order at hnodup hle ⊢
  rw [weightBack_countP arcs hnodup, weightForth_countP arcs hnodup] at hle
  have hdisjoint : ∀ k, Backward order k → ¬ Backward order k.flip :=
    fun k hback hforth => Nat.lt_asymm hback.2 hforth.2
  have htotal := countP_or_of_disjoint hdisjoint arcs
  have hlength := List.countP_le_length (l := arcs) (p := fun k => Backward order k ∨ Backward order k.flip)
  omega

theorem map_snd_filterMap_sublist {α β : Type} {f : α → Option (β × α)}
    (h : ∀ a x, f a = some x → x.2 = a) : ∀ l : List α, ((l.filterMap f).map (·.2)).Sublist l
  | [] => .slnil
  | a :: l => by
    have ih := map_snd_filterMap_sublist h l
    rw [List.filterMap_cons]
    cases hf : f a with
    | none => exact ih.cons a
    | some x =>
      rw [List.map_cons, h a x hf]
      exact ih.cons_cons a

end Counting

/-! ## What is given up -/

namespace Graph

variable {g : Graph} {p : ModuleName} {i : Import}

/-- The imports between children are listed once each. -/
theorem nodup_importsAmong (g : Graph) (children : List ModuleName) :
    ((g.importsAmong children).map (·.2)).Nodup := by
  refine (map_snd_filterMap_sublist (fun i x hx => ?_) g.importList).nodup g.nodup_importList
  split at hx
  · split at hx
    · cases hx
    · cases hx
      rfl
  · cases hx

theorem weightOf_eq (imports : List (Import × Import)) :
    weightOf imports = fun a b => (imports.map (·.1)).countP (· = ⟨a, b⟩) := by
  funext a b
  rw [weightOf_eq_countP, List.countP_map]
  rfl

/-- There are no more breakers than imports that point backwards. -/
theorem size_le_countP_backward {breakers : Std.ExtTreeSet Import}
    (h : ∀ i ∈ breakers, PointsBack g p i) : breakers.size ≤
      ((g.importsAmong (g.childrenOf p).toList).map (·.1)).countP (Backward (g.childOrder p) ·) := by
  have hnodup : breakers.toList.Nodup :=
    Std.ExtTreeSet.distinct_toList.imp fun hne e => hne (Std.compare_eq_iff_eq.2 e)
  have hsubset : breakers.toList ⊆ ((g.importsAmong (g.childrenOf p).toList).filter
      fun x => Backward (g.childOrder p) x.1).map (·.2) := by
    intro i hi
    obtain ⟨a, b, hbetween, hback⟩ := h i (Std.ExtTreeSet.mem_toList.1 hi)
    have ha : a ∈ g.childOrder p := mem_childOrder.2 hbetween.1.1
    refine List.mem_map.2 ⟨(⟨a, b⟩, i), List.mem_filter.2 ⟨mem_importsAmong.2 hbetween, ?_⟩, rfl⟩
    exact decide_eq_true (And.intro ha hback)
  have hlength := hnodup.length_le_of_subset hsubset
  rw [Std.ExtTreeSet.length_toList, List.length_map, ← List.countP_eq_length_filter] at hlength
  rwa [List.countP_map]

/-- **At most half of what is between children is given up.**  However weights are set, at most as
much points backwards in the greedy order as forwards; and of the imports from the package of one
child to that of another, at most half are nominated. -/
theorem two_mul_size_cycleBreakers_le (g : Graph) (hp : p ∈ g.modules) :
    (∀ {α : Type} [DecidableEq α] (weight : α → α → Nat) (elements : List α),
      weightBack weight (greedyOrder weight elements) ≤
        weightForth weight (greedyOrder weight elements)) ∧
    ∃ breakers crossing : Std.ExtTreeSet Import, g.cycleBreakers p.text = .ok breakers ∧
      (∀ i, i ∈ crossing ↔ ∃ a b, Between g p a b i) ∧ 2 * breakers.size ≤ crossing.size := by
  refine ⟨weightBack_greedyOrder_le, ?_⟩
  obtain ⟨breakers, hbreakers, hmem⟩ := exists_cycleBreakers hp
  refine ⟨breakers, .ofList ((g.importsAmong (g.childrenOf p).toList).map (·.2)), hbreakers,
    fun i => ?_, ?_⟩
  · rw [Std.ExtTreeSet.mem_ofList, List.contains_iff_mem, List.mem_map]
    constructor
    · rintro ⟨⟨k, j⟩, hk, rfl⟩
      exact ⟨k.importer, k.imported, mem_importsAmong.1 hk⟩
    · rintro ⟨a, b, hbetween⟩
      exact ⟨(⟨a, b⟩, i), mem_importsAmong.2 hbetween, rfl⟩
  · have hdistinct := (nodup_importsAmong g (g.childrenOf p).toList).imp
      fun hne e => hne (Import.eq_of_compare_eq e)
    rw [Std.ExtTreeSet.size_ofList hdistinct, List.length_map]
    have hsize := size_le_countP_backward fun i hi => ((hmem i).1 hi).2
    have hchildren : (g.childrenOf p).toList.Nodup :=
      Std.ExtTreeSet.distinct_toList.imp fun hne e => hne (Std.compare_eq_iff_eq.2 e)
    have hhalf := two_mul_countP_backward_le ((g.importsAmong (g.childrenOf p).toList).map (·.1)) hchildren
    rw [childOrder, weightOf_eq] at hsize
    rw [List.length_map] at hhalf
    omega

/-- Of the three imports between two children one is given up. -/
theorem two_mul_size_cycleBreakers_le_entangled : ∃ (p : ModuleName) (breakers crossing : Std.ExtTreeSet Import),
    p ∈ entangled.modules ∧ p.text = "p" ∧ entangled.cycleBreakers "p" = .ok breakers ∧
      (∀ i, i ∈ crossing ↔ ∃ a b, Between entangled p a b i) ∧ breakers.size = 1 ∧
      2 * breakers.size ≤ crossing.size := by
  let p : ModuleName := ⟨"p", by decide⟩
  have hp : p ∈ entangled.modules := by decide +kernel
  obtain ⟨-, breakers, crossing, hbreakers, hcrossing, hhalf⟩ := two_mul_size_cycleBreakers_le entangled hp
  have hone : (entangled.cycleBreakers "p").toOption.map (·.size) = some 1 := by decide +kernel
  have hbreakers : entangled.cycleBreakers "p" = .ok breakers := hbreakers
  rw [hbreakers] at hone
  exact ⟨p, breakers, crossing, hp, rfl, hbreakers, hcrossing, Option.some.inj hone, hhalf⟩

end Graph
end ImportAtlas
