import ImportAtlas.Proofs.Rings
/-!
# Contracting imports

Imports are *contracted* along a map of modules if each goes to the import between the images of its
ends, where these differ, and nothing else is an import then (`Contracts`).  A walk goes along and
gets no longer (`Contracts.exists_near`).

Back it is not as simple, since the image of a walk may come into a package at one member and go on
from another.  But such a walk has a part from its last exit from the first package to its next entry
into the other, and in between every module is the image of itself only.  So **between two packages
that are each brought to one module, distances stay as they are** (`Contracts.close_iff`), and with
them the length of a least chain, direct imports and reach.
-/
namespace ImportAtlas

/-- Some source is at most so many imports away from a goal. -/
def Close (imports : List Import) (sources goals : NameSet) (k : Nat) : Prop :=
  ∃ s ∈ sources, ∃ j ≤ k, Near imports goals j s

/-- Each of the first imports goes to one of the second or disappears, and each of the second comes
from one of the first. -/
structure Contracts (φ : ModuleName → ModuleName) (imports imports' : List Import) : Prop where
  forth : ∀ i ∈ imports, φ i.importer = φ i.imported ∨ ⟨φ i.importer, φ i.imported⟩ ∈ imports'
  back : ∀ j ∈ imports', ∃ i ∈ imports, φ i.importer = j.importer ∧ φ i.imported = j.imported

/-- The map brings the sources to `a`, the goals to `b`, and no other modules together. -/
structure Gathers (φ : ModuleName → ModuleName) (sources goals : NameSet) (a b : ModuleName) : Prop where
  start : φ a = a
  source : ∀ m, φ m = a ↔ m ∈ sources
  goal : ∀ m, φ m = b ↔ m ∈ goals
  single : ∀ m n, φ m = φ n → m = n ∨ φ m = a ∨ φ m = b

section Distances

variable {φ ψ : ModuleName → ModuleName} {imports imports' imports'' : List Import}
  {sources goals goals' : NameSet} {a b m n : ModuleName} {k : Nat}

theorem Contracts.of_forall_eq (h : ∀ m, φ m = m) : Contracts φ imports imports :=
  ⟨fun i hi => .inr (by rwa [h, h]), fun i hi => ⟨i, hi, h _, h _⟩⟩

theorem Contracts.comp (h : Contracts φ imports imports') (h' : Contracts ψ imports' imports'') :
    Contracts (ψ ∘ φ) imports imports'' := by
  refine ⟨fun i hi => ?_, fun j hj => ?_⟩
  · rcases h.forth i hi with e | hi
    · exact .inl (congrArg ψ e)
    · exact h'.forth _ hi
  · obtain ⟨i', hi', himporter', himported'⟩ := h'.back j hj
    obtain ⟨i, hi, himporter, himported⟩ := h.back i' hi'
    exact ⟨i, hi, (congrArg ψ himporter).trans himporter', (congrArg ψ himported).trans himported'⟩

/-- Contraction does not mind the direction of imports. -/
theorem Contracts.flip (h : Contracts φ imports imports') :
    Contracts φ (imports.map (·.flip)) (imports'.map (·.flip)) := by
  refine ⟨fun i hi => ?_, fun j hj => ?_⟩
  · obtain ⟨i, himports, rfl⟩ := List.mem_map.1 hi
    exact (h.forth i himports).imp Eq.symm fun hi' => List.mem_map.2 ⟨_, hi', rfl⟩
  · obtain ⟨j, himports, rfl⟩ := List.mem_map.1 hj
    obtain ⟨i, hi, himporter, himported⟩ := h.back j himports
    exact ⟨i.flip, List.mem_map.2 ⟨i, hi, rfl⟩, himported, himporter⟩

/-- **A walk goes along with the contraction** and makes no more imports than before. -/
theorem Contracts.exists_near (h : Contracts φ imports imports') (hgoals : ∀ t ∈ goals, φ t ∈ goals')
    (hnear : Near imports goals k m) : ∃ j ≤ k, Near imports' goals' j (φ m) := by
  induction k generalizing m with
  | zero => exact ⟨0, Nat.le_refl 0, near_zero.2 (hgoals m (near_zero.1 hnear))⟩
  | succ k ih =>
    obtain ⟨n, hi, hn⟩ := near_succ.1 hnear
    obtain ⟨j, hj, hnear'⟩ := ih hn
    rcases h.forth _ hi with e | hi'
    · exact ⟨j, by omega, e ▸ hnear'⟩
    · exact ⟨j + 1, by omega, near_succ.2 ⟨_, hi', hnear'⟩⟩

/-- From a module that is near the goals after contraction, every module it stands for was as near, or
the walk met the sources on its way and some source was. -/
theorem Contracts.close_or_near (h : Contracts φ imports imports') (hφ : Gathers φ sources goals a b)
    (hnear : Near imports' (.ofList [b]) k m) :
    Close imports sources goals k ∨ ∀ n, φ n = m → ∃ j ≤ k, Near imports goals j n := by
  -- on the distance: it is the last source on the way that counts, and past it images are single
  induction k generalizing m with
  | zero =>
    obtain rfl := NameSet.mem_singleton.1 (near_zero.1 hnear)
    exact .inr fun n hn => ⟨0, Nat.le_refl 0, near_zero.2 ((hφ.goal n).1 hn)⟩
  | succ k ih =>
    obtain ⟨y, hi, hy⟩ := near_succ.1 hnear
    obtain ⟨⟨m', y'⟩, hi', rfl, rfl⟩ := h.back _ hi
    rcases ih hy with ⟨s, hs, j, hj, hclose⟩ | hall
    · exact .inl ⟨s, hs, j, by omega, hclose⟩
    · obtain ⟨j, hj, hnear'⟩ := hall y' rfl
      have hm' : Near imports goals (j + 1) m' := near_succ.2 ⟨y', hi', hnear'⟩
      by_cases hsource : φ m' = a
      · exact .inl ⟨m', (hφ.source m').1 hsource, j + 1, by omega, hm'⟩
      · refine .inr fun n hn => ?_
        rcases hφ.single m' n hn.symm with rfl | hsource' | hgoal
        · exact ⟨j + 1, by omega, hm'⟩
        · exact absurd hsource' hsource
        · exact ⟨0, by omega, near_zero.2 ((hφ.goal n).1 (hn.trans hgoal))⟩

/-- **Between sources and goals that are each brought to one module, distances stay as they are.** -/
theorem Contracts.close_iff (h : Contracts φ imports imports') (hφ : Gathers φ sources goals a b) :
    Close imports sources goals k ↔ Close imports' (.ofList [a]) (.ofList [b]) k := by
  constructor
  · rintro ⟨s, hs, j, hj, hnear⟩
    have hgoals : ∀ t ∈ goals, φ t ∈ NameSet.ofList [b] := fun t ht =>
      NameSet.mem_singleton.2 ((hφ.goal t).2 ht)
    obtain ⟨j', hj', hnear'⟩ := h.exists_near hgoals hnear
    exact ⟨φ s, NameSet.mem_singleton.2 ((hφ.source s).2 hs), j', by omega, hnear'⟩
  · rintro ⟨s, hs, j, hj, hnear⟩
    obtain rfl := NameSet.mem_singleton.1 hs
    rcases h.close_or_near hφ hnear with ⟨s', hs', j', hj', hclose⟩ | hall
    · exact ⟨s', hs', j', by omega, hclose⟩
    · obtain ⟨j', hj', hnear'⟩ := hall s hφ.start
      exact ⟨s, (hφ.source s).1 hφ.start, j', by omega, hnear'⟩

end Distances

/-! ## Bringing a package to one module -/

/-- Where a module goes when the members of a package are brought to `p`. -/
def onto (package : NameSet) (p m : ModuleName) : ModuleName := if m ∈ package then p else m

section Onto

variable {package other : NameSet} {m p q : ModuleName}

theorem onto_of_mem (hm : m ∈ package) : onto package p m = p := if_pos hm

theorem onto_of_notMem (hm : m ∉ package) : onto package p m = m := if_neg hm

theorem onto_self : onto package p p = p := by
  unfold onto
  split <;> rfl

theorem onto_singleton : onto (.ofList [p]) p m = m := by
  by_cases hm : m ∈ NameSet.ofList [p]
  · obtain rfl := NameSet.mem_singleton.1 hm
    exact onto_self
  · exact onto_of_notMem hm

theorem onto_eq_iff (hp : p ∈ package) : onto package p m = p ↔ m ∈ package := by
  by_cases hm : m ∈ package
  · simp [onto_of_mem hm, hm]
  · simp only [onto_of_notMem hm, hm, iff_false]
    rintro rfl
    exact hm hp

theorem onto_notMem (hm : onto package p m ≠ p) : onto package p m ∉ package := by
  by_cases hmem : m ∈ package
  · exact absurd (onto_of_mem hmem) hm
  · rwa [onto_of_notMem hmem]

theorem eq_or_onto_eq_of_onto_eq {n : ModuleName} (e : onto package p m = onto package p n) :
    m = n ∨ onto package p m = p := by
  by_cases hm : m ∈ package
  · exact .inr (onto_of_mem hm)
  · by_cases hn : n ∈ package
    · exact .inr (e.trans (onto_of_mem hn))
    · rw [onto_of_notMem hm, onto_of_notMem hn] at e
      exact .inl e

/-- A module outside the package as the source, and the package as the goal. -/
theorem gathers_onto (hp : p ∈ package) (hm : m ∉ package) :
    Gathers (onto package p) (.ofList [m]) package m p where
  start := onto_of_notMem hm
  source n := by
    rw [NameSet.mem_singleton]
    refine ⟨fun e => ?_, fun e => by rw [e, onto_of_notMem hm]⟩
    by_cases hn : n ∈ package
    · rw [onto_of_mem hn] at e
      exact absurd (e ▸ hp) hm
    · rwa [onto_of_notMem hn] at e
  goal n := onto_eq_iff hp
  single n n' e := (eq_or_onto_eq_of_onto_eq e).imp_right .inr

theorem onto_onto (hapart : ∀ m ∈ package, m ∉ other) (hp : p ∈ package) :
    onto other q (onto package p m) = if m ∈ package then p else onto other q m := by
  split
  · next hm => rw [onto_of_mem hm, onto_of_notMem (hapart p hp)]
  · next hm => rw [onto_of_notMem hm]

/-- Two packages that have no module in common, each brought to one of its own modules. -/
theorem gathers_onto_comp (hapart : ∀ m ∈ package, m ∉ other) (hp : p ∈ package) (hq : q ∈ other) :
    Gathers (onto other q ∘ onto package p) package other p q where
  start := by
    rw [Function.comp_apply, onto_onto hapart hp, if_pos hp]
  source m := by
    rw [Function.comp_apply, onto_onto hapart hp]
    by_cases hm : m ∈ package
    · rw [if_pos hm]
      exact iff_of_true rfl hm
    · rw [if_neg hm]
      refine iff_of_false ?_ hm
      by_cases hm' : m ∈ other
      · rw [onto_of_mem hm']
        exact fun e => hapart p hp (e ▸ hq)
      · rw [onto_of_notMem hm']
        exact fun e => hm (e ▸ hp)
  goal m := by
    rw [Function.comp_apply, onto_onto hapart hp]
    by_cases hm : m ∈ package
    · rw [if_pos hm]
      exact ⟨fun e => absurd hq (e ▸ hapart p hp), fun hm' => absurd hm' (hapart m hm)⟩
    · rw [if_neg hm, onto_eq_iff hq]
  single m n := by
    rw [Function.comp_apply, Function.comp_apply, onto_onto hapart hp, onto_onto hapart hp]
    by_cases hm : m ∈ package
    · exact fun _ => .inr (.inl (if_pos hm))
    · rw [if_neg hm]
      by_cases hn : n ∈ package
      · rw [if_pos hn]
        exact fun e => .inr (.inl e)
      · rw [if_neg hn]
        exact fun e => (eq_or_onto_eq_of_onto_eq e).imp_right .inr

/-- It does not matter which of two packages is brought together first. -/
theorem onto_comm (hapart : ∀ m ∈ package, m ∉ other) (hp : p ∈ package) (hq : q ∈ other) :
    onto package p ∘ onto other q = onto other q ∘ onto package p := by
  have hapart' : ∀ m ∈ other, m ∉ package := fun m hm hm' => hapart m hm' hm
  funext m
  rw [Function.comp_apply, Function.comp_apply, onto_onto hapart hp, onto_onto hapart' hq]
  by_cases hm : m ∈ package
  · rw [if_pos hm, if_neg (hapart m hm), onto_of_mem hm]
  · rw [if_neg hm, onto_of_notMem hm]
    rfl

end Onto

/-! ## Questions that distances decide -/

section Questions

variable {φ : ModuleName → ModuleName} {imports imports' : List Import}
  {sources goals sources' goals' package : NameSet} {m p : ModuleName} {k : Nat} {c : Chain}

theorem exists_close_singleton :
    (∃ k, Close imports (.ofList [m]) goals k) ↔ ∃ k, Near imports goals k m := by
  constructor
  · rintro ⟨k, s, hs, j, -, hnear⟩
    exact ⟨j, NameSet.mem_singleton.1 hs ▸ hnear⟩
  · rintro ⟨k, hnear⟩
    exact ⟨k, m, NameSet.mem_singleton.2 rfl, k, Nat.le_refl k, hnear⟩

theorem Contracts.exists_near_iff (h : Contracts (onto package p) imports imports')
    (hp : p ∈ package) (hm : m ∉ package) :
    (∃ k, Near imports package k m) ↔ ∃ k, Near imports' (.ofList [p]) k m := by
  rw [← exists_close_singleton, ← exists_close_singleton]
  exact exists_congr fun k => h.close_iff (gathers_onto hp hm)

/-- **What reaches a package reaches the module it is brought to**, and nothing else does. -/
theorem Contracts.reaching_eq (h : Contracts (onto package p) imports imports') (hp : p ∈ package) :
    reaching imports package = reaching imports' (.ofList [p]) := by
  refine Std.ExtTreeSet.ext_mem fun m => ?_
  rw [mem_reaching, mem_reaching, NameSet.mem_singleton]
  constructor
  · rintro ⟨hm, hnear⟩
    exact ⟨fun e => hm (e ▸ hp), (h.exists_near_iff hp hm).1 hnear⟩
  · rintro ⟨hne, k, hnear⟩
    have hm : m ∉ package := by
      cases k with
      | zero => exact absurd (NameSet.mem_singleton.1 (near_zero.1 hnear)) hne
      | succ k =>
        -- it makes an import still, so it is what a module was brought to
        obtain ⟨n, hi, -⟩ := near_succ.1 hnear
        obtain ⟨i, -, rfl, -⟩ := h.back _ hi
        exact onto_notMem hne
    exact ⟨hm, (h.exists_near_iff hp hm).2 ⟨k, hnear⟩⟩

theorem close_one_iff (hapart : ∀ m ∈ sources, m ∉ goals) :
    Close imports sources goals 1 ↔ ∃ i ∈ imports, i.importer ∈ sources ∧ i.imported ∈ goals := by
  constructor
  · rintro ⟨s, hs, j, hj, hnear⟩
    cases j with
    | zero => exact absurd (near_zero.1 hnear) (hapart s hs)
    | succ j =>
      obtain rfl : j = 0 := by omega
      obtain ⟨t, hi, ht⟩ := near_succ.1 hnear
      exact ⟨⟨s, t⟩, hi, hs, near_zero.1 ht⟩
  · rintro ⟨i, hi, hs, ht⟩
    exact ⟨i.importer, hs, 1, Nat.le_refl 1, near_succ.2 ⟨i.imported, hi, near_zero.2 ht⟩⟩

theorem Joins.close (h : Joins imports sources goals c) :
    Close imports sources goals (c.length - 1) := by
  obtain ⟨s, hs, t, ht, hw, hlen⟩ := h
  exact ⟨s, hs, c.length - 1, Nat.le_refl _, t, ht, c, hw, by omega⟩

theorem Close.exists_joins (hapart : ∀ m ∈ sources, m ∉ goals) (h : Close imports sources goals k) :
    ∃ c, Joins imports sources goals c ∧ c.length ≤ k + 1 := by
  obtain ⟨s, hs, j, hj, t, ht, c, hw, hlen⟩ := h
  have hne : s ≠ t := fun e => hapart s hs (e ▸ ht)
  exact ⟨c, ⟨s, hs, t, ht, hw, hw.two_le_length hne⟩, by omega⟩

/-- A least chain is no longer than what other imports allow, if they bring sources as close. -/
theorem exists_leastChain?_le (hapart : ∀ m ∈ sources', m ∉ goals')
    (h : ∀ k, Close imports sources goals k → Close imports' sources' goals' k)
    (hc : leastChain? imports sources goals = some c) :
    ∃ c', leastChain? imports' sources' goals' = some c' ∧ c'.length ≤ c.length := by
  have hjoins := joins_of_leastChain? hc
  obtain ⟨d, hd, hlen⟩ := (h _ hjoins.close).exists_joins hapart
  obtain ⟨_, _, _, _, _, htwo⟩ := hjoins
  cases hc' : leastChain? imports' sources' goals' with
  | none => exact absurd hd (leastChain?_eq_none_iff.1 hc' d)
  | some c' =>
    have hle := length_le_of_leastChain? hc' hd
    exact ⟨c', rfl, by omega⟩

/-- **Where sources and goals are as close, a least chain is as long.** -/
theorem map_length_leastChain? (hapart : ∀ m ∈ sources, m ∉ goals)
    (hapart' : ∀ m ∈ sources', m ∉ goals')
    (h : ∀ k, Close imports sources goals k ↔ Close imports' sources' goals' k) :
    (leastChain? imports sources goals).map List.length =
      (leastChain? imports' sources' goals').map List.length := by
  cases hc : leastChain? imports sources goals with
  | none =>
    cases hc' : leastChain? imports' sources' goals' with
    | none => rfl
    | some c' =>
      obtain ⟨c, hsome, -⟩ := exists_leastChain?_le hapart (fun k => (h k).2) hc'
      rw [hc] at hsome
      cases hsome
  | some c =>
    obtain ⟨c', hc', hle⟩ := exists_leastChain?_le hapart' (fun k => (h k).1) hc
    obtain ⟨d, hd, hle'⟩ := exists_leastChain?_le hapart (fun k => (h k).2) hc'
    obtain rfl : c = d := Option.some.inj (hc.symm.trans hd)
    rw [hc', Option.map_some, Option.map_some, Nat.le_antisymm hle hle']

end Questions
end ImportAtlas
