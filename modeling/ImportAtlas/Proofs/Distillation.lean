import ImportAtlas.Proofs.Name
import ImportAtlas.Resolution
/-!
# Names just clear of the packages

What is distilled from an object is **its shallowest front that is vacant**: neither a package nor above
one (`distilled?_eq_some_iff`).  Every package asks for one segment more than the object shares with it,
and the deepest of these demands meets all of them (`shallowestVacant_portion`).  That says nothing of the
order of the packages, nor of how often one is named (`distilled?_congr`).

What lies outside the packages is so represented by names that are *just clear* of them (`JustClear`):
such a name overlaps no package, and one level up it would.  **Of two names that are just clear of the
same packages, neither sits beneath the other** (`JustClear.not_isBeneath`): above a name that is just
clear there is nothing but names that contain a package.  That is why squashed modules never get into
each other's way.
-/
namespace ImportAtlas
namespace Resolution

/-- The name overlaps no package, and every name it sits beneath is a package or contains one. -/
structure JustClear (packages : List ModuleName) (m : ModuleName) : Prop where
  apart : ∀ p ∈ packages, ¬ m.Overlaps p
  close : ∀ a, m.IsBeneath a → ∃ p ∈ packages, p = a ∨ p.IsBeneath a

section Clear

variable {packages : List ModuleName} {a m n o p : ModuleName}

theorem JustClear.not_isBeneath (hm : JustClear packages m) (hn : JustClear packages n) :
    ¬ n.IsBeneath m := by
  intro hbeneath
  obtain ⟨p, hp, hpm⟩ := hn.close m hbeneath
  exact hm.apart p hp (hpm.elim (fun e => .inl e.symm) fun h => .inr (.inr h))

/-- What is beneath a package, or the package itself, is apart from what is just clear of it. -/
theorem JustClear.not_overlaps (hm : JustClear packages m) (hp : p ∈ packages)
    (hn : n = p ∨ n.IsBeneath p) : ¬ n.Overlaps m := by
  have hapart := hm.apart p hp
  rcases hn with rfl | hn
  · rintro (e | h | h)
    · exact hapart (.inl e.symm)
    · exact hapart (.inr (.inr h))
    · exact hapart (.inr (.inl h))
  · rintro (rfl | h | h)
    · exact hapart (.inr (.inl hn))
    · -- both contain `n`
      exact hapart (ModuleName.comparable_of_isBeneath h hn)
    · exact hapart (.inr (.inl (ModuleName.IsBeneath.trans h hn)))

end Clear

/-! ## Vacant fronts -/

/-- No package is `a` or sits beneath it. -/
def Vacant (packages : List ModuleName) (a : ModuleName) : Prop :=
  ∀ p ∈ packages, ¬ (p = a ∨ p.IsBeneath a)

/-- Of the vacant names that the object begins with, `m` is the one with the fewest segments. -/
structure ShallowestVacant (packages : List ModuleName) (object m : ModuleName) : Prop where
  front : m.segments <+: object.segments
  vacant : Vacant packages m
  least : ∀ a, a.segments <+: object.segments → Vacant packages a → m.depth ≤ a.depth

section Fronts

variable {packages : List ModuleName} {a m n o p : ModuleName}

theorem vacant_iff_segments : Vacant packages a ↔ ∀ p ∈ packages, ¬ a.segments <+: p.segments := by
  simp only [Vacant, ModuleName.prefix_segments_iff]

theorem ShallowestVacant.unique (hm : ShallowestVacant packages o m)
    (hn : ShallowestVacant packages o n) : m = n := by
  have hdepth : m.segments.length = n.segments.length :=
    Nat.le_antisymm (hm.least n hn.front hn.vacant) (hn.least m hm.front hm.vacant)
  have hahead := List.prefix_of_prefix_length_le hm.front hn.front (Nat.le_of_eq hdepth)
  exact ModuleName.segments_injective (hahead.eq_of_length hdepth)

/-- The shallowest vacant front of an object apart from the packages is just clear of them. -/
theorem ShallowestVacant.justClear (hm : ShallowestVacant packages o m)
    (hapart : ∀ p ∈ packages, ¬ o.Overlaps p) : JustClear packages m := by
  refine ⟨fun p hp hover => ?_, fun a ha => ?_⟩
  · rcases hover with e | hbeneath | hbeneath
    · exact hm.vacant p hp (.inl e.symm)
    · -- the object is as far down as `m`, and beneath the package too
      rcases ModuleName.prefix_segments_iff.1 hm.front with rfl | hfront
      · exact hapart p hp (.inr (.inl hbeneath))
      · exact hapart p hp (.inr (.inl (hfront.trans hbeneath)))
    · exact hm.vacant p hp (.inr hbeneath)
  · have hfront := (ModuleName.prefix_segments_iff.2 (.inr ha)).trans hm.front
    refine Classical.byContradiction fun hnone => ?_
    have hvacant : Vacant packages a := fun p hp hpa => hnone ⟨p, hp, hpa⟩
    exact Nat.not_le_of_lt (ModuleName.depth_lt_of_isBeneath ha) (hm.least a hfront hvacant)

end Fronts

/-! ## What is shared with the packages -/

section Shared

variable {packages : List ModuleName} {a m n o p : ModuleName} {k : Nat}

theorem take_prefix_iff_le_shared {α : Type} [DecidableEq α] : ∀ {as bs : List α} {k : Nat},
    k ≤ as.length → (as.take k <+: bs ↔ k ≤ shared as bs)
  | _, _, 0, _ => by simp
  | a :: as, [], k + 1, _ => by simp [shared]
  | a :: as, b :: bs, k + 1, hk => by
    have ih : as.take k <+: bs ↔ k ≤ shared as bs :=
      take_prefix_iff_le_shared (Nat.le_of_succ_le_succ hk)
    rw [List.take_succ_cons, List.cons_prefix_cons, ih, shared]
    split
    · next hab => simp [hab]
    · next hab => simp [hab]

/-- A front of the object goes along with a package no further than the object does. -/
theorem front_prefix_iff_le_shared (hfront : a.segments <+: o.segments) :
    a.segments <+: p.segments ↔ a.depth ≤ shared o.segments p.segments := by
  have htake : o.segments.take a.depth = a.segments := (List.prefix_iff_eq_take.1 hfront).symm
  rw [ModuleName.depth, ← take_prefix_iff_le_shared hfront.length_le, ← ModuleName.depth, htake]

/-- An object that is apart from a package goes on where the package has turned away. -/
theorem shared_lt_depth (h : ¬ o.Overlaps p) : shared o.segments p.segments < o.depth := by
  refine Nat.lt_of_not_le fun hle => ?_
  have hahead := (front_prefix_iff_le_shared List.prefix_rfl).2 hle
  exact h ((ModuleName.prefix_segments_iff.1 hahead).elim (fun e => .inl e.symm) fun h => .inr (.inr h))

theorem segments_keep (m : ModuleName) (k : Nat) : (m.keep k).segments = m.segments.take (k + 1) :=
  ModuleName.segments_ofSegments _ _

theorem keep_front (m : ModuleName) (k : Nat) : (m.keep k).segments <+: m.segments := by
  rw [segments_keep]
  exact List.take_prefix _ _

theorem depth_keep (hk : k < m.depth) : (m.keep k).depth = k + 1 := by
  rw [ModuleName.depth, segments_keep]
  exact List.length_take_of_le hk

theorem root_eq_keep (m : ModuleName) : m.root = m.keep 0 := by
  refine ModuleName.segments_injective ?_
  rw [segments_keep, ModuleName.root, ModuleName.segments_ofSegments, Nat.zero_add, List.take_one,
    List.head?_eq_some_head m.segments_ne_nil]
  rfl

theorem depth_pos (m : ModuleName) : 0 < m.depth := List.length_pos_iff.2 m.segments_ne_nil

/-- A package that shares anything with an object it is apart from is beneath its top-level name. -/
theorem isBeneath_root_of_shared_pos (hapart : ¬ o.Overlaps p)
    (hshared : 0 < shared o.segments p.segments) : p.IsBeneath o.root := by
  have hroot : o.root.segments <+: o.segments := by
    rw [root_eq_keep]
    exact keep_front o 0
  have hdepth : o.root.depth = 1 := by
    rw [root_eq_keep]
    exact depth_keep (depth_pos o)
  have hahead := (front_prefix_iff_le_shared hroot).2 (Nat.le_trans (Nat.le_of_eq hdepth) hshared)
  refine (ModuleName.prefix_segments_iff.1 hahead).resolve_left fun e => ?_
  rw [e] at hapart
  exact hapart ((ModuleName.prefix_segments_iff.1 hroot).imp id .inl)

/-- **One segment more than the object shares with any package is enough, and fewer are not.** -/
theorem shallowestVacant_keep (hk : k < o.depth)
    (hmost : ∀ p ∈ packages, shared o.segments p.segments ≤ k)
    (hasked : k = 0 ∨ ∃ p ∈ packages, shared o.segments p.segments = k) :
    ShallowestVacant packages o (o.keep k) := by
  refine ⟨keep_front o k, vacant_iff_segments.2 fun p hp hahead => ?_, fun a hfront hvacant => ?_⟩
  · have hle := (front_prefix_iff_le_shared (keep_front o k)).1 hahead
    rw [depth_keep hk] at hle
    exact Nat.not_succ_le_self k (Nat.le_trans hle (hmost p hp))
  · rw [depth_keep hk]
    refine Nat.lt_of_not_le fun hle => ?_
    rcases hasked with rfl | ⟨p, hp, rfl⟩
    · exact Nat.not_le_of_lt (depth_pos a) hle
    · exact vacant_iff_segments.1 hvacant p hp ((front_prefix_iff_le_shared hfront).2 hle)

end Shared

/-! ## Portions -/

section Portions

variable {packages packages' : List ModuleName} {m o p : ModuleName}

theorem portion?_eq_some_iff : portion? o p = some m ↔
    (p.IsBeneath o.root ∧ shared o.segments p.segments < o.depth) ∧
      o.keep (shared o.segments p.segments) = m := by
  simp only [portion?, Option.ite_none_right_eq_some, Option.some.injEq]

theorem mem_inOrder : p ∈ inOrder packages ↔ p ∈ packages := by
  rw [inOrder, List.mem_filterMap]
  simp only [ModuleName.ofString?_eq_some_iff, (Text.sorted_perm _).mem_iff, List.mem_map]
  constructor
  · rintro ⟨_, ⟨q, hq, rfl⟩, htext⟩
    rwa [ModuleName.ext_text htext]
  · exact fun hp => ⟨_, ⟨p, hp, rfl⟩, rfl⟩

theorem mem_portions : m ∈ portions packages o ↔ ∃ p ∈ packages, portion? o p = some m := by
  simp only [portions, List.mem_filterMap, mem_inOrder]

theorem deepest?_eq_none_iff : ∀ {names : List ModuleName}, deepest? names = none ↔ names = []
  | [] => by simp [deepest?]
  | m :: rest => by
    unfold deepest?
    cases deepest? rest with
    | none => simp
    | some d => by_cases h : m.depth ≤ d.depth <;> simp [h]

theorem of_deepest?_eq_some : ∀ {names : List ModuleName} {d : ModuleName}, deepest? names = some d →
    d ∈ names ∧ ∀ m ∈ names, m.depth ≤ d.depth
  | [], _, h => by cases h
  | m :: rest, d, h => by
    unfold deepest? at h
    cases hrest : deepest? rest with
    | none =>
      rw [hrest] at h
      obtain rfl := Option.some.inj h
      rw [deepest?_eq_none_iff.1 hrest]
      simp
    | some e =>
      obtain ⟨he, hle⟩ := of_deepest?_eq_some hrest
      rw [hrest] at h
      dsimp only at h
      split at h
      · next hme =>
        obtain rfl := Option.some.inj h
        exact ⟨List.mem_cons_of_mem _ he, List.forall_mem_cons.2 ⟨hme, hle⟩⟩
      · next hme =>
        obtain rfl := Option.some.inj h
        exact ⟨List.mem_cons_self, List.forall_mem_cons.2 ⟨Nat.le_refl _, fun n hn =>
          Nat.le_trans (hle n hn) (Nat.le_of_not_le hme)⟩⟩

/-- A package that shares anything with an object it is apart from has a portion. -/
theorem portion?_of_shared_pos (hapart : ¬ o.Overlaps p) (hshared : 0 < shared o.segments p.segments) :
    portion? o p = some (o.keep (shared o.segments p.segments)) :=
  portion?_eq_some_iff.2 ⟨⟨isBeneath_root_of_shared_pos hapart hshared, shared_lt_depth hapart⟩, rfl⟩

/-- **The deepest portion is the shallowest vacant front.**  Packages that are not asked share nothing. -/
theorem shallowestVacant_portion (hapart : ∀ p ∈ packages, ¬ o.Overlaps p) :
    ShallowestVacant packages o ((deepest? (portions packages o)).getD o.root) := by
  cases hdeepest : deepest? (portions packages o) with
  | none =>
    rw [Option.getD_none, root_eq_keep]
    refine shallowestVacant_keep (depth_pos o) (fun p hp => Nat.le_of_not_lt fun hpos => ?_) (.inl rfl)
    have hmem := mem_portions.2 ⟨p, hp, portion?_of_shared_pos (hapart p hp) hpos⟩
    rw [deepest?_eq_none_iff.1 hdeepest] at hmem
    exact List.not_mem_nil hmem
  | some d =>
    rw [Option.getD_some]
    obtain ⟨hmem, hle⟩ := of_deepest?_eq_some hdeepest
    obtain ⟨q, hq, hportion⟩ := mem_portions.1 hmem
    obtain ⟨⟨-, hlt⟩, rfl⟩ := portion?_eq_some_iff.1 hportion
    refine shallowestVacant_keep hlt (fun p hp => ?_) (.inr ⟨q, hq, rfl⟩)
    rcases Nat.eq_zero_or_pos (shared o.segments p.segments) with hzero | hpos
    · omega
    · have hdepth := hle _ (mem_portions.2 ⟨p, hp, portion?_of_shared_pos (hapart p hp) hpos⟩)
      rw [depth_keep hlt, depth_keep (shared_lt_depth (hapart p hp))] at hdepth
      omega

theorem distilled?_eq_none_iff : distilled? packages o = none ↔ ∃ p ∈ packages, o.Overlaps p := by
  simp only [distilled?, ite_eq_left_iff, reduceCtorEq, imp_false, Classical.not_not]

/-- **What is distilled from an object is its shallowest vacant front.** -/
theorem distilled?_eq_some_iff : distilled? packages o = some m ↔
    (∀ p ∈ packages, ¬ o.Overlaps p) ∧ ShallowestVacant packages o m := by
  by_cases hover : ∃ p ∈ packages, o.Overlaps p
  · rw [distilled?_eq_none_iff.2 hover]
    obtain ⟨p, hp, hover⟩ := hover
    refine ⟨fun h => ?_, fun h => (h.1 p hp hover).elim⟩
    cases h
  · have hapart : ∀ p ∈ packages, ¬ o.Overlaps p := fun p hp h => hover ⟨p, hp, h⟩
    have hportion := shallowestVacant_portion hapart
    rw [distilled?, if_neg hover, Option.some.injEq]
    exact ⟨fun h => ⟨hapart, h ▸ hportion⟩, fun h => hportion.unique h.2⟩

/-- **A distilled name is just clear of the packages.** -/
theorem justClear_of_distilled? (h : distilled? packages o = some m) : JustClear packages m := by
  obtain ⟨hapart, hshallowest⟩ := distilled?_eq_some_iff.1 h
  exact hshallowest.justClear hapart

/-- Only which names are packages matters. -/
theorem distilled?_congr (hsame : ∀ p, p ∈ packages ↔ p ∈ packages') (o : ModuleName) :
    distilled? packages o = distilled? packages' o := by
  refine Option.ext fun m => ?_
  rw [distilled?_eq_some_iff, distilled?_eq_some_iff]
  have hvacant : ∀ a, Vacant packages a ↔ Vacant packages' a := fun a => by
    simp only [Vacant, hsame]
  refine and_congr (by simp only [hsame]) ⟨fun h => ?_, fun h => ?_⟩
  · exact ⟨h.front, (hvacant m).1 h.vacant, fun a ha hva => h.least a ha ((hvacant a).2 hva)⟩
  · exact ⟨h.front, (hvacant m).2 h.vacant, fun a ha hva => h.least a ha ((hvacant a).1 hva)⟩

/-- **Distillation**: nothing represents an object that is a package, above one or beneath one, and any
other object is represented by the shortest of its fronts that is neither a package nor above one.  So it
matters only which names are packages, no package overlaps what comes out, and of two names that come out
neither contains the other. -/
theorem distillation_shallowest (packages : List ModuleName) (o : ModuleName) :
    (distilled? packages o = none ↔ ∃ p ∈ packages, o = p ∨ p.IsBeneath o ∨ o.IsBeneath p) ∧
    (∀ m, distilled? packages o = some m ↔
      (∀ p ∈ packages, ¬ o.Overlaps p) ∧ ShallowestVacant packages o m) ∧
    (∀ packages', (∀ p, p ∈ packages ↔ p ∈ packages') →
      distilled? packages o = distilled? packages' o) ∧
    ∀ m, distilled? packages o = some m → (∀ p ∈ packages, ¬ m.Overlaps p) ∧
      ∀ o' m', distilled? packages o' = some m' → m = m' ∨ ¬ m.Overlaps m' := by
  refine ⟨?_, fun m => distilled?_eq_some_iff, fun packages' hsame => distilled?_congr hsame o,
    fun m hm => ?_⟩
  · rw [distilled?_eq_none_iff]
    refine exists_congr fun p => and_congr_right fun _ => ?_
    rw [ModuleName.Overlaps, or_comm (a := o.IsBeneath p)]
  · have hclear := justClear_of_distilled? hm
    refine ⟨hclear.apart, fun o' m' hm' => ?_⟩
    have hclear' := justClear_of_distilled? hm'
    refine Classical.or_iff_not_imp_left.2 fun hne hover => ?_
    rcases hover with e | hbeneath | hbeneath
    · exact hne e
    · exact hclear'.not_isBeneath hclear hbeneath
    · exact hclear.not_isBeneath hclear' hbeneath

/-- The package in `foo.blue` asks for more than the one that has only `foo` in common. -/
example : (distilled? [⟨"foo.green", by decide +kernel⟩, ⟨"foo.blue.beta", by decide +kernel⟩]
    ⟨"foo.blue.alpha.one", by decide +kernel⟩).map (·.text) = some "foo.blue.alpha" := by
  decide +kernel

end Portions
end Resolution
end ImportAtlas
