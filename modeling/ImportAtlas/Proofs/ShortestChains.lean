import ImportAtlas.Graph.Architecture
import ImportAtlas.Graph.Change
import ImportAtlas.Proofs.Package
import ImportAtlas.Proofs.Rings
import ImportAtlas.Proofs.Veil
/-!
# All shortest chains between two packages

`Threads` says which chains count for one pair of members: those that meet neither package on the
way.  The search goes through the pairs with part of the graph out of sight, and what is in sight
for a pair is not the same in every round, since hiding the imports at one source takes along those
it shares with the goal.  It is always enough and never too much (`Opens`): every chain that counts
is in sight, and **a shortest walk among what is in sight meets neither package on the way**
(`threads_of_shortest`), because an import into a member that is not of the pair would come from
within its own package, or from an end of the chain.

So each round finds the shortest chains of its pair (`mem_shortestChainsBetween_iff`), and together
they are `mem_shortestChains_iff`.
-/
namespace ImportAtlas

open ImportAtlas.Graph (middleOf importsWithin importsTouching searchPairs searchChains Apart)

/-- The chain leads from `s` to `t` and has no module of either set in between. -/
def Threads (imports : List Import) (S T : NameSet) (s t : ModuleName) (c : Chain) : Prop :=
  Walk imports s t c ∧ ∀ m ∈ middleOf c, m ∉ S ∧ m ∉ T

/-- One of the shortest chains from `s` to `t` that have no module of either set in between. -/
def Shortest (imports : List Import) (S T : NameSet) (s t : ModuleName) (c : Chain) : Prop :=
  Threads imports S T s t c ∧ ∀ d, Threads imports S T s t d → c.length ≤ d.length

/-- The import stays inside one of the sets. -/
def Within (S T : NameSet) (i : Import) : Prop :=
  (i.importer ∈ S ∧ i.imported ∈ S) ∨ (i.importer ∈ T ∧ i.imported ∈ T)

/-- The import touches a member of one of the sets. -/
def AtMember (S T : NameSet) (i : Import) : Prop := ∃ m, (m ∈ S ∨ m ∈ T) ∧ i.Touches m

section Pair

variable {imports sight : List Import} {S T : NameSet} {s t m : ModuleName} {c : Chain}

theorem Walk.eq_ends_middle (h : Walk imports s t c) (hst : s ≠ t) :
    c = s :: (middleOf c ++ [t]) :=
  h.eq_cons_append (h.two_le_length hst)

/-- Enough is in sight for the pair and not too much: every import that stays inside neither package
and touches none of their members but the pair, and of those that touch a member only such as touch
one of the pair. -/
structure Opens (imports : List Import) (S T : NameSet) (s t : ModuleName)
    (sight : List Import) : Prop where
  enough : ∀ i ∈ imports, ¬ Within S T i →
    (∀ m, m ∈ S ∨ m ∈ T → i.Touches m → m = s ∨ m = t) → i ∈ sight
  mem_imports : ∀ i ∈ sight, i ∈ imports
  not_within : ∀ i ∈ sight, ¬ Within S T i
  of_pair : ∀ i ∈ sight, AtMember S T i → i.Touches s ∨ i.Touches t

theorem Opens.walk_of_threads (ho : Opens imports S T s t sight) (hs : s ∉ T) (ht : t ∉ S)
    (hst : s ≠ t) (h : Threads imports S T s t c) : Walk sight s t c := by
  obtain ⟨hw, hmid⟩ := h
  refine hw.of_hops fun i hi => ?_
  have hends := mem_of_mem_hops hi
  rw [hw.eq_ends_middle hst] at hends
  have himporter : i.importer = s ∨ i.importer ∈ middleOf c := by
    have := hends.1
    rw [← List.cons_append, List.dropLast_concat] at this
    exact List.mem_cons.1 this
  have himported : i.imported ∈ middleOf c ∨ i.imported = t :=
    (List.mem_append.1 hends.2).imp id List.mem_singleton.1
  refine ho.enough i (hw.hops_subset i hi) ?_ ?_
  · rintro (⟨-, hS⟩ | ⟨hT, -⟩)
    · rcases himported with h | h
      · exact (hmid _ h).1 hS
      · exact ht (h ▸ hS)
    · rcases himporter with h | h
      · exact hs (h ▸ hT)
      · exact (hmid _ h).2 hT
  · rintro m hm (rfl | rfl)
    · exact himporter.imp id fun h => (hm.elim (hmid _ h).1 (hmid _ h).2).elim
    · exact himported.elim (fun h => (hm.elim (hmid _ h).1 (hmid _ h).2).elim) .inr

theorem Walk.exists_around (h : Walk imports s t c) (hst : s ≠ t) (hm : m ∈ middleOf c) :
    ∃ pre x y post, c = pre ++ x :: m :: y :: post := by
  obtain ⟨before, after, hmid⟩ := List.append_of_mem hm
  obtain ⟨pre, x, hpre⟩ : ∃ pre x, s :: before = pre ++ [x] :=
    ⟨_, _, (List.dropLast_concat_getLast (List.cons_ne_nil s before)).symm⟩
  obtain ⟨y, post, hpost⟩ : ∃ y post, after ++ [t] = y :: post :=
    List.exists_cons_of_ne_nil (by simp)
  refine ⟨pre, x, y, post, ?_⟩
  calc c = (s :: before) ++ m :: (after ++ [t]) := by
        rw [h.eq_ends_middle hst, hmid, List.append_assoc]; rfl
    _ = pre ++ x :: m :: y :: post := by
        rw [hpre, hpost, List.append_assoc, List.singleton_append]

/-- **A shortest walk in sight meets neither package on the way.**  It is at neither end a second
time, so an import at a member in between would have to lead from the source into its own package,
or from the goal's package to the goal. -/
theorem Opens.threads_of_shortest (ho : Opens imports S T s t sight) (hs : s ∈ S) (ht : t ∈ T)
    (hdisjoint : ∀ m, m ∈ S → m ∉ T) (hw : Walk sight s t c)
    (hshort : ∀ d, Walk sight s t d → c.length ≤ d.length) : Threads imports S T s t c := by
  have hst : s ≠ t := fun e => hdisjoint s hs (e ▸ ht)
  refine ⟨hw.mono ho.mem_imports, fun m hm => ?_⟩
  obtain ⟨pre, x, y, post, rfl⟩ := hw.exists_around hst hm
  have hin : (⟨x, m⟩ : Import) ∈ sight := hw.hops_subset _ (mem_hops_append pre (y :: post) x m)
  have hxt : x ≠ t := hw.ne_end_of_shortest hshort (by simp)
  -- the same row, cut at `m` and at `y`
  have hrow : pre ++ x :: m :: y :: post = (pre ++ [x]) ++ m :: y :: post := by simp
  have hrow' : pre ++ x :: m :: y :: post = (pre ++ [x, m]) ++ y :: post := by simp
  have hout : (⟨m, y⟩ : Import) ∈ sight :=
    hw.hops_subset _ (hrow ▸ mem_hops_append (pre ++ [x]) post m y)
  have hmt : m ≠ t := by
    rw [hrow] at hw hshort
    exact hw.ne_end_of_shortest hshort (by simp)
  have hms : m ≠ s := by
    rw [hrow] at hw hshort
    exact hw.ne_start_of_shortest hshort (by simp)
  have hys : y ≠ s := by
    rw [hrow'] at hw hshort
    exact hw.ne_start_of_shortest hshort (by simp)
  constructor
  · intro hmS
    rcases ho.of_pair _ hin ⟨m, .inl hmS, .inr rfl⟩ with (hx | hx) | (hx | hx)
    · exact ho.not_within _ hin (.inl ⟨hx ▸ hs, hmS⟩)
    · exact hms hx
    · exact hxt hx
    · exact hmt hx
  · intro hmT
    rcases ho.of_pair _ hout ⟨m, .inr hmT, .inl rfl⟩ with (hy | hy) | (hy | hy)
    · exact hms hy
    · exact hys hy
    · exact hmt hy
    · exact ho.not_within _ hout (.inr ⟨hmT, hy ▸ ht⟩)

/-- **The search of a pair, among what is in sight for it, finds its shortest chains.** -/
theorem Opens.mem_shortestChainsBetween_iff (ho : Opens imports S T s t sight) (hs : s ∈ S)
    (ht : t ∈ T) (hdisjoint : ∀ m, m ∈ S → m ∉ T) :
    c ∈ shortestChainsBetween sight s t ↔ Shortest imports S T s t c := by
  have hst : s ≠ t := fun e => hdisjoint s hs (e ▸ ht)
  have hsight {d : Chain} (hd : Threads imports S T s t d) : Walk sight s t d :=
    ho.walk_of_threads (hdisjoint s hs) (fun h => hdisjoint t h ht) hst hd
  rw [mem_shortestChainsBetween hst]
  constructor
  · rintro ⟨hw, hshort⟩
    exact ⟨ho.threads_of_shortest hs ht hdisjoint hw hshort, fun d hd => hshort d (hsight hd)⟩
  · rintro ⟨hc, hleast⟩
    refine ⟨hsight hc, fun d hd => ?_⟩
    obtain ⟨e, he, hshort⟩ := hd.exists_shortest
    exact Nat.le_trans (hleast e (ho.threads_of_shortest hs ht hdisjoint he hshort)) (hshort d hd)

end Pair

/-! ## What is hidden from round to round -/

section Rounds

variable {g : Graph} {S T : NameSet} {s t : ModuleName} {hidden : List Import} {i : Import}

theorem Within.atMember (h : Within S T i) : AtMember S T i :=
  h.elim (fun h => ⟨_, .inl h.1, .inl rfl⟩) fun h => ⟨_, .inr h.1, .inl rfl⟩

/-- Before and after the rounds of a goal: the imports at members are hidden, and no others. -/
def HidesMembers (g : Graph) (S T : NameSet) (hidden : List Import) : Prop :=
  ∀ i ∈ g.imports, i ∈ hidden ↔ AtMember S T i

/-- Between the rounds of the goal `t`: of the imports at members only some at `t` are in sight, and
the hidden ones at `t` stay within a package or are at a source too. -/
structure GoalOpen (g : Graph) (S T : NameSet) (t : ModuleName) (hidden : List Import) : Prop where
  atMember : ∀ i ∈ g.imports, i ∈ hidden → AtMember S T i
  at_source : ∀ i ∈ g.imports, i ∈ hidden → i.Touches t → Within S T i ∨ ∃ s ∈ S, i.Touches s
  in_sight : ∀ i ∈ g.imports, i ∉ hidden → AtMember S T i → ¬ Within S T i ∧ i.Touches t

variable {touching : ModuleName → List Import}
  (htouching : ∀ m i, i ∈ touching m ↔ i ∈ g.imports ∧ ¬ Within S T i ∧ i.Touches m)

include htouching

theorem HidesMembers.reveal_goal (h : HidesMembers g S T hidden) (t : ModuleName) :
    GoalOpen g S T t (hidden.filter fun i => decide (i ∉ touching t)) where
  atMember i hi hh := (h i hi).1 (mem_stillHidden.1 hh).1
  at_source i hi hh ht := by
    by_cases hw : Within S T i
    · exact .inl hw
    · exact ((mem_stillHidden.1 hh).2 ((htouching t i).2 ⟨hi, hw, ht⟩)).elim
  in_sight i hi hh hm := by
    rcases notMem_stillHidden.1 hh with hh | htouch
    · exact (hh ((h i hi).2 hm)).elim
    · exact ((htouching t i).1 htouch).2

theorem GoalOpen.opens (h : GoalOpen g S T t hidden) (ht : t ∉ S) (s : ModuleName) :
    Opens g.importList S T s t (g.inSight (hidden.filter fun i => decide (i ∉ touching s))) where
  enough i hi hw hpair := by
    have hi := Graph.mem_importList.1 hi
    refine Graph.mem_inSight.2 ⟨hi, fun hh => ?_⟩
    obtain ⟨hh, hnot⟩ := mem_stillHidden.1 hh
    have hs : ¬ i.Touches s := fun hs => hnot ((htouching s i).2 ⟨hi, hw, hs⟩)
    obtain ⟨m, hm, hmi⟩ := h.atMember i hi hh
    have hti : i.Touches t := (hpair m hm hmi).elim (fun e => (hs (e ▸ hmi)).elim) fun e => e ▸ hmi
    rcases h.at_source i hi hh hti with hw' | ⟨s', hs'S, hs'i⟩
    · exact hw hw'
    · rcases hpair s' (.inl hs'S) hs'i with rfl | rfl
      · exact hs hs'i
      · exact ht hs'S
  mem_imports i hi := Graph.mem_importList.2 (Graph.mem_inSight.1 hi).1
  not_within i hi hw := by
    obtain ⟨hi, hh⟩ := Graph.mem_inSight.1 hi
    rcases notMem_stillHidden.1 hh with hh | htouch
    · exact (h.in_sight i hi hh hw.atMember).1 hw
    · exact ((htouching s i).1 htouch).2.1 hw
  of_pair i hi hm := by
    obtain ⟨hi, hh⟩ := Graph.mem_inSight.1 hi
    rcases notMem_stillHidden.1 hh with hh | htouch
    · exact .inr (h.in_sight i hi hh hm).2
    · exact .inl ((htouching s i).1 htouch).2.2

theorem GoalOpen.hide_source (h : GoalOpen g S T t hidden) (hs : s ∈ S) :
    GoalOpen g S T t ((hidden.filter fun i => decide (i ∉ touching s)) ++ touching s) where
  atMember i hi hh := by
    rcases List.mem_append.1 hh with hh | hh
    · exact h.atMember i hi (mem_stillHidden.1 hh).1
    · exact ⟨s, .inl hs, ((htouching s i).1 hh).2.2⟩
  at_source i hi hh hti := by
    rcases List.mem_append.1 hh with hh | hh
    · exact h.at_source i hi (mem_stillHidden.1 hh).1 hti
    · exact .inr ⟨s, hs, ((htouching s i).1 hh).2.2⟩
  in_sight i hi hh hm := by
    rw [List.mem_append, not_or, notMem_stillHidden] at hh
    exact h.in_sight i hi (hh.1.resolve_right hh.2) hm

theorem GoalOpen.hide_goal (h : GoalOpen g S T t hidden) (ht : t ∈ T) :
    HidesMembers g S T (hidden ++ touching t) := by
  intro i hi
  rw [List.mem_append]
  constructor
  · rintro (hh | hh)
    · exact h.atMember i hi hh
    · exact ⟨t, .inr ht, ((htouching t i).1 hh).2.2⟩
  · intro hm
    by_cases hh : i ∈ hidden
    · exact .inl hh
    · exact .inr ((htouching t i).2 ⟨hi, h.in_sight i hi hh hm⟩)

end Rounds

/-! ## The search -/

section Search

variable {g : Graph} {S T : NameSet} {s t : ModuleName} {touching : ModuleName → List Import}

open Veiled (Ensures)

/-- One round: the pair's imports come into sight, it is searched, and those at the source go out
again. -/
theorem ensures_pair {hidden : List Import} (hdisjoint : ∀ m, m ∈ S → m ∉ T)
    (htouching : ∀ m i, i ∈ touching m ↔ i ∈ g.imports ∧ ¬ Within S T i ∧ i.Touches m)
    (hs : s ∈ S) (ht : t ∈ T) (h : GoalOpen g S T t hidden) :
    Ensures g hidden (do
      Veiled.reveal (touching s)
      let chains := shortestChainsBetween (← Veiled.imports) s t
      Veiled.hide (touching s)
      return chains) fun chains hidden' =>
        (∀ c, c ∈ chains ↔ Shortest g.importList S T s t c) ∧ GoalOpen g S T t hidden' := by
  have htS : t ∉ S := fun h => hdisjoint t h ht
  refine .bind (.reveal (.bind (.imports (.bind (.hide (.pure ⟨fun c => ?_, ?_⟩))))))
  · exact (h.opens htouching htS s).mem_shortestChainsBetween_iff hs ht hdisjoint
  · exact h.hide_source htouching hs

/-- **The rounds find the shortest chains of every pair.** -/
theorem ensures_searchPairs {hidden : List Import} (hdisjoint : ∀ m, m ∈ S → m ∉ T)
    (htouching : ∀ m i, i ∈ touching m ↔ i ∈ g.imports ∧ ¬ Within S T i ∧ i.Touches m)
    (h : HidesMembers g S T hidden) :
    Ensures g hidden (searchPairs touching S.toList T.toList) fun chains _ =>
      ∀ c, c ∈ chains ↔ ∃ t ∈ T, ∃ s ∈ S, Shortest g.importList S T s t c := by
  refine .bind ((Ensures.mapM_flatten (I := HidesMembers g S T)
    (F := fun t c => ∃ s ∈ S, Shortest g.importList S T s t c)
    (fun t ht hidden h => ?_) h).mono fun bss _ hbss => .pure ?_)
  · have ht : t ∈ T := Std.ExtTreeSet.mem_toList.1 ht
    refine .bind (.reveal (.bind ((Ensures.mapM_flatten (I := GoalOpen g S T t)
      (F := fun s c => Shortest g.importList S T s t c) (fun s hs hidden h => ?_)
      (h.reveal_goal htouching t)).mono fun css _ hcss => .bind (.hide (.pure ⟨?_, ?_⟩)))))
    · exact ensures_pair hdisjoint htouching (Std.ExtTreeSet.mem_toList.1 hs) ht h
    · intro c
      rw [hcss.1]
      simp only [Std.ExtTreeSet.mem_toList]
    · exact hcss.2.hide_goal htouching ht
  · intro c
    rw [hbss.1]
    simp only [Std.ExtTreeSet.mem_toList]

theorem mem_importsWithin_append {i : Import} :
    i ∈ importsWithin g.importList S ++ importsWithin g.importList T ↔
      i ∈ g.imports ∧ Within S T i := by
  rw [List.mem_append, Graph.mem_importsWithin, Graph.mem_importsWithin, Graph.mem_importList,
    ← and_or_left, Within]

theorem mem_importsTouching_crossing (m : ModuleName) (i : Import) :
    i ∈ importsTouching (g.inSight (importsWithin g.importList S ++ importsWithin g.importList T)) m ↔
      i ∈ g.imports ∧ ¬ Within S T i ∧ i.Touches m := by
  rw [Graph.mem_importsTouching, Graph.mem_inSight, mem_importsWithin_append, and_assoc]
  exact and_congr_right fun hi => and_congr_left fun _ => not_congr (and_iff_right hi)

/-- When the rounds begin, what is inside the packages and what touches them is all hidden. -/
theorem hidesMembers_start (g : Graph) (S T : NameSet) : HidesMembers g S T
    (importsWithin g.importList S ++ importsWithin g.importList T ++
      (S.toList ++ T.toList).flatMap (importsTouching
        (g.inSight (importsWithin g.importList S ++ importsWithin g.importList T)))) := by
  intro i hi
  rw [List.mem_append, mem_importsWithin_append, List.mem_flatMap]
  constructor
  · rintro (⟨-, hw⟩ | ⟨m, hm, htouch⟩)
    · exact hw.atMember
    · refine ⟨m, ?_, ((mem_importsTouching_crossing m i).1 htouch).2.2⟩
      simpa [Std.ExtTreeSet.mem_toList] using hm
  · rintro ⟨m, hm, htouch⟩
    by_cases hw : Within S T i
    · exact .inl ⟨hi, hw⟩
    · refine .inr ⟨m, ?_, (mem_importsTouching_crossing m i).2 ⟨hi, hw, htouch⟩⟩
      simpa [Std.ExtTreeSet.mem_toList] using hm

/-- **The search finds the shortest chains of every pair of members.** -/
theorem ensures_searchChains (hdisjoint : ∀ m, m ∈ S → m ∉ T) :
    Ensures g [] (searchChains S T) fun chains _ =>
      ∀ c, c ∈ chains ↔ ∃ t ∈ T, ∃ s ∈ S, Shortest g.importList S T s t c := by
  refine .bind (.imports ?_)
  rw [Graph.inSight_nil]
  by_cases hnone : (leastChain? g.importList S T).isNone
  · rw [if_pos hnone]
    refine .pure fun c => ⟨fun h => (List.not_mem_nil h).elim, ?_⟩
    rintro ⟨t, ht, s, hs, ⟨hw, -⟩, -⟩
    have hst : s ≠ t := fun e => hdisjoint s hs (e ▸ ht)
    exact (leastChain?_eq_none_iff.1 (Option.isNone_iff_eq_none.1 hnone) c
      ⟨s, hs, t, ht, hw, hw.two_le_length hst⟩).elim
  · rw [if_neg hnone]
    refine .bind (.hide (.bind (.imports (.bind (.hideEach ?_)))))
    exact ensures_searchPairs hdisjoint mem_importsTouching_crossing (hidesMembers_start g S T)

end Search

/-! ## The answer -/

namespace Graph

variable {g : Graph} {a b : ModuleName} {importer imported : String} {asPackages : Bool}

theorem disjoint_eq_ok_iff : disjoint a b = .ok () ↔ ¬ a.Overlaps b := by
  unfold disjoint
  split <;> simp_all

theorem shortestChainsAfter_of_apart (ha : g.present importer = .ok a)
    (hb : g.present imported = .ok b) (h : Apart asPackages a b) :
    g.shortestChainsAfter importer imported asPackages =
      (.ok (.ofList (g.veiled (searchChains (g.extent asPackages a) (g.extent asPackages b))).1),
        (g.veiled (searchChains (g.extent asPackages a) (g.extent asPackages b))).2) := by
  unfold shortestChainsAfter
  cases asPackages with
  | true =>
    have hd : disjoint a b = .ok () := disjoint_eq_ok_iff.2 h
    simp only [ha, hb, bind, Except.bind, hd, if_true]
    rfl
  | false =>
    have hne : a ≠ b := h
    simp only [ha, hb, bind, Except.bind, if_neg hne]
    rfl

/-- A question about all shortest chains is about two such modules, or it is refused and nothing is
searched. -/
theorem shortestChainsAfter_cases (g : Graph) (importer imported : String) (asPackages : Bool) :
    (∃ a b, g.present importer = .ok a ∧ g.present imported = .ok b ∧ Apart asPackages a b) ∨
      ∃ e, g.shortestChainsAfter importer imported asPackages = (.error e, g) := by
  cases ha : g.present importer with
  | error e => exact .inr ⟨e, by simp only [shortestChainsAfter, ha]; rfl⟩
  | ok a =>
    cases hb : g.present imported with
    | error e => exact .inr ⟨e, by simp only [shortestChainsAfter, ha, hb]; rfl⟩
    | ok b =>
      by_cases h : Apart asPackages a b
      · exact .inl ⟨a, b, rfl, rfl, h⟩
      · cases asPackages with
        | true =>
          have hd : disjoint a b = .error (.sharedDescendants a.text b.text) :=
            if_pos (Decidable.not_not.1 h)
          refine .inr ⟨.sharedDescendants a.text b.text, ?_⟩
          simp only [shortestChainsAfter, ha, hb, bind, Except.bind, hd, if_true]
        | false =>
          have hab : a = b := Decidable.not_not.1 h
          refine .inr ⟨.sharedDescendants importer imported, ?_⟩
          simp only [shortestChainsAfter, ha, hb, bind, Except.bind, if_pos hab]
          rfl

/-- **All shortest chains.**  About two present modules that may be asked about together, the answer
is the set of all chains from a member of the one package to a member of the other that meet neither
package in between and are shortest among those between the same two members. -/
theorem mem_shortestChains_iff (g : Graph) (ha : a ∈ g.modules) (hb : b ∈ g.modules)
    (hapart : Apart asPackages a b) :
    ∃ chains, g.shortestChains a.text b.text asPackages = .ok chains ∧ ∀ c, c ∈ chains ↔
      ∃ s ∈ g.extent asPackages a, ∃ t ∈ g.extent asPackages b,
        Shortest g.importList (g.extent asPackages a) (g.extent asPackages b) s t c := by
  have hdisjoint : ∀ m, m ∈ g.extent asPackages a → m ∉ g.extent asPackages b :=
    fun m => notMem_extent_of_apart hapart
  have hfound := (ensures_searchChains (g := g) hdisjoint).answer
  refine ⟨_, congrArg Prod.fst
    (shortestChainsAfter_of_apart (present_text ha) (present_text hb) hapart), fun c => ?_⟩
  rw [Std.ExtTreeSet.mem_ofList, List.contains_iff_mem, hfound]
  constructor
  · rintro ⟨t, ht, s, hs, h⟩
    exact ⟨s, hs, t, ht, h⟩
  · rintro ⟨s, hs, t, ht, h⟩
    exact ⟨t, ht, s, hs, h⟩

/-- A package of which one member imports the goal and the other reaches it through a third
module. -/
def forked : Graph :=
  ofEdits [.addImport "p" "m", .addImport "m" "q", .addImport "p.x" "q"]

/-- The chain of the member further away is not covered up by that of the nearer one. -/
theorem mem_shortestChains_forked : ∃ p m q : ModuleName,
    p ∈ forked.modules ∧ q ∈ forked.modules ∧ Apart true p q ∧
      ∃ chains, forked.shortestChains p.text q.text true = .ok chains ∧ [p, m, q] ∈ chains := by
  let p : ModuleName := ⟨"p", by decide⟩
  let m : ModuleName := ⟨"m", by decide⟩
  let q : ModuleName := ⟨"q", by decide⟩
  have hp : p ∈ forked.modules := by decide +kernel
  have hq : q ∈ forked.modules := by decide +kernel
  have hpq : Apart true p q := show ¬ p.Overlaps q by decide +kernel
  obtain ⟨chains, hok, hchains⟩ := mem_shortestChains_iff forked hp hq hpq
  have hw : Walk forked.importList p q [p, m, q] :=
    .step (by decide +kernel) (.step (by decide +kernel) (.here q))
  refine ⟨p, m, q, hp, hq, hpq, chains, hok, (hchains _).2 ⟨p, mem_closure_self hp, q,
    mem_closure_self hq, ⟨hw, by decide +kernel⟩, fun d ⟨hd, _⟩ => ?_⟩⟩
  have htwo := hd.two_le_length (by decide +kernel)
  have hne : d.length ≠ 2 := fun h => absurd (hd.mem_of_length_two h) (by decide +kernel)
  exact Nat.lt_of_le_of_ne htwo hne.symm

end Graph
end ImportAtlas
