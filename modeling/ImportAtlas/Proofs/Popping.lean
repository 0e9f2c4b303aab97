import Mathlib.Data.List.Perm.Subperm
import ImportAtlas.Graph.Architecture
import ImportAtlas.Proofs.Rings
import ImportAtlas.Proofs.Veil
/-!
# Popping middles, round by round

The search for longer routes takes the least chain in sight, notes its middle, hides all that its
route consists of, from any head to any tail, and goes on with what is left.  `Rounds` follows it
veil by veil, with no bound on how long it goes on.

Imports straight from one package into the other are out of sight before the first round and stay
there (`Rounds.uncrossed`).  So a chain that is found has a middle, and its first and its last import
are two, for one that was both would lead straight across.  **Each round takes at least these two out
of sight** (`Uncrossed.importCount_pop`), there are at most half as many rounds as imports
(`Rounds.two_mul_length_le`), and what ends them is that no chain is left
(`Graph.exists_rounds_search`).
-/
namespace ImportAtlas

open ImportAtlas.Graph (middleOf crossings importsTouching popMiddles searchMiddles)

/-! ## The imports of a route -/

namespace Route

variable {r : Route} {first last : ModuleName} {i j : Import}

theorem mem_imports (hfirst : r.middle.head? = some first) (hlast : r.middle.getLast? = some last) :
    i ∈ r.imports ↔ (i.importer ∈ r.heads ∧ i.imported = first) ∨ i ∈ hops r.middle ∨
      (i.importer = last ∧ i.imported ∈ r.tails) := by
  obtain ⟨importer, imported⟩ := i
  rw [imports, hfirst, hlast]
  simp only [List.mem_append, List.mem_map, Import.mk.injEq, hops, or_assoc]
  refine or_congr ?_ (or_congr_right ?_)
  · constructor
    · rintro ⟨h, hh, rfl, rfl⟩
      exact ⟨hh, rfl⟩
    · rintro ⟨hh, rfl⟩
      exact ⟨_, hh, rfl, rfl⟩
  · constructor
    · rintro ⟨t, ht, rfl, rfl⟩
      exact ⟨rfl, ht⟩
    · rintro ⟨rfl, ht⟩
      exact ⟨_, ht, rfl, rfl⟩

theorem mem_imports_direct : i ∈ (direct j).imports ↔ i = j := by
  simp [imports, direct]

end Route

/-- All that a round hides for a middle: its route with any head and any tail. -/
def widest (heads tails : NameSet) (middle : Chain) : Route := ⟨heads.toList, middle, tails.toList⟩

section Middles

variable {heads tails : NameSet} {middle c : Chain} {first last : ModuleName}

theorem exists_ends (h : middle ≠ []) :
    ∃ first last, middle.head? = some first ∧ middle.getLast? = some last :=
  ⟨_, _, List.head?_eq_some_head h, List.getLast?_eq_some_getLast h⟩

/-- The hops of a chain into its middle, along it and out of it. -/
theorem hops_around_middle {sight : List Import} (hc : Joins sight heads tails c)
    (hfirst : (middleOf c).head? = some first) (hlast : (middleOf c).getLast? = some last) :
    ∃ s ∈ heads, ∃ t ∈ tails, ⟨s, first⟩ ∈ sight ∧ (∀ i ∈ hops (middleOf c), i ∈ sight) ∧
      ⟨last, t⟩ ∈ sight := by
  obtain ⟨s, hs, t, ht, hw, hlen⟩ := hc
  have hrow : c = s :: (middleOf c ++ [t]) := hw.eq_cons_append hlen
  generalize middleOf c = middle at hfirst hlast hrow
  obtain ⟨rest, hrest⟩ := List.head?_eq_some_iff.1 hfirst
  obtain ⟨front, hfront⟩ := List.getLast?_eq_some_iff.1 hlast
  refine ⟨s, hs, t, ht, hw.hops_subset _ (mem_hops_iff.2 ⟨[], rest ++ [t], ?_⟩), fun i hi => ?_,
    hw.hops_subset _ (mem_hops_iff.2 ⟨s :: front, [], ?_⟩)⟩
  · rw [hrow, hrest]
    rfl
  · obtain ⟨p, q, hmiddle⟩ := mem_hops_iff.1 hi
    refine hw.hops_subset _ (mem_hops_iff.2 ⟨s :: p, q ++ [t], ?_⟩)
    rw [hrow, hmiddle]
    simp
  · rw [hrow, hfront]
    simp

theorem crossing_of_middleOf_nil {sight : List Import} (hc : Joins sight heads tails c)
    (h : middleOf c = []) : ∃ i ∈ sight, i.importer ∈ heads ∧ i.imported ∈ tails := by
  obtain ⟨s, hs, t, ht, hw, hlen⟩ := hc
  have hrow := hw.eq_cons_append hlen
  rw [show c.tail.dropLast = [] from h] at hrow
  exact ⟨⟨s, t⟩, hw.mem_of_length_two (by rw [hrow]; rfl), hs, ht⟩

end Middles

/-! ## Rounds -/

/-- No import in sight leads straight from the one package into the other. -/
def Uncrossed (heads tails : NameSet) (v : Veil) : Prop :=
  ∀ i ∈ v.visible.imports, ¬ (i.importer ∈ heads ∧ i.imported ∈ tails)

/-- The veil after a round that came upon the chain. -/
def Veil.pop (heads tails : NameSet) (v : Veil) (c : Chain) : Veil :=
  v.hide (widest heads tails (middleOf c)).imports

/-- Rounds one after the other, with the chains they come upon and the veil they leave. -/
inductive Rounds (heads tails : NameSet) : Veil → List Chain → Veil → Prop where
  | none (v : Veil) : Rounds heads tails v [] v
  | more {v last : Veil} {c : Chain} {chains : List Chain}
    (found : leastChain? v.visible.importList heads tails = some c)
    (rest : Rounds heads tails (v.pop heads tails c) chains last) : Rounds heads tails v (c :: chains) last

section Popping

variable {heads tails : NameSet} {v last : Veil} {c : Chain} {chains : List Chain} {i : Import}

theorem mem_visible_pop : i ∈ (v.pop heads tails c).visible.imports ↔
    i ∈ v.visible.imports ∧ i ∉ (widest heads tails (middleOf c)).imports :=
  Veil.mem_visible_hide

theorem Uncrossed.pop (h : Uncrossed heads tails v) (c : Chain) : Uncrossed heads tails (v.pop heads tails c) := by
  intro i hi
  exact h i (mem_visible_pop.1 hi).1

theorem Uncrossed.middleOf_ne_nil (h : Uncrossed heads tails v) (hc : Joins v.visible.importList heads tails c) :
    middleOf c ≠ [] := by
  intro hnil
  obtain ⟨i, hi, hends⟩ := crossing_of_middleOf_nil hc hnil
  exact h i (Graph.mem_importList.1 hi) hends

theorem three_le_length (h : middleOf c ≠ []) : 3 ≤ c.length := by
  have hpos := List.length_pos_iff.2 h
  unfold middleOf at hpos
  simp only [List.length_dropLast, List.length_tail] at hpos
  omega

/-- **A round takes two imports out of sight**: the one into the middle and the one out of it. -/
theorem Uncrossed.importCount_pop (h : Uncrossed heads tails v) (hc : Joins v.visible.importList heads tails c) :
    (v.pop heads tails c).visible.importCount + 2 ≤ v.visible.importCount := by
  obtain ⟨first, last, hfirst, hlast⟩ := exists_ends (h.middleOf_ne_nil hc)
  obtain ⟨s, hs, t, ht, hinto, -, hout⟩ := hops_around_middle hc hfirst hlast
  have hne : (⟨s, first⟩ : Import) ≠ ⟨last, t⟩ := by
    intro e
    have hfirst_eq : first = t := congrArg Import.imported e
    exact h _ (Graph.mem_importList.1 hinto) ⟨hs, hfirst_eq ▸ ht⟩
  have hwidest : ∀ i, i ∈ (widest heads tails (middleOf c)).imports ↔ _ :=
    fun i => Route.mem_imports hfirst hlast
  have hinto_popped : (⟨s, first⟩ : Import) ∈ (widest heads tails (middleOf c)).imports :=
    (hwidest _).2 (.inl ⟨Std.ExtTreeSet.mem_toList.2 hs, rfl⟩)
  have hout_popped : (⟨last, t⟩ : Import) ∈ (widest heads tails (middleOf c)).imports :=
    (hwidest _).2 (.inr (.inr ⟨rfl, Std.ExtTreeSet.mem_toList.2 ht⟩))
  -- the two and what is left in sight are so many different imports that were in sight before
  have hleft : ∀ i, i ∈ (v.pop heads tails c).visible.importList →
      i ∈ v.visible.importList ∧ i ∉ (widest heads tails (middleOf c)).imports := by
    intro i hi
    rw [Graph.mem_importList] at hi ⊢
    exact mem_visible_pop.1 hi
  have hnodup : (⟨s, first⟩ :: ⟨last, t⟩ :: (v.pop heads tails c).visible.importList).Nodup := by
    refine List.nodup_cons.2 ⟨?_, List.nodup_cons.2 ⟨?_, Graph.nodup_importList _⟩⟩
    · intro hmem
      rcases List.mem_cons.1 hmem with e | hmem
      · exact hne e
      · exact (hleft _ hmem).2 hinto_popped
    · intro hmem
      exact (hleft _ hmem).2 hout_popped
  have hsubset : (⟨s, first⟩ :: ⟨last, t⟩ :: (v.pop heads tails c).visible.importList) ⊆
      v.visible.importList := by
    intro i hi
    rcases List.mem_cons.1 hi with rfl | hi
    · exact hinto
    · rcases List.mem_cons.1 hi with rfl | hi
      · exact hout
      · exact (hleft i hi).1
  have hle := (List.subperm_of_subset hnodup hsubset).length_le
  rwa [List.length_cons, List.length_cons, Graph.length_importList, Graph.length_importList] at hle

theorem Rounds.uncrossed (h : Rounds heads tails v chains last) (hv : Uncrossed heads tails v) :
    Uncrossed heads tails last := by
  induction h with
  | none v => exact hv
  | more _ _ ih => exact ih (hv.pop _)

/-- **There are at most half as many rounds as imports in sight.** -/
theorem Rounds.two_mul_length_le (h : Rounds heads tails v chains last) (hv : Uncrossed heads tails v) :
    2 * chains.length + last.visible.importCount ≤ v.visible.importCount := by
  induction h with
  | none v => simp
  | more found _ ih =>
    have hround := hv.importCount_pop (joins_of_leastChain? found)
    have hrest := ih (hv.pop _)
    simp only [List.length_cons]
    omega

theorem run_imports (v : Veil) : Veiled.imports.run v = (v.visible.importList, v) := rfl

theorem run_popMiddles_of_none {rounds : Nat} (h : leastChain? v.visible.importList heads tails = .none) :
    (popMiddles heads tails rounds).run v = ([], v) := by
  cases rounds with
  | zero => rfl
  | succ rounds =>
    unfold popMiddles
    rw [StateT.run_bind, run_imports]
    show StateT.run _ _ = _
    simp only [h]
    rfl

theorem run_popMiddles_of_some {rounds : Nat} (h : leastChain? v.visible.importList heads tails = some c)
    (hmiddle : middleOf c ≠ []) :
    (popMiddles heads tails (rounds + 1)).run v =
      (middleOf c :: ((popMiddles heads tails rounds).run (v.pop heads tails c)).1,
        ((popMiddles heads tails rounds).run (v.pop heads tails c)).2) := by
  obtain ⟨first, rest, hm⟩ := List.exists_cons_of_ne_nil hmiddle
  conv => lhs; unfold popMiddles
  rw [StateT.run_bind, run_imports, Veil.pop]
  show StateT.run _ _ = _
  simp only [h, hm]
  rfl

theorem leastChain?_eq_none_of_importCount (h : v.visible.importCount = 0) :
    leastChain? v.visible.importList heads tails = .none := by
  have hnil : v.visible.importList = [] := by
    apply List.eq_nil_of_length_eq_zero
    rw [Graph.length_importList, h]
  rw [hnil, leastChain?_eq_none_iff]
  intro c hc
  obtain ⟨s, hs, t, ht, hw, hlen⟩ := hc
  cases hw with
  | here => simp at hlen
  | step hi _ => cases hi

/-- **The search runs rounds until no chain is left**, if it may make one for every two imports in
sight. -/
theorem exists_rounds {rounds : Nat} (hv : Uncrossed heads tails v) (hrounds : v.visible.importCount ≤ 2 * rounds) :
    ∃ chains last, Rounds heads tails v chains last ∧
      leastChain? last.visible.importList heads tails = .none ∧
      (popMiddles heads tails rounds).run v = (chains.map middleOf, last) := by
  induction rounds generalizing v with
  | zero =>
    have hnone : leastChain? v.visible.importList heads tails = .none :=
      leastChain?_eq_none_of_importCount (by omega)
    exact ⟨[], v, .none v, hnone, run_popMiddles_of_none hnone⟩
  | succ rounds ih =>
    cases hleast : leastChain? v.visible.importList heads tails with
    | none => exact ⟨[], v, .none v, hleast, run_popMiddles_of_none hleast⟩
    | some c =>
      have hc := joins_of_leastChain? hleast
      have hround := hv.importCount_pop hc
      obtain ⟨chains, last, hrest, hnone, hrun⟩ := ih (hv.pop c) (by omega)
      refine ⟨c :: chains, last, .more hleast hrest, hnone, ?_⟩
      rw [run_popMiddles_of_some hleast (hv.middleOf_ne_nil hc), hrun]
      rfl

end Popping

/-! ## The whole search -/

namespace Graph

variable {g : Graph} {heads tails : NameSet} {members : List ModuleName} {avoided : List ModuleName} {m : ModuleName}

/-- The veil before the first round: out of sight is what leads straight from the one package into
the other, and what touches a member to be avoided. -/
def opening (g : Graph) (heads tails : NameSet) (members : List ModuleName) : Veil :=
  Veil.hide { visible := g } (crossings g.importList heads tails ++ members.flatMap (importsTouching g.importList))

/-- The members of the packages that a search keeps off. -/
def avoidedMembers (g : Graph) (avoided : List ModuleName) : List ModuleName :=
  (avoided.filter (· ∈ g.modules)).flatMap fun m => (g.closure m).toList

theorem mem_avoidedMembers :
    m ∈ g.avoidedMembers avoided ↔ ∃ e ∈ avoided, e ∈ g.modules ∧ m ∈ g.closure e := by
  simp only [avoidedMembers, List.mem_flatMap, List.mem_filter, decide_eq_true_eq,
    Std.ExtTreeSet.mem_toList, and_assoc]

theorem uncrossed_opening (g : Graph) (heads tails : NameSet) (members : List ModuleName) :
    Uncrossed heads tails (g.opening heads tails members) := by
  intro i hi hends
  obtain ⟨hi, hsight⟩ := Veil.mem_visible_hide.1 hi
  apply hsight
  exact List.mem_append_left _ (mem_crossings.2 ⟨mem_importList.2 hi, hends⟩)

theorem importCount_opening_le (g : Graph) (heads tails : NameSet) (members : List ModuleName) :
    (g.opening heads tails members).visible.importCount ≤ g.importCount := by
  have hsubset : (g.opening heads tails members).visible.importList ⊆ g.importList := by
    intro i hi
    rw [mem_importList] at hi ⊢
    exact (Veil.mem_visible_hide.1 hi).1
  have hle := (List.subperm_of_subset (nodup_importList _) hsubset).length_le
  rwa [length_importList, length_importList] at hle

theorem exists_rounds_search (g : Graph) (heads tails : NameSet) (members : List ModuleName) :
    ∃ chains last, Rounds heads tails (g.opening heads tails members) chains last ∧
      leastChain? last.visible.importList heads tails = .none ∧
      (searchMiddles heads tails members).run { visible := g } = (chains.map middleOf, last) := by
  have hbound : (g.opening heads tails members).visible.importCount ≤
      2 * (g.opening heads tails members).visible.importList.length := by
    rw [length_importList]
    omega
  exact exists_rounds (g.uncrossed_opening heads tails members) hbound

end Graph
end ImportAtlas
