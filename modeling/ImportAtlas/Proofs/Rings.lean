import ImportAtlas.Proofs.Walk
/-!
# What the searches find

Rings hold the modules at each distance from the goals (`onward_around`), so a descent through them
is a shortest walk.  From that come the two facts every question about chains is answered with: the
least chain is a shortest walk of one or more imports and is there if any such walk is
(`leastChain?_eq_none_iff`, `joins_of_leastChain?`, `length_le_of_leastChain?`), and the shortest
chains between two modules are all their shortest walks (`mem_shortestChainsBetween`).  What is in some
ring but the innermost reaches the goals from outside (`mem_reaching`).
-/
namespace ImportAtlas

open Rings

/-- A row of rings outward from distance `d`, with nothing beyond its last ring. -/
def Onward (imports : List Import) (goals : NameSet) : Nat → List NameSet → Prop
  | d, [] => ∀ m, ¬ AtDistance imports goals d m
  | d, ring :: rest =>
    (∀ m, m ∈ ring ↔ AtDistance imports goals d m) ∧ Onward imports goals (d + 1) rest

/-- A row of rings inward, down to the goals. -/
def Inward (imports : List Import) (goals : NameSet) : List NameSet → Prop
  | [] => True
  | ring :: inward =>
    (∀ m, m ∈ ring ↔ AtDistance imports goals inward.length m) ∧ Inward imports goals inward

section Laying

variable {imports all : List Import} {goals inner : NameSet} {d : Nat} {m : ModuleName}

theorem mem_importsInto {i : Import} :
    i ∈ importsInto imports inner ↔ i ∈ imports ∧ i.imported ∈ inner := by
  simp [importsInto, List.mem_filter, Std.ExtTreeSet.contains_iff_mem]

theorem mem_next : m ∈ next imports inner ↔ ∃ n, ⟨m, n⟩ ∈ imports ∧ n ∈ inner := by
  rw [next, NameSet.mem_ofList, List.mem_map]
  constructor
  · rintro ⟨i, hi, rfl⟩
    exact ⟨i.imported, mem_importsInto.1 hi⟩
  · rintro ⟨n, hi, hn⟩
    exact ⟨⟨m, n⟩, mem_importsInto.2 ⟨hi, hn⟩, rfl⟩

theorem mem_beyond {i : Import} : i ∈ beyond imports inner ↔ i ∈ imports ∧ i.importer ∉ inner := by
  simp [beyond, List.mem_filter, ← Std.ExtTreeSet.contains_iff_mem]

/-- The ring after the one at `d`, among the imports that nothing up to `d` makes. -/
theorem mem_next_iff (hinner : ∀ m, m ∈ inner ↔ AtDistance all goals d m)
    (himports : ∀ i, i ∈ imports ↔ i ∈ all ∧ ∀ j ≤ d, ¬ AtDistance all goals j i.importer) :
    m ∈ next imports inner ↔ AtDistance all goals (d + 1) m := by
  rw [mem_next, atDistance_succ_iff]
  constructor
  · rintro ⟨n, hi, hn⟩
    obtain ⟨ha, hfar⟩ := (himports _).1 hi
    exact ⟨hfar, n, ha, (hinner n).1 hn⟩
  · rintro ⟨hfar, n, ha, hn⟩
    exact ⟨n, (himports _).2 ⟨ha, hfar⟩, (hinner n).2 hn⟩

/-- Invariant of the laying out: `inner` is the ring at `d`, and the imports left are those that no
module up to `d` makes. -/
theorem onward_outward (imports : List Import) (inner : NameSet) : ∀ d,
    (∀ m, m ∈ inner ↔ AtDistance all goals d m) →
    (∀ i, i ∈ imports ↔ i ∈ all ∧ ∀ j ≤ d, ¬ AtDistance all goals j i.importer) →
    Onward all goals d (outward imports inner) := by
  induction imports, inner using outward.induct with
  | case1 imports inner h =>
    intro d hinner himports
    rw [outward, dif_pos h]
    refine ⟨hinner, fun m hm => ?_⟩
    obtain ⟨n, hi, hn⟩ := mem_next.1 ((mem_next_iff hinner himports).2 hm)
    have : (⟨m, n⟩ : Import) ∈ importsInto imports inner := mem_importsInto.2 ⟨hi, hn⟩
    rw [h] at this
    cases this
  | case2 imports inner h ih =>
    intro d hinner himports
    rw [outward, dif_neg h]
    refine ⟨hinner, ih (d + 1) (fun m => mem_next_iff hinner himports) fun i => ?_⟩
    rw [mem_beyond, himports, mem_next_iff hinner himports, and_assoc]
    refine and_congr_right fun _ => ⟨fun ⟨hle, hd⟩ j hj => ?_, fun hle => ?_⟩
    · by_cases hjd : j = d + 1
      · exact hjd ▸ hd
      · exact hle j (by omega)
    · exact ⟨fun j hj => hle j (by omega), hle (d + 1) (Nat.le_refl _)⟩

/-- **The rings around the goals are the distances from them.** -/
theorem onward_around (imports : List Import) (goals : NameSet) :
    Onward imports goals 0 (around imports goals) := by
  refine onward_outward _ _ 0 (fun m => atDistance_zero.symm) fun i => ?_
  rw [mem_beyond]
  simp [atDistance_zero]

end Laying

/-! ## Descents -/

section Descents

variable {imports : List Import} {goals : NameSet} {inward : List NameSet} {m : ModuleName}
  {c : Chain}

theorem mem_descents_cons {ring : NameSet} : c ∈ descents imports m (ring :: inward) ↔
    ∃ n, ⟨m, n⟩ ∈ imports ∧ n ∈ ring ∧ ∃ d ∈ descents imports n inward, c = m :: d := by
  rw [descents, List.mem_flatMap]
  constructor
  · rintro ⟨i, hi, hc⟩
    obtain ⟨d, hd, rfl⟩ := List.mem_map.1 hc
    obtain ⟨hmem, hcond⟩ := List.mem_filter.1 hi
    obtain ⟨rfl, hn⟩ : i.importer = m ∧ i.imported ∈ ring := by
      simpa [Std.ExtTreeSet.contains_iff_mem] using hcond
    exact ⟨i.imported, hmem, hn, d, hd, rfl⟩
  · rintro ⟨n, hi, hn, d, hd, rfl⟩
    refine ⟨⟨m, n⟩, List.mem_filter.2 ⟨hi, ?_⟩, List.mem_map.2 ⟨d, hd, rfl⟩⟩
    simpa [Std.ExtTreeSet.contains_iff_mem] using hn

/-- **From a module just outside the rings, the descents are its shortest walks.** -/
theorem mem_descents : ∀ {inward : List NameSet} {m : ModuleName} {c : Chain},
    Inward imports goals inward → AtDistance imports goals inward.length m →
    (c ∈ descents imports m inward ↔
      ∃ t ∈ goals, Walk imports m t c ∧ c.length = inward.length + 1)
  | [], m, c, _, hm => by
    rw [descents, List.mem_singleton]
    constructor
    · rintro rfl
      exact ⟨m, atDistance_zero.1 hm, .here m, rfl⟩
    · rintro ⟨t, -, hw, hc⟩
      obtain ⟨rest, rfl⟩ := hw.eq_cons
      rw [List.eq_nil_of_length_eq_zero (Nat.succ.inj hc)]
  | ring :: inward, m, c, ⟨hring, hin⟩, hm => by
    rw [mem_descents_cons]
    constructor
    · rintro ⟨n, hi, hn, d, hd, rfl⟩
      obtain ⟨t, ht, hw, hlen⟩ := (mem_descents hin ((hring n).1 hn)).1 hd
      exact ⟨t, ht, .step hi hw, by simp [hlen]⟩
    · rintro ⟨t, ht, hw, hlen⟩
      cases hw with
      | here => simp at hlen
      | @step _ n _ d hi hw =>
        have hlen' : d.length = inward.length + 1 := by simpa using hlen
        have hn : AtDistance imports goals inward.length n :=
          ⟨⟨t, ht, d, hw, hlen'⟩, fun j hj hnear =>
            hm.2 (j + 1) (by simp; omega) (near_succ.2 ⟨n, hi, hnear⟩)⟩
        exact ⟨n, hi, (hring n).2 hn, d, (mem_descents hin hn).2 ⟨t, ht, hw, hlen'⟩, rfl⟩

theorem walk_of_descent? : ∀ {inward : List NameSet} {m : ModuleName} {c : Chain},
    Inward imports goals inward → (inward = [] → m ∈ goals) → descent? imports m inward = some c →
    ∃ t ∈ goals, Walk imports m t c ∧ c.length = inward.length + 1
  | [], m, c, _, hm, h => by
    obtain rfl : [m] = c := by simpa [descent?] using h
    exact ⟨m, hm rfl, .here m, rfl⟩
  | ring :: inward, m, c, ⟨hring, hin⟩, _, h => by
    rw [descent?] at h
    obtain ⟨i, hi, h⟩ := Option.bind_eq_some_iff.1 h
    obtain ⟨c', hc', rfl⟩ := Option.map_eq_some_iff.1 h
    have hmem : i ∈ imports := List.mem_of_find?_eq_some hi
    obtain ⟨rfl, hn⟩ : i.importer = m ∧ i.imported ∈ ring := by
      simpa [Std.ExtTreeSet.contains_iff_mem] using List.find?_some hi
    have hgoal : inward = [] → i.imported ∈ goals := by
      rintro rfl
      exact atDistance_zero.1 ((hring _).1 hn)
    obtain ⟨t, ht, hw, hlen⟩ := walk_of_descent? hin hgoal hc'
    exact ⟨t, ht, .step hmem hw, by simp [hlen]⟩

/-- A module that imports a member of the outermost ring has a descent: the law of distances leads
on from ring to ring. -/
theorem isSome_descent? : ∀ {inward : List NameSet} {ring : NameSet} {m n : ModuleName},
    Inward imports goals (ring :: inward) → ⟨m, n⟩ ∈ imports → n ∈ ring →
    (descent? imports m (ring :: inward)).isSome
  | inward, ring, m, n, ⟨hring, hin⟩, hi, hn => by
    rw [descent?]
    cases hf : imports.find? fun i => i.importer = m ∧ ring.contains i.imported with
    | none =>
      have := List.find?_eq_none.1 hf _ hi
      simp [Std.ExtTreeSet.contains_iff_mem, hn] at this
    | some i =>
      have hd : i.imported ∈ ring := by
        have := List.find?_some hf
        simp only [decide_eq_true_eq, Std.ExtTreeSet.contains_iff_mem] at this
        exact this.2
      rw [Option.bind_some, Option.isSome_map]
      cases inward with
      | nil => rfl
      | cons inner inward =>
        obtain ⟨-, n', hi', hn'⟩ := atDistance_succ_iff.1 ((hring _).1 hd)
        exact isSome_descent? hin hi' ((hin.1 n').2 hn')

theorem descent?_eq_none_iff {ring : NameSet} (h : Inward imports goals (ring :: inward)) :
    descent? imports m (ring :: inward) = none ↔
      ∀ n, ⟨m, n⟩ ∈ imports → ¬ AtDistance imports goals inward.length n := by
  constructor
  · intro hnone n hi hn
    have := isSome_descent? h hi ((h.1 n).2 hn)
    simp [hnone] at this
  · intro hfar
    rw [descent?, Option.bind_eq_none_iff]
    intro i hi
    have hc := List.find?_some hi
    simp only [decide_eq_true_eq, Std.ExtTreeSet.contains_iff_mem] at hc
    obtain ⟨rfl, hn⟩ := hc
    exact absurd ((h.1 _).1 hn) (hfar _ (List.mem_of_find?_eq_some hi))

end Descents

/-! ## The shortest chains between two modules -/

section Between

variable {imports : List Import} {source goal : ModuleName} {c : Chain}

theorem inwardOf?_spec {goals : NameSet} {m : ModuleName} : ∀ (rings inward : List NameSet),
    Onward imports goals inward.length rings → Inward imports goals inward →
    match inwardOf? m rings inward with
    | some inner => Inward imports goals inner ∧ AtDistance imports goals inner.length m
    | none => ∀ k, inward.length ≤ k → ¬ AtDistance imports goals k m
  | [], inward, hout, _ => fun k hk => not_atDistance_of_le hout hk
  | ring :: rings, inward, ⟨hring, hout⟩, hin => by
    rw [inwardOf?]
    by_cases hm : m ∈ ring
    · rw [if_pos (Std.ExtTreeSet.contains_iff_mem.2 hm)]
      exact ⟨hin, (hring m).1 hm⟩
    · rw [if_neg (mt Std.ExtTreeSet.contains_iff_mem.1 hm)]
      have ih := inwardOf?_spec (m := m) rings (ring :: inward) hout ⟨hring, hin⟩
      cases hres : inwardOf? m rings (ring :: inward) with
      | some inner =>
        rw [hres] at ih
        exact ih
      | none =>
        rw [hres] at ih
        intro k hk hd
        by_cases hlt : inward.length = k
        · exact hm ((hring m).2 (hlt ▸ hd))
        · exact ih k (by simp; omega) hd

theorem near_singleton {k : Nat} : Near imports (.ofList [goal]) k source ↔
    ∃ c, Walk imports source goal c ∧ c.length = k + 1 := by
  constructor
  · rintro ⟨t, ht, c, hw, hc⟩
    obtain rfl := List.mem_singleton.1 (NameSet.mem_ofList.1 ht)
    exact ⟨c, hw, hc⟩
  · rintro ⟨c, hw, hc⟩
    exact ⟨goal, NameSet.mem_ofList.2 (List.mem_singleton.2 rfl), c, hw, hc⟩

/-- **The shortest chains between two modules are all their shortest walks.** -/
theorem mem_shortestChainsBetween (hne : source ≠ goal) :
    c ∈ shortestChainsBetween imports source goal ↔
      Walk imports source goal c ∧ ∀ d, Walk imports source goal d → c.length ≤ d.length := by
  have hspec := inwardOf?_spec (m := source) _ [] (onward_around imports (.ofList [goal])) trivial
  rw [shortestChainsBetween, if_neg hne]
  cases hres : inwardOf? source (around imports (.ofList [goal])) [] with
  | none =>
    rw [hres] at hspec
    refine ⟨fun h => (List.not_mem_nil h).elim, fun ⟨hw, _⟩ => ?_⟩
    have hnear : Near imports (.ofList [goal]) (c.length - 1) source :=
      near_singleton.2 ⟨c, hw, (Nat.sub_add_cancel hw.length_pos).symm⟩
    obtain ⟨k, -, hd⟩ := hnear.exists_atDistance
    exact absurd hd (hspec k (Nat.zero_le k))
  | some inward =>
    rw [hres] at hspec
    obtain ⟨hin, hnear, hless⟩ := hspec
    rw [mem_descents hin ⟨hnear, hless⟩]
    constructor
    · rintro ⟨t, ht, hw, hlen⟩
      obtain rfl := List.mem_singleton.1 (NameSet.mem_ofList.1 ht)
      refine ⟨hw, fun d hd => Nat.le_of_not_lt fun hlt => ?_⟩
      have := hd.length_pos
      exact hless (d.length - 1) (by omega) (near_singleton.2 ⟨d, hd, by omega⟩)
    · rintro ⟨hw, hshort⟩
      obtain ⟨d, hd, hlen⟩ := near_singleton.1 hnear
      have := hshort d hd
      have := hw.length_pos
      have : ¬ c.length - 1 < inward.length := fun hlt =>
        hless _ hlt (near_singleton.2 ⟨c, hw, by omega⟩)
      exact ⟨goal, NameSet.mem_ofList.2 (List.mem_singleton.2 rfl), hw, by omega⟩

end Between

/-! ## The least chain -/

section Least

variable {imports : List Import} {sources goals : NameSet} {c d : Chain}

theorem exists_near_of_joins (h : Joins imports sources goals c) :
    ∃ s ∈ sources, ∃ n, ⟨s, n⟩ ∈ imports ∧ ∃ k, Near imports goals k n ∧ c.length = k + 2 := by
  obtain ⟨s, hs, t, ht, hw, hc⟩ := h
  cases hw with
  | here => simp at hc
  | @step _ n _ c' hi hw =>
    have := hw.length_pos
    exact ⟨s, hs, n, hi, c'.length - 1, ⟨t, ht, c', hw, by omega⟩, by simp; omega⟩

/-- What the search answers with: no source imports a module nearer than the ring, and the chain is
that of the first source with a descent through it. -/
structure FirstDescent (imports : List Import) (sources goals : NameSet) (ring : NameSet)
    (inward : List NameSet) (c : Chain) : Prop where
  rings : Inward imports goals (ring :: inward)
  unreached : ∀ s ∈ sources, ∀ n, ⟨s, n⟩ ∈ imports → ∀ j < inward.length, ¬ AtDistance imports goals j n
  first : (sources.toList.findSome? fun s => descent? imports s (ring :: inward)) = some c

variable {ring : NameSet} {inward : List NameSet}

theorem FirstDescent.exists_walk (h : FirstDescent imports sources goals ring inward c) :
    ∃ s ∈ sources, ∃ t ∈ goals, Walk imports s t c ∧ c.length = inward.length + 2 := by
  obtain ⟨s, hs, hdesc⟩ := List.exists_of_findSome?_eq_some h.first
  obtain ⟨t, ht, hw, hlen⟩ := walk_of_descent? h.rings (by simp) hdesc
  exact ⟨s, Std.ExtTreeSet.mem_toList.1 hs, t, ht, hw, hlen⟩

theorem FirstDescent.joins (h : FirstDescent imports sources goals ring inward c) :
    Joins imports sources goals c := by
  obtain ⟨s, hs, t, ht, hw, hlen⟩ := h.exists_walk
  exact ⟨s, hs, t, ht, hw, by omega⟩

theorem FirstDescent.length_le (h : FirstDescent imports sources goals ring inward c)
    (hd : Joins imports sources goals d) : c.length ≤ d.length := by
  obtain ⟨_, _, _, _, _, hlen⟩ := h.exists_walk
  obtain ⟨s, hs, n, hi, k, hk, hdlen⟩ := exists_near_of_joins hd
  obtain ⟨j, hjk, hj⟩ := hk.exists_atDistance
  have : ¬ j < inward.length := fun hlt => h.unreached s hs n hi j hlt hj
  omega

/-- Invariant of the search: no source imports a module nearer than the rings still to be tried. -/
theorem nearest?_spec : ∀ (rings inward : List NameSet),
    Onward imports goals inward.length rings → Inward imports goals inward →
    (∀ s ∈ sources, ∀ n, ⟨s, n⟩ ∈ imports → ∀ j < inward.length, ¬ AtDistance imports goals j n) →
    match nearest? (fun inward => sources.toList.findSome? fun s => descent? imports s inward)
      rings inward with
    | some c => ∃ ring inward, FirstDescent imports sources goals ring inward c
    | none => ∀ d, ¬ Joins imports sources goals d
  | [], inward, hout, _, hfar => fun d hd => by
    obtain ⟨s, hs, n, hi, k, hk, -⟩ := exists_near_of_joins hd
    obtain ⟨j, -, hj⟩ := hk.exists_atDistance
    by_cases hlt : j < inward.length
    · exact hfar s hs n hi j hlt hj
    · exact not_atDistance_of_le hout (by omega) hj
  | ring :: rings, inward, ⟨hring, hout⟩, hin, hfar => by
    rw [nearest?]
    cases hfind : sources.toList.findSome? fun s => descent? imports s (ring :: inward) with
    | some c => exact ⟨ring, inward, ⟨hring, hin⟩, hfar, hfind⟩
    | none =>
      refine nearest?_spec rings (ring :: inward) hout ⟨hring, hin⟩ fun s hs n hi j hj hd => ?_
      have hnone := List.findSome?_eq_none_iff.1 hfind s (Std.ExtTreeSet.mem_toList.2 hs)
      by_cases hlt : j < inward.length
      · exact hfar s hs n hi j hlt hd
      · obtain rfl : j = inward.length := by simp only [List.length_cons] at hj; omega
        exact (descent?_eq_none_iff ⟨hring, hin⟩).1 hnone n hi hd

theorem leastChain?_spec (imports : List Import) (sources goals : NameSet) :
    match leastChain? imports sources goals with
    | some c => ∃ ring inward, FirstDescent imports sources goals ring inward c
    | none => ∀ d, ¬ Joins imports sources goals d :=
  nearest?_spec _ [] (onward_around imports goals) trivial
    fun _ _ _ _ j hj => absurd hj (Nat.not_lt_zero j)

theorem exists_firstDescent (h : leastChain? imports sources goals = some c) :
    ∃ ring inward, FirstDescent imports sources goals ring inward c := by
  have hspec := leastChain?_spec imports sources goals
  rw [h] at hspec
  exact hspec

theorem joins_of_leastChain? (h : leastChain? imports sources goals = some c) :
    Joins imports sources goals c := by
  obtain ⟨ring, inward, hfirst⟩ := exists_firstDescent h
  exact hfirst.joins

theorem length_le_of_leastChain? (h : leastChain? imports sources goals = some c)
    (hd : Joins imports sources goals d) : c.length ≤ d.length := by
  obtain ⟨ring, inward, hfirst⟩ := exists_firstDescent h
  exact hfirst.length_le hd

theorem leastChain?_eq_none_iff :
    leastChain? imports sources goals = none ↔ ∀ d, ¬ Joins imports sources goals d := by
  have hspec := leastChain?_spec imports sources goals
  cases h : leastChain? imports sources goals with
  | none =>
    rw [h] at hspec
    exact ⟨fun _ => hspec, fun _ => rfl⟩
  | some c =>
    exact ⟨fun e => (Option.some_ne_none c e).elim, fun hno => (hno c (joins_of_leastChain? h)).elim⟩

end Least

/-! ## Reach -/

section Reach

variable {imports : List Import} {goals : NameSet} {m : ModuleName}

/-- Rings from some distance on hold the modules at that distance or further. -/
theorem exists_ring_iff : ∀ {rings : List NameSet} {d : Nat}, Onward imports goals d rings →
    ((∃ ring ∈ rings, m ∈ ring) ↔ ∃ k ≥ d, AtDistance imports goals k m)
  | [], d, hout => by
    refine iff_of_false (fun ⟨_, hring, _⟩ => List.not_mem_nil hring) ?_
    rintro ⟨k, hk, hd⟩
    exact not_atDistance_of_le hout hk hd
  | ring :: rings, d, ⟨hring, hout⟩ => by
    have hsplit : (∃ r ∈ ring :: rings, m ∈ r) ↔ m ∈ ring ∨ ∃ r ∈ rings, m ∈ r := by simp
    rw [hsplit, hring, exists_ring_iff hout]
    constructor
    · rintro (hd | ⟨k, hk, hd⟩)
      · exact ⟨d, Nat.le_refl d, hd⟩
      · exact ⟨k, by omega, hd⟩
    · rintro ⟨k, hk, hd⟩
      by_cases hdk : k = d
      · exact .inl (hdk ▸ hd)
      · exact .inr ⟨k, by omega, hd⟩

/-- **Reach is walks of any length**: what reaches the goals and is not one of them. -/
theorem mem_reaching : m ∈ reaching imports goals ↔ m ∉ goals ∧ ∃ k, Near imports goals k m := by
  have hrings : Onward imports goals 1 (around imports goals).tail := by
    have hout := onward_around imports goals
    cases hall : around imports goals with
    | nil =>
      rw [hall] at hout
      exact fun m => not_atDistance_of_le hout (Nat.zero_le 1)
    | cons ring rings =>
      rw [hall] at hout
      exact hout.2
  have hmem : m ∈ reaching imports goals ↔ ∃ ring ∈ (around imports goals).tail, m ∈ ring := by
    simp [reaching]
  rw [hmem, exists_ring_iff hrings]
  constructor
  · rintro ⟨k, hk, hnear, hless⟩
    exact ⟨fun hgoal => hless 0 hk (near_zero.2 hgoal), k, hnear⟩
  · rintro ⟨hm, k, hnear⟩
    obtain ⟨j, -, hd⟩ := hnear.exists_atDistance
    have hj : j ≠ 0 := by
      rintro rfl
      exact hm (atDistance_zero.1 hd)
    exact ⟨j, by omega, hd⟩

end Reach
end ImportAtlas
