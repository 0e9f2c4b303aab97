import ImportAtlas.Graph.Rings
/-!
# Walks and distances

What the searches are about, said without any search.  A walk is a row of modules, each importing
the next; it may pass a module twice, and a single module is a walk of no imports.  A module is
`Near` a set of goals with `k` if some walk of exactly `k` imports leads from it to a goal, and
`AtDistance` `k` if no shorter one does.

Distances obey one law, `atDistance_succ_iff`: the modules at distance `k + 1` are those not any
nearer that import a module at distance `k`.  Rings are laid out by that law and nothing else.
-/
namespace ImportAtlas

/-- The row leads from the first module to the second, each of its modules importing the next. -/
inductive Walk (imports : List Import) : ModuleName → ModuleName → Chain → Prop where
  | here (a : ModuleName) : Walk imports a a [a]
  | step {a b t : ModuleName} {c : Chain} :
    ⟨a, b⟩ ∈ imports → Walk imports b t c → Walk imports a t (a :: c)

/-- The row is a walk of one or more imports from a member of `sources` to a member of `goals`. -/
def Joins (imports : List Import) (sources goals : NameSet) (c : Chain) : Prop :=
  ∃ s ∈ sources, ∃ t ∈ goals, Walk imports s t c ∧ 2 ≤ c.length

/-- The imports that a chain uses, in order. -/
def hops (c : Chain) : List Import := List.zipWith Import.mk c c.tail

section Walks

variable {imports imports' : List Import} {a b m : ModuleName} {c p q : Chain}

@[simp] theorem hops_singleton (a : ModuleName) : hops [a] = [] := rfl

@[simp] theorem hops_cons_cons (a b : ModuleName) (c : Chain) :
    hops (a :: b :: c) = ⟨a, b⟩ :: hops (b :: c) := rfl

theorem Walk.eq_cons (h : Walk imports a b c) : ∃ rest, c = a :: rest := by
  cases h with
  | here => exact ⟨[], rfl⟩
  | step _ _ => exact ⟨_, rfl⟩

theorem Walk.getLast?_eq (h : Walk imports a b c) : c.getLast? = some b := by
  induction h with
  | here => rfl
  | step _ hw ih =>
    obtain ⟨rest, rfl⟩ := hw.eq_cons
    rw [List.getLast?_cons_cons, ih]

theorem Walk.start_mem (h : Walk imports a b c) : a ∈ c := by
  obtain ⟨rest, rfl⟩ := h.eq_cons
  exact List.mem_cons_self

theorem Walk.length_pos (h : Walk imports a b c) : 0 < c.length :=
  List.length_pos_of_mem h.start_mem

theorem Walk.eq_of_length_one (h : Walk imports a b c) (hc : c.length = 1) : a = b := by
  cases h with
  | here => rfl
  | step _ hw =>
    have := hw.length_pos
    simp only [List.length_cons] at hc
    omega

theorem Walk.two_le_length (h : Walk imports a b c) (hab : a ≠ b) : 2 ≤ c.length := by
  have := h.length_pos
  have : c.length ≠ 1 := fun hc => hab (h.eq_of_length_one hc)
  omega

theorem Walk.mem_of_length_two (h : Walk imports a b c) (hc : c.length = 2) : ⟨a, b⟩ ∈ imports := by
  cases h with
  | here => simp at hc
  | step hi hw => rwa [hw.eq_of_length_one (by simpa using hc)] at hi

theorem Walk.of_cons (h : Walk imports a b (m :: c)) (hc : c ≠ []) :
    a = m ∧ ∃ n, ⟨m, n⟩ ∈ imports ∧ Walk imports n b c := by
  cases h with
  | here => exact absurd rfl hc
  | step hi hw => exact ⟨rfl, _, hi, hw⟩

/-- A walk of one or more imports, taken apart into its ends and what is between them. -/
theorem Walk.eq_cons_append (h : Walk imports a b c) (hc : 2 ≤ c.length) :
    c = a :: (c.tail.dropLast ++ [b]) := by
  obtain ⟨rest, rfl⟩ := h.eq_cons
  have hne : rest ≠ [] := by
    rintro rfl
    simp at hc
  have hlast : rest.getLast hne = b := by
    have := h.getLast?_eq
    rw [List.getLast?_cons_of_ne_nil hne, List.getLast?_eq_some_getLast hne] at this
    exact Option.some.inj this
  rw [List.tail_cons, ← hlast, List.dropLast_concat_getLast hne]

/-- **A row is a walk if its hops are imports.** -/
theorem Walk.of_hops (h : Walk imports a b c) (hc : ∀ i ∈ hops c, i ∈ imports') :
    Walk imports' a b c := by
  induction h with
  | here => exact .here _
  | step _ hw ih =>
    obtain ⟨rest, rfl⟩ := hw.eq_cons
    rw [hops_cons_cons] at hc
    exact .step (hc _ List.mem_cons_self) (ih fun i hi => hc i (List.mem_cons_of_mem _ hi))

theorem Walk.hops_subset (h : Walk imports a b c) : ∀ i ∈ hops c, i ∈ imports := by
  induction h with
  | here => simp
  | step hi hw ih =>
    obtain ⟨rest, rfl⟩ := hw.eq_cons
    rw [hops_cons_cons]
    intro i hm
    rcases List.mem_cons.1 hm with rfl | hm
    · exact hi
    · exact ih i hm

theorem Walk.mono (h : Walk imports a b c) (hs : ∀ i ∈ imports, i ∈ imports') :
    Walk imports' a b c :=
  h.of_hops fun i hi => hs i (h.hops_subset i hi)

theorem Joins.of_hops {S T : NameSet} (h : Joins imports S T c) (hc : ∀ i ∈ hops c, i ∈ imports') :
    Joins imports' S T c := by
  obtain ⟨s, hs, t, ht, hw, hlen⟩ := h
  exact ⟨s, hs, t, ht, hw.of_hops hc, hlen⟩

theorem Joins.hops_subset {S T : NameSet} (h : Joins imports S T c) : ∀ i ∈ hops c, i ∈ imports := by
  obtain ⟨s, hs, t, ht, hw, hlen⟩ := h
  exact hw.hops_subset

theorem mem_of_mem_hops : ∀ {c : Chain} {i : Import}, i ∈ hops c →
    i.importer ∈ c.dropLast ∧ i.imported ∈ c.tail
  | [], _, h => by cases h
  | [_], _, h => by cases h
  | a :: b :: c, i, h => by
    rw [hops_cons_cons] at h
    rw [List.dropLast_cons_cons, List.tail_cons]
    rcases List.mem_cons.1 h with rfl | h
    · exact ⟨List.mem_cons_self, List.mem_cons_self⟩
    · obtain ⟨h₁, h₂⟩ := mem_of_mem_hops h
      exact ⟨List.mem_cons_of_mem _ h₁, List.mem_cons_of_mem _ h₂⟩

theorem mem_chain_of_mem_hops {i : Import} (h : i ∈ hops c) : i.importer ∈ c ∧ i.imported ∈ c := by
  obtain ⟨himporter, himported⟩ := mem_of_mem_hops h
  exact ⟨List.dropLast_subset c himporter, List.mem_of_mem_tail himported⟩

theorem exists_hop_of_mem : ∀ {c : Chain} {m : ModuleName}, 2 ≤ c.length → m ∈ c →
    ∃ i ∈ hops c, i.Touches m
  | a :: [b], m, _, hm => by
    refine ⟨⟨a, b⟩, by simp, ?_⟩
    rcases List.mem_cons.1 hm with rfl | hm
    · exact .inl rfl
    · exact .inr (List.mem_singleton.1 hm).symm
  | a :: b :: x :: c, m, _, hm => by
    rcases List.mem_cons.1 hm with rfl | hm
    · exact ⟨⟨m, b⟩, by simp, .inl rfl⟩
    · obtain ⟨i, hi, ht⟩ := exists_hop_of_mem (c := b :: x :: c) (by simp) hm
      exact ⟨i, by rw [hops_cons_cons]; exact List.mem_cons_of_mem _ hi, ht⟩

theorem Walk.suffix : ∀ {p : Chain} {a : ModuleName}, Walk imports a b (p ++ m :: q) →
    Walk imports m b (m :: q)
  | [], _, h => by
    obtain ⟨_, e⟩ := h.eq_cons
    obtain ⟨rfl, -⟩ := List.cons.inj e
    exact h
  | _ :: _, _, h => by
    obtain ⟨-, _, -, hw⟩ := h.of_cons (by simp)
    exact hw.suffix

theorem Walk.upTo : ∀ {p : Chain} {a : ModuleName}, Walk imports a b (p ++ m :: q) →
    Walk imports a m (p ++ [m])
  | [], _, h => by
    obtain ⟨_, e⟩ := h.eq_cons
    obtain ⟨rfl, -⟩ := List.cons.inj e
    exact .here m
  | _ :: _, _, h => by
    obtain ⟨rfl, _, hi, hw⟩ := h.of_cons (by simp)
    exact .step hi hw.upTo

theorem mem_hops_append (p q : Chain) (a b : ModuleName) : ⟨a, b⟩ ∈ hops (p ++ a :: b :: q) := by
  induction p with
  | nil => simp
  | cons x p ih =>
    cases p with
    | nil => simp
    | cons y p => exact List.mem_cons_of_mem _ ih

/-- The hops of a chain are the pairs of neighbours in it. -/
theorem mem_hops_iff : ∀ {c : Chain} {i : Import},
    i ∈ hops c ↔ ∃ p q, c = p ++ i.importer :: i.imported :: q
  | [], i => by simp [hops]
  | [a], i => by
    refine iff_of_false List.not_mem_nil ?_
    rintro ⟨p, q, hrow⟩
    have hlen := congrArg List.length hrow
    simp only [List.length_append, List.length_cons, List.length_nil] at hlen
    omega
  | a :: b :: c, i => by
    constructor
    · intro hi
      rw [hops_cons_cons] at hi
      rcases List.mem_cons.1 hi with rfl | hi
      · exact ⟨[], c, rfl⟩
      · obtain ⟨p, q, hrow⟩ := mem_hops_iff.1 hi
        exact ⟨a :: p, q, by rw [hrow]; rfl⟩
    · rintro ⟨p, q, hrow⟩
      rw [hrow]
      exact mem_hops_append p q i.importer i.imported

theorem Walk.exists_shortest : ∀ {c : Chain}, Walk imports a b c →
    ∃ d, Walk imports a b d ∧ ∀ e, Walk imports a b e → d.length ≤ e.length
  | c, h => by
    by_cases hc : ∃ e, Walk imports a b e ∧ e.length < c.length
    · obtain ⟨e, he, hlt⟩ := hc
      exact he.exists_shortest
    · exact ⟨c, h, fun e he => Nat.le_of_not_lt fun hlt => hc ⟨e, he, hlt⟩⟩
termination_by c => c.length

theorem Walk.ne_end_of_shortest (h : Walk imports a b (p ++ m :: q))
    (hshort : ∀ d, Walk imports a b d → (p ++ m :: q).length ≤ d.length) (hq : q ≠ []) : m ≠ b := by
  rintro rfl
  have hle := hshort _ h.upTo
  have := List.length_pos_iff.2 hq
  simp only [List.length_append, List.length_cons, List.length_nil] at hle
  omega

theorem Walk.ne_start_of_shortest (h : Walk imports a b (p ++ m :: q))
    (hshort : ∀ d, Walk imports a b d → (p ++ m :: q).length ≤ d.length) (hp : p ≠ []) : m ≠ a := by
  rintro rfl
  have hle := hshort _ h.suffix
  have := List.length_pos_iff.2 hp
  simp only [List.length_append, List.length_cons] at hle
  omega

/-- **A shortest walk from one set to another keeps off both between its ends.** -/
theorem Joins.notMem_interior {S T : NameSet} (h : Joins imports S T c)
    (hshort : ∀ d, Joins imports S T d → c.length ≤ d.length) (hm : m ∈ c.tail.dropLast) :
    m ∉ S ∧ m ∉ T := by
  obtain ⟨s, hs, t, ht, hw, hlen⟩ := h
  have hrow := hw.eq_cons_append hlen
  obtain ⟨p, q, hinterior⟩ := List.append_of_mem hm
  have hsplit : c = (s :: p) ++ m :: (q ++ [t]) := by simpa [hinterior] using hrow
  rw [hsplit] at hw hshort
  constructor
  · intro hsource
    have hle := hshort _ ⟨m, hsource, t, ht, hw.suffix, by simp⟩
    simp only [List.length_append, List.length_cons] at hle
    omega
  · intro hgoal
    have hle := hshort _ ⟨s, hs, m, hgoal, hw.upTo, by simp⟩
    simp only [List.length_append, List.length_cons, List.length_nil] at hle
    omega

/-- A walk that comes to a module twice can be cut short there. -/
theorem Walk.exists_shorter (h : Walk imports a b c) (hdup : ¬ c.tail.Nodup) :
    ∃ d, Walk imports a b d ∧ 2 ≤ d.length ∧ d.length < c.length := by
  induction h with
  | here => exact absurd List.nodup_nil hdup
  | @step a n b c hi hw ih =>
    obtain ⟨rest, rfl⟩ := hw.eq_cons
    by_cases hagain : n ∈ rest
    · obtain ⟨p, q, rfl⟩ := List.append_of_mem hagain
      have hback : Walk imports n b (n :: q) := Walk.suffix (p := n :: p) hw
      refine ⟨a :: n :: q, .step hi hback, by simp, ?_⟩
      simp only [List.length_cons, List.length_append]
      omega
    · have hrest : ¬ rest.Nodup := fun h => hdup (List.nodup_cons.2 ⟨hagain, h⟩)
      obtain ⟨d, hd, htwo, hlt⟩ := ih hrest
      exact ⟨a :: d, .step hi hd, Nat.le_succ_of_le htwo, Nat.succ_lt_succ hlt⟩

/-- **A shortest walk from one set to another comes to no module twice**, unless it ends where it
starts. -/
theorem Joins.nodup_tail {S T : NameSet} (h : Joins imports S T c)
    (hshort : ∀ d, Joins imports S T d → c.length ≤ d.length) : c.tail.Nodup := by
  obtain ⟨s, hs, t, ht, hw, -⟩ := h
  refine Classical.byContradiction fun hdup => ?_
  obtain ⟨d, hd, htwo, hlt⟩ := hw.exists_shorter hdup
  have hle := hshort d ⟨s, hs, t, ht, hd, htwo⟩
  omega

end Walks

/-! ## Distances -/

/-- Some walk of exactly `k` imports leads from the module to a goal. -/
def Near (imports : List Import) (goals : NameSet) (k : Nat) (m : ModuleName) : Prop :=
  ∃ t ∈ goals, ∃ c, Walk imports m t c ∧ c.length = k + 1

/-- The shortest walk from the module to a goal makes `k` imports. -/
def AtDistance (imports : List Import) (goals : NameSet) (k : Nat) (m : ModuleName) : Prop :=
  Near imports goals k m ∧ ∀ j < k, ¬ Near imports goals j m

section Distances

variable {imports : List Import} {goals : NameSet} {j k : Nat} {m n : ModuleName}

theorem near_zero : Near imports goals 0 m ↔ m ∈ goals := by
  constructor
  · rintro ⟨t, ht, c, hw, hc⟩
    rwa [hw.eq_of_length_one hc]
  · exact fun h => ⟨m, h, [m], .here m, rfl⟩

theorem near_succ : Near imports goals (k + 1) m ↔
    ∃ n, ⟨m, n⟩ ∈ imports ∧ Near imports goals k n := by
  constructor
  · rintro ⟨t, ht, c, hw, hc⟩
    cases hw with
    | here => simp at hc
    | step hi hw => exact ⟨_, hi, t, ht, _, hw, by simpa using hc⟩
  · rintro ⟨n, hi, t, ht, c, hw, hc⟩
    exact ⟨t, ht, m :: c, .step hi hw, by simp [hc]⟩

theorem Near.exists_atDistance : ∀ {k : Nat}, Near imports goals k m →
    ∃ j ≤ k, AtDistance imports goals j m
  | k, h => by
    by_cases hk : ∃ j < k, Near imports goals j m
    · obtain ⟨j, hj, hn⟩ := hk
      obtain ⟨i, hi, hd⟩ := hn.exists_atDistance
      exact ⟨i, by omega, hd⟩
    · exact ⟨k, Nat.le_refl k, h, fun j hj hn => hk ⟨j, hj, hn⟩⟩

theorem atDistance_zero : AtDistance imports goals 0 m ↔ m ∈ goals := by
  simp [AtDistance, near_zero]

theorem AtDistance.unique (hj : AtDistance imports goals j m) (hk : AtDistance imports goals k m) :
    j = k := by
  rcases Nat.lt_trichotomy j k with hlt | heq | hlt
  · exact (hk.2 j hlt hj.1).elim
  · exact heq
  · exact (hj.2 k hlt hk.1).elim

/-- **One step further out**: what imports a module at a distance and is not itself any nearer. -/
theorem atDistance_succ_iff : AtDistance imports goals (k + 1) m ↔
    (∀ j ≤ k, ¬ AtDistance imports goals j m) ∧
      ∃ n, ⟨m, n⟩ ∈ imports ∧ AtDistance imports goals k n := by
  constructor
  · rintro ⟨hn, hless⟩
    refine ⟨fun j hj hd => hless j (by omega) hd.1, ?_⟩
    obtain ⟨n, hi, hk⟩ := near_succ.1 hn
    exact ⟨n, hi, hk, fun j hj hnj => hless (j + 1) (by omega) (near_succ.2 ⟨n, hi, hnj⟩)⟩
  · rintro ⟨hless, n, hi, hd⟩
    refine ⟨near_succ.2 ⟨n, hi, hd.1⟩, fun j hj hn => ?_⟩
    obtain ⟨i, hij, hdi⟩ := hn.exists_atDistance
    exact hless i (by omega) hdi

theorem not_atDistance_of_le (h : ∀ m, ¬ AtDistance imports goals j m) (hjk : j ≤ k) :
    ¬ AtDistance imports goals k m := by
  induction k generalizing m with
  | zero =>
    obtain rfl : j = 0 := by omega
    exact h m
  | succ k ih =>
    intro hd
    by_cases hj : j = k + 1
    · subst hj
      exact h m hd
    · obtain ⟨-, n, -, hn⟩ := atDistance_succ_iff.1 hd
      exact ih (by omega) hn

end Distances

end ImportAtlas
