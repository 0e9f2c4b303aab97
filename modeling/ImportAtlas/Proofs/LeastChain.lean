import ImportAtlas.Proofs.Rings
import ImportAtlas.Proofs.Squashing
/-!
# The least of the shortest chains

Many shortest chains may lead from one set of modules to another, and the one that is answered is the
least by name, compared module by module from the start (`LeastShortest`).  The search never compares
two chains.  It takes the first source that has a descent, and from each module the first import into
the next ring inward; sources and imports are in order, so **the first choice at each step is the least,
and no later choice can make up for it** (`isLE_of_descent?`).

What is between the ends of a shortest chain lies in neither set, and no module is passed twice: a
chain that did so could be cut short (`Joins.notMem_interior`, `Joins.nodup_tail`).
-/
namespace ImportAtlas

open Rings

/-- Of the walks of one or more imports from a source to a goal the chain is a shortest, and of the
shortest the least by name. -/
structure LeastShortest (imports : List Import) (sources goals : NameSet) (c : Chain) : Prop where
  joins : Joins imports sources goals c
  length_le : ∀ d, Joins imports sources goals d → c.length ≤ d.length
  isLE : ∀ d, Joins imports sources goals d → d.length = c.length → (compare c d).isLE

/-! ## First is least -/

section Order

variable {α : Type} [Ord α] [Std.TransOrd α] {front back l : List α} {a b : α}

theorem isLE_of_notMem_front (hsorted : (front ++ a :: back).Pairwise (compare · · = .lt))
    (hb : b ∈ front ++ a :: back) (hfront : b ∉ front) : (compare a b).isLE := by
  rcases List.mem_cons.1 ((List.mem_append.1 hb).resolve_left hfront) with rfl | hback
  · exact Std.ReflCmp.isLE_rfl
  · have hlt := (List.pairwise_cons.1 (List.pairwise_append.1 hsorted).2.1).1 b hback
    rw [hlt]
    rfl

/-- In a sorted list the first that passes is the least that passes. -/
theorem isLE_of_find? {p : α → Bool} (hsorted : l.Pairwise (compare · · = .lt))
    (h : l.find? p = some a) (hb : b ∈ l) (hp : p b = true) : (compare a b).isLE := by
  obtain ⟨-, front, back, rfl, hnone⟩ := List.find?_eq_some_iff_append.1 h
  refine isLE_of_notMem_front hsorted hb fun hfront => ?_
  have hfails := hnone b hfront
  rw [hp] at hfails
  cases hfails

end Order

section Descending

variable {imports : List Import} {sources goals ring : NameSet} {inward : List NameSet}
  {a m n t : ModuleName} {c d : Chain}

theorem compare_of_same_importer : compare (⟨m, a⟩ : Import) ⟨m, n⟩ = compare a n := by
  show (compare m m).then (compare a n) = _
  rw [Std.compare_self]
  rfl

theorem eq_cons_of_descent? (h : descent? imports m inward = some c) : ∃ rest, c = m :: rest := by
  cases inward with
  | nil => exact ⟨[], (Option.some.inj h).symm⟩
  | cons ring inward =>
    rw [descent?] at h
    obtain ⟨i, -, h⟩ := Option.bind_eq_some_iff.1 h
    obtain ⟨rest, -, rfl⟩ := Option.map_eq_some_iff.1 h
    exact ⟨rest, rfl⟩

/-- Chains from different modules are in the order of these. -/
theorem isLE_cons_of_isLE (h : (compare a n).isLE) (hc : ∃ rest, c = a :: rest)
    (hd : ∃ rest, d = n :: rest) (hsame : a = n → (compare c d).isLE) : (compare c d).isLE := by
  obtain ⟨rest, rfl⟩ := hc
  obtain ⟨rest', rfl⟩ := hd
  by_cases hne : a = n
  · exact hsame hne
  · have hlt : compare a n = .lt := by
      cases hcmp : compare a n with
      | lt => rfl
      | eq => exact absurd (ModuleName.eq_of_compare_eq hcmp) hne
      | gt => simp [hcmp] at h
    rw [List.compare_cons_cons, hlt]
    rfl

/-- **A descent is the least of the walks of its length**, where `m` imports nothing nearer than the
outermost ring.  Each of these walks goes through the rings too, and of two that part at some module
the one that goes on to the lesser name is less. -/
theorem isLE_of_descent? (hsorted : imports.Pairwise (compare · · = .lt)) :
    ∀ {inward : List NameSet} {m : ModuleName} {c d : Chain}, Inward imports goals inward →
      (∀ n, ⟨m, n⟩ ∈ imports → ∀ j, j + 1 < inward.length → ¬ AtDistance imports goals j n) →
      descent? imports m inward = some c → Walk imports m t d → t ∈ goals →
      d.length = inward.length + 1 → (compare c d).isLE
  | [], m, c, d, _, _, hc, hd, _, hlen => by
    obtain rfl : [m] = c := Option.some.inj hc
    obtain ⟨rest, rfl⟩ := hd.eq_cons
    rw [List.eq_nil_of_length_eq_zero (Nat.succ.inj hlen)]
    exact Std.ReflCmp.isLE_rfl
  | ring :: inward, m, c, d, ⟨hring, hin⟩, hfar, hc, hd, ht, hlen => by
    cases hd with
    | here => simp at hlen
    | @step _ n _ d' hi hd' =>
      have hlen' : d'.length = inward.length + 1 := by simpa using hlen
      have hn : AtDistance imports goals inward.length n := by
        refine ⟨⟨t, ht, d', hd', hlen'⟩, fun j hj hnear => ?_⟩
        obtain ⟨k, hk, hdist⟩ := hnear.exists_atDistance
        exact hfar n hi k (by simp; omega) hdist
      rw [descent?] at hc
      obtain ⟨⟨importer, first⟩, hfind, hc⟩ := Option.bind_eq_some_iff.1 hc
      obtain ⟨c', hc', rfl⟩ := Option.map_eq_some_iff.1 hc
      obtain ⟨rfl, hfirst⟩ : importer = m ∧ first ∈ ring := by
        simpa [Std.ExtTreeSet.contains_iff_mem] using List.find?_some hfind
      have hle := isLE_of_find? hsorted hfind hi
        (by simpa [Std.ExtTreeSet.contains_iff_mem] using (hring n).2 hn)
      rw [compare_of_same_importer] at hle
      rw [List.compare_cons_cons, Std.compare_self]
      refine isLE_cons_of_isLE hle (eq_cons_of_descent? hc') hd'.eq_cons fun hsame => ?_
      subst hsame
      refine isLE_of_descent? hsorted hin (fun n' hi' j hj hdist => ?_) hc' hd' ht hlen'
      exact hn.2 (j + 1) hj (near_succ.2 ⟨n', hi', hdist.1⟩)

/-- **What is answered is the least of the shortest chains.** -/
theorem FirstDescent.isLE (hsorted : imports.Pairwise (compare · · = .lt))
    (h : FirstDescent imports sources goals ring inward c) (hd : Joins imports sources goals d)
    (hlen : d.length = c.length) : (compare c d).isLE := by
  obtain ⟨_, _, _, _, _, hc⟩ := h.exists_walk
  obtain ⟨s', hs', t, ht, hw, -⟩ := hd
  obtain ⟨front, s, back, hsources, hdesc, hnone⟩ := List.findSome?_eq_some_iff.1 h.first
  -- the start of `d` has a descent as well, so it does not come before the first source that has one
  have hstarts : (descent? imports s' (ring :: inward)).isSome := by
    cases hw with
    | here =>
      rw [hc] at hlen
      simp at hlen
    | @step _ n _ d' hi hd' =>
      have hn : AtDistance imports goals inward.length n := by
        refine ⟨⟨t, ht, d', hd', by simp only [List.length_cons] at hlen; omega⟩, fun j hj hnear => ?_⟩
        obtain ⟨k, hk, hdist⟩ := hnear.exists_atDistance
        exact h.unreached s' hs' n hi k (by omega) hdist
      exact isSome_descent? h.rings hi ((h.rings.1 n).2 hn)
  have hle : (compare s s').isLE := by
    have hordered := Std.ExtTreeSet.ordered_toList (t := sources)
    have hmem := Std.ExtTreeSet.mem_toList.2 hs'
    rw [hsources] at hordered hmem
    refine isLE_of_notMem_front hordered hmem fun hfront => ?_
    rw [hnone s' hfront] at hstarts
    cases hstarts
  refine isLE_cons_of_isLE hle (eq_cons_of_descent? hdesc) hw.eq_cons fun hsame => ?_
  subst hsame
  have hs : s ∈ sources := hs'
  refine isLE_of_descent? hsorted h.rings (fun n hi j hj => ?_) hdesc hw ht ?_
  · exact h.unreached s hs n hi j (by simpa using hj)
  · rw [hlen, hc, List.length_cons]

theorem leastShortest_of_leastChain? (hsorted : imports.Pairwise (compare · · = .lt))
    (h : leastChain? imports sources goals = some c) : LeastShortest imports sources goals c := by
  obtain ⟨ring, inward, hfirst⟩ := exists_firstDescent h
  exact ⟨hfirst.joins, fun d hd => hfirst.length_le hd, fun d hd => hfirst.isLE hsorted hd⟩

end Descending

/-! ## The answer -/

namespace Graph

variable {g : Graph} {a b : ModuleName} {asPackages : Bool} {c : Chain}

theorem pairwise_importList (g : Graph) : g.importList.Pairwise (compare · · = .lt) :=
  Std.ExtTreeMap.ordered_keys

/-- A walk from a module back to it is what joins the module with itself. -/
theorem joins_singleton_iff {imports : List Import} {a : ModuleName} {c : Chain} :
    Joins imports (.ofList [a]) (.ofList [a]) c ↔ Walk imports a a c ∧ 2 ≤ c.length := by
  constructor
  · rintro ⟨s, hs, t, ht, hw, hlen⟩
    obtain rfl := NameSet.mem_singleton.1 hs
    obtain rfl := NameSet.mem_singleton.1 ht
    exact ⟨hw, hlen⟩
  · rintro ⟨hw, hlen⟩
    exact ⟨a, NameSet.mem_singleton.2 rfl, a, NameSet.mem_singleton.2 rfl, hw, hlen⟩

/-- **One shortest chain.**  About two modules of the graph, as packages if they do not overlap, there
is no answer exactly if no walk of one or more imports leads from a member of the one to a member of
the other.  Otherwise the answer is a shortest of these walks, and of the shortest the least by name;
between its ends it meets neither package and it passes no module twice.  Asked about a module and
itself, it is a shortest cycle. -/
theorem shortestChain_least (g : Graph) (ha : a ∈ g.modules) (hb : b ∈ g.modules)
    (hapart : asPackages = true → ¬ a.Overlaps b) :
    ∃ answer, g.shortestChain a.text b.text asPackages = .ok answer ∧
      (answer = none ↔
        ∀ c, ¬ Joins g.importList (g.extent asPackages a) (g.extent asPackages b) c) ∧
      ∀ c, answer = some c →
        LeastShortest g.importList (g.extent asPackages a) (g.extent asPackages b) c ∧
        (∀ m ∈ c.tail.dropLast, m ∉ g.extent asPackages a ∧ m ∉ g.extent asPackages b) ∧
        c.tail.Nodup ∧
        (a = b → Walk g.importList a a c ∧ 2 ≤ c.length ∧
          ∀ d, Walk g.importList a a d → 2 ≤ d.length → c.length ≤ d.length) := by
  refine ⟨_, shortestChain_text ha hb hapart, leastChain?_eq_none_iff, fun c hc => ?_⟩
  have hleast := leastShortest_of_leastChain? g.pairwise_importList hc
  refine ⟨hleast, fun m hm => hleast.joins.notMem_interior hleast.length_le hm,
    hleast.joins.nodup_tail hleast.length_le, ?_⟩
  rintro rfl
  have hsingle : asPackages = false := by
    cases asPackages with
    | false => rfl
    | true => exact absurd (.inl rfl) (hapart rfl)
  subst hsingle
  obtain ⟨hw, htwo⟩ := joins_singleton_iff.1 hleast.joins
  exact ⟨hw, htwo, fun d hd hlen => hleast.length_le d (joins_singleton_iff.2 ⟨hd, hlen⟩)⟩

/-- Three chains of one length, two of which start at the same member. -/
def tied : Graph :=
  ofEdits [.addModule "p" false, .addImport "p.b" "a", .addImport "a" "q", .addImport "p.a" "n",
    .addImport "n" "q", .addImport "p.a" "k", .addImport "k" "q.d"]

/-- The first place where chains differ decides: `p.a` comes before `p.b`, and then `k` before `n`. -/
theorem shortestChain_least_tied : ∃ (p q : ModuleName) (c : Chain), p.text = "p" ∧ q.text = "q" ∧
    p ∈ tied.modules ∧ q ∈ tied.modules ∧ ¬ p.Overlaps q ∧
    tied.shortestChain "p" "q" true = .ok (some c) ∧ c.map (·.text) = ["p.a", "k", "q.d"] ∧
    LeastShortest tied.importList (tied.closure p) (tied.closure q) c := by
  let p : ModuleName := ⟨"p", by decide⟩
  let q : ModuleName := ⟨"q", by decide⟩
  have hp : p ∈ tied.modules := by decide +kernel
  have hq : q ∈ tied.modules := by decide +kernel
  have hapart : true = true → ¬ p.Overlaps q := fun _ => by decide
  have hnames : ((tied.shortestChain "p" "q" true).toOption.bind id).map (·.map (·.text)) =
      some ["p.a", "k", "q.d"] := by
    decide +kernel
  obtain ⟨answer, hanswer, -, hleast⟩ := shortestChain_least tied hp hq hapart
  have hanswer : tied.shortestChain "p" "q" true = .ok answer := hanswer
  rw [hanswer] at hnames
  obtain ⟨c, rfl, hc⟩ := Option.map_eq_some_iff.1 hnames
  exact ⟨p, q, c, rfl, rfl, hp, hq, hapart rfl, hanswer, hc, (hleast c rfl).1⟩

end Graph
end ImportAtlas
