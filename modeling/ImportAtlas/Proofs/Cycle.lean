import ImportAtlas.Proofs.GreedyOrder
import ImportAtlas.Proofs.Squashed
/-!
# Cycles between children

A child of a package depends on another if some import leads from the package of the one into that of
the other (`Depends`).  The imports that `cycleBreakers` gives up are those between two children that
point backwards in the greedy order (`exists_cycleBreakers`), where the weight between two children is
the number of imports between them, so that there is weight exactly where there is a dependency.

Hence there is nothing to give up if and only if no child depends on itself through others, and what
is left after giving up points forwards, so it has no cycle any more.
-/
namespace ImportAtlas
namespace Graph

/-- The import leads from the package of the child `a` of `p` into that of another child `b`. -/
def Between (g : Graph) (p a b : ModuleName) (i : Import) : Prop :=
  (a ∈ g.childrenOf p ∧ b ∈ g.childrenOf p ∧ a ≠ b) ∧
    i ∈ g.imports ∧ i.importer ∈ g.closure a ∧ i.imported ∈ g.closure b

/-- The child `a` of `p` depends on another child `b`. -/
def Depends (g : Graph) (p a b : ModuleName) : Prop := ∃ i, Between g p a b i

section Children

variable {g h : Graph} {a b m p : ModuleName} {i : Import}

theorem not_overlaps_of_mem_childrenOf (ha : a ∈ g.childrenOf p) (hb : b ∈ g.childrenOf p)
    (hne : a ≠ b) : ¬ a.Overlaps b := by
  obtain ⟨-, -, hda⟩ := mem_childrenOf.1 ha
  obtain ⟨-, -, hdb⟩ := mem_childrenOf.1 hb
  rintro (e | hbeneath | hbeneath)
  · exact hne e
  · have := ModuleName.depth_lt_of_isBeneath hbeneath
    omega
  · have := ModuleName.depth_lt_of_isBeneath hbeneath
    omega

/-- The children in order, and each module of their packages beside the child it belongs to. -/
def ownersOf (g : Graph) (children : List ModuleName) : Std.ExtTreeMap ModuleName ModuleName :=
  .ofList (children.flatMap fun c => (g.closure c).toList.map (·, c))

theorem mem_owners {k v : ModuleName} :
    (k, v) ∈ ((g.childrenOf p).toList.flatMap fun c => (g.closure c).toList.map (·, c)) ↔
      v ∈ g.childrenOf p ∧ k ∈ g.closure v := by
  simp only [List.mem_flatMap, Std.ExtTreeSet.mem_toList, List.mem_map, Prod.mk.injEq]
  constructor
  · rintro ⟨c, hc, n, hn, rfl, rfl⟩
    exact ⟨hc, hn⟩
  · rintro ⟨hv, hk⟩
    exact ⟨v, hv, k, hk, rfl, rfl⟩

/-- Packages of different children have no module in common, so no module is listed twice. -/
theorem distinct_owners (g : Graph) (p : ModuleName) :
    ((g.childrenOf p).toList.flatMap fun c => (g.closure c).toList.map (·, c)).Pairwise
      fun x y => ¬ compare x.1 y.1 = .eq := by
  refine List.pairwise_flatMap.2 ⟨fun c _ => ?_, ?_⟩
  · exact List.pairwise_map.2 (Std.ExtTreeSet.distinct_toList (t := g.closure c))
  · refine Std.ExtTreeSet.distinct_toList.imp_of_mem fun {c d} hc hd hne x hx y hy e => ?_
    obtain ⟨m, hm, rfl⟩ := List.mem_map.1 hx
    obtain ⟨n, hn, rfl⟩ := List.mem_map.1 hy
    obtain rfl := ModuleName.eq_of_compare_eq e
    have hapart := not_overlaps_of_mem_childrenOf (Std.ExtTreeSet.mem_toList.1 hc)
      (Std.ExtTreeSet.mem_toList.1 hd) fun e => hne (Std.compare_eq_iff_eq.2 e)
    exact notMem_closure_of_not_overlaps hapart (Std.ExtTreeSet.mem_toList.1 hm)
      (Std.ExtTreeSet.mem_toList.1 hn)

theorem getElem?_ownersOf : (g.ownersOf (g.childrenOf p).toList)[m]? = some a ↔
    a ∈ g.childrenOf p ∧ m ∈ g.closure a := by
  constructor
  · intro hlookup
    have hkey : m ∈ g.ownersOf (g.childrenOf p).toList := by
      rw [Std.ExtTreeMap.mem_iff_isSome_getElem?, hlookup]
      rfl
    obtain ⟨⟨k, v⟩, hkv, rfl⟩ : ∃ x ∈ ((g.childrenOf p).toList.flatMap fun c =>
        (g.closure c).toList.map (·, c)), x.1 = m := by
      simpa [ownersOf, Std.ExtTreeMap.mem_ofList] using hkey
    have hv : (g.ownersOf (g.childrenOf p).toList)[k]? = some v :=
      Std.ExtTreeMap.getElem?_ofList_of_mem Std.ReflCmp.compare_self (distinct_owners g p) hkv
    obtain rfl := Option.some.inj (hv.symm.trans hlookup)
    exact mem_owners.1 hkv
  · intro h
    exact Std.ExtTreeMap.getElem?_ofList_of_mem Std.ReflCmp.compare_self (distinct_owners g p)
      (mem_owners.2 h)

theorem mem_importsAmong {k : Import} :
    (k, i) ∈ g.importsAmong (g.childrenOf p).toList ↔ Between g p k.importer k.imported i := by
  unfold importsAmong
  rw [List.mem_filterMap]
  constructor
  · rintro ⟨j, hj, hmatch⟩
    split at hmatch
    · next a b ha hb =>
      split at hmatch
      · cases hmatch
      · next hne =>
        cases hmatch
        obtain ⟨ha, himporter⟩ := getElem?_ownersOf.1 ha
        obtain ⟨hb, himported⟩ := getElem?_ownersOf.1 hb
        exact ⟨⟨ha, hb, hne⟩, mem_importList.1 hj, himporter, himported⟩
    · cases hmatch
  · rintro ⟨⟨ha, hb, hne⟩, hi, himporter, himported⟩
    have hownerImporter := getElem?_ownersOf.2 ⟨ha, himporter⟩
    have hownerImported := getElem?_ownersOf.2 ⟨hb, himported⟩
    unfold ownersOf at hownerImporter hownerImported
    refine ⟨i, mem_importList.2 hi, ?_⟩
    rw [hownerImporter, hownerImported]
    exact if_neg hne

end Children

/-! ## Weights and the order -/

section Weights

variable {g h : Graph} {a b p : ModuleName} {i : Import} {imports : List (Import × Import)}

/-- How many of the imports join `a` to `b`, as the table of weights has it. -/
def weightOf (imports : List (Import × Import)) (a b : ModuleName) : Nat :=
  ((weights imports)[(⟨a, b⟩ : Import)]?).getD 0

theorem getD_foldl_weights (k : Import) : ∀ (l : List (Import × Import)) (t : Std.ExtTreeMap Import Nat),
    ((l.foldl (fun t i => t.insert i.1 ((t[i.1]?).getD 0 + 1)) t)[k]?).getD 0 =
      (t[k]?).getD 0 + l.countP (·.1 = k)
  | [], t => rfl
  | x :: l, t => by
    rw [List.foldl_cons, getD_foldl_weights k l, List.countP_cons]
    simp only [Std.ExtTreeMap.getElem?_insert, Std.compare_eq_iff_eq, decide_eq_true_eq]
    by_cases h : x.1 = k
    · subst h
      rw [if_pos rfl, if_pos rfl, Option.getD_some]
      omega
    · rw [if_neg h, if_neg h]
      omega

theorem weightOf_eq_countP : weightOf imports a b = imports.countP (·.1 = ⟨a, b⟩) := by
  unfold weightOf weights
  rw [getD_foldl_weights, Std.ExtTreeMap.getElem?_empty]
  exact Nat.zero_add _

/-- **There is weight exactly where there is a dependency.** -/
theorem heavy_weightOf_iff :
    Heavy (weightOf (g.importsAmong (g.childrenOf p).toList)) a b ↔ Depends g p a b := by
  unfold Heavy
  rw [weightOf_eq_countP, ← Nat.pos_iff_ne_zero, List.countP_pos_iff]
  constructor
  · rintro ⟨⟨k, i⟩, hk, he⟩
    obtain rfl : k = ⟨a, b⟩ := by simpa using he
    exact ⟨i, mem_importsAmong.1 hk⟩
  · rintro ⟨i, hi⟩
    exact ⟨(⟨a, b⟩, i), mem_importsAmong.2 hi, by simp⟩

/-- The order in which `cycleBreakers` puts the children. -/
def childOrder (g : Graph) (p : ModuleName) : List ModuleName :=
  greedyOrder (weightOf (g.importsAmong (g.childrenOf p).toList)) (g.childrenOf p).toList

theorem mem_childOrder : a ∈ g.childOrder p ↔ a ∈ g.childrenOf p :=
  (perm_greedyOrder _ _).mem_iff.trans Std.ExtTreeSet.mem_toList

/-- The import points backwards in the order of the children. -/
def PointsBack (g : Graph) (p : ModuleName) (i : Import) : Prop :=
  ∃ a b, Between g p a b i ∧ (g.childOrder p).idxOf b < (g.childOrder p).idxOf a

/-- **What is given up**: the imports that point backwards, and none in a squashed package. -/
theorem exists_cycleBreakers (hp : p ∈ g.modules) : ∃ breakers, g.cycleBreakers p.text = .ok breakers ∧
    ∀ i, i ∈ breakers ↔ g.isSquashed p = false ∧ PointsBack g p i := by
  unfold cycleBreakers
  rw [present_text hp]
  by_cases hsquashed : g.isSquashed p = true
  · refine ⟨∅, if_pos hsquashed, fun i => ?_⟩
    rw [hsquashed]
    simp
  · refine ⟨_, if_neg hsquashed, fun i => ?_⟩
    rw [Std.ExtTreeSet.mem_ofList, List.contains_iff_mem]
    show i ∈ backward (g.childOrder p) (g.importsAmong (g.childrenOf p).toList) ↔ _
    rw [backward, List.mem_map]
    constructor
    · rintro ⟨⟨k, j⟩, hk, rfl⟩
      obtain ⟨hk, hback⟩ := List.mem_filter.1 hk
      exact ⟨Bool.eq_false_iff.2 hsquashed, k.importer, k.imported, mem_importsAmong.1 hk,
        of_decide_eq_true hback⟩
    · rintro ⟨-, a, b, hbetween, hback⟩
      exact ⟨(⟨a, b⟩, i), List.mem_filter.2 ⟨mem_importsAmong.2 hbetween, decide_eq_true hback⟩, rfl⟩

theorem Between.mono (hmodules : h.modules = g.modules) (himports : ∀ i ∈ h.imports, i ∈ g.imports)
    (hi : Between h p a b i) : Between g p a b i := by
  obtain ⟨⟨ha, hb, hne⟩, hi, himporter, himported⟩ := hi
  rw [mem_childrenOf, hmodules] at ha hb
  rw [closure_congr hmodules] at himporter himported
  exact ⟨⟨mem_childrenOf.2 ha, mem_childrenOf.2 hb, hne⟩, himports i hi, himporter, himported⟩

/-- What is left of a graph when nothing in it points back has no cycle. -/
theorem acyclic_of_forward (hmodules : h.modules = g.modules)
    (himports : ∀ i ∈ h.imports, i ∈ g.imports ∧ ¬ PointsBack g p i) : Acyclic (Depends h p) := by
  refine acyclic_of_lt (g.childOrder p).idxOf fun a b ⟨i, hi⟩ => ?_
  have hbetween := hi.mono hmodules fun i hi => (himports i hi).1
  obtain ⟨ha, -, hne⟩ := hbetween.1
  have hdiffer : (g.childOrder p).idxOf a ≠ (g.childOrder p).idxOf b := fun e =>
    hne ((List.idxOf_inj (mem_childOrder.2 ha)).1 e)
  have hforward : ¬ (g.childOrder p).idxOf b < (g.childOrder p).idxOf a := fun hback =>
    (himports i hi.2.1).2 ⟨a, b, hbetween, hback⟩
  omega

/-- **Nothing points back if and only if no child depends on itself through others.** -/
theorem noneBack_iff_acyclic : (∀ i, ¬ PointsBack g p i) ↔ Acyclic (Depends g p) := by
  constructor
  · exact fun hnone => acyclic_of_forward rfl fun i hi => ⟨hi, hnone i⟩
  · rintro hacyclic i ⟨a, b, hi, hback⟩
    have hheavy : Acyclic (Heavy (weightOf (g.importsAmong (g.childrenOf p).toList))) :=
      hacyclic.mono fun _ _ => heavy_weightOf_iff.1
    have hforward := hheavy.idxOf_lt (Std.ExtTreeSet.mem_toList.2 hi.1.1)
      (Std.ExtTreeSet.mem_toList.2 hi.1.2.1) (heavy_weightOf_iff.2 ⟨i, hi⟩)
    exact Nat.lt_asymm hforward hback

end Weights

/-! ## Giving up -/

section GivingUp

variable {g h : Graph} {a b p : ModuleName} {i : Import}

theorem Collapsed.acyclic (hg : Collapsed g) (hp : g.isSquashed p = true) : Acyclic (Depends g p) := by
  refine acyclic_of_lt (fun _ => 0) fun a b ⟨i, hi⟩ => ?_
  obtain ⟨ha, hbeneath, -⟩ := mem_childrenOf.1 hi.1.1
  exact (hg p hp a ha hbeneath).elim

/-- **Giving up what is nominated breaks every cycle, and only cycles are nominated for**: there is
nothing to give up if and only if no child of the package depends on itself through others, all that
is given up leads from one child to another, and afterwards there is no cycle and nothing more to
give up. -/
theorem cycleBreakers_break_cycles (hg : Reachable g) (hp : p ∈ g.modules) :
    ∃ breakers, g.cycleBreakers p.text = .ok breakers ∧
      (breakers.isEmpty = true ↔ Acyclic (Depends g p) ∨ g.isSquashed p = true) ∧
      (∀ i ∈ breakers, ∃ a b, Between g p a b i) ∧
      ∀ removed : List Import, (∀ i, i ∈ removed ↔ i ∈ breakers) →
        Acyclic (Depends ((removed.map removal).foldl edit g) p) ∧
        ((removed.map removal).foldl edit g).cycleBreakers p.text = .ok ∅ := by
  obtain ⟨breakers, hbreakers, hmem⟩ := exists_cycleBreakers hp
  have hcollapsed := collapsed_of_reachable hg
  refine ⟨breakers, hbreakers, ?_, fun i hi => ?_, fun removed hremoved => ?_⟩
  · rw [Std.ExtTreeSet.isEmpty_iff, Std.ExtTreeSet.eq_empty_iff_forall_not_mem]
    cases hsquashed : g.isSquashed p with
    | true =>
      refine ⟨fun _ => .inr rfl, fun _ i hi => ?_⟩
      rw [hmem, hsquashed] at hi
      cases hi.1
    | false =>
      simp only [hmem, hsquashed, true_and, Bool.false_eq_true, or_false]
      exact noneBack_iff_acyclic
  · obtain ⟨-, a, b, hbetween, -⟩ := (hmem i).1 hi
    exact ⟨a, b, hbetween⟩
  · obtain ⟨hmodules, himports⟩ := foldl_removal removed g (endsPresent_of_reachable hg)
    generalize (removed.map removal).foldl edit g = h at hmodules himports
    have hacyclic : Acyclic (Depends h p) := by
      cases hsquashed : g.isSquashed p with
      | true =>
        have hg := hcollapsed.acyclic hsquashed
        exact hg.mono fun a b ⟨i, hi⟩ => ⟨i, hi.mono hmodules fun i hi => ((himports i).1 hi).1⟩
      | false =>
        refine acyclic_of_forward hmodules fun i hi => ?_
        obtain ⟨hi, hkept⟩ := (himports i).1 hi
        exact ⟨hi, fun hback => hkept ((hremoved i).2 ((hmem i).2 ⟨hsquashed, hback⟩))⟩
    refine ⟨hacyclic, ?_⟩
    obtain ⟨more, hmore, hmem'⟩ := exists_cycleBreakers (g := h) (p := p) (hmodules ▸ hp)
    have hempty : more = ∅ := Std.ExtTreeSet.eq_empty_iff_forall_not_mem.2 fun i hi =>
      noneBack_iff_acyclic.2 hacyclic i ((hmem' i).1 hi).2
    rw [hmore, hempty]

/-- Two children that depend on each other, one of them by a module beneath it. -/
def entangled : Graph :=
  ofEdits [.addModule "p" false, .addModule "p.a" false, .addImport "p.a.x" "p.b",
    .addImport "p.b" "p.a", .addImport "p.b" "p.a.x"]

theorem cycleBreakers_break_cycles_entangled : ∃ (p : ModuleName) (breakers : Std.ExtTreeSet Import),
    Reachable entangled ∧ p ∈ entangled.modules ∧ p.text = "p" ∧
      entangled.cycleBreakers "p" = .ok breakers ∧ breakers.isEmpty = false ∧
      ((breakers.toList.map removal).foldl edit entangled).cycleBreakers "p" = .ok ∅ := by
  let p : ModuleName := ⟨"p", by decide⟩
  have hreachable : Reachable entangled := ⟨_, rfl⟩
  have hp : p ∈ entangled.modules := by decide +kernel
  obtain ⟨breakers, hbreakers, -, -, hafter⟩ := cycleBreakers_break_cycles hreachable hp
  have hsome : (entangled.cycleBreakers "p").toOption.all (·.isEmpty) = false := by decide +kernel
  have hbreakers : entangled.cycleBreakers "p" = .ok breakers := hbreakers
  rw [hbreakers] at hsome
  exact ⟨p, breakers, hreachable, hp, rfl, hbreakers, hsome,
    (hafter breakers.toList fun i => Std.ExtTreeSet.mem_toList).2⟩

end GivingUp
end Graph
end ImportAtlas
