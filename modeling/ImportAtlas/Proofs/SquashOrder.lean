import Mathlib.Data.List.Pairwise
import ImportAtlas.Proofs.Squashing
/-!
# Squashing in any order

Squashing a package changes as little as it can (`SquashedTo`): the modules beneath it go, the imports
that touch them are moved to it without their sites or, if they would start and end there, disappear, and
everything else stays.

Squashing one package after the other does all of that at once (`exists_on_squashes`): a module goes to
where the packages bring it in turn (`contractAll`), and an import disappears if it was moved and both its
ends come to one module.  It does not matter at which of the packages they meet.  So **packages of which
none contains another can be squashed in any order** (`squashes_perm`), also if they import each other, and
squashing first within a package is lost when the package is squashed.
-/
namespace ImportAtlas
namespace Graph

/-! ## One package -/

/-- `h` is `g` with what is beneath `p` contracted onto `p`, and is otherwise as `g` was. -/
structure SquashedTo (p : ModuleName) (g h : Graph) : Prop where
  modules : ∀ m, m ∈ h.modules ↔ m ∈ g.modules ∧ ¬ m.IsBeneath p
  squashed : h.isSquashed p = true
  flags : ∀ m ∈ h.modules, m ≠ p → h.isSquashed m = g.isSquashed m
  imports : ∀ i, i ∈ h.imports ↔ (i ∈ g.imports ∧ ¬ Inner p i) ∨
    ∃ j ∈ g.imports, Inner p j ∧ contract p j.importer ≠ contract p j.imported ∧
      i = ⟨contract p j.importer, contract p j.imported⟩
  kept : ∀ i ∈ g.imports, ¬ Inner p i → h.records i = g.records i
  fresh : ∀ i ∈ h.imports, i ∉ g.imports → h.records i = []

section One

variable {g h : Graph} {i j : Import} {m p q : ModuleName}

/-- A squashed module has nothing beneath it, so it is squashed as it stands. -/
theorem squashedTo_self (hends : EndsPresent g) (hg : Collapsed g) (hp : g.isSquashed p = true) :
    SquashedTo p g g := by
  have hfree : ∀ i ∈ g.imports, ¬ Inner p i := fun i hi hinner =>
    hinner.elim (hg p hp _ (hends i hi).1) (hg p hp _ (hends i hi).2)
  refine ⟨fun m => ⟨fun hm => ⟨hm, hg p hp m hm⟩, And.left⟩, hp, fun _ _ _ => rfl, fun i => ?_,
    fun _ _ _ => rfl, fun i hi hnew => (hnew hi).elim⟩
  constructor
  · exact fun hi => .inl ⟨hi, hfree i hi⟩
  · rintro (⟨hi, -⟩ | ⟨j, hj, hinner, -⟩)
    · exact hi
    · exact (hfree j hj hinner).elim

theorem squashedTo_squashed (hends : EndsPresent g) (hp : p ∈ g.modules) :
    SquashedTo p g (g.squashed p) := by
  refine ⟨fun m => mem_modules_squashed_of_mem hp, ?_, fun m hm hmp => ?_, fun i => ?_,
    fun i _ hinner => ?_, fun i _ hnew => ?_⟩
  · rw [isSquashed_iff, getElem?_modules_squashed, if_pos rfl]
  · have hfree := ((mem_modules_squashed_of_mem hp).1 hm).2
    rw [isSquashed, isSquashed, getElem?_modules_squashed, if_neg hmp, if_neg hfree]
  · rw [mem_imports_squashed hends, mem_contracted hends, or_comm]
    refine or_congr_right ⟨?_, ?_⟩
    · rintro ⟨⟨j, hj, hinner, rfl⟩, hne⟩
      exact ⟨j, hj, hinner, hne, rfl⟩
    · rintro ⟨j, hj, hinner, hne, rfl⟩
      exact ⟨⟨j, hj, hinner, rfl⟩, hne⟩
  · rw [records_squashed hends, if_neg hinner]
  · rw [records_squashed hends, records_eq_nil hnew, ite_self]

/-- **Squashing contracts exactly the package.** -/
theorem squashedTo_edit (hg : Reachable g) (hp : p ∈ g.modules) :
    SquashedTo p g (g.edit (.squashModule p.text)) := by
  have hends := endsPresent_of_reachable hg
  rw [edit_squashModule hp]
  split
  · next hsquashed => exact squashedTo_self hends (collapsed_of_reachable hg) hsquashed
  · exact squashedTo_squashed hends hp

theorem SquashedTo.isSquashed_iff (h' : SquashedTo p g h) (hm : m ∈ h.modules) :
    h.isSquashed m = true ↔ m = p ∨ g.isSquashed m = true := by
  by_cases hmp : m = p
  · simp [hmp, h'.squashed]
  · simp [hmp, h'.flags m hm hmp]

/-- Every import goes along, unless it is moved and comes to nothing. -/
theorem SquashedTo.mem_imports_iff (h' : SquashedTo p g h) : i ∈ h.imports ↔
    ∃ j ∈ g.imports, i = ⟨contract p j.importer, contract p j.imported⟩ ∧
      (Inner p j → i.importer ≠ i.imported) := by
  rw [h'.imports]
  constructor
  · rintro (⟨hi, hinner⟩ | ⟨j, hj, -, hne, rfl⟩)
    · obtain ⟨himporter, himported⟩ := contract_of_not_inner hinner
      exact ⟨i, hi, by rw [himporter, himported], fun h => (hinner h).elim⟩
    · exact ⟨j, hj, rfl, fun _ => hne⟩
  · rintro ⟨j, hj, rfl, hne⟩
    by_cases hinner : Inner p j
    · exact .inr ⟨j, hj, hinner, hne hinner, rfl⟩
    · obtain ⟨himporter, himported⟩ := contract_of_not_inner hinner
      rw [himporter, himported]
      exact .inl ⟨hj, hinner⟩

theorem SquashedTo.not_inner (h' : SquashedTo p g h) (hi : i ∈ h.imports) : ¬ Inner p i := by
  obtain ⟨j, -, rfl, -⟩ := h'.mem_imports_iff.1 hi
  exact fun hinner => hinner.elim not_isBeneath_contract not_isBeneath_contract

theorem SquashedTo.records_eq (h' : SquashedTo p g h) :
    h.records i = if Inner p i then [] else g.records i := by
  split
  · next hinner => exact records_eq_nil fun hi => h'.not_inner hi hinner
  · next hinner =>
    by_cases hi : i ∈ g.imports
    · exact h'.kept i hi hinner
    · rw [records_eq_nil hi]
      by_cases hih : i ∈ h.imports
      · exact h'.fresh i hih hi
      · exact records_eq_nil hih

end One

/-! ## One after the other -/

/-- Where a module goes when packages are squashed one after the other. -/
def contractAll (ps : List ModuleName) (m : ModuleName) : ModuleName :=
  ps.foldl (fun m p => contract p m) m

/-- `i` has an end beneath one of the packages. -/
def InnerAny (ps : List ModuleName) (i : Import) : Prop := ∃ p ∈ ps, Inner p i

instance (ps : List ModuleName) (i : Import) : Decidable (InnerAny ps i) :=
  inferInstanceAs (Decidable (∃ p ∈ ps, Inner p i))

/-- `h` is `g` with all the packages contracted, each onto its module. -/
structure SquashedAll (ps : List ModuleName) (g h : Graph) : Prop where
  modules : ∀ m, m ∈ h.modules ↔ m ∈ g.modules ∧ ∀ p ∈ ps, ¬ m.IsBeneath p
  flags : ∀ m ∈ h.modules, h.isSquashed m = true ↔ m ∈ ps ∨ g.isSquashed m = true
  imports : ∀ i, i ∈ h.imports ↔ ∃ j ∈ g.imports,
    i = ⟨contractAll ps j.importer, contractAll ps j.imported⟩ ∧
      (InnerAny ps j → i.importer ≠ i.imported)
  records : ∀ i, h.records i = if InnerAny ps i then [] else g.records i

section Several

variable {g h k : Graph} {i : Import} {m p q : ModuleName} {ps qs : List ModuleName}

theorem contractAll_of_forall_not : ∀ {ps : List ModuleName}, (∀ p ∈ ps, ¬ m.IsBeneath p) →
    contractAll ps m = m
  | [], _ => rfl
  | p :: ps, h => by
    obtain ⟨hp, hps⟩ := List.forall_mem_cons.1 h
    rw [contractAll, List.foldl_cons, contract, if_neg hp]
    exact contractAll_of_forall_not hps

theorem contractAll_of_not_innerAny (h : ¬ InnerAny ps i) :
    contractAll ps i.importer = i.importer ∧ contractAll ps i.imported = i.imported :=
  ⟨contractAll_of_forall_not fun p hp himporter => h ⟨p, hp, .inl himporter⟩,
    contractAll_of_forall_not fun p hp himported => h ⟨p, hp, .inr himported⟩⟩

theorem innerAny_cons : InnerAny (p :: ps) i ↔ Inner p i ∨ InnerAny ps i := by
  simp [InnerAny]

theorem SquashedAll.nil : SquashedAll [] g g := by
  refine ⟨fun m => by simp, fun m _ => by simp, fun i => ?_, fun i => by simp [InnerAny]⟩
  constructor
  · exact fun hi => ⟨i, hi, rfl, fun ⟨_, hp, _⟩ => (List.not_mem_nil hp).elim⟩
  · rintro ⟨j, hj, rfl, -⟩
    exact hj

/-- An import that was moved at any of the steps is there in the end if its ends are apart in the end. -/
theorem SquashedAll.cons (hp : SquashedTo p g h) (hps : SquashedAll ps h k) :
    SquashedAll (p :: ps) g k := by
  refine ⟨fun m => ?_, fun m hm => ?_, fun i => ?_, fun i => ?_⟩
  · rw [hps.modules, hp.modules, List.forall_mem_cons, and_assoc]
  · rw [hps.flags m hm, hp.isSquashed_iff ((hps.modules m).1 hm).1, List.mem_cons, or_left_comm, or_assoc]
  · rw [hps.imports]
    simp only [innerAny_cons]
    constructor
    · rintro ⟨j, hj, hij, hne⟩
      obtain ⟨j', hj', rfl, hne'⟩ := hp.mem_imports_iff.1 hj
      refine ⟨j', hj', hij, fun hinner => ?_⟩
      by_cases hmoved : InnerAny ps ⟨contract p j'.importer, contract p j'.imported⟩
      · exact hne hmoved
      · obtain ⟨himporter, himported⟩ := contractAll_of_not_innerAny hmoved
        by_cases hfirst : Inner p j'
        · rw [hij, himporter, himported]
          exact hne' hfirst
        · obtain ⟨hsource, htarget⟩ := contract_of_not_inner hfirst
          rw [hsource, htarget] at hmoved
          exact (hinner.elim hfirst hmoved).elim
    · rintro ⟨j, hj, rfl, hne⟩
      refine ⟨⟨contract p j.importer, contract p j.imported⟩, hp.mem_imports_iff.2 ⟨j, hj, rfl, ?_⟩, rfl, ?_⟩
      · exact fun hfirst e => hne (.inl hfirst) (congrArg (contractAll ps) e)
      · intro hmoved
        by_cases hfirst : Inner p j
        · exact hne (.inl hfirst)
        · obtain ⟨hsource, htarget⟩ := contract_of_not_inner hfirst
          rw [hsource, htarget] at hmoved
          exact hne (.inr hmoved)
  · rw [hps.records, hp.records_eq]
    simp only [innerAny_cons]
    by_cases hfirst : Inner p i <;> by_cases hrest : InnerAny ps i <;> simp [hfirst, hrest]

/-- **Packages that are there can be squashed one after the other**, as long as none is beneath one that
comes before it. -/
theorem exists_on_squashes : ∀ {ps : List ModuleName} {g : Graph}, Reachable g →
    (∀ p ∈ ps, p ∈ g.modules) → (ps.Pairwise fun p q => ¬ q.IsBeneath p) →
      ∃ h, (ps.forM fun p => squashModule p.text).on g = (h, .ok ()) ∧ SquashedAll ps g h
  | [], g, _, _, _ => ⟨g, rfl, .nil⟩
  | p :: ps, g, hg, hmem, horder => by
    obtain ⟨hp, hps⟩ := List.forall_mem_cons.1 hmem
    obtain ⟨hfree, horder⟩ := List.pairwise_cons.1 horder
    have hfirst := squashedTo_edit hg hp
    have hmem' : ∀ q ∈ ps, q ∈ (g.edit (.squashModule p.text)).modules := fun q hq =>
      (hfirst.modules q).2 ⟨hps q hq, hfree q hq⟩
    obtain ⟨h, hon, hrest⟩ := exists_on_squashes (hg.edit _) hmem' horder
    refine ⟨h, ?_, hrest.cons hfirst⟩
    show (squashModule p.text >>= fun _ => ps.forM fun p => squashModule p.text).on g = _
    rw [Step.on_bind, squashModule_on_eq_edit hp]
    exact hon

theorem getElem?_modules_eq (hmem : m ∈ g.modules ↔ m ∈ h.modules)
    (hflag : g.isSquashed m = true ↔ h.isSquashed m = true) : g.modules[m]? = h.modules[m]? := by
  rw [Std.ExtTreeMap.mem_iff_isSome_getElem?, Std.ExtTreeMap.mem_iff_isSome_getElem?] at hmem
  rw [isSquashed_iff, isSquashed_iff] at hflag
  cases hg : g.modules[m]? <;> cases hh : h.modules[m]? <;> simp_all

/-- What comes of a row of packages depends on what is beneath them, on which of them are left in the
end, and on where modules go. -/
theorem SquashedAll.eq (hps : SquashedAll ps g h) (hqs : SquashedAll qs g k)
    (hbeneath : ∀ m : ModuleName, (∃ p ∈ ps, m.IsBeneath p) ↔ ∃ q ∈ qs, m.IsBeneath q)
    (hheads : ∀ m : ModuleName, (∀ p ∈ ps, ¬ m.IsBeneath p) → (m ∈ ps ↔ m ∈ qs))
    (hmap : ∀ m, contractAll ps m = contractAll qs m) : h = k := by
  have hinner : ∀ i, InnerAny ps i ↔ InnerAny qs i := fun i => by
    simp only [InnerAny, Inner, and_or_left, exists_or, hbeneath]
  have hmem : ∀ m, m ∈ h.modules ↔ m ∈ k.modules := fun m => by
    have hfree : (∀ p ∈ ps, ¬ m.IsBeneath p) ↔ ∀ q ∈ qs, ¬ m.IsBeneath q := by
      simpa using not_congr (hbeneath m)
    rw [hps.modules, hqs.modules, hfree]
  refine ext_records (fun m => ?_) (fun i => ?_) fun i => ?_
  · by_cases hm : m ∈ h.modules
    · refine getElem?_modules_eq (hmem m) ?_
      rw [hps.flags m hm, hqs.flags m ((hmem m).1 hm), hheads m ((hps.modules m).1 hm).2]
    · rw [Std.ExtTreeMap.getElem?_eq_none hm, Std.ExtTreeMap.getElem?_eq_none (mt (hmem m).2 hm)]
  · simp only [hps.imports, hqs.imports, hinner, hmap]
  · simp only [hps.records, hqs.records, hinner]

end Several

/-! ## The order -/

section Order

variable {g h : Graph} {m p q : ModuleName} {ps qs : List ModuleName}

theorem contract_of_isBeneath (h : m.IsBeneath p) : contract p m = p := if_pos h

theorem contract_of_not_isBeneath (h : ¬ m.IsBeneath p) : contract p m = m := if_neg h

/-- A package is not moved by what does not contain it. -/
theorem contract_comm (hapart : ¬ p.Overlaps q) (m : ModuleName) :
    contract p (contract q m) = contract q (contract p m) := by
  have hpq : contract q p = p := contract_of_not_isBeneath fun h => hapart (.inr (.inl h))
  have hqp : contract p q = q := contract_of_not_isBeneath fun h => hapart (.inr (.inr h))
  by_cases hp : m.IsBeneath p
  · have hq : ¬ m.IsBeneath q := fun hq => hapart (ModuleName.comparable_of_isBeneath hp hq)
    rw [contract_of_not_isBeneath hq, contract_of_isBeneath hp, hpq]
  · by_cases hq : m.IsBeneath q
    · rw [contract_of_isBeneath hq, contract_of_not_isBeneath hp, contract_of_isBeneath hq, hqp]
    · rw [contract_of_not_isBeneath hq, contract_of_not_isBeneath hp, contract_of_not_isBeneath hq]

/-- What was brought to a module within a package is brought on to the package. -/
theorem contract_contract (hqp : q.IsBeneath p) (m : ModuleName) :
    contract p (contract q m) = contract p m := by
  by_cases hq : m.IsBeneath q
  · rw [contract_of_isBeneath hq, contract_of_isBeneath hqp, contract_of_isBeneath (hq.trans hqp)]
  · rw [contract_of_not_isBeneath hq]

/-- Neither name contains the other. -/
def Separate (p q : ModuleName) : Prop := ¬ p.Overlaps q

instance : Std.Symm Separate := ⟨fun _ _ => mt ModuleName.Overlaps.symm⟩

theorem contractAll_perm (hperm : ps.Perm qs) (hapart : ps.Pairwise Separate) (m : ModuleName) :
    contractAll ps m = contractAll qs m := by
  refine hperm.foldl_eq' (fun p hp q hq m => ?_) m
  by_cases hpq : p = q
  · rw [hpq]
  · exact contract_comm (mt ModuleName.Overlaps.symm (hapart.forall hp hq hpq)) m

/-- **Packages of which none contains another can be squashed in any order.** -/
theorem squashes_perm (hg : Reachable g) (hmem : ∀ p ∈ ps, p ∈ g.modules) (hapart : ps.Pairwise Separate)
    (hperm : ps.Perm qs) : ∃ h, (ps.forM fun p => squashModule p.text).on g = (h, .ok ()) ∧
      (qs.forM fun p => squashModule p.text).on g = (h, .ok ()) := by
  have horder : ∀ {l : List ModuleName}, l.Pairwise Separate → l.Pairwise fun p q => ¬ q.IsBeneath p :=
    fun hl => hl.imp fun hpq hbeneath => hpq (.inr (.inr hbeneath))
  obtain ⟨h, hon, hps⟩ := exists_on_squashes hg hmem (horder hapart)
  obtain ⟨k, hon', hqs⟩ := exists_on_squashes hg (fun q hq => hmem q (hperm.mem_iff.2 hq))
    (horder (hperm.pairwise hapart fun hpq => mt ModuleName.Overlaps.symm hpq))
  obtain rfl : h = k := hps.eq hqs (fun m => by simp only [hperm.mem_iff]) (fun m _ => hperm.mem_iff)
    (contractAll_perm hperm hapart)
  exact ⟨h, hon, hon'⟩

/-- **Squashing within a package is lost when the package is squashed.** -/
theorem squash_within (hg : Reachable g) (hp : p ∈ g.modules) (hq : q ∈ g.modules)
    (hqp : q.IsBeneath p) : ([q, p].forM fun p => squashModule p.text).on g =
      (g.edit (.squashModule p.text), .ok ()) := by
  have hpq : ¬ p.IsBeneath q := fun h => p.not_isBeneath_self (h.trans hqp)
  have hmem : ∀ a ∈ [q, p], a ∈ g.modules := by simp [hp, hq]
  have horder : [q, p].Pairwise fun a b => ¬ b.IsBeneath a := List.pairwise_pair.2 hpq
  obtain ⟨h, hon, hboth⟩ := exists_on_squashes hg hmem horder
  have hone : SquashedAll [p] g (g.edit (.squashModule p.text)) :=
    SquashedAll.nil.cons (squashedTo_edit hg hp)
  have hbeneath : ∀ m : ModuleName, (∃ a ∈ [q, p], m.IsBeneath a) ↔ ∃ a ∈ [p], m.IsBeneath a := fun m => by
    simpa using fun hmq : m.IsBeneath q => hmq.trans hqp
  have hheads : ∀ m : ModuleName, (∀ a ∈ [q, p], ¬ m.IsBeneath a) → (m ∈ [q, p] ↔ m ∈ [p]) := by
    intro m hfree
    have hmq : m ≠ q := fun e => hfree p (by simp) (e ▸ hqp)
    simp [hmq]
  rw [hon, hboth.eq hone hbeneath hheads (contract_contract hqp)]

/-- **Squashing contracts a package and does nothing else**, so it does not matter in which order two
packages apart from each other are squashed, nor whether a package within one was squashed before it. -/
theorem squash_contracts_in_any_order (hg : Reachable g) (hp : p ∈ g.modules) :
    ∃ h, (squashModule p.text).on g = (h, .ok ()) ∧ SquashedTo p g h ∧ ∀ q ∈ g.modules,
      (¬ p.Overlaps q → ∃ k, ([p, q].forM fun m => squashModule m.text).on g = (k, .ok ()) ∧
        ([q, p].forM fun m => squashModule m.text).on g = (k, .ok ())) ∧
      (q.IsBeneath p → ([q, p].forM fun m => squashModule m.text).on g = (h, .ok ())) := by
  refine ⟨_, squashModule_on_eq_edit hp, squashedTo_edit hg hp, fun q hq => ⟨fun hapart => ?_, ?_⟩⟩
  · exact squashes_perm hg (by simp [hp, hq]) (List.pairwise_pair.2 hapart) (.swap q p [])
  · exact squash_within hg hp hq

/-- Two packages that import each other at several levels, and a package within one of them. -/
def meshed : Graph :=
  ofEdits [.addImportAt "p" "q" 1 "import q", .addImport "p.a" "q", .addImport "p.a.x" "q.b",
    .addImport "q.b" "p.a.x", .addImport "p.a.x" "p.a", .addImport "p" "p"]

/-- Only the import that `p` itself has of `q` keeps its record, and the import of `p` by itself stays. -/
theorem squash_contracts_in_any_order_meshed : ∃ (p q a : ModuleName) (h k : Graph),
    p.text = "p" ∧ q.text = "q" ∧ a.text = "p.a" ∧ Reachable meshed ∧ p ∈ meshed.modules ∧
      q ∈ meshed.modules ∧ a ∈ meshed.modules ∧ ¬ p.Overlaps q ∧ a.IsBeneath p ∧
      (squashModule "p").on meshed = (h, .ok ()) ∧ SquashedTo p meshed h ∧
      ([a, p].forM fun m => squashModule m.text).on meshed = (h, .ok ()) ∧
      ([p, q].forM fun m => squashModule m.text).on meshed = (k, .ok ()) ∧
      ([q, p].forM fun m => squashModule m.text).on meshed = (k, .ok ()) ∧
      (k.importList.map fun i => (i.importer.text, i.imported.text, (k.records i).length)) =
        [("p", "p", 1), ("p", "q", 1), ("q", "p", 0)] := by
  let p : ModuleName := ⟨"p", by decide⟩
  let q : ModuleName := ⟨"q", by decide⟩
  let a : ModuleName := ⟨"p.a", by decide⟩
  have hp : p ∈ meshed.modules := by decide +kernel
  have hq : q ∈ meshed.modules := by decide +kernel
  have ha : a ∈ meshed.modules := by decide +kernel
  have hapart : ¬ p.Overlaps q := by decide
  have hbeneath : a.IsBeneath p := by decide
  have hreachable : Reachable meshed := ⟨_, rfl⟩
  obtain ⟨h, hon, hsquashed, hothers⟩ := squash_contracts_in_any_order hreachable hp
  obtain ⟨k, hpq, hqp⟩ := (hothers q hq).1 hapart
  refine ⟨p, q, a, h, k, rfl, rfl, rfl, hreachable, hp, hq, ha, hapart, hbeneath, hon, hsquashed,
    (hothers a ha).2 hbeneath, hpq, hqp, ?_⟩
  have hk : k = (([p, q].forM fun m => squashModule m.text).on meshed).1 := by rw [hpq]
  rw [hk]
  decide +kernel

end Order
end Graph
end ImportAtlas
