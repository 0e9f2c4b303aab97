import ImportAtlas.Proofs.Contraction
import ImportAtlas.Proofs.Reach
import ImportAtlas.Proofs.Records
/-!
# Squashing a package and asking about it

A question about a package can be asked in two ways: as a question about the package, whose members
may all start or end a chain, or as a question about one module, once the package is squashed to it.
**The answers agree** (`squashing_agrees`): what the package reaches, whether a chain leads from one
package to another, and how long the shortest is.

Squashing contracts imports along the map that brings the package to its module
(`contracts_squashModule`), so this is what contraction does to distances.  It keeps the modules of
every other package (`closure_squashModule`), which is why two packages can be squashed in either
order.
-/
namespace ImportAtlas
namespace Graph

section Squashing

variable {g : Graph} {m n p q : ModuleName}

/-- A module of the graph can always be squashed. -/
theorem squashModule_on (hp : p ∈ g.modules) : (squashModule p.text).on g =
    (if g.isSquashed p = true then g else g.squashed p, .ok ()) := by
  rw [squashModule]
  simp only [Step.on_bind, Step.on_get, Step.on_ofExcept, present_text hp]
  split <;> rfl

theorem edit_squashModule (hp : p ∈ g.modules) :
    g.edit (.squashModule p.text) = if g.isSquashed p = true then g else g.squashed p :=
  congrArg Prod.fst (squashModule_on hp)

theorem squashModule_on_eq_edit (hp : p ∈ g.modules) :
    (squashModule p.text).on g = (g.edit (.squashModule p.text), .ok ()) := by
  rw [edit_squashModule hp, squashModule_on hp]

/-- What a package consists of, whether it is squashed or not. -/
theorem mem_closure_iff (hg : Collapsed g) (hm : m ∈ g.modules) :
    n ∈ g.closure m ↔ n ∈ g.modules ∧ (n = m ∨ n.IsBeneath m) := by
  constructor
  · intro h
    refine ⟨?_, eq_or_isBeneath_of_mem_closure h⟩
    unfold closure at h
    split at h
    · exact NameSet.mem_singleton.1 h ▸ hm
    · exact mem_moduleList.1 (List.mem_filter.1 (NameSet.mem_ofList.1 h)).1
  · rintro ⟨hn, rfl | hbeneath⟩
    · exact mem_closure_self hn
    · exact mem_closure_of_isBeneath hg hn hbeneath

theorem mem_modules_squashModule (hg : Collapsed g) (hp : p ∈ g.modules) :
    m ∈ (g.edit (.squashModule p.text)).modules ↔ m ∈ g.modules ∧ ¬ m.IsBeneath p := by
  rw [edit_squashModule hp]
  split
  · next hsquashed => exact ⟨fun hm => ⟨hm, hg p hsquashed m hm⟩, And.left⟩
  · exact mem_modules_squashed_of_mem hp

theorem onto_closure (hg : Collapsed g) (hm : m ∈ g.modules) :
    onto (g.closure p) p m = contract p m := by
  rw [contract]
  by_cases hmp : m = p
  · rw [hmp, onto_self, if_neg p.not_isBeneath_self]
  · by_cases hbeneath : m.IsBeneath p
    · rw [if_pos hbeneath, onto_of_mem (mem_closure_of_isBeneath hg hm hbeneath)]
    · rw [if_neg hbeneath, onto_of_notMem fun h =>
        (eq_or_isBeneath_of_mem_closure h).elim hmp hbeneath]

theorem contract_of_not_inner {i : Import} (h : ¬ Inner p i) :
    contract p i.importer = i.importer ∧ contract p i.imported = i.imported :=
  ⟨if_neg fun himporter => h (.inl himporter), if_neg fun himported => h (.inr himported)⟩

theorem contracts_squashed (hends : EndsPresent g) (hg : Collapsed g) :
    Contracts (onto (g.closure p) p) g.importList (g.squashed p).importList := by
  have honto : ∀ i ∈ g.imports, onto (g.closure p) p i.importer = contract p i.importer ∧
      onto (g.closure p) p i.imported = contract p i.imported := fun i hi => by
    obtain ⟨himporter, himported⟩ := hends i hi
    exact ⟨onto_closure hg himporter, onto_closure hg himported⟩
  refine ⟨fun i hi => ?_, fun j hj => ?_⟩
  · have hi := mem_importList.1 hi
    rw [(honto i hi).1, (honto i hi).2, mem_importList, mem_imports_squashed hends]
    by_cases hinner : Inner p i
    · by_cases hsame : contract p i.importer = contract p i.imported
      · exact .inl hsame
      · exact .inr (.inl ((mem_contracted hends).2 ⟨⟨i, hi, hinner, rfl⟩, hsame⟩))
    · obtain ⟨himporter, himported⟩ := contract_of_not_inner hinner
      rw [himporter, himported]
      exact .inr (.inr ⟨hi, hinner⟩)
  · rcases (mem_imports_squashed hends).1 (mem_importList.1 hj) with hj | ⟨hj, hinner⟩
    · obtain ⟨⟨i, hi, -, rfl⟩, -⟩ := (mem_contracted hends).1 hj
      exact ⟨i, mem_importList.2 hi, honto i hi⟩
    · obtain ⟨himporter, himported⟩ := contract_of_not_inner hinner
      exact ⟨j, mem_importList.2 hj, (honto j hj).1.trans himporter, (honto j hj).2.trans himported⟩

/-- **Squashing a package contracts it**, also if it is squashed already, since it is one module then. -/
theorem contracts_squashModule (hg : Reachable g) (hp : p ∈ g.modules) :
    Contracts (onto (g.closure p) p) g.importList
      (g.edit (.squashModule p.text)).importList := by
  rw [edit_squashModule hp]
  split
  · next hsquashed =>
    have hclosure : g.closure p = .ofList [p] := if_pos hsquashed
    rw [hclosure]
    exact .of_forall_eq fun m => onto_singleton
  · exact contracts_squashed (endsPresent_of_reachable hg) (collapsed_of_reachable hg)

/-- Another package stays as it is. -/
theorem closure_squashModule (hg : Reachable g) (hp : p ∈ g.modules) (hq : q ∈ g.modules)
    (hapart : ¬ p.Overlaps q) : (g.edit (.squashModule p.text)).closure q = g.closure q := by
  have hcollapsed := collapsed_of_reachable hg
  have hq' : q ∈ (g.edit (.squashModule p.text)).modules :=
    (mem_modules_squashModule hcollapsed hp).2 ⟨hq, fun h => hapart (.inr (.inr h))⟩
  refine Std.ExtTreeSet.ext_mem fun m => ?_
  rw [mem_closure_iff (collapsed_of_reachable (hg.edit _)) hq', mem_closure_iff hcollapsed hq,
    mem_modules_squashModule hcollapsed hp]
  refine ⟨fun ⟨⟨hm, _⟩, hmq⟩ => ⟨hm, hmq⟩, fun ⟨hm, hmq⟩ => ⟨⟨hm, fun hmp => ?_⟩, hmq⟩⟩
  rcases hmq with rfl | hmq
  · exact hapart (.inr (.inr hmp))
  · exact hapart (ModuleName.comparable_of_isBeneath hmp hmq)

/-- The map that brings each of two packages to its module. -/
def ontoBoth (g : Graph) (p q : ModuleName) : ModuleName → ModuleName :=
  onto (g.closure q) q ∘ onto (g.closure p) p

theorem mem_squashModule_of_apart (hg : Collapsed g) (hp : p ∈ g.modules) (hq : q ∈ g.modules)
    (hapart : ¬ p.Overlaps q) : q ∈ (g.edit (.squashModule p.text)).modules :=
  (mem_modules_squashModule hg hp).2 ⟨hq, fun hbeneath => hapart (.inr (.inr hbeneath))⟩

/-- Two packages that do not overlap can be squashed one after the other, which contracts both. -/
theorem exists_on_squash_twice (hg : Reachable g) (hp : p ∈ g.modules) (hq : q ∈ g.modules)
    (hapart : ¬ p.Overlaps q) :
    ∃ h, ([p, q].forM fun m => squashModule m.text).on g = (h, .ok ()) ∧ p ∈ h.modules ∧
      q ∈ h.modules ∧ Contracts (ontoBoth g p q) g.importList h.importList := by
  have hcollapsed := collapsed_of_reachable hg
  have hg' := hg.edit (.squashModule p.text)
  have hcollapsed' := collapsed_of_reachable hg'
  have hp' : p ∈ (g.edit (.squashModule p.text)).modules :=
    (mem_modules_squashModule hcollapsed hp).2 ⟨hp, p.not_isBeneath_self⟩
  have hq' := mem_squashModule_of_apart hcollapsed hp hq hapart
  have hcontracts := contracts_squashModule hg' hq'
  rw [closure_squashModule hg hp hq hapart] at hcontracts
  refine ⟨_, ?_, mem_squashModule_of_apart hcollapsed' hq' hp' (mt ModuleName.Overlaps.symm hapart),
    (mem_modules_squashModule hcollapsed' hq').2 ⟨hq', q.not_isBeneath_self⟩,
    (contracts_squashModule hg hp).comp hcontracts⟩
  show (squashModule p.text >>= fun _ => squashModule q.text >>= fun _ => pure ()).on g = _
  rw [Step.on_bind, squashModule_on_eq_edit hp]
  dsimp only
  rw [Step.on_bind, squashModule_on_eq_edit hq']
  rfl

/-- **In whichever order two packages are squashed, each is brought to its module.** -/
theorem exists_on_squash_both (hg : Reachable g) (hp : p ∈ g.modules) (hq : q ∈ g.modules)
    (hapart : ¬ p.Overlaps q) {order : List ModuleName} (horder : order ∈ [[p, q], [q, p]]) :
    ∃ h, (order.forM fun m => squashModule m.text).on g = (h, .ok ()) ∧ p ∈ h.modules ∧
      q ∈ h.modules ∧ Contracts (ontoBoth g p q) g.importList h.importList := by
  rcases List.mem_cons.1 horder with rfl | horder
  · exact exists_on_squash_twice hg hp hq hapart
  · obtain rfl := List.mem_singleton.1 horder
    obtain ⟨h, hon, hq', hp', hcontracts⟩ :=
      exists_on_squash_twice hg hq hp (mt ModuleName.Overlaps.symm hapart)
    have hmaps : ontoBoth g q p = ontoBoth g p q :=
      onto_comm (fun _ => notMem_closure_of_not_overlaps hapart) (mem_closure_self hp)
        (mem_closure_self hq)
    exact ⟨h, hon, hp', hq', hmaps ▸ hcontracts⟩

end Squashing

/-! ## Answers -/

section Answers

variable {g : Graph} {a b m p q : ModuleName}

theorem directImportExists_modules (ha : a ∈ g.modules) (hb : b ∈ g.modules) :
    g.directImportExists a.text b.text false = .ok (g.importList.any fun i =>
      (NameSet.ofList [a]).contains i.importer && (NameSet.ofList [b]).contains i.imported) := by
  unfold directImportExists
  rw [present_text ha, present_text hb]
  rfl

theorem any_crossing_iff {imports : List Import} {sources goals : NameSet}
    (hapart : ∀ m ∈ sources, m ∉ goals) :
    (imports.any fun i => sources.contains i.importer && goals.contains i.imported) = true ↔
      Close imports sources goals 1 := by
  rw [close_one_iff hapart, List.any_eq_true]
  simp [Std.ExtTreeSet.contains_iff_mem]

/-- **Squashing a package agrees with asking about it as a package**: the same modules import it and
are imported by it, and to another package, squashed too, there is a direct import or a chain if there
was one, and the shortest chain is as long. -/
theorem squashing_agrees (hg : Reachable g) (hp : p ∈ g.modules) :
    (∃ h importers imported, (squashModule p.text).on g = (h, .ok ()) ∧
      g.allImportersOf p.text true = .ok importers ∧
      h.allImportersOf p.text false = .ok importers ∧
      g.allImportedBy p.text true = .ok imported ∧
      h.allImportedBy p.text false = .ok imported) ∧
    ∀ q ∈ g.modules, ¬ p.Overlaps q → ∀ order ∈ [[p, q], [q, p]],
      ∃ h direct joined chain chain',
        (order.forM fun m => squashModule m.text).on g = (h, .ok ()) ∧
        g.directImportExists p.text q.text true = .ok direct ∧
        h.directImportExists p.text q.text false = .ok direct ∧
        g.chainExists p.text q.text true = .ok joined ∧
        h.chainExists p.text q.text false = .ok joined ∧
        g.shortestChain p.text q.text true = .ok chain ∧
        h.shortestChain p.text q.text false = .ok chain' ∧
        chain.map List.length = chain'.map List.length := by
  refine ⟨?_, fun q hq hapart order horder => ?_⟩
  · have hp' := (mem_modules_squashModule (collapsed_of_reachable hg) hp).2 ⟨hp, p.not_isBeneath_self⟩
    have hcontracts := contracts_squashModule hg hp
    have hself := mem_closure_self hp
    refine ⟨_, _, _, squashModule_on_eq_edit hp, allImportersOf_text hp true, ?_, allImportedBy_text hp true, ?_⟩
    · rw [allImportersOf_text hp']
      exact congrArg Except.ok (hcontracts.reaching_eq hself).symm
    · rw [allImportedBy_text hp']
      exact congrArg Except.ok (hcontracts.flip.reaching_eq hself).symm
  · obtain ⟨h, hon, hp', hq', hcontracts⟩ := exists_on_squash_both hg hp hq hapart horder
    have hdisjoint : ∀ m ∈ g.closure p, m ∉ g.closure q := fun m => notMem_closure_of_not_overlaps hapart
    have hdisjoint' : ∀ m ∈ NameSet.ofList [p], m ∉ NameSet.ofList [q] := fun m hm hm' =>
      hapart (.inl ((NameSet.mem_singleton.1 hm).symm.trans (NameSet.mem_singleton.1 hm')))
    have hclose : ∀ k, Close g.importList (g.closure p) (g.closure q) k ↔
        Close h.importList (.ofList [p]) (.ofList [q]) k := fun k =>
      hcontracts.close_iff (gathers_onto_comp hdisjoint (mem_closure_self hp) (mem_closure_self hq))
    have hlength := map_length_leastChain? hdisjoint hdisjoint' hclose
    refine ⟨h, _, _, _, _, hon, ?_, directImportExists_modules hp' hq', ?_,
      chainExists_modules hp' hq', ?_, shortestChain_modules hp' hq', hlength⟩
    · rw [directImportExists_packages hp hq, if_neg hapart]
      refine congrArg Except.ok (Bool.eq_iff_iff.2 ?_)
      rw [any_crossing_iff hdisjoint, any_crossing_iff hdisjoint', hclose]
    · rw [chainExists_packages hp hq, if_neg hapart, ← Option.isSome_map, hlength, Option.isSome_map]
    · rw [shortestChain_packages hp hq, if_neg hapart]

/-- Two packages with a way in and out of each: whoever comes into `p` at `p.a` can only go on from
`p.b`, and back. -/
def threaded : Graph :=
  ofEdits [.addModule "p" false, .addModule "q" false, .addImport "y" "p.a", .addImport "p.a" "m",
    .addImport "m" "p.b", .addImport "p.b" "n", .addImport "n" "q.c", .addImport "q.c" "z",
    .addImport "z" "q.d"]

/-- Squashed in the other order, the two packages are joined by a chain of three modules, as before. -/
theorem squashing_agrees_threaded : ∃ (p q : ModuleName) (h h' : Graph) (importers : NameSet)
    (chain chain' : Chain), p.text = "p" ∧ q.text = "q" ∧ Reachable threaded ∧
      p ∈ threaded.modules ∧ q ∈ threaded.modules ∧ ¬ p.Overlaps q ∧
      (squashModule "p").on threaded = (h, .ok ()) ∧
      threaded.allImportersOf "p" true = .ok importers ∧ h.allImportersOf "p" false = .ok importers ∧
      ([q, p].forM fun m => squashModule m.text).on threaded = (h', .ok ()) ∧
      threaded.shortestChain "p" "q" true = .ok (some chain) ∧
      h'.shortestChain "p" "q" false = .ok (some chain') ∧ chain.length = 3 ∧ chain'.length = 3 := by
  let p : ModuleName := ⟨"p", by decide⟩
  let q : ModuleName := ⟨"q", by decide⟩
  have hreachable : Reachable threaded := ⟨_, rfl⟩
  have hp : p ∈ threaded.modules := by decide +kernel
  have hq : q ∈ threaded.modules := by decide +kernel
  have hapart : ¬ p.Overlaps q := by decide
  have hlength : ((threaded.shortestChain "p" "q" true).toOption.bind id).map List.length = some 3 := by
    decide +kernel
  obtain ⟨⟨h, importers, -, hon, himporters, himporters', -⟩, hpairs⟩ :=
    squashing_agrees hreachable hp
  obtain ⟨h', -, -, chain, chain', hon', -, -, -, -, hchain, hchain', hsame⟩ :=
    hpairs q hq hapart [q, p] (by simp)
  have hthree : chain.map List.length = some 3 := by
    rw [hchain] at hlength
    exact hlength
  obtain ⟨c, rfl, hc⟩ := Option.map_eq_some_iff.1 hthree
  obtain ⟨c', rfl, hc'⟩ := Option.map_eq_some_iff.1 (hsame.symm.trans hthree)
  exact ⟨p, q, h, h', importers, c, c', rfl, rfl, hreachable, hp, hq, hapart, hon, himporters,
    himporters', hon', hchain, hchain', hc, hc'⟩

end Answers
end Graph
end ImportAtlas
