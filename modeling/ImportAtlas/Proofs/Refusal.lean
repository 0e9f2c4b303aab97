import ImportAtlas.Proofs.Records
/-!
# What a refused call leaves behind

Most calls look before they change anything, so a refusal leaves the graph as it was.  The exception
is a call that records an import: it brings the importer in, then the imported module, and either may
be refused.  **If the importer is new and nothing above it is squashed, it is in the graph by the time
the imported module is refused, and stays there** (`Strands`).  That is all a refused call ever leaves
behind, and it leaves it in no other case (`edit_of_refused`).
-/
namespace ImportAtlas
namespace Graph

/-- The call records an import of a module that is new and may come in: it would be there before
the imported module is looked at. -/
def Strands (g : Graph) (e : Edit) : Prop :=
  ∃ r ∈ e.record?, r.importer ∉ g.modules ∧ ∀ a, g.isSquashed a = true → ¬ r.importer.IsBeneath a

/-- The graph with one more module, an open one. -/
def withOpen (g : Graph) (m : ModuleName) : Graph := { g with modules := g.modules.insert m false }

/-- The graph once a call that records an import has seen to its importer. -/
def begun (g : Graph) : Option ImportRecord → Graph
  | none => g
  | some r => ((ensureModule r.importer).on g).1

section Refused

variable {g : Graph} {m : ModuleName} {e : Edit} {r : ImportRecord} {err : Error}

theorem withOpen_ne (hm : m ∉ g.modules) : g.withOpen m ≠ g := by
  intro h
  have hmem : m ∈ (g.withOpen m).modules := Std.ExtTreeMap.mem_insert_self
  rw [h] at hmem
  exact hm hmem

/-- A module that is not in the graph may come in open unless something above it is squashed. -/
theorem refusal?_open_eq_none_iff (hm : m ∉ g.modules) :
    g.refusal? m false = none ↔ ∀ a, g.isSquashed a = true → ¬ m.IsBeneath a :=
  ⟨fun h => (of_refusal?_eq_none h).1, fun hfree => refusal?_eq_none hfree (.inr ⟨hm, by simp⟩)⟩

/-- A refused module is not brought in. -/
theorem fst_ensureModule_of_refused (h : ((ensureModule m).on g).2 = .error err) :
    ((ensureModule m).on g).1 = g := by
  by_cases hm : m ∈ g.modules
  · rw [ensureModule_on_of_mem hm]
  · rw [ensureModule_on_of_notMem hm, insertModule_on] at h ⊢
    cases hrefusal : g.refusal? m false with
    | some e => rfl
    | none =>
      rw [hrefusal] at h
      cases h

/-- **A refused record**: the importer stays if it has come in, and nothing else happens. -/
theorem fst_addRecord_of_refused (h : ((addRecord r).on g).2 = .error err) :
    ((addRecord r).on g).1 = ((ensureModule r.importer).on g).1 := by
  rw [addRecord, Step.on_bind] at h ⊢
  cases himporter : (ensureModule r.importer).on g with
  | mk g' answer =>
    rw [himporter] at h
    cases answer with
    | error e => rfl
    | ok _ =>
      dsimp only at h ⊢
      rw [Step.on_bind] at h ⊢
      have himported : ((ensureModule r.imported).on g').2 = .error err → _ :=
        fst_ensureModule_of_refused
      cases hon : (ensureModule r.imported).on g' with
      | mk g'' answer =>
        rw [hon] at h himported
        cases answer with
        | error e => exact himported h
        | ok _ => cases h

theorem fst_addImport_of_refused {importer imported : String} {s : Site}
    (h : ((addImport importer imported s).on g).2 = .error err) :
    ((addImport importer imported s).on g).1 = g.begun (do
      return Import.at ⟨← ModuleName.ofString? importer, ← ModuleName.ofString? imported⟩ s) := by
  rw [addImport, Step.on_bind, Step.on_ofExcept] at h ⊢
  unfold ModuleName.parse at h ⊢
  cases ha : ModuleName.ofString? importer with
  | none => rfl
  | some a =>
    rw [ha] at h
    dsimp only at h ⊢
    rw [Step.on_bind, Step.on_ofExcept] at h ⊢
    cases hb : ModuleName.ofString? imported with
    | none => rfl
    | some b =>
      rw [hb] at h
      exact fst_addRecord_of_refused h

theorem fst_addModule_of_refused {name : String} {flag : Bool}
    (h : ((addModule name flag).on g).2 = .error err) : ((addModule name flag).on g).1 = g := by
  rw [addModule, Step.on_bind, Step.on_ofExcept] at h ⊢
  cases hname : ModuleName.parse name with
  | error e => rfl
  | ok m =>
    rw [hname] at h
    dsimp only at h ⊢
    rw [insertModule_on] at h ⊢
    cases hrefusal : g.refusal? m flag with
    | some e => rfl
    | none =>
      rw [hrefusal] at h
      cases h

theorem fst_removeImport_of_refused {importer imported : String}
    (h : ((removeImport importer imported).on g).2 = .error err) :
    ((removeImport importer imported).on g).1 = g := by
  rw [removeImport] at h ⊢
  simp only [Step.on_bind, Step.on_get, Step.on_ofExcept] at h ⊢
  cases ha : g.present importer with
  | error e => rfl
  | ok a =>
    rw [ha] at h
    cases hb : g.present imported with
    | error e => rfl
    | ok b =>
      rw [hb] at h
      cases h

theorem fst_squashModule_of_refused {name : String}
    (h : ((squashModule name).on g).2 = .error err) : ((squashModule name).on g).1 = g := by
  rw [squashModule] at h ⊢
  simp only [Step.on_bind, Step.on_get, Step.on_ofExcept] at h ⊢
  cases hname : g.present name with
  | error e => rfl
  | ok p =>
    rw [hname] at h
    dsimp only at h
    split at h <;> cases h

/-- **A refused call has got as far as its importer**, if it records an import, and nowhere else. -/
theorem edit_eq_begun (h : g.answer e = .error err) : g.edit e = g.begun e.record? := by
  cases e with
  | addModule name flag => exact fst_addModule_of_refused h
  | addImport importer imported => exact fst_addImport_of_refused h
  | addImportAt importer imported line text => exact fst_addImport_of_refused h
  | addRecord record => exact fst_addRecord_of_refused h
  | removeModule name => cases h
  | removeImport importer imported => exact fst_removeImport_of_refused h
  | squashModule name => exact fst_squashModule_of_refused h

theorem begun_of_strands (hr : e.record? = some r) (h : Strands g e) :
    g.begun e.record? = g.withOpen r.importer := by
  obtain ⟨r', hr', hnew, hfree⟩ := h
  obtain rfl : r = r' := Option.some.inj (hr.symm.trans hr')
  rw [hr, begun, ensureModule_on_of_notMem hnew, insertModule_on,
    (refusal?_open_eq_none_iff hnew).2 hfree]
  rfl

theorem begun_of_not_strands (h : ¬ Strands g e) : g.begun e.record? = g := by
  cases hr : e.record? with
  | none => rfl
  | some r =>
    rw [begun]
    by_cases hm : r.importer ∈ g.modules
    · rw [ensureModule_on_of_mem hm]
    · have hrefusal : g.refusal? r.importer false ≠ none := fun hnone =>
        h ⟨r, hr, hm, (refusal?_open_eq_none_iff hm).1 hnone⟩
      obtain ⟨err, herr⟩ := Option.ne_none_iff_exists'.1 hrefusal
      rw [ensureModule_on_of_notMem hm, insertModule_on, herr]

/-- **A refused call leaves the graph as it was if and only if it strands no importer**, and where it
does, that importer has come in and nothing else has happened. -/
theorem edit_of_refused (h : g.answer e = .error err) :
    (g.edit e = g ↔ ¬ Strands g e) ∧
      ∀ r ∈ e.record?, Strands g e → g.edit e = g.withOpen r.importer := by
  rw [edit_eq_begun h]
  refine ⟨⟨fun hsame hstrands => ?_, begun_of_not_strands⟩, fun r hr => begun_of_strands hr⟩
  obtain ⟨r, hr, hnew, -⟩ := id hstrands
  rw [begun_of_strands hr hstrands] at hsame
  exact withOpen_ne hnew hsame

/-- The refusal that a call is answered with, if it is refused. -/
def refusedWith? (g : Graph) (e : Edit) : Option Error :=
  match g.answer e with
  | .ok _ => none
  | .error err => some err

theorem answer_of_refusedWith? (h : g.refusedWith? e = some err) : g.answer e = .error err := by
  unfold refusedWith? at h
  cases hanswer : g.answer e with
  | ok _ =>
    rw [hanswer] at h
    cases h
  | error err' =>
    rw [hanswer] at h
    exact congrArg Except.error (Option.some.inj h)

/-- A graph with nothing but a squashed module. -/
def walled : Graph := ofEdits [.addModule "x" true]

/-- An import from beneath the squashed module brings its importer in before it is refused. -/
theorem stranded_walled :
    walled.answer (.addImport "q" "x.y") = .error (.beneathSquashed "x.y" "x") ∧
      walled.contains "q" = false ∧ (walled.edit (.addImport "q" "x.y")).contains "q" = true :=
  ⟨answer_of_refusedWith? (by decide +kernel), by decide +kernel, by decide +kernel⟩

theorem changed_walled : walled.edit (.addImport "q" "x.y") ≠ walled := fun hsame => by
  obtain ⟨-, hbefore, hafter⟩ := stranded_walled
  rw [hsame, hbefore] at hafter
  cases hafter

/-- An importer beneath the squashed module is refused before anything is done, and a new one that
imports from beneath it has come in by then. -/
theorem edit_of_refused_walled : ∃ x under q : ModuleName,
    x.text = "x" ∧ under.text = "x.y" ∧ q.text = "q" ∧ walled.isSquashed x = true ∧
      walled.answer (.addImport "x.y" "q") = .error (.beneathSquashed "x.y" "x") ∧
      walled.edit (.addImport "x.y" "q") = walled ∧
      walled.answer (.addImport "q" "x.y") = .error (.beneathSquashed "x.y" "x") ∧
      walled.edit (.addImport "q" "x.y") = walled.withOpen q := by
  let x : ModuleName := ⟨"x", by decide⟩
  let under : ModuleName := ⟨"x.y", by decide⟩
  let q : ModuleName := ⟨"q", by decide⟩
  have hx : walled.isSquashed x = true := by decide +kernel
  have hunder : walled.answer (.addImport "x.y" "q") = .error (.beneathSquashed "x.y" "x") :=
    answer_of_refusedWith? (by decide +kernel)
  obtain ⟨hq, -, -⟩ := stranded_walled
  obtain ⟨hsame, -⟩ := edit_of_refused hunder
  obtain ⟨hsame', hleft⟩ := edit_of_refused hq
  have hnone : ¬ Strands walled (.addImport "x.y" "q") := by
    rintro ⟨r, hr, -, hfree⟩
    obtain rfl : Import.at ⟨under, q⟩ ⟨none, none⟩ = r := Option.some.inj hr
    exact hfree x hx (by decide)
  have hstrands : Strands walled (.addImport "q" "x.y") :=
    Classical.byContradiction fun h => changed_walled (hsame'.2 h)
  exact ⟨x, under, q, rfl, rfl, rfl, hx, hunder, hsame.2 hnone, hq,
    hleft (Import.at ⟨q, under⟩ ⟨none, none⟩) rfl hstrands⟩

/-- **A refused call may change the graph**: the importer is there now, though its import is not. -/
theorem edit_ne_self_walled :
    Reachable walled ∧ walled.answer (.addImport "q" "x.y") = .error (.beneathSquashed "x.y" "x") ∧
      walled.contains "q" = false ∧ (walled.edit (.addImport "q" "x.y")).contains "q" = true ∧
      walled.edit (.addImport "q" "x.y") ≠ walled := by
  obtain ⟨hanswer, hbefore, hafter⟩ := stranded_walled
  exact ⟨⟨_, rfl⟩, hanswer, hbefore, hafter, changed_walled⟩

end Refused
end Graph
end ImportAtlas
