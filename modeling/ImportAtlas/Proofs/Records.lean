import ImportAtlas.Proofs.Squashed
/-!
# Records follow their import

What is recorded of an import can be read off the calls alone, without any graph: take the calls that
went through, forget everything up to the last one that dropped the import, and of the rest keep the
records that were added for it (`recordsSince`).  At any point of any run this is what the graph
answers (`records_ofEdits`).  A record is therefore never seen at another import, and none comes back
when a name comes back that was removed.

Of the calls that add, remove or squash, one step is enough to look at (`records_edit`).  Squashing
is the one that needs a thought: it may bring an import in, but without records, and of a module that
is squashed already nothing is beneath, so there is nothing to drop.
-/
namespace ImportAtlas
namespace Graph

/-- The record that a call adds if it goes through. -/
def Edit.record? : Edit → Option ImportRecord
  | addImport importer imported => do
    return Import.at ⟨← ModuleName.ofString? importer, ← ModuleName.ofString? imported⟩ ⟨none, none⟩
  | addImportAt importer imported line text => do
    return Import.at ⟨← ModuleName.ofString? importer, ← ModuleName.ofString? imported⟩
      ⟨some line, some text⟩
  | addRecord record => some record
  | _ => none

/-- The call drops the import if it goes through. -/
def Edit.Drops : Edit → Import → Prop
  | removeModule name, i => i.importer.text = name ∨ i.imported.text = name
  | removeImport importer imported, i => i.importer.text = importer ∧ i.imported.text = imported
  | squashModule name, i => ∃ q ∈ ModuleName.ofString? name, Inner q i
  | _, _ => False

instance : ∀ (e : Edit) (i : Import), Decidable (e.Drops i)
  | .removeModule _, _ => inferInstanceAs (Decidable (_ ∨ _))
  | .removeImport _ _, _ => inferInstanceAs (Decidable (_ ∧ _))
  | .squashModule _, _ => inferInstanceAs (Decidable (∃ q ∈ _, _))
  | .addModule _ _, _ => inferInstanceAs (Decidable False)
  | .addImport _ _, _ => inferInstanceAs (Decidable False)
  | .addImportAt _ _ _ _, _ => inferInstanceAs (Decidable False)
  | .addRecord _, _ => inferInstanceAs (Decidable False)

/-- The calls of a run that go through. -/
def accepted : Graph → List Edit → List Edit
  | _, [] => []
  | g, e :: edits => match g.answer e with
    | .ok _ => e :: accepted (g.edit e) edits
    | .error _ => accepted (g.edit e) edits

/-- The records added for an import after the last call that dropped it. -/
def recordsSince (i : Import) (calls : List Edit) : List ImportRecord :=
  ((calls.reverse.takeWhile fun e => !decide (e.Drops i)).reverse.filterMap Edit.record?).filter
    (·.toImport = i)

section Calls

variable {e : Edit} {i : Import} {calls : List Edit}

theorem recordsSince_append_of_drops (h : e.Drops i) : recordsSince i (calls ++ [e]) = [] := by
  unfold recordsSince
  rw [List.reverse_append, List.reverse_singleton, List.singleton_append,
    List.takeWhile_cons_of_neg (by simp [h])]
  rfl

theorem recordsSince_append (h : ¬ e.Drops i) :
    recordsSince i (calls ++ [e]) = recordsSince i calls ++ e.record?.toList.filter (·.toImport = i) := by
  unfold recordsSince
  rw [List.reverse_append, List.reverse_singleton, List.singleton_append,
    List.takeWhile_cons_of_pos (by simp [h]), List.reverse_cons, List.filterMap_append,
    List.filter_append]
  congr 2

end Calls

/-! ## One call -/

section Steps

variable {g h : Graph} {i j : Import} {m p : ModuleName}

theorem at_toImport_site (r : ImportRecord) : r.toImport.at r.site = r := rfl

theorem records_eq_nil (h : i ∉ g.imports) : g.records i = [] := by
  unfold records
  rw [Std.ExtTreeMap.getElem?_eq_none h]
  rfl

theorem records_congr (e : g.imports[i]? = h.imports[i]?) : g.records i = h.records i := by
  unfold records
  rw [e]

/-- **A graph is its modules, its imports and their records.** -/
theorem ext_records (hmodules : ∀ m : ModuleName, g.modules[m]? = h.modules[m]?)
    (himports : ∀ i, i ∈ g.imports ↔ i ∈ h.imports) (hrecords : ∀ i, g.records i = h.records i) :
    g = h := by
  refine ext_lookup hmodules fun i => ?_
  by_cases hi : i ∈ g.imports
  · have hrecords := hrecords i
    unfold records at hrecords
    rw [Std.ExtTreeMap.getElem?_eq_some_getElem hi,
      Std.ExtTreeMap.getElem?_eq_some_getElem ((himports i).1 hi)] at hrecords ⊢
    have hsite : ∀ s s', i.at s = i.at s' → s = s' := fun s s' e => congrArg ImportRecord.site e
    exact congrArg some ((List.map_inj_right hsite).1 hrecords)
  · rw [Std.ExtTreeMap.getElem?_eq_none hi, Std.ExtTreeMap.getElem?_eq_none (mt (himports i).2 hi)]

theorem getElem?_imports_cite (s : Site) : (g.cite j s).imports[i]? =
    if j = i then some ((g.imports[j]?).getD [] ++ [s]) else g.imports[i]? := by
  show (g.imports.insert j _)[i]? = _
  simp only [Std.ExtTreeMap.getElem?_insert, Std.compare_eq_iff_eq]

theorem records_cite (s : Site) : (g.cite j s).records i =
    if j = i then g.records i ++ [i.at s] else g.records i := by
  unfold records
  rw [getElem?_imports_cite]
  split
  · next e =>
    rw [e, Option.getD_some, List.map_append, List.map_singleton]
  · rfl

theorem records_without : (g.without m).records i = if i.Touches m then [] else g.records i := by
  unfold records
  rw [getElem?_imports_without]
  split <;> rfl

theorem records_erase : { g with imports := g.imports.erase j }.records i =
    if j = i then [] else g.records i := by
  have hlookup : (g.imports.erase j)[i]? = if j = i then none else g.imports[i]? := by
    simp only [Std.ExtTreeMap.getElem?_erase, Std.compare_eq_iff_eq]
  unfold records
  rw [hlookup]
  split <;> rfl

/-- Imports that come in without sites leave the records as they are. -/
theorem getD_foldl_insertIfNew : ∀ (l : List Import) (t : Std.ExtTreeMap Import (List Site)),
    ((l.foldl (fun t i => t.insertIfNew i []) t)[i]?).getD [] = (t[i]?).getD []
  | [], t => rfl
  | j :: l, t => by
    rw [List.foldl_cons, getD_foldl_insertIfNew l, Std.ExtTreeMap.getElem?_insertIfNew]
    split
    · next h =>
      obtain ⟨e, hj⟩ := h
      rw [← Import.eq_of_compare_eq e, Std.ExtTreeMap.getElem?_eq_none hj]
      rfl
    · rfl

theorem records_squashed (hg : EndsPresent g) :
    (g.squashed p).records i = if Inner p i then [] else g.records i := by
  have hjoined : (g.joined p).records i = g.records i :=
    congrArg (List.map i.at) (getD_foldl_insertIfNew (g.contracted p) g.imports)
  by_cases hi : i ∈ g.imports
  · simp only [inner_iff_touches hg hi]
    rw [← hjoined]
    unfold records
    rw [getElem?_imports_squashed]
    split <;> rfl
  · -- an import that was not there has no records, whether it comes in or not
    have hnone : (g.joined p).records i = [] := hjoined.trans (records_eq_nil hi)
    have hsquashed : (g.squashed p).records i = [] := by
      unfold records at hnone ⊢
      rw [getElem?_imports_squashed]
      split
      · rfl
      · exact hnone
    rw [hsquashed, records_eq_nil hi, ite_self]

theorem imports_insertModule {flag : Bool} : ((insertModule m flag).on g).1.imports = g.imports := by
  rw [insertModule, Step.on_bind, Step.on_get]
  dsimp only
  split <;> rfl

theorem imports_ensureModule : ((ensureModule m).on g).1.imports = g.imports := by
  rw [ensureModule, Step.on_bind, Step.on_get]
  dsimp only
  split
  · rfl
  · exact imports_insertModule

theorem imports_addModule (name : String) (flag : Bool) :
    ((addModule name flag).on g).1.imports = g.imports := by
  rw [addModule, Step.on_bind, Step.on_ofExcept]
  cases ModuleName.parse name with
  | error e => rfl
  | ok m => exact imports_insertModule

/-- A call that adds a record: refused, it leaves the imports alone; else it cites the import. -/
def Cites (g : Graph) (r : ImportRecord) (outcome : Graph × Except Error Unit) : Prop :=
  match outcome.2 with
  | .ok _ => outcome.1.imports = (g.cite r.toImport r.site).imports
  | .error _ => outcome.1.imports = g.imports

theorem cites_addRecord (r : ImportRecord) (g : Graph) : Cites g r ((addRecord r).on g) := by
  have himporter := imports_ensureModule (g := g) (m := r.importer)
  rw [addRecord, Step.on_bind]
  cases hon : (ensureModule r.importer).on g with
  | mk h answer =>
    rw [hon] at himporter
    cases answer with
    | error e => exact himporter
    | ok _ =>
      have himported := imports_ensureModule (g := h) (m := r.imported)
      dsimp only
      rw [Step.on_bind]
      cases hon' : (ensureModule r.imported).on h with
      | mk h' answer =>
        rw [hon'] at himported
        have hsame : h'.imports = g.imports := himported.trans himporter
        cases answer with
        | error e => exact hsame
        | ok _ =>
          show (h'.cite r.toImport r.site).imports = (g.cite r.toImport r.site).imports
          unfold cite
          rw [hsame]

/-- What a call leaves of the records of an import, given its answer. -/
def afterCall (e : Edit) (i : Import) (answer : Except Error Unit) (records : List ImportRecord) :
    List ImportRecord :=
  match answer with
  | .ok _ => if e.Drops i then [] else records ++ e.record?.toList.filter (·.toImport = i)
  | .error _ => records

theorem afterCall_of_cites {e : Edit} {r : ImportRecord} {outcome : Graph × Except Error Unit}
    (hcites : Cites g r outcome) (hrecord : e.record? = some r) (hdrops : ¬ e.Drops i) :
    outcome.1.records i = afterCall e i outcome.2 (g.records i) := by
  obtain ⟨h, answer⟩ := outcome
  cases answer with
  | error _ => exact records_congr (by rw [show h.imports = g.imports from hcites])
  | ok _ =>
    have hrecords : h.records i = (g.cite r.toImport r.site).records i :=
      records_congr (by rw [show h.imports = _ from hcites])
    show h.records i = if e.Drops i then [] else _
    rw [hrecords, records_cite, if_neg hdrops, hrecord]
    by_cases hr : r.toImport = i
    · subst hr
      simp [at_toImport_site]
    · simp [hr]

theorem records_addImport (importer imported : String) (s : Site) (e : Edit)
    (hrecord : e.record? = do
      return Import.at ⟨← ModuleName.ofString? importer, ← ModuleName.ofString? imported⟩ s)
    (hdrops : ¬ e.Drops i) :
    ((addImport importer imported s).on g).1.records i =
      afterCall e i ((addImport importer imported s).on g).2 (g.records i) := by
  rw [addImport, Step.on_bind, Step.on_ofExcept]
  unfold ModuleName.parse
  cases ha : ModuleName.ofString? importer with
  | none => rfl
  | some a =>
    dsimp only
    rw [Step.on_bind, Step.on_ofExcept]
    cases hb : ModuleName.ofString? imported with
    | none => rfl
    | some b =>
      rw [ha, hb] at hrecord
      exact afterCall_of_cites (cites_addRecord _ g) hrecord hdrops

theorem records_removeModule (hg : EndsPresent g) (name : String) :
    ((removeModule name).on g).1.records i =
      afterCall (.removeModule name) i ((removeModule name).on g).2 (g.records i) := by
  rw [removeModule, Step.on_modify]
  show _ = if i.importer.text = name ∨ i.imported.text = name then [] else g.records i ++ []
  rw [List.append_nil]
  cases hname : g.present name with
  | ok m =>
    obtain ⟨rfl, -⟩ := present_eq_ok_iff.1 hname
    have htouches : i.Touches m ↔ i.importer.text = m.text ∨ i.imported.text = m.text :=
      or_congr ⟨congrArg _, ModuleName.ext_text⟩ ⟨congrArg _, ModuleName.ext_text⟩
    dsimp only
    rw [records_without]
    simp only [htouches]
  | error e =>
    -- a missing module has no imports
    dsimp only
    split
    · next hdrops =>
      refine records_eq_nil fun hi => ?_
      obtain ⟨himporter, himported⟩ := hg i hi
      rcases hdrops with rfl | rfl
      · rw [present_text himporter] at hname
        cases hname
      · rw [present_text himported] at hname
        cases hname
    · rfl

theorem records_removeImport (importer imported : String) :
    ((removeImport importer imported).on g).1.records i =
      afterCall (.removeImport importer imported) i ((removeImport importer imported).on g).2
        (g.records i) := by
  rw [removeImport]
  simp only [Step.on_bind, Step.on_get, Step.on_ofExcept]
  cases ha : g.present importer with
  | error e => rfl
  | ok a =>
    cases hb : g.present imported with
    | error e => rfl
    | ok b =>
      obtain ⟨rfl, -⟩ := present_eq_ok_iff.1 ha
      obtain ⟨rfl, -⟩ := present_eq_ok_iff.1 hb
      have hsame : (⟨a, b⟩ : Import) = i ↔ i.importer.text = a.text ∧ i.imported.text = b.text := by
        constructor
        · rintro rfl
          exact ⟨rfl, rfl⟩
        · rintro ⟨himporter, himported⟩
          rw [← ModuleName.ext_text himporter, ← ModuleName.ext_text himported]
      show ({ g with imports := g.imports.erase ⟨a, b⟩ } : Graph).records i =
        if i.importer.text = a.text ∧ i.imported.text = b.text then [] else g.records i ++ []
      rw [List.append_nil, records_erase]
      simp only [hsame]

theorem records_squashModule (hg : EndsPresent g) (hcollapsed : Collapsed g) (name : String) :
    ((squashModule name).on g).1.records i =
      afterCall (.squashModule name) i ((squashModule name).on g).2 (g.records i) := by
  rw [squashModule]
  simp only [Step.on_bind, Step.on_get, Step.on_ofExcept]
  cases hname : g.present name with
  | error e => rfl
  | ok p =>
    obtain ⟨rfl, hp⟩ := present_eq_ok_iff.1 hname
    have hdrops : (Edit.squashModule p.text).Drops i ↔ Inner p i := by
      show (∃ q ∈ ModuleName.ofString? p.text, Inner q i) ↔ _
      rw [ModuleName.ofString?_eq_some_iff.2 rfl]
      simp
    dsimp only
    split
    · next hsquashed =>
      show g.records i = if _ then [] else g.records i ++ []
      rw [List.append_nil]
      split
      · next hinner =>
        -- nothing is beneath a squashed module, so no import has an end there
        refine records_eq_nil fun hi => ?_
        obtain ⟨himporter, himported⟩ := hg i hi
        rcases hdrops.1 hinner with hbeneath | hbeneath
        · exact hcollapsed p hsquashed _ himporter hbeneath
        · exact hcollapsed p hsquashed _ himported hbeneath
      · rfl
    · show (g.squashed p).records i = if _ then [] else g.records i ++ []
      rw [List.append_nil, records_squashed hg]
      simp only [hdrops]

/-- **What one call does to the records of an import**: refused, nothing; else it drops them all or
adds the one it brings. -/
theorem records_edit (hg : EndsPresent g) (hcollapsed : Collapsed g) (e : Edit) (i : Import) :
    (g.edit e).records i = afterCall e i (g.answer e) (g.records i) := by
  cases e with
  | addModule name flag =>
    have hsame : (g.edit (.addModule name flag)).records i = g.records i :=
      records_congr (by rw [show (g.edit (.addModule name flag)).imports = g.imports from
        imports_addModule name flag])
    rw [hsame]
    cases g.answer (.addModule name flag) with
    | error _ => rfl
    | ok _ => exact (List.append_nil _).symm
  | addImport importer imported => exact records_addImport importer imported _ _ rfl id
  | addImportAt importer imported line text => exact records_addImport importer imported _ _ rfl id
  | addRecord record => exact afterCall_of_cites (cites_addRecord record g) rfl id
  | removeModule name => exact records_removeModule hg name
  | removeImport importer imported => exact records_removeImport importer imported
  | squashModule name => exact records_squashModule hg hcollapsed name

end Steps

/-! ## A run of calls -/

section Runs

variable {i : Import}

theorem Reachable.edit {g : Graph} (hg : Reachable g) (e : Edit) : Reachable (g.edit e) := by
  obtain ⟨edits, rfl⟩ := hg
  refine ⟨edits ++ [e], ?_⟩
  rw [ofEdits, List.foldl_append]
  rfl

theorem records_foldl_edit : ∀ (edits : List Edit) (g : Graph) (calls : List Edit), Reachable g →
    g.records i = recordsSince i calls →
    (edits.foldl edit g).records i = recordsSince i (calls ++ accepted g edits)
  | [], g, calls, _, h => by
    rw [accepted, List.append_nil]
    exact h
  | e :: edits, g, calls, hg, h => by
    have hstep := records_edit (endsPresent_of_reachable hg) (collapsed_of_reachable hg) e i
    rw [List.foldl_cons, accepted]
    cases hanswer : g.answer e with
    | error _ =>
      rw [hanswer] at hstep
      exact records_foldl_edit edits _ calls (hg.edit e) (hstep.trans h)
    | ok _ =>
      have hcalls : (g.edit e).records i = recordsSince i (calls ++ [e]) := by
        rw [hstep, hanswer, afterCall, h]
        by_cases hdrops : e.Drops i
        · rw [if_pos hdrops, recordsSince_append_of_drops hdrops]
        · rw [if_neg hdrops, recordsSince_append hdrops]
      have hrest := records_foldl_edit edits _ (calls ++ [e]) (hg.edit e) hcalls
      rwa [List.append_assoc, List.singleton_append] at hrest

/-- **Records follow their import over any run of calls**: they are those added since the import was
last dropped, in the order of the calls, and where there are any the import is there. -/
theorem records_ofEdits (edits : List Edit) (i : Import) :
    (ofEdits edits).importRecords i.importer.text i.imported.text =
        recordsSince i (accepted empty edits) ∧
      (∀ r ∈ recordsSince i (accepted empty edits), r.toImport = i) ∧
      (recordsSince i (accepted empty edits) ≠ [] → i ∈ (ofEdits edits).imports) := by
  have hrecords : (ofEdits edits).records i = recordsSince i (accepted empty edits) :=
    records_foldl_edit edits empty [] ⟨[], rfl⟩ rfl
  refine ⟨?_, fun r hr => ?_, fun hne => ?_⟩
  · unfold importRecords
    rw [ModuleName.ofString?_eq_some_iff.2 rfl, ModuleName.ofString?_eq_some_iff.2 rfl]
    exact hrecords
  · simpa using (List.mem_filter.1 hr).2
  · rw [← hrecords] at hne
    exact Classical.byContradiction fun hi => hne (records_eq_nil hi)

end Runs
end Graph
end ImportAtlas
