import Mathlib.Logic.Relation
import ImportAtlas.Graph.Change
import ImportAtlas.Proofs.Package
/-!
# What a run of changes can do

Whatever a caller asks for, a graph changes by a few moves only: a module comes in that nothing
refuses, an import between modules of the graph is cited, a module goes with its imports, an import
goes, or a package is squashed.  A call makes some of them and stops, refused or not
(`moves_edit`).  So **what every move preserves holds of every reachable graph**
(`Reachable.of_moves`), and refusals need no thought any more.

The first such property is that the ends of an import are in the graph (`endsPresent_of_reachable`).
-/
namespace ImportAtlas
namespace Graph

/-- One move of a graph. -/
inductive Move : Graph → Graph → Prop where
  | bring {g : Graph} {m : ModuleName} {squashed : Bool} (h : g.refusal? m squashed = none) :
    Move g { g with modules := g.modules.insert m squashed }
  | cite {g : Graph} {i : Import} (s : Site)
    (himporter : i.importer ∈ g.modules) (himported : i.imported ∈ g.modules) : Move g (g.cite i s)
  | without {g : Graph} {m : ModuleName} (h : m ∈ g.modules) : Move g (g.without m)
  | cut {g : Graph} (i : Import) : Move g { g with imports := g.imports.erase i }
  | squash {g : Graph} {p : ModuleName} (h : p ∈ g.modules) (hopen : g.isSquashed p = false) :
    Move g (g.squashed p)

/-- Any number of moves. -/
abbrev Moves : Graph → Graph → Prop := Relation.ReflTransGen Move

/-! ## Running a change -/

theorem insertModule_on (m : ModuleName) (flag : Bool) (g : Graph) :
    (insertModule m flag).on g = match g.refusal? m flag with
      | some e => (g, .error e)
      | none => ({ g with modules := g.modules.insert m flag }, .ok ()) := by
  rw [insertModule, Step.on_bind, Step.on_get]
  dsimp only
  cases g.refusal? m flag <;> rfl

theorem ensureModule_on_of_mem {g : Graph} {m : ModuleName} (hm : m ∈ g.modules) :
    (ensureModule m).on g = (g, .ok ()) := by
  rw [ensureModule, Step.on_bind, Step.on_get]
  dsimp only
  rw [if_pos hm]
  rfl

theorem ensureModule_on_of_notMem {g : Graph} {m : ModuleName} (hm : m ∉ g.modules) :
    (ensureModule m).on g = (insertModule m false).on g := by
  rw [ensureModule, Step.on_bind, Step.on_get]
  dsimp only
  rw [if_neg hm]

theorem addRecord_on_of_mem {g : Graph} {r : ImportRecord} (himporter : r.importer ∈ g.modules)
    (himported : r.imported ∈ g.modules) :
    (addRecord r).on g = (g.cite r.toImport r.site, .ok ()) := by
  rw [addRecord, Step.on_bind, ensureModule_on_of_mem himporter]
  dsimp only
  rw [Step.on_bind, ensureModule_on_of_mem himported]
  rfl

/-! ## Calls are made of moves -/

/-- The change makes moves only, and if it goes through, `Q` holds of its answer and of the graph
then. -/
def Leads {α : Type} (g : Graph) (change : Changing α) (Q : α → Graph → Prop) : Prop :=
  Moves g (change.on g).1 ∧ ∀ a, (change.on g).2 = .ok a → Q a (change.on g).1

section Calls

variable {α β : Type} {g : Graph} {m : ModuleName} {Q : α → Graph → Prop} {R : β → Graph → Prop}

theorem Leads.pure {a : α} (h : Q a g) : Leads g (pure a) Q :=
  ⟨.refl, fun _ e => Except.ok.inj e ▸ h⟩

theorem Leads.throw (e : Error) : Leads g (throw e : Changing α) Q :=
  ⟨.refl, fun _ h => nomatch h⟩

theorem Leads.mono {change : Changing α} {Q' : α → Graph → Prop} (h : Leads g change Q)
    (hQ : ∀ a h, Q a h → Q' a h) : Leads g change Q' :=
  ⟨h.1, fun a ha => hQ _ _ (h.2 a ha)⟩

theorem Leads.bind {change : Changing α} {next : α → Changing β}
    (h : Leads g change fun a h => Leads h (next a) R) : Leads g (change >>= next) R := by
  obtain ⟨hmoves, hnext⟩ := h
  unfold Leads
  rw [Step.on_bind]
  cases hon : change.on g with
  | mk h answer =>
    rw [hon] at hmoves hnext
    cases answer with
    | error e => exact ⟨hmoves, fun b hb => nomatch hb⟩
    | ok a =>
      obtain ⟨hmoves', hR⟩ := hnext a rfl
      exact ⟨hmoves.trans hmoves', hR⟩

theorem Leads.get {Q : Graph → Graph → Prop} (h : Q g g) : Leads g (get : Changing Graph) Q :=
  ⟨.refl, fun _ e => Except.ok.inj e ▸ h⟩

theorem Leads.set {h : Graph} {Q : PUnit → Graph → Prop} (hmove : Move g h) (hQ : Q ⟨⟩ h) :
    Leads g (set h : Changing PUnit) Q :=
  ⟨.single hmove, fun _ _ => hQ⟩

theorem Leads.modify {f : Graph → Graph} {Q : PUnit → Graph → Prop} (hmoves : Moves g (f g))
    (hQ : Q ⟨⟩ (f g)) : Leads g (modify f : Changing PUnit) Q :=
  ⟨hmoves, fun _ _ => hQ⟩

theorem Leads.ofExcept {answer : Except Error α} (h : ∀ a, answer = .ok a → Q a g) :
    Leads g (ofExcept answer : Changing α) Q := by
  cases answer with
  | error e => exact .throw e
  | ok a => exact .pure (h a rfl)

theorem leads_insertModule {squashed : Bool} : Leads g (insertModule m squashed) fun _ h =>
    m ∈ h.modules ∧ ∀ n ∈ g.modules, n ∈ h.modules := by
  refine .bind (.get ?_)
  split
  · exact .throw _
  · next h =>
    refine .set (.bring h) ⟨Std.ExtTreeMap.mem_insert_self, fun n hn => ?_⟩
    exact Std.ExtTreeMap.mem_insert.2 (.inr hn)

theorem leads_addModule (name : String) (squashed : Bool) :
    Leads g (addModule name squashed) fun _ _ => True :=
  .bind (.ofExcept fun _ _ => leads_insertModule.mono fun _ _ _ => trivial)

theorem leads_ensureModule : Leads g (ensureModule m) fun _ h =>
    m ∈ h.modules ∧ ∀ n ∈ g.modules, n ∈ h.modules := by
  refine .bind (.get ?_)
  split
  · next h => exact .pure ⟨h, fun n hn => hn⟩
  · exact leads_insertModule

theorem leads_addRecord (r : ImportRecord) : Leads g (addRecord r) fun _ _ => True := by
  refine .bind (leads_ensureModule.mono fun _ h himporter => ?_)
  refine .bind (leads_ensureModule.mono fun _ h' himported => ?_)
  exact .modify (.single (.cite r.site (himported.2 _ himporter.1) himported.1)) trivial

theorem leads_addImport (importer imported : String) (s : Site) :
    Leads g (addImport importer imported s) fun _ _ => True :=
  .bind (.ofExcept fun _ _ => .bind (.ofExcept fun _ _ => leads_addRecord _))

theorem leads_removeModule (name : String) : Leads g (removeModule name) fun _ _ => True := by
  refine .modify ?_ trivial
  split
  · next h => exact .single (.without (present_eq_ok_iff.1 h).2)
  · exact .refl

theorem leads_removeImport (importer imported : String) :
    Leads g (removeImport importer imported) fun _ _ => True :=
  .bind (.get (.bind (.ofExcept fun _ _ => .bind (.ofExcept fun _ _ => .set (.cut _) trivial))))

theorem leads_squashModule (name : String) : Leads g (squashModule name) fun _ _ => True := by
  refine .bind (.get (.bind (.ofExcept fun p hp => ?_)))
  split
  · exact .pure trivial
  · next hopen =>
    exact .set (.squash (present_eq_ok_iff.1 hp).2 (Bool.eq_false_iff.2 hopen)) trivial

/-- **A call makes moves and nothing else**, whether it goes through or is refused. -/
theorem moves_edit (g : Graph) (e : Edit) : Moves g (g.edit e) := by
  cases e with
  | addModule name squashed => exact (leads_addModule name squashed).1
  | addImport importer imported => exact (leads_addImport importer imported _).1
  | addImportAt importer imported line text => exact (leads_addImport importer imported _).1
  | addRecord record => exact (leads_addRecord record).1
  | removeModule name => exact (leads_removeModule name).1
  | removeImport importer imported => exact (leads_removeImport importer imported).1
  | squashModule name => exact (leads_squashModule name).1

theorem moves_foldl_edit : ∀ (edits : List Edit) (g : Graph), Moves g (edits.foldl edit g)
  | [], _ => .refl
  | e :: edits, g => (moves_edit g e).trans (moves_foldl_edit edits (g.edit e))

/-- **What the empty graph has and every move preserves, every reachable graph has.** -/
theorem Reachable.of_moves {P : Graph → Prop} (hg : Reachable g) (hempty : P empty)
    (hmove : ∀ {g h : Graph}, P g → Move g h → P h) : P g := by
  obtain ⟨edits, rfl⟩ := hg
  have hmoves : Moves empty (ofEdits edits) := moves_foldl_edit edits empty
  generalize ofEdits edits = g at hmoves
  induction hmoves with
  | refl => exact hempty
  | tail _ hlast ih => exact hmove ih hlast

end Calls

/-! ## The ends of imports -/

/-- Both ends of every import are modules of the graph. -/
def EndsPresent (g : Graph) : Prop :=
  ∀ i ∈ g.imports, i.importer ∈ g.modules ∧ i.imported ∈ g.modules

section Ends

variable {g h : Graph} {i : Import} {m p : ModuleName}

theorem mem_filter_keys {α β : Type} [Ord α] [Std.TransOrd α] [Std.LawfulEqOrd α]
    {t : Std.ExtTreeMap α β} {keep : α → Bool} {a : α} :
    a ∈ t.filter (fun a _ => keep a) ↔ a ∈ t ∧ keep a = true := by
  rw [← Std.ExtTreeMap.mem_keys, Std.ExtTreeMap.keys_filter_key, List.mem_filter,
    Std.ExtTreeMap.mem_keys]

theorem getElem?_filter_keys {α β : Type} [Ord α] [Std.TransOrd α] [Std.LawfulEqOrd α]
    {t : Std.ExtTreeMap α β} {keep : α → Bool} {a : α} :
    (t.filter fun a _ => keep a)[a]? = if keep a = true then t[a]? else none := by
  rw [Std.ExtTreeMap.getElem?_filter']
  cases t[a]? with
  | none => simp
  | some b => simp [Option.filter]

theorem mem_modules_without : m ∈ (g.without p).modules ↔ m ≠ p ∧ m ∈ g.modules := by
  show m ∈ g.modules.erase p ↔ _
  rw [Std.ExtTreeMap.mem_erase, Ne, Std.compare_eq_iff_eq, ne_comm]

theorem mem_imports_without : i ∈ (g.without p).imports ↔ i ∈ g.imports ∧ ¬ i.Touches p := by
  show i ∈ g.imports.filter _ ↔ _
  simp [mem_filter_keys]

theorem getElem?_modules_without :
    (g.without p).modules[m]? = if p = m then none else g.modules[m]? := by
  show (g.modules.erase p)[m]? = _
  simp only [Std.ExtTreeMap.getElem?_erase, Std.compare_eq_iff_eq]

theorem getElem?_imports_without :
    (g.without p).imports[i]? = if i.Touches p then none else g.imports[i]? := by
  show (g.imports.filter fun i _ => !decide (i.Touches p))[i]? = _
  rw [getElem?_filter_keys]
  by_cases h : i.Touches p <;> simp [h]

/-- Modules that go one after the other are gone all together. -/
theorem getElem?_modules_foldl_without : ∀ {l : List ModuleName} {g : Graph},
    (l.foldl without g).modules[m]? = if m ∈ l then none else g.modules[m]?
  | [], g => rfl
  | n :: l, g => by
    rw [List.foldl_cons, getElem?_modules_foldl_without, getElem?_modules_without]
    by_cases hl : m ∈ l
    · simp [hl]
    · simp [hl, eq_comm]

theorem getElem?_imports_foldl_without : ∀ {l : List ModuleName} {g : Graph},
    (l.foldl without g).imports[i]? = if ∃ m ∈ l, i.Touches m then none else g.imports[i]?
  | [], g => by simp
  | n :: l, g => by
    rw [List.foldl_cons, getElem?_imports_foldl_without, getElem?_imports_without]
    by_cases hl : ∃ m ∈ l, i.Touches m
    · simp [hl]
    · simp only [hl, List.mem_cons, exists_eq_or_imp, or_false, if_false]

theorem getElem?_modules_squashed : (g.squashed p).modules[m]? =
    if m = p then some true else if m.IsBeneath p then none else g.modules[m]? := by
  show (((g.beneath p).foldl without (g.joined p)).modules.insert p true)[m]? = _
  simp only [Std.ExtTreeMap.getElem?_insert, Std.compare_eq_iff_eq, getElem?_modules_foldl_without,
    eq_comm (a := p), mem_beneath]
  by_cases hbeneath : m.IsBeneath p
  · by_cases hm : m ∈ g.modules
    · simp [hbeneath, hm]
    · simp [hbeneath, hm, joined]
  · simp [hbeneath, joined]

theorem mem_modules_squashed :
    m ∈ (g.squashed p).modules ↔ m = p ∨ (m ∈ g.modules ∧ ¬ m.IsBeneath p) := by
  rw [Std.ExtTreeMap.mem_iff_isSome_getElem?, Std.ExtTreeMap.mem_iff_isSome_getElem?,
    getElem?_modules_squashed]
  by_cases hm : m = p
  · simp [hm]
  · by_cases hbeneath : m.IsBeneath p <;> simp [hm, hbeneath]

theorem mem_modules_squashed_of_mem (hp : p ∈ g.modules) :
    m ∈ (g.squashed p).modules ↔ m ∈ g.modules ∧ ¬ m.IsBeneath p := by
  rw [mem_modules_squashed]
  refine ⟨?_, .inr⟩
  rintro (rfl | h)
  · exact ⟨hp, m.not_isBeneath_self⟩
  · exact h

theorem mem_foldl_insertIfNew : ∀ {l : List Import} {t : Std.ExtTreeMap Import (List Site)},
    i ∈ l.foldl (fun t i => t.insertIfNew i []) t ↔ i ∈ l ∨ i ∈ t
  | [], t => by simp
  | j :: l, t => by
    rw [List.foldl_cons, mem_foldl_insertIfNew, Std.ExtTreeMap.mem_insertIfNew,
      Std.compare_eq_iff_eq, List.mem_cons, ← or_assoc, or_comm (a := i ∈ l), eq_comm]

/-- An import has an end beneath `p` if it touches a module beneath `p`. -/
theorem inner_iff_touches (hg : EndsPresent g) (hi : i ∈ g.imports) :
    Inner p i ↔ ∃ m ∈ g.beneath p, i.Touches m := by
  constructor
  · rintro (hbeneath | hbeneath)
    · exact ⟨_, mem_beneath.2 ⟨(hg i hi).1, hbeneath⟩, .inl rfl⟩
    · exact ⟨_, mem_beneath.2 ⟨(hg i hi).2, hbeneath⟩, .inr rfl⟩
  · rintro ⟨m, hm, rfl | rfl⟩
    · exact .inl (mem_beneath.1 hm).2
    · exact .inr (mem_beneath.1 hm).2

theorem mem_contracted (hg : EndsPresent g) : i ∈ g.contracted p ↔
    (∃ j ∈ g.imports, Inner p j ∧ ⟨contract p j.importer, contract p j.imported⟩ = i) ∧
      i.importer ≠ i.imported := by
  simp only [contracted, List.mem_filter, List.mem_map, List.mem_flatMap, mem_importList,
    decide_eq_true_eq]
  refine and_congr_left fun _ => exists_congr fun j => ?_
  constructor
  · rintro ⟨⟨m, hm, hj, htouches⟩, e⟩
    exact ⟨hj, (inner_iff_touches hg hj).2 ⟨m, hm, htouches⟩, e⟩
  · rintro ⟨hj, hinner, e⟩
    obtain ⟨m, hm, htouches⟩ := (inner_iff_touches hg hj).1 hinner
    exact ⟨⟨m, hm, hj, htouches⟩, e⟩

theorem not_isBeneath_contract : ¬ (contract p m).IsBeneath p := by
  unfold contract
  split
  · exact p.not_isBeneath_self
  · assumption

/-- What comes in is not taken away again with the modules beneath `p`. -/
theorem not_inner_of_mem_contracted (hg : EndsPresent g) (hi : i ∈ g.contracted p) : ¬ Inner p i := by
  obtain ⟨⟨j, -, -, rfl⟩, -⟩ := (mem_contracted hg).1 hi
  exact fun hinner => hinner.elim not_isBeneath_contract not_isBeneath_contract

theorem getElem?_imports_squashed : (g.squashed p).imports[i]? =
    if ∃ m ∈ g.beneath p, i.Touches m then none else (g.joined p).imports[i]? :=
  getElem?_imports_foldl_without

theorem mem_imports_squashed (hg : EndsPresent g) : i ∈ (g.squashed p).imports ↔
    i ∈ g.contracted p ∨ (i ∈ g.imports ∧ ¬ Inner p i) := by
  have hjoined : i ∈ (g.joined p).imports ↔ i ∈ g.contracted p ∨ i ∈ g.imports :=
    mem_foldl_insertIfNew
  have hsquashed : i ∈ (g.squashed p).imports ↔
      (¬ ∃ m ∈ g.beneath p, i.Touches m) ∧ i ∈ (g.joined p).imports := by
    rw [Std.ExtTreeMap.mem_iff_isSome_getElem?, getElem?_imports_squashed,
      Std.ExtTreeMap.mem_iff_isSome_getElem?]
    split <;> simp [*]
  rw [hsquashed, hjoined]
  constructor
  · rintro ⟨hfree, hi | hi⟩
    · exact .inl hi
    · exact .inr ⟨hi, mt (inner_iff_touches hg hi).1 hfree⟩
  · rintro (hi | ⟨hi, hinner⟩)
    · refine ⟨?_, .inl hi⟩
      rintro ⟨m, hm, htouches⟩
      have hinner := not_inner_of_mem_contracted hg hi
      rcases htouches with rfl | rfl
      · exact hinner (.inl (mem_beneath.1 hm).2)
      · exact hinner (.inr (mem_beneath.1 hm).2)
    · exact ⟨mt (inner_iff_touches hg hi).2 hinner, .inr hi⟩

theorem contract_mem (hm : m ∈ g.modules) :
    contract p m ∈ (g.squashed p).modules := by
  rw [mem_modules_squashed, contract]
  split
  · exact .inl rfl
  · next h => exact .inr ⟨hm, h⟩

theorem EndsPresent.move (hg : EndsPresent g) (hmove : Move g h) : EndsPresent h := by
  intro i hi
  cases hmove with
  | bring _ =>
    obtain ⟨ha, hb⟩ := hg i hi
    exact ⟨Std.ExtTreeMap.mem_insert.2 (.inr ha), Std.ExtTreeMap.mem_insert.2 (.inr hb)⟩
  | cite s himporter himported =>
    rcases Std.ExtTreeMap.mem_insert.1 hi with e | hi
    · obtain rfl := Import.eq_of_compare_eq e
      exact ⟨himporter, himported⟩
    · exact hg i hi
  | without _ =>
    obtain ⟨hi, hfree⟩ := mem_imports_without.1 hi
    obtain ⟨ha, hb⟩ := hg i hi
    exact ⟨mem_modules_without.2 ⟨fun e => hfree (.inl e), ha⟩,
      mem_modules_without.2 ⟨fun e => hfree (.inr e), hb⟩⟩
  | cut j => exact hg i (Std.ExtTreeMap.mem_of_mem_erase hi)
  | squash _ _ =>
    rcases (mem_imports_squashed hg).1 hi with hi | ⟨hi, hinner⟩
    · obtain ⟨⟨j, hj, -, rfl⟩, -⟩ := (mem_contracted hg).1 hi
      obtain ⟨ha, hb⟩ := hg j hj
      exact ⟨contract_mem ha, contract_mem hb⟩
    · obtain ⟨ha, hb⟩ := hg i hi
      exact ⟨mem_modules_squashed.2 (.inr ⟨ha, fun h => hinner (.inl h)⟩),
        mem_modules_squashed.2 (.inr ⟨hb, fun h => hinner (.inr h)⟩)⟩

/-- **The ends of an import are in the graph**, at any point of any run. -/
theorem endsPresent_of_reachable (hg : Reachable g) : EndsPresent g :=
  hg.of_moves (fun _ hi => (Std.ExtTreeMap.not_mem_empty hi).elim) EndsPresent.move

end Ends

/-! ## Removing imports -/

/-- The call that removes an import. -/
def removal (i : Import) : Edit := .removeImport i.importer.text i.imported.text

section Removing

variable {g : Graph} {i j : Import}

theorem erase_of_notMem (h : i ∉ g.imports) : { g with imports := g.imports.erase i } = g := by
  refine ext_lookup (fun _ => rfl) fun j => ?_
  show (g.imports.erase i)[j]? = _
  rw [Std.ExtTreeMap.getElem?_erase]
  split
  · next e =>
    rw [← Import.eq_of_compare_eq e, Std.ExtTreeMap.getElem?_eq_none h]
  · rfl

/-- The call removes the import.  It is refused where an end is missing, but then the graph has no
such import either. -/
theorem edit_removal (hg : EndsPresent g) (i : Import) :
    g.edit (removal i) = { g with imports := g.imports.erase i } := by
  show ((removeImport i.importer.text i.imported.text).on g).1 = _
  rw [removeImport]
  simp only [Step.on_bind, Step.on_get, Step.on_ofExcept]
  cases ha : g.present i.importer.text with
  | error e => exact (erase_of_notMem fun hi => by simp [present_text (hg i hi).1] at ha).symm
  | ok a =>
    obtain rfl : a = i.importer := ModuleName.ext_text (present_eq_ok_iff.1 ha).1
    cases hb : g.present i.imported.text with
    | error e => exact (erase_of_notMem fun hi => by simp [present_text (hg i hi).2] at hb).symm
    | ok b =>
      obtain rfl : b = i.imported := ModuleName.ext_text (present_eq_ok_iff.1 hb).1
      rfl

/-- **Removing a list of imports** takes them out of the graph and does nothing else. -/
theorem foldl_removal : ∀ (removed : List Import) (g : Graph), EndsPresent g →
    ((removed.map removal).foldl edit g).modules = g.modules ∧
      ∀ j, j ∈ ((removed.map removal).foldl edit g).imports ↔ j ∈ g.imports ∧ j ∉ removed
  | [], g, _ => ⟨rfl, fun j => by simp⟩
  | i :: removed, g, hg => by
    obtain ⟨hmodules, himports⟩ := foldl_removal removed _ (hg.move (.cut i))
    rw [List.map_cons, List.foldl_cons, edit_removal hg]
    refine ⟨hmodules, fun j => ?_⟩
    rw [himports]
    show j ∈ g.imports.erase i ∧ _ ↔ _
    rw [Std.ExtTreeMap.mem_erase, Ne, Std.compare_eq_iff_eq, List.mem_cons, not_or, eq_comm,
      and_assoc, and_left_comm]

/-! ## Removing modules -/

theorem EndsPresent.edit (hg : EndsPresent g) (e : Edit) : EndsPresent (g.edit e) := by
  have hmoves := moves_edit g e
  generalize g.edit e = h at hmoves
  induction hmoves with
  | refl => exact hg
  | tail _ hlast ih => exact ih.move hlast

/-- A module that is not in the graph is not missed, nor is any import of it. -/
theorem without_of_notMem (hg : EndsPresent g) {m : ModuleName} (hm : m ∉ g.modules) :
    g.without m = g := by
  refine ext_lookup (fun n => ?_) fun i => ?_
  · rw [getElem?_modules_without]
    split
    · next e => rw [← e, Std.ExtTreeMap.getElem?_eq_none hm]
    · rfl
  · rw [getElem?_imports_without]
    split
    · next htouches =>
      refine (Std.ExtTreeMap.getElem?_eq_none fun hi => hm ?_).symm
      exact htouches.elim (fun e => e ▸ (hg i hi).1) fun e => e ▸ (hg i hi).2
    · rfl

theorem edit_removeModule (hg : EndsPresent g) (m : ModuleName) :
    g.edit (.removeModule m.text) = g.without m := by
  show ((removeModule m.text).on g).1 = _
  rw [removeModule, Step.on_modify]
  cases hpresent : g.present m.text with
  | ok n =>
    dsimp only
    rw [ModuleName.ext_text (present_eq_ok_iff.1 hpresent).1]
  | error e =>
    refine (without_of_notMem hg fun hm => ?_).symm
    rw [present_text hm] at hpresent
    cases hpresent

/-- **Removing a list of modules** takes them out of the graph, with every import that touches one of
them, and does nothing else. -/
theorem foldl_removeModule : ∀ (removed : List ModuleName) (g : Graph), EndsPresent g →
    (∀ n, ((removed.map fun m => Edit.removeModule m.text).foldl edit g).modules[n]? =
        if n ∈ removed then none else g.modules[n]?) ∧
      ∀ i : Import, ((removed.map fun m => Edit.removeModule m.text).foldl edit g).imports[i]? =
        if ∃ m ∈ removed, i.Touches m then none else g.imports[i]?
  | [], g, _ => ⟨fun n => by simp, fun i => by simp⟩
  | m :: removed, g, hg => by
    obtain ⟨hmodules, himports⟩ := foldl_removeModule removed _ (hg.edit (.removeModule m.text))
    rw [List.map_cons, List.foldl_cons]
    rw [edit_removeModule hg] at hmodules himports ⊢
    refine ⟨fun n => ?_, fun i => ?_⟩
    · rw [hmodules, getElem?_modules_without]
      by_cases hn : m = n <;> simp [hn, eq_comm]
    · rw [himports, getElem?_imports_without]
      by_cases hi : i.Touches m <;> simp [hi]

end Removing
end Graph
end ImportAtlas
