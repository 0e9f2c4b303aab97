import ImportAtlas.Proofs.Distillation
import ImportAtlas.Proofs.Records
import ImportAtlas.Proofs.Scanning
/-!
# Putting a graph together

When everything is put together, the modules of the packages come in first, all open, and then the
imports; an imported module that was not found comes in squashed.  Any of these steps may be refused,
but **none of them is if the imports come from a scan** (`exists_graph_of_scanned`).  For what a scan
finds is a module of the build or just clear of the packages (`placeable_of_mem_python`), names that
are just clear are never beneath each other, and the modules of a package are apart from all of them.

The graph is known exactly (`Assembled`): which modules are open and which are squashed, and the
records of each import.
-/
namespace ImportAtlas
namespace Build

open ImportAtlas.Graph ImportAtlas.Resolution

/-- The records that a table has for some modules, module by module. -/
def recordsFor (table : ImportTable) (modules : List ModuleName) : List ImportRecord :=
  modules.flatMap fun m => (table[m]?).getD []

theorem mem_recordsFor {table : ImportTable} {modules : List ModuleName} {r : ImportRecord} :
    r ∈ recordsFor table modules ↔
      ∃ m ∈ modules, ∃ records, table[m]? = some records ∧ r ∈ records := by
  rw [recordsFor, List.mem_flatMap]
  refine exists_congr fun m => and_congr_right fun _ => ?_
  cases table[m]? <;> simp

/-- The importer was found, and what it imports was found too or is just clear of the packages. -/
structure Placeable (packages found : List ModuleName) (r : ImportRecord) : Prop where
  importer : r.importer ∈ found
  imported : r.imported ∈ found ∨ JustClear packages r.imported

/-- The graph of the modules that were found and of the records so far, all of them placeable. -/
structure Assembled (packages found : List ModuleName) (done : List ImportRecord) (g : Graph) :
    Prop where
  placeable : ∀ r ∈ done, Placeable packages found r
  modules : ∀ m, g.modules[m]? =
    if m ∈ found then some false else if ∃ r ∈ done, r.imported = m then some true else none
  imports : ∀ i, i ∈ g.imports ↔ ∃ r ∈ done, r.toImport = i
  records : ∀ i, g.records i = done.filter (·.toImport = i)

/-- The graph of some modules, all of them open. -/
structure Opened (found : List ModuleName) (g : Graph) : Prop where
  modules : ∀ m, g.modules[m]? = if m ∈ found then some false else none
  imports : g.imports = ∅

/-- Every module that was found belongs to a package. -/
def Rooted (packages found : List ModuleName) : Prop :=
  ∀ m ∈ found, ∃ p ∈ packages, m = p ∨ m.IsBeneath p

section Reading

variable {packages found : List ModuleName} {done : List ImportRecord} {g : Graph} {m n : ModuleName}
  {r : ImportRecord}

theorem Rooted.not_overlaps (hrooted : Rooted packages found) (hn : n ∈ found)
    (hm : JustClear packages m) : ¬ n.Overlaps m := by
  obtain ⟨p, hp, hbelongs⟩ := hrooted n hn
  exact hm.not_overlaps hp hbelongs

theorem Assembled.isSquashed_iff (h : Assembled packages found done g) :
    g.isSquashed m = true ↔ m ∉ found ∧ ∃ r ∈ done, r.imported = m := by
  rw [Graph.isSquashed_iff, h.modules]
  split
  · next hfound => simp [hfound]
  · next hfound =>
    split
    · next himported => simp [hfound, himported]
    · next himported => simp [himported]

theorem Assembled.mem_modules_iff (h : Assembled packages found done g) :
    m ∈ g.modules ↔ m ∈ found ∨ g.isSquashed m = true := by
  rw [Std.ExtTreeMap.mem_iff_isSome_getElem?, Graph.isSquashed_iff, h.modules]
  split
  · next hfound => simp [hfound]
  · next hfound => split <;> simp [hfound]

theorem Assembled.justClear (h : Assembled packages found done g) (hm : g.isSquashed m = true) :
    JustClear packages m := by
  obtain ⟨hfound, r, hr, rfl⟩ := h.isSquashed_iff.1 hm
  exact (h.placeable r hr).imported.resolve_left hfound

/-- No module of the graph is beneath a name that is just clear of the packages. -/
theorem Assembled.not_isBeneath (h : Assembled packages found done g) (hrooted : Rooted packages found)
    (hm : JustClear packages m) (hn : n ∈ g.modules) : ¬ n.IsBeneath m := by
  rcases h.mem_modules_iff.1 hn with hfound | hsquashed
  · exact fun hbeneath => hrooted.not_overlaps hfound hm (.inr (.inl hbeneath))
  · exact hm.not_isBeneath (h.justClear hsquashed)

/-- **A name that is just clear of the packages may come in squashed** at any time. -/
theorem Assembled.refusal?_eq_none (h : Assembled packages found done g)
    (hrooted : Rooted packages found) (hfound : m ∉ found) (hm : JustClear packages m) :
    g.refusal? m true = none := by
  refine Graph.refusal?_eq_none (fun a ha => (h.justClear ha).not_isBeneath hm) ?_
  by_cases hsquashed : g.isSquashed m = true
  · exact .inl (Graph.isSquashed_iff.1 hsquashed)
  · have hm' : m ∉ g.modules := fun hmem => (h.mem_modules_iff.1 hmem).elim hfound hsquashed
    exact .inr ⟨hm', fun _ n hn => h.not_isBeneath hrooted hm hn⟩

/-- Two modules of which one is squashed do not overlap. -/
theorem Assembled.not_overlaps (h : Assembled packages found done g) (hrooted : Rooted packages found)
    (hm : g.isSquashed m = true) (hn : n ∈ g.modules) (hne : n ≠ m) : ¬ n.Overlaps m := by
  have hclear := h.justClear hm
  rcases h.mem_modules_iff.1 hn with hfound | hsquashed
  · exact hrooted.not_overlaps hfound hclear
  · have hclear' := h.justClear hsquashed
    rintro (e | hbeneath | hbeneath)
    · exact hne e
    · exact hclear.not_isBeneath hclear' hbeneath
    · exact hclear'.not_isBeneath hclear hbeneath

/-- **Among the modules of the graph a squashed one overlaps only itself.** -/
theorem Assembled.filter_overlaps (h : Assembled packages found done g)
    (hrooted : Rooted packages found) (hm : g.isSquashed m = true) :
    g.moduleList.filter (·.Overlaps m) = [m] := by
  have hself : ∀ n ∈ g.moduleList, decide (n.Overlaps m) = (n == m) := by
    intro n hn
    by_cases hne : n = m
    · simp [hne, ModuleName.Overlaps]
    · simp [hne, h.not_overlaps hrooted hm (mem_moduleList.1 hn) hne]
  have honce : g.moduleList.count m = 1 := by
    have hm := mem_moduleList.2 (mem_of_isSquashed hm)
    unfold moduleList at hm ⊢
    rw [Std.ExtTreeMap.nodup_keys.count, if_pos hm]
  rw [List.filter_congr hself, List.filter_beq, honce, List.replicate_one]

/-- A squashed module imports nothing. -/
theorem Assembled.successors_eq_nil (h : Assembled packages found done g)
    (hm : g.isSquashed m = true) : g.successors m = [] := by
  refine List.eq_nil_iff_forall_not_mem.2 fun n hn => ?_
  obtain ⟨r, hr, hri⟩ := (h.imports _).1 (mem_successors.1 hn)
  obtain rfl : r.importer = m := congrArg Import.importer hri
  exact (h.isSquashed_iff.1 hm).1 (h.placeable r hr).importer

theorem Assembled.endsPresent (h : Assembled packages found done g) : EndsPresent g := by
  intro i hi
  obtain ⟨r, hr, rfl⟩ := (h.imports i).1 hi
  refine ⟨h.mem_modules_iff.2 (.inl (h.placeable r hr).importer), h.mem_modules_iff.2 ?_⟩
  by_cases himported : r.imported ∈ found
  · exact .inl himported
  · exact .inr (h.isSquashed_iff.2 ⟨himported, r, hr, rfl⟩)

/-- **The modules and the records of each import make the graph**; in which order modules came in and
records of different imports followed each other makes no difference. -/
theorem Assembled.eq {packages' found' : List ModuleName} {done' : List ImportRecord} {g' : Graph}
    (h : Assembled packages found done g) (h' : Assembled packages' found' done' g')
    (hfound : ∀ m, m ∈ found ↔ m ∈ found')
    (hdone : ∀ i, done.filter (·.toImport = i) = done'.filter (·.toImport = i)) : g = g' := by
  have hmem : ∀ r, r ∈ done ↔ r ∈ done' := by
    intro r
    have hr : r ∈ done.filter (·.toImport = r.toImport) ↔ r ∈ done'.filter (·.toImport = r.toImport) := by
      rw [hdone]
    simpa using hr
  refine ext_records (fun m => ?_) (fun i => ?_) fun i => ?_
  · rw [h.modules, h'.modules]
    simp only [hfound, hmem]
  · rw [h.imports, h'.imports]
    simp only [hmem]
  · rw [h.records, h'.records, hdone]

end Reading

/-! ## Step by step -/

section Steps

variable {packages found : List ModuleName} {done : List ImportRecord} {g : Graph} {m : ModuleName}
  {r : ImportRecord} {table : ImportTable}

theorem Opened.exists_on_insertModule (h : Opened found g) (m : ModuleName) :
    ∃ g', (insertModule m false).on g = (g', .ok ()) ∧ Opened (found ++ [m]) g' := by
  have hfree : g.refusal? m false = none := by
    refine Graph.refusal?_eq_none (fun a ha => ?_) ?_
    · rw [Graph.isSquashed_iff, h.modules] at ha
      split at ha <;> cases ha
    · rw [Std.ExtTreeMap.mem_iff_isSome_getElem?, h.modules]
      split <;> simp
  rw [insertModule_on, hfree]
  refine ⟨_, rfl, fun n => ?_, h.imports⟩
  simp only [Std.ExtTreeMap.getElem?_insert, Std.compare_eq_iff_eq, h.modules, List.mem_append,
    List.mem_singleton, @eq_comm _ m n]
  by_cases hn : n = m <;> simp [hn]

theorem Opened.assembled (h : Opened found g) (packages : List ModuleName) :
    Assembled packages found [] g := by
  refine ⟨fun r hr => absurd hr List.not_mem_nil, fun m => ?_, fun i => ?_, fun i => ?_⟩
  · rw [h.modules]
    simp
  · rw [h.imports]
    simp
  · rw [List.filter_nil]
    exact records_eq_nil (by simp [h.imports])

/-- First all modules that were found come in. -/
theorem exists_on_insertFound (found : List ModuleName) :
    ∃ g, (found.forM (insertModule · false)).on .empty = (g, .ok ()) ∧ Opened found g := by
  have hempty : Opened [] .empty := ⟨fun m => by simp [empty], rfl⟩
  exact Step.exists_on_forM (P := Opened) (fun _ _ m _ h => h.exists_on_insertModule m) hempty

/-- A record of modules that are there is cited. -/
theorem Assembled.cite (h : Assembled packages found done g) (hr : Placeable packages found r)
    {g' : Graph} (himports : g'.imports = g.imports)
    (hmodules : ∀ m, g'.modules[m]? = if m ∈ found then some false
      else if ∃ r' ∈ done ++ [r], r'.imported = m then some true else none) :
    Assembled packages found (done ++ [r]) (g'.cite r.toImport r.site) := by
  refine ⟨fun r' hr' => ?_, hmodules, fun i => ?_, fun i => ?_⟩
  · rcases List.mem_append.1 hr' with hr' | hr'
    · exact h.placeable r' hr'
    · exact List.mem_singleton.1 hr' ▸ hr
  · show i ∈ g'.imports.insert _ _ ↔ _
    rw [Std.ExtTreeMap.mem_insert, Std.compare_eq_iff_eq, himports, h.imports]
    simp [or_and_right, exists_or, or_comm]
  · have hrecords : g'.records i = g.records i := records_congr (by rw [himports])
    rw [records_cite, hrecords, h.records, List.filter_append]
    split
    · next e => simp [← e, at_toImport_site]
    · next e => simp [e]

/-- **One record goes through if it can be placed.** -/
theorem Assembled.exists_on_addFound (h : Assembled packages found done g)
    (hrooted : Rooted packages found) (hr : Placeable packages found r) :
    ∃ g', (addFound (.ofList found) r).on g = (g', .ok ()) ∧
      Assembled packages found (done ++ [r]) g' := by
  rw [addFound]
  have himporter : r.importer ∈ g.modules := h.mem_modules_iff.2 (.inl hr.importer)
  by_cases hfound : r.imported ∈ found
  · refine ⟨g.cite r.toImport r.site, ?_, h.cite hr rfl fun m => ?_⟩
    · rw [if_pos (NameSet.mem_ofList.2 hfound)]
      exact addRecord_on_of_mem himporter (h.mem_modules_iff.2 (.inl hfound))
    · rw [h.modules]
      by_cases hm : m ∈ found
      · rw [if_pos hm, if_pos hm]
      · have hne : r.imported ≠ m := fun e => hm (e ▸ hfound)
        simp [hm, hne]
  · have hclear := hr.imported.resolve_left hfound
    refine ⟨Graph.cite { g with modules := g.modules.insert r.imported true } r.toImport r.site, ?_,
      h.cite hr rfl fun m => ?_⟩
    · rw [if_neg (mt NameSet.mem_ofList.1 hfound), Step.on_bind, insertModule_on,
        h.refusal?_eq_none hrooted hfound hclear]
      exact addRecord_on_of_mem (Std.ExtTreeMap.mem_insert.2 (.inr himporter))
        Std.ExtTreeMap.mem_insert_self
    · simp only [Std.ExtTreeMap.getElem?_insert, Std.compare_eq_iff_eq, h.modules]
      by_cases hm : r.imported = m
      · subst hm
        simp [hfound]
      · simp [hm]

/-- Then the records of one module after the other. -/
theorem Assembled.exists_on_addTable (h : Assembled packages found [] g)
    (hrooted : Rooted packages found)
    (hplaceable : ∀ r ∈ recordsFor table found, Placeable packages found r) :
    ∃ g', (found.forM fun m => ((table[m]?).getD []).forM (addFound (.ofList found))).on g =
        (g', .ok ()) ∧ Assembled packages found (recordsFor table found) g' := by
  have hnone : Assembled packages found (recordsFor table []) g := h
  refine Step.exists_on_forM (P := fun ms => Assembled packages found (recordsFor table ms))
    (fun ms g m hm hg => ?_) hnone
  rw [recordsFor, List.flatMap_append, List.flatMap_singleton]
  refine Step.exists_on_forM (P := Assembled packages found) (fun done g r hr hg => ?_) hg
  exact hg.exists_on_addFound hrooted (hplaceable r (List.mem_flatMap.2 ⟨m, hm, hr⟩))

/-- **A graph can be put together from records that can be placed**, and it is the graph of these. -/
theorem exists_assembled {packages : List FoundPackage} {names found : List ModuleName}
    (hfound : packages.flatMap (·.modules) = found) (hrooted : Rooted names found)
    (hplaceable : ∀ r ∈ recordsFor table found, Placeable names found r) :
    ∃ g, (assemble packages (.ofList found) table).on .empty = (g, .ok ()) ∧
      Assembled names found (recordsFor table found) g := by
  obtain ⟨g, hinsert, hopened⟩ := exists_on_insertFound found
  obtain ⟨g', hadd, hassembled⟩ := (hopened.assembled names).exists_on_addTable hrooted hplaceable
  subst hfound
  rw [assemble, Step.on_bind, hinsert]
  exact ⟨g', hadd, hassembled⟩

end Steps

/-! ## What a scan finds -/

section Scanned

variable {context : ScanContext} {packages : List FoundPackage} {includeExternal excludeTypeChecking : Bool}
  {object m : ModuleName} {table : ImportTable}

/-- What an object means in a build is a module of the build or just clear of its packages. -/
theorem mem_or_justClear_of_meaning? (h : meaning? context object = some m) :
    m ∈ context.modules ∨ JustClear context.packages m := by
  rcases meaning?_eq_some_iff.1 h with hhome | ⟨-, -, hdistilled⟩
  · exact .inl (mem_of_home? hhome)
  · exact .inr (justClear_of_distilled? hdistilled)

/-- **What a scan finds can be placed.** -/
theorem placeable_of_mem_python {file : SourceFile} {text : String} {records : List ImportRecord}
    {r : ImportRecord} (hfile : file.module ∈ packages.flatMap (·.modules))
    (h : Scan.python (.ofPackages packages includeExternal excludeTypeChecking) file text = .ok records)
    (hr : r ∈ records) : Placeable (packages.map (·.name)) (packages.flatMap (·.modules)) r := by
  obtain ⟨himporter, object, hmeaning⟩ := of_mem_python h hr
  exact ⟨himporter ▸ hfile, (mem_or_justClear_of_meaning? hmeaning).imp_left NameSet.mem_ofList.1⟩

/-- **What was scanned in the packages can be put together to a graph.**  Its open modules are those
of the packages, and a squashed one is an imported module that is not; among the modules of the graph
a squashed one overlaps only itself, and it imports nothing. -/
theorem exists_graph_of_scanned
    (hrooted : ∀ p ∈ packages, ∀ m ∈ p.modules, m = p.name ∨ m.IsBeneath p.name)
    (hscanned : ∀ p ∈ packages, ∀ m ∈ p.modules, ∀ records, table[m]? = some records →
      ∃ file text, file.module = m ∧
        Scan.python (.ofPackages packages includeExternal excludeTypeChecking) file text =
          .ok records) :
    ∃ g, (assemble packages
          (ScanContext.ofPackages packages includeExternal excludeTypeChecking).modules table).on
            .empty = (g, .ok ()) ∧
      (∀ m, g.modules[m]? = some false ↔ m ∈ packages.flatMap (·.modules)) ∧
      (∀ m, g.isSquashed m = true ↔ m ∉ packages.flatMap (·.modules) ∧
        ∃ n ∈ packages.flatMap (·.modules), ∃ records, table[n]? = some records ∧
          ∃ r ∈ records, r.imported = m) ∧
      (∀ m, g.isSquashed m = true → g.moduleList.filter (·.Overlaps m) = [m]) ∧
      ∀ m, g.isSquashed m = true → g.successors m = [] := by
  have hrooted' : Rooted (packages.map (·.name)) (packages.flatMap (·.modules)) := by
    intro m hm
    obtain ⟨p, hp, hm⟩ := List.mem_flatMap.1 hm
    exact ⟨p.name, List.mem_map.2 ⟨p, hp, rfl⟩, hrooted p hp m hm⟩
  have hplaceable : ∀ r ∈ recordsFor table (packages.flatMap (·.modules)),
      Placeable (packages.map (·.name)) (packages.flatMap (·.modules)) r := by
    intro r hr
    obtain ⟨m, hm, records, hrow, hr⟩ := mem_recordsFor.1 hr
    obtain ⟨p, hp, hmp⟩ := List.mem_flatMap.1 hm
    obtain ⟨file, text, rfl, hscan⟩ := hscanned p hp m hmp records hrow
    exact placeable_of_mem_python hm hscan hr
  obtain ⟨g, hon, hg⟩ := exists_assembled rfl hrooted' hplaceable
  refine ⟨g, hon, fun m => ?_, fun m => ?_, fun m => hg.filter_overlaps hrooted',
    fun m => hg.successors_eq_nil⟩
  · rw [hg.modules]
    split
    · next hm => simp [hm]
    · next hm => split <;> simp [hm]
  · rw [hg.isSquashed_iff]
    refine and_congr_right fun _ => ?_
    constructor
    · rintro ⟨r, hr, himported⟩
      obtain ⟨n, hn, records, hrow, hr⟩ := mem_recordsFor.1 hr
      exact ⟨n, hn, records, hrow, r, hr, himported⟩
    · rintro ⟨n, hn, records, hrow, r, hr, himported⟩
      exact ⟨r, mem_recordsFor.2 ⟨n, hn, records, hrow, hr⟩, himported⟩

def siblingFile : SourceFile := ⟨⟨"foo.blue", by decide⟩, "blue/__init__.py", 1⟩

/-- Two packages that share a namespace, one of them two levels further down. -/
def siblings : List FoundPackage :=
  [⟨⟨"foo.blue", by decide⟩, "blue", [siblingFile, ⟨⟨"foo.blue.inner.deep", by decide⟩, "deep.py", 1⟩]⟩,
    ⟨⟨"foo.green.leaf", by decide⟩, "leaf", [⟨⟨"foo.green.leaf", by decide⟩, "__init__.py", 1⟩]⟩]

def siblingSource : String :=
  "from .inner import deep\nimport foo.red.one\nimport foo.green.bud\nimport os.path, foo.green.leaf\n"

def siblingRecords : List ImportRecord :=
  let importing (imported : ModuleName) (line : UInt32) (text : String) : ImportRecord :=
    ⟨siblingFile.module, imported, some line, some text⟩
  [importing ⟨"foo.blue.inner.deep", by decide⟩ 1 "from .inner import deep",
    importing ⟨"foo.red", by decide⟩ 2 "import foo.red.one",
    importing ⟨"foo.green.bud", by decide⟩ 3 "import foo.green.bud",
    importing ⟨"os", by decide⟩ 4 "import os.path, foo.green.leaf",
    importing ⟨"foo.green.leaf", by decide⟩ 4 "import os.path, foo.green.leaf"]

def siblingTable : ImportTable := (∅ : ImportTable).insert siblingFile.module siblingRecords

theorem python_siblings : Scan.python (.ofPackages siblings true false) siblingFile siblingSource =
    .ok siblingRecords :=
  eq_ok_of_toOption (by decide +kernel)

/-- Three names come in squashed, each just clear of the packages: `foo.green.bud` lies right beside
the way down to `foo.green.leaf`, and of `os.path` only `os` is left. -/
theorem exists_graph_of_scanned_siblings : ∃ (g : Graph) (red bud os : ModuleName),
    red.text = "foo.red" ∧ bud.text = "foo.green.bud" ∧ os.text = "os" ∧
      (assemble siblings (ScanContext.ofPackages siblings true false).modules siblingTable).on .empty =
        (g, .ok ()) ∧
      (∀ p ∈ siblings, ∀ m ∈ p.modules, g.modules[m]? = some false) ∧
      g.isSquashed red = true ∧ g.isSquashed bud = true ∧ g.isSquashed os = true ∧
      g.moduleList.filter (·.Overlaps bud) = [bud] ∧ g.successors bud = [] := by
  let red : ModuleName := ⟨"foo.red", by decide⟩
  let bud : ModuleName := ⟨"foo.green.bud", by decide⟩
  let os : ModuleName := ⟨"os", by decide⟩
  have hrow : ∀ m records, siblingTable[m]? = some records →
      siblingFile.module = m ∧ siblingRecords = records := by
    intro m records h
    simp only [siblingTable, Std.ExtTreeMap.getElem?_insert, Std.compare_eq_iff_eq] at h
    split at h
    · next e => exact ⟨e, Option.some.inj h⟩
    · simp at h
  obtain ⟨g, hon, hopen, hsquashed, halone, hnone⟩ :=
    @exists_graph_of_scanned siblings true false siblingTable (by decide) fun p _ m _ records h => by
      obtain ⟨rfl, rfl⟩ := hrow m records h
      exact ⟨siblingFile, siblingSource, rfl, python_siblings⟩
  have himported : ∀ m, m ∉ siblings.flatMap (·.modules) →
      (∃ r ∈ siblingRecords, r.imported = m) → g.isSquashed m = true := fun m hm hr =>
    (hsquashed m).2 ⟨hm, siblingFile.module, by decide, siblingRecords,
      Std.ExtTreeMap.getElem?_insert_self, hr⟩
  have hbud := himported bud (by decide) (by decide)
  exact ⟨g, red, bud, os, rfl, rfl, rfl, hon,
    fun p hp m hm => (hopen m).2 (List.mem_flatMap.2 ⟨p, hp, hm⟩), himported red (by decide) (by decide),
    hbud, himported os (by decide) (by decide), halone bud hbud, hnone bud hbud⟩

end Scanned
end Build
end ImportAtlas
