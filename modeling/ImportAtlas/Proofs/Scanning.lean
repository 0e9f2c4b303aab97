import ImportAtlas.Build
import ImportAtlas.Proofs.Answer
import ImportAtlas.Proofs.Resolution
/-!
# The table of a build

However files are dealt out, the table of a scan is that of scanning the list from the front
(`scanFiles_eq`).  And a cache that is *honest*, in that what it recalls is what a scan would find,
makes no difference to the table of a build, nor to its refusal (`table_of_honest`): what is recalled
cannot be refused, so the first file that is refused is a file that is scanned.
-/
namespace ImportAtlas
namespace Build

variable {t : FileTree} {scanner : Scanner} {context : ScanContext} {files : List SourceFile}

/-! ## Chunks -/

theorem flatten_chunksOf {α : Type} (size : Nat) (items : List α) :
    (chunksOf size items).flatten = items := by
  induction items using chunksOf.induct size with
  | case1 => simp [chunksOf]
  | case2 a as ih => rw [chunksOf, List.flatten_cons, ih, List.cons_append, List.take_append_drop]

theorem flatten_chunks {α : Type} (count : Nat) (items : List α) :
    (chunks count items).flatten = items := by
  unfold chunks
  split
  · split
    · next h => rw [h, List.flatten_nil]
    · simp
  · exact flatten_chunksOf _ items

/-! ## Rows put into a table -/

theorem insertAll_eq_insertMany (table : ImportTable) (rows : List (ModuleName × List ImportRecord)) :
    insertAll table rows = table.insertMany rows :=
  Std.ExtTreeMap.insertMany_list_eq_foldl.symm

theorem insertAll_append (table : ImportTable) (rows more : List (ModuleName × List ImportRecord)) :
    insertAll table (rows ++ more) = insertAll (insertAll table rows) more :=
  List.foldl_append

/-- Rows may go into a table of their own first. -/
theorem insertAll_toList_insertAll (table : ImportTable)
    (rows : List (ModuleName × List ImportRecord)) :
    insertAll table (insertAll ∅ rows).toList = insertAll table rows := by
  simp only [insertAll_eq_insertMany]
  refine Std.ExtTreeMap.ext_getElem? fun m => ?_
  rw [getElem?_insertMany_toList, Std.ExtTreeMap.getElem?_insertMany_list,
    Std.ExtTreeMap.getElem?_insertMany_list, Std.ExtTreeMap.getElem?_empty, Option.or_none]

/-- Rows of different modules make the same table in any order. -/
theorem insertAll_perm {rows rows' : List (ModuleName × List ImportRecord)}
    (hperm : rows.Perm rows') (hdistinct : (rows.map (·.1)).Nodup) :
    insertAll ∅ rows = insertAll ∅ rows' := by
  have hkeys : ∀ {l : List (ModuleName × List ImportRecord)}, (l.map (·.1)).Nodup →
      l.Pairwise fun a b => ¬ compare a.1 b.1 = .eq := fun h =>
    (List.pairwise_map.1 h).imp fun hne heq => hne (Std.LawfulEqOrd.eq_of_compare heq)
  have hdistinct' : (rows'.map (·.1)).Nodup := (hperm.map _).nodup_iff.1 hdistinct
  rw [insertAll_eq_insertMany, insertAll_eq_insertMany]
  refine Std.ExtTreeMap.ext_getElem? fun m => ?_
  by_cases hm : m ∈ rows.map (·.1)
  · obtain ⟨⟨m, records⟩, hrow, rfl⟩ := List.mem_map.1 hm
    rw [Std.ExtTreeMap.getElem?_insertMany_list_of_mem Std.ReflCmp.compare_self (hkeys hdistinct) hrow,
      Std.ExtTreeMap.getElem?_insertMany_list_of_mem Std.ReflCmp.compare_self (hkeys hdistinct')
        (hperm.mem_iff.1 hrow)]
  · have hm' : m ∉ rows'.map (·.1) := fun h => hm ((hperm.map _).mem_iff.2 h)
    rw [Std.ExtTreeMap.getElem?_insertMany_list_of_contains_eq_false (by simpa using hm),
      Std.ExtTreeMap.getElem?_insertMany_list_of_contains_eq_false (by simpa using hm')]

theorem getElem?_insertAll_of_notMem {rows : List (ModuleName × List ImportRecord)} {m : ModuleName}
    (table : ImportTable) (h : m ∉ rows.map (·.1)) : (insertAll table rows)[m]? = table[m]? := by
  rw [insertAll_eq_insertMany]
  exact Std.ExtTreeMap.getElem?_insertMany_list_of_contains_eq_false (by simpa using h)

/-- Rows of no module in common may go in before each other. -/
theorem insertAll_comm {rows rows' : List (ModuleName × List ImportRecord)}
    (hdisjoint : (rows.map (·.1)).Disjoint (rows'.map (·.1))) (table : ImportTable) :
    insertAll (insertAll table rows) rows' = insertAll (insertAll table rows') rows := by
  refine Std.ExtTreeMap.ext_getElem? fun m => ?_
  by_cases hm : m ∈ rows.map (·.1)
  · have hm' := fun h => hdisjoint hm h
    rw [getElem?_insertAll_of_notMem _ hm', insertAll_eq_insertMany, insertAll_eq_insertMany _ rows,
      Std.ExtTreeMap.getElem?_insertMany_list, Std.ExtTreeMap.getElem?_insertMany_list,
      getElem?_insertAll_of_notMem _ hm']
  · rw [getElem?_insertAll_of_notMem _ hm, insertAll_eq_insertMany, insertAll_eq_insertMany table rows',
      Std.ExtTreeMap.getElem?_insertMany_list, Std.ExtTreeMap.getElem?_insertMany_list,
      getElem?_insertAll_of_notMem _ hm]

theorem getElem?_insertAll_map (change : List ImportRecord → List ImportRecord) {m : ModuleName} :
    ∀ (rows : List (ModuleName × List ImportRecord)) {table table' : ImportTable},
      (∀ m : ModuleName, table'[m]? = (table[m]?).map change) →
        (insertAll table' (rows.map fun row => (row.1, change row.2)))[m]? =
          ((insertAll table rows)[m]?).map change
  | [], _, _, h => h m
  | row :: rows, table, table', h => by
    refine getElem?_insertAll_map change rows fun n => ?_
    rw [Std.ExtTreeMap.getElem?_insert, Std.ExtTreeMap.getElem?_insert, h]
    split <;> rfl

theorem mem_of_getElem?_insertAll {rows : List (ModuleName × List ImportRecord)} {m : ModuleName} :
    ∀ {records : List ImportRecord}, (insertAll ∅ rows)[m]? = some records → (m, records) ∈ rows := by
  unfold insertAll
  refine List.foldlRecOn (motive := fun table : ImportTable => ∀ {records : List ImportRecord},
    table[m]? = some records → (m, records) ∈ rows) _ _ ?_ ?_
  · intro records h
    simp at h
  · intro table ih row hrow records h
    rw [Std.ExtTreeMap.getElem?_insert] at h
    split at h
    · next heq =>
      obtain rfl := Std.LawfulEqOrd.eq_of_compare heq
      rw [← Option.some.inj h]
      exact hrow
    · exact ih h

/-! ## Scanning chunk by chunk -/

/-- The tables of chunks put into one, one after the other. -/
def gathered (table : ImportTable) (tables : List ImportTable) : ImportTable :=
  tables.foldl (fun table more => insertAll table more.toList) table

theorem gathered_cons (table : ImportTable) (rows : List (ModuleName × List ImportRecord))
    (tables : List ImportTable) :
    gathered table (insertAll ∅ rows :: tables) = gathered (insertAll table rows) tables := by
  rw [gathered, List.foldl_cons, insertAll_toList_insertAll, gathered]

theorem mapM_scanChunk (table : ImportTable) : ∀ groups : List (List SourceFile),
    (groups.mapM (scanChunk t scanner context)).map (gathered table) =
      (groups.flatten.mapM (scanFile t scanner context)).map (insertAll table)
  | [] => rfl
  | group :: groups => by
    rw [List.mapM_cons, List.flatten_cons, List.mapM_append]
    cases hgroup : group.mapM (scanFile t scanner context) with
    | error e =>
      rw [scanChunk, hgroup]
      rfl
    | ok rows =>
      have hchunk : scanChunk t scanner context group = .ok (insertAll ∅ rows) := by
        rw [scanChunk, hgroup]
        rfl
      calc _ = (groups.mapM (scanChunk t scanner context)).map
              (fun tables => gathered table (insertAll ∅ rows :: tables)) := by
            rw [hchunk]
            cases groups.mapM (scanChunk t scanner context) <;> rfl
        _ = (groups.mapM (scanChunk t scanner context)).map (gathered (insertAll table rows)) := by
            simp only [gathered_cons]
        _ = (groups.flatten.mapM (scanFile t scanner context)).map
              (insertAll (insertAll table rows)) := mapM_scanChunk (insertAll table rows) groups
        _ = _ := by
            cases groups.flatten.mapM (scanFile t scanner context) with
            | error e => rfl
            | ok more => exact congrArg Except.ok (insertAll_append table rows more).symm

theorem inOrder_map {α : Type} (f : α → Except Error ImportTable) (as : List α) :
    inOrder (as.map f) = as.mapM f := by
  rw [inOrder, List.mapM_map]
  rfl

/-- **A scan in chunks is the scan of the list.** -/
theorem scanFiles_eq (count : Nat) : scanFiles t scanner context count files =
    (files.mapM (scanFile t scanner context)).map (insertAll ∅) := by
  unfold scanFiles scanFilesBy
  rw [inOrder_map]
  refine (mapM_scanChunk ∅ (chunks count files)).trans ?_
  rw [flatten_chunks]

/-- What a scan of Python finds is imported by the module of the file and means something. -/
theorem of_mem_python {file : SourceFile} {text : String} {records : List ImportRecord}
    {r : ImportRecord} (h : Scan.python context file text = .ok records) (hr : r ∈ records) :
    r.importer = file.module ∧ ∃ object, Resolution.meaning? context object = some r.imported := by
  obtain ⟨nodes, -, rfl⟩ := Scan.python_eq_ok_iff.1 h
  obtain ⟨-, -, -, object, imported, -, hmeaning, rfl⟩ := Scan.mem_records_iff.1 hr
  exact ⟨rfl, object, hmeaning⟩

/-! ## A cache that is honest -/

theorem exists_text_of_scanFile {file : SourceFile} {row : ModuleName × List ImportRecord}
    (h : scanFile t scanner context file = .ok row) :
    ∃ text, scanner context file text = .ok row.2 ∧ row.1 = file.module := by
  unfold scanFile at h
  obtain ⟨text, -, h⟩ := bind_eq_ok_iff.1 h
  obtain ⟨records, hscan, h⟩ := bind_eq_ok_iff.1 h
  obtain rfl := Except.ok.inj h
  exact ⟨text, hscan, rfl⟩

theorem module_of_scanFile {file : SourceFile} {row : ModuleName × List ImportRecord}
    (h : scanFile t scanner context file = .ok row) : row.1 = file.module := by
  obtain ⟨_, _, hmodule⟩ := exists_text_of_scanFile h
  exact hmodule

/-- What the cache recalls of the files is what a scan of them would find. -/
def Honest (t : FileTree) (scanner : Scanner) (context : ScanContext) (files : List SourceFile)
    (cache : Option Cache) : Prop :=
  ∀ file ∈ files, ∀ records, cache.bind (·.lookup? file) = some records →
    scanFile t scanner context file = .ok (file.module, records)

variable {cache : Option Cache}

/-- The files whose result is recalled. -/
def known (cache : Option Cache) (files : List SourceFile) : List SourceFile :=
  files.filter fun file => (cache.bind (·.lookup? file)).isSome

theorem known_append_unknown_perm (cache : Option Cache) (files : List SourceFile) :
    (known cache files ++ unknown cache files).Perm files := by
  have h := List.filter_append_perm (fun file => (cache.bind (·.lookup? file)).isSome) files
  simpa [known, unknown] using h

theorem recalled_eq_insertAll {row : SourceFile → ModuleName × List ImportRecord}
    (h : ∀ file ∈ files, ∀ records, cache.bind (·.lookup? file) = some records →
      row file = (file.module, records)) :
    recalled cache files = insertAll ∅ ((known cache files).map row) := by
  unfold recalled known
  generalize (∅ : ImportTable) = table
  induction files generalizing table with
  | nil => rfl
  | cons file files ih =>
    have ih := ih fun f hf => h f (List.mem_cons_of_mem _ hf)
    rw [List.foldl_cons, ih]
    cases hlookup : cache.bind (·.lookup? file) with
    | none => rw [List.filter_cons_of_neg (by simp [hlookup])]
    | some records =>
      rw [List.filter_cons_of_pos (by simp [hlookup]), List.map_cons,
        h file List.mem_cons_self records hlookup]
      rfl

theorem unknown_none (files : List SourceFile) : unknown none files = files :=
  List.filter_eq_self.2 fun _ _ => rfl

theorem recalled_none (files : List SourceFile) : recalled none files = ∅ :=
  List.foldlRecOn (motive := (· = (∅ : ImportTable))) files _ rfl fun _ h _ _ => h

/-- The row that a file adds to the table. -/
def rowOf (t : FileTree) (scanner : Scanner) (context : ScanContext) (file : SourceFile) :
    ModuleName × List ImportRecord :=
  match scanFile t scanner context file with
  | .ok row => row
  | .error _ => (file.module, [])

theorem rowOf_eq {file : SourceFile} {row : ModuleName × List ImportRecord}
    (h : scanFile t scanner context file = .ok row) : rowOf t scanner context file = row := by
  rw [rowOf, h]

theorem module_rowOf (file : SourceFile) : (rowOf t scanner context file).1 = file.module := by
  cases h : scanFile t scanner context file with
  | error e => rw [rowOf, h]
  | ok row => rw [rowOf_eq h, module_of_scanFile h]

theorem scanFile_eq_rowOf {file : SourceFile} (h : ∃ row, scanFile t scanner context file = .ok row) :
    scanFile t scanner context file = .ok (rowOf t scanner context file) := by
  obtain ⟨row, hrow⟩ := h
  rw [hrow, rowOf_eq hrow]

/-- The table of files that are all scanned. -/
def tableOf (t : FileTree) (scanner : Scanner) (context : ScanContext) (files : List SourceFile) :
    ImportTable :=
  insertAll ∅ (files.map (rowOf t scanner context))

/-- **A scan goes through if and only if the scan of every file does**, and answers their table. -/
theorem scanChunk_eq_ok_iff {table : ImportTable} : scanChunk t scanner context files = .ok table ↔
    (∀ file ∈ files, ∃ row, scanFile t scanner context file = .ok row) ∧
      tableOf t scanner context files = table := by
  have hrows : (∀ file ∈ files, ∃ row, scanFile t scanner context file = .ok row) →
      scanChunk t scanner context files = .ok (tableOf t scanner context files) := by
    intro hall
    rw [scanChunk, mapM_eq_ok_map fun file hfile => scanFile_eq_rowOf (hall file hfile)]
    rfl
  constructor
  · intro h
    obtain ⟨rows, hscan, -⟩ := map_eq_ok_iff.1 h
    have hall := exists_of_mapM_eq_ok hscan
    exact ⟨hall, Except.ok.inj ((hrows hall).symm.trans h)⟩
  · rintro ⟨hall, rfl⟩
    exact hrows hall

/-- **An honest cache makes no difference to the table of a build.** -/
theorem table_of_honest (hhonest : Honest t scanner context files cache)
    (hdistinct : (files.map (·.module)).Nodup) (count : Nat) :
    (scanFiles t scanner context count (unknown cache files)).map
        (fun scanned => insertAll (recalled cache files) scanned.toList) =
      (files.mapM (scanFile t scanner context)).map (insertAll ∅) := by
  have hknown : ∀ file ∈ files, (cache.bind (·.lookup? file)).isNone = false →
      ∃ row, scanFile t scanner context file = .ok row := by
    intro file hfile hsome
    obtain ⟨records, hrecords⟩ := Option.isSome_iff_exists.1 (by simpa using hsome)
    exact ⟨_, hhonest file hfile records hrecords⟩
  rw [scanFiles_eq]
  cases hscan : (unknown cache files).mapM (scanFile t scanner context) with
  | error e =>
    rw [mapM_filter_error hknown hscan]
    rfl
  | ok rows =>
    have hall : ∀ file ∈ files, scanFile t scanner context file = .ok (rowOf t scanner context file) := by
      intro file hfile
      refine scanFile_eq_rowOf ?_
      cases hnone : (cache.bind (·.lookup? file)).isNone with
      | false => exact hknown file hfile hnone
      | true => exact exists_of_mapM_eq_ok hscan file (List.mem_filter.2 ⟨hfile, hnone⟩)
    have hrecalled : recalled cache files =
        insertAll ∅ ((known cache files).map (rowOf t scanner context)) :=
      recalled_eq_insertAll fun file hfile records hrecords =>
        rowOf_eq (hhonest file hfile records hrecords)
    have hrows : (unknown cache files).mapM (scanFile t scanner context) =
        .ok ((unknown cache files).map (rowOf t scanner context)) :=
      mapM_eq_ok_map fun file hfile => hall file (List.mem_filter.1 hfile).1
    obtain rfl : rows = (unknown cache files).map (rowOf t scanner context) :=
      Except.ok.inj (hscan.symm.trans hrows)
    have hperm := (known_append_unknown_perm cache files).map (rowOf t scanner context)
    have hkeys : ((files.map (rowOf t scanner context)).map (·.1)).Nodup := by
      simpa [Function.comp_def, module_rowOf] using hdistinct
    rw [mapM_eq_ok_map hall]
    refine congrArg Except.ok ?_
    dsimp only
    rw [insertAll_toList_insertAll, hrecalled, ← insertAll_append, ← List.map_append]
    exact (insertAll_perm hperm.symm hkeys).symm

/-- What a table has of a module was found in a file. -/
theorem exists_scanFile_of_table {table : ImportTable} {m : ModuleName} {records : List ImportRecord}
    (htable : scanChunk t scanner context files = .ok table) (h : table[m]? = some records) :
    ∃ file ∈ files, scanFile t scanner context file = .ok (m, records) := by
  obtain ⟨hall, rfl⟩ := scanChunk_eq_ok_iff.1 htable
  obtain ⟨file, hfile, hrow⟩ := List.mem_map.1 (mem_of_getElem?_insertAll h)
  exact ⟨file, hfile, by rw [scanFile_eq_rowOf (hall file hfile), hrow]⟩

end Build
end ImportAtlas
