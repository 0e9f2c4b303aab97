import ImportAtlas.Proofs.Answer
import ImportAtlas.Proofs.CacheKey
import ImportAtlas.Proofs.CacheStore
/-!
# What is kept is recalled

A build leaves out of its document who imports, for the results stand under the module, and it puts
the time of the file beside them.  Nothing is lost by that: **a build of the same packages and options
recalls the records of a file, word for word, exactly if the file's module was written with the very
time that the file has** (`recalled_of_written`).  Results of other options stay as they are, as long as
the digests of their keys differ.
-/
namespace ImportAtlas
namespace Cache

open FileTree (Ordered)

section Recall

variable {t t' earlier : FileTree} {directory : String} {cache : Cache}
  {packages packages' : List FoundPackage} {table : ImportTable} {external exclude : Bool}
  {m : ModuleName} {result : ScanResult} {file : SourceFile} {records : List ImportRecord}

/-- The modules of the files of packages are all different. -/
def DistinctModules (packages : List FoundPackage) : Prop :=
  ((packages.flatMap (·.files)).map (·.module)).Nodup

instance (packages : List FoundPackage) : Decidable (DistinctModules packages) :=
  inferInstanceAs (Decidable (List.Nodup _))

/-- Records stand under the module that imports. -/
def NamesImporters (table : ImportTable) : Prop :=
  ∀ (m : ModuleName) (records : List ImportRecord), table[m]? = some records →
    ∀ r ∈ records, r.importer = m

/-! ## Results -/

/-- The row of a file among the results. -/
def resultRow? (table : ImportTable) (file : SourceFile) : Option (ModuleName × ScanResult) :=
  (table[file.module]?).map fun records => (file.module, .ofRecords file.mtime records)

theorem resultsOf_eq_insertMany : resultsOf packages table =
    (∅ : ScanResults).insertMany ((packages.flatMap (·.files)).filterMap (resultRow? table)) := by
  rw [Std.ExtTreeMap.insertMany_list_eq_foldl, List.foldl_filterMap, resultsOf]
  congr 1
  funext results file
  cases h : table[file.module]? <;> simp [resultRow?, h]

/-- **The results are those of the files of the packages.** -/
theorem getElem?_resultsOf_iff (hdistinct : DistinctModules packages) :
    (resultsOf packages table)[m]? = some result ↔ IsResult packages table m result := by
  refine ⟨isResult_of_getElem?_resultsOf, ?_⟩
  rintro ⟨file, hfile, records, rfl, hrow, rfl⟩
  have hrows : ((packages.flatMap (·.files)).filterMap (resultRow? table)).Pairwise
      fun a b => ¬ compare a.1 b.1 = .eq := by
    refine (List.pairwise_map.1 hdistinct).filterMap _ fun f g hne a ha b hb heq => hne ?_
    obtain ⟨_, -, rfl⟩ := Option.map_eq_some_iff.1 ha
    obtain ⟨_, -, rfl⟩ := Option.map_eq_some_iff.1 hb
    exact Std.LawfulEqOrd.eq_of_compare heq
  rw [resultsOf_eq_insertMany]
  refine Std.ExtTreeMap.getElem?_insertMany_list_of_mem Std.ReflCmp.compare_self hrows
    (List.mem_filterMap.2 ⟨file, hfile, ?_⟩)
  rw [resultRow?, hrow]
  rfl

theorem lookup?_eq_some_iff : cache.lookup? file = some records ↔
    ∃ result, cache.results[file.module]? = some result ∧ result.mtime = file.mtime ∧
      result.records file.module = records := by
  simp only [lookup?, Option.bind_eq_bind, Option.bind_eq_some_iff, Option.ite_none_right_eq_some,
    Option.some.injEq]

/-- What a cache with the results of packages recalls. -/
theorem lookup?_resultsOf (hdistinct : DistinctModules packages) (htable : NamesImporters table)
    (hresults : cache.results = resultsOf packages table) :
    cache.lookup? file = some records ↔ table[file.module]? = some records ∧
      ∃ written ∈ packages.flatMap (·.files), written.module = file.module ∧
        written.mtime = file.mtime := by
  rw [lookup?_eq_some_iff, hresults]
  simp only [getElem?_resultsOf_iff hdistinct]
  constructor
  · rintro ⟨_, ⟨written, hwritten, kept, hmodule, hrow, rfl⟩, hmtime, rfl⟩
    rw [ScanResult.records_ofRecords (htable _ _ hrow)]
    exact ⟨hrow, written, hwritten, hmodule, hmtime⟩
  · rintro ⟨hrow, written, hwritten, hmodule, hmtime⟩
    exact ⟨_, ⟨written, hwritten, records, hmodule, hrow, rfl⟩, hmtime,
      ScanResult.records_ofRecords (htable _ _ hrow)⟩

/-! ## Written and set up again -/

theorem setup_eq_ok_iff : setup t directory packages external exclude = .ok cache ↔
    ∃ results, stored t (Path.join directory
        (fileNameOf (key (packages.map (·.name)) external exclude))) = .ok results ∧
      cache = ⟨directory, fileNameOf (key (packages.map (·.name)) external exclude), results⟩ := by
  rw [setup, bind_eq_ok_iff]
  refine exists_congr fun results => and_congr_right fun _ => ⟨fun h => (Except.ok.inj h).symm, ?_⟩
  rintro rfl
  rfl

/-- Results that were kept can be read. -/
theorem stored_of_written {k : String} (hkey : cache.fileName = fileNameOf k) (hordered : Ordered t)
    (h : (cache.write packages table).on t = (t', .ok ())) :
    stored t' (Path.join cache.directory (fileNameOf k)) = .ok (resultsOf packages table) := by
  obtain ⟨place, entries, entries', -, hshelf, hfound, -⟩ := exists_shelves_of_write hkey hordered h
  rw [stored, hshelf.locate_found (plain_fileNameOf k) hfound]
  exact congrArg Except.ok (resultsIn_writtenFile _)

/-- **What is kept is recalled.**  Once results were written, a build of the same packages and options,
in whatever order it names the packages, recalls the records of a file exactly if the file's module was
written, and with the file's time; and the data files of other options are as they were, if the digests
of their keys do not collide with this one. -/
theorem recalled_of_written (hordered : Ordered t) (hdistinct : DistinctModules packages)
    (htable : NamesImporters table)
    (hsetup : setup earlier directory packages external exclude = .ok cache)
    (hwrite : (cache.write packages table).on t = (t', .ok ())) :
    (∀ packages' : List FoundPackage, packages'.Perm packages →
      ∃ again, setup t' directory packages' external exclude = .ok again ∧
        ∀ file records, again.lookup? file = some records ↔ table[file.module]? = some records ∧
          ∃ written ∈ packages.flatMap (·.files), written.module = file.module ∧
            written.mtime = file.mtime) ∧
    ∀ external' exclude', (external', exclude') ≠ (external, exclude) →
      ¬ Collide (key (packages.map (·.name)) external' exclude')
        (key (packages.map (·.name)) external exclude) →
      held? t' directory (fileNameOf (key (packages.map (·.name)) external' exclude')) =
        held? t directory (fileNameOf (key (packages.map (·.name)) external' exclude')) := by
  obtain ⟨results, -, rfl⟩ := setup_eq_ok_iff.1 hsetup
  refine ⟨fun packages' hperm => ?_, fun external' exclude' hne hcollide => ?_⟩
  · have hkey : key (packages'.map (·.name)) external exclude =
        key (packages.map (·.name)) external exclude := key_of_perm (hperm.map _)
    have hstored := stored_of_written rfl hordered hwrite
    rw [← hkey] at hstored
    exact ⟨_, setup_eq_ok_iff.2 ⟨_, hstored, rfl⟩, fun file records =>
      lookup?_resultsOf hdistinct htable rfl⟩
  · obtain ⟨-, -, hrest⟩ := held?_write rfl hordered hwrite
    refine hrest _ fun hsame => hcollide ⟨fun hkey => hne ?_, digest_eq_of_fileNameOf_eq hsame⟩
    obtain ⟨rfl, rfl⟩ := options_of_key_eq hkey
    rfl

end Recall

/-! ## Two packages -/

def blueFile : SourceFile := ⟨⟨"blue", by decide⟩, "./blue/__init__.py", 10⟩

def greenFile : SourceFile := ⟨⟨"green", by decide⟩, "./green/__init__.py", 20⟩

def bluePackage : FoundPackage := ⟨blueFile.module, "./blue", [blueFile]⟩

def greenPackage : FoundPackage := ⟨greenFile.module, "./green", [greenFile]⟩

/-- Nothing is known of where the second import is written. -/
def blueRecords : List ImportRecord :=
  [⟨blueFile.module, greenFile.module, some 3, some "from green import \"é\"\t"⟩,
    ⟨blueFile.module, greenFile.module, none, none⟩]

def blueTable : ImportTable := (∅ : ImportTable).insert blueFile.module blueRecords

/-- Where a build of the packages keeps its results if it includes what is external. -/
def externalFile : String := fileNameOf (key [blueFile.module, greenFile.module] true false)

/-- A cache directory that such a build has used. -/
def usedTree : FileTree := [("c", .directory [(externalFile, .file (writtenFile "theirs"))])]

def usedCache : Cache := ⟨"c", fileNameOf (key [blueFile.module, greenFile.module] false false), ∅⟩

theorem ordered_usedTree : Ordered usedTree := by decide

theorem namesImporters_blueTable : NamesImporters blueTable := by
  intro m records h
  rw [blueTable, Std.ExtTreeMap.getElem?_insert] at h
  split at h
  · next hm =>
    obtain rfl := Std.LawfulEqOrd.eq_of_compare hm
    obtain rfl := Option.some.inj h
    simp [blueRecords]
  · simp at h

-- The digests of keys are costly to compute, so what needs them is computed at one go.
theorem computed_usedTree :
    (match usedTree.locate (Path.join "c" usedCache.fileName) with
      | .vacant _ => true
      | _ => false) = true ∧
    ((usedCache.write [bluePackage, greenPackage] blueTable).on usedTree).2.toOption = some () ∧
    Digest.ofText (key [blueFile.module, greenFile.module] true false) ≠
      Digest.ofText (key [blueFile.module, greenFile.module] false false) ∧
    (match held? usedTree "c" externalFile with
      | some (.file f) => f.text? = some "theirs"
      | _ => false) = true := by
  decide +kernel

theorem setup_usedTree :
    setup usedTree "c" [bluePackage, greenPackage] false false = .ok usedCache := by
  refine setup_eq_ok_iff.2 ⟨∅, ?_, rfl⟩
  have hvacant := computed_usedTree.1
  change stored usedTree (Path.join "c" usedCache.fileName) = .ok ∅
  unfold stored
  split at hvacant
  · next hlocate => rw [hlocate]
  · cases hvacant

/-- Packages named the other way round find what was kept of them: the records of the file that has not
changed, nothing of one with another time, and nothing of a module that had no results. -/
theorem recalled_of_written_usedTree : ∃ t' again,
    Ordered usedTree ∧ DistinctModules [bluePackage, greenPackage] ∧ NamesImporters blueTable ∧
      setup usedTree "c" [bluePackage, greenPackage] false false = .ok usedCache ∧
      (usedCache.write [bluePackage, greenPackage] blueTable).on usedTree = (t', .ok ()) ∧
      setup t' "c" [greenPackage, bluePackage] false false = .ok again ∧
      again.lookup? blueFile = some blueRecords ∧ again.lookup? { blueFile with mtime := 11 } = none ∧
      again.lookup? greenFile = none ∧
      ∃ f, held? t' "c" externalFile = some (.file f) ∧ f.text? = some "theirs" := by
  obtain ⟨-, hwritten, hdigests, htheirs⟩ := computed_usedTree
  cases hwrite : (usedCache.write [bluePackage, greenPackage] blueTable).on usedTree with
  | mk t' answer =>
    rw [hwrite] at hwritten
    obtain rfl := eq_ok_of_toOption hwritten
    have hdistinct : DistinctModules [bluePackage, greenPackage] := by decide +kernel
    obtain ⟨hrecalled, hothers⟩ := recalled_of_written ordered_usedTree hdistinct
      namesImporters_blueTable setup_usedTree hwrite
    obtain ⟨again, hagain, hlookup⟩ := hrecalled _ (.swap bluePackage greenPackage [])
    have hblue : blueTable[blueFile.module]? = some blueRecords := Std.ExtTreeMap.getElem?_insert_self
    have hgreen : blueTable[greenFile.module]? = none := by
      rw [blueTable, Std.ExtTreeMap.getElem?_insert, if_neg (by decide +kernel)]
      simp
    have hheld : held? t' "c" externalFile = held? usedTree "c" externalFile :=
      hothers true false (by simp) fun h => hdigests h.2
    refine ⟨t', again, ordered_usedTree, hdistinct, namesImporters_blueTable, setup_usedTree, rfl, hagain,
      ?_, ?_, ?_, ?_⟩
    · exact (hlookup _ _).2 ⟨hblue, blueFile, by simp [bluePackage], rfl, rfl⟩
    · refine Option.eq_none_iff_forall_ne_some.2 fun records h => ?_
      obtain ⟨-, written, hwritten, hmodule, hmtime⟩ := (hlookup _ _).1 h
      revert hmodule hmtime
      revert written
      decide +kernel
    · refine Option.eq_none_iff_forall_ne_some.2 fun records h => ?_
      rw [((hlookup _ _).1 h).1] at hgreen
      cases hgreen
    · rw [hheld]
      split at htheirs
      · next f hf => exact ⟨f, hf, by simpa using htheirs⟩
      · cases htheirs

end Cache
end ImportAtlas
