import ImportAtlas.Cache.Store
import ImportAtlas.Proofs.CacheDocument
import ImportAtlas.Proofs.Directory
/-!
# What a cache directory holds

A build that keeps its results puts them under the name of its key and touches no other data file,
though it may have to make the directory first (`held?_write`).  What a later build finds stored is
read off the entry of that name (`stored_eq_ok`).
-/
namespace ImportAtlas
namespace Cache

open FileTree (Shelf Replaced Ordered)
open ImportAtlas.Path (Plain)

variable {t t' entries : FileTree} {directory name : String} {place : List String}

/-! ## Names in the directory -/

theorem digit_ne_slash : ∀ n < 16, Text.digit n ≠ '/' := by decide

theorem slash_notMem_hex (w : UInt64) : '/' ∉ (Digest.hex w).toList := by
  rw [Digest.hex, String.toList_ofList]
  intro h
  obtain ⟨i, -, hi⟩ := List.mem_map.1 h
  exact digit_ne_slash _ (Nat.mod_lt _ (by decide)) hi

theorem length_fileNameOf (key : String) : (fileNameOf key).toList.length = 26 := by
  simp [fileNameOf, Digest.ofText, Digest.hex, String.toList_append]

theorem plain_of_length {name : String} (hlength : 2 < name.toList.length) (hslash : '/' ∉ name.toList) :
    Plain name where
  ne_empty := by rintro rfl; simp at hlength
  slash_notMem := hslash
  ne_dot := by rintro rfl; simp at hlength
  ne_up := by rintro rfl; simp at hlength

theorem plain_fileNameOf (key : String) : Plain (fileNameOf key) := by
  refine plain_of_length (by rw [length_fileNameOf]; decide) ?_
  rw [fileNameOf, Digest.ofText, String.toList_append, List.mem_append]
  exact fun h => h.elim (slash_notMem_hex _) (by decide)

theorem plain_temporary (key : String) : Plain (fileNameOf key ++ temporaryEnding) := by
  refine plain_of_length ?_ ?_
  · rw [String.toList_append, List.length_append, length_fileNameOf]
    omega
  · rw [String.toList_append, List.mem_append]
    exact fun h => h.elim (plain_fileNameOf key).slash_notMem (by decide)

theorem fileNameOf_ne_temporary (key other : String) :
    fileNameOf key ≠ fileNameOf other ++ temporaryEnding := by
  intro h
  have hlength := congrArg (·.toList.length) h
  simp only [String.toList_append, List.length_append, length_fileNameOf] at hlength
  revert hlength
  decide

theorem plain_of_mem_markers : ∀ marker ∈ markers, Plain marker.1 := by
  intro marker h
  simp only [markers, List.mem_cons, List.not_mem_nil, or_false] at h
  rcases h with rfl | rfl
  · exact plain_of_length (by decide) (by decide)
  · exact plain_of_length (by decide) (by decide)

theorem ne_marker_of_length {name : String} (hlength : 26 ≤ name.toList.length) :
    ∀ marker ∈ markers, name ≠ marker.1 := by
  rintro marker h rfl
  simp only [markers, List.mem_cons, List.not_mem_nil, or_false] at h
  rcases h with rfl | rfl
  · revert hlength; decide
  · revert hlength; decide

theorem fileNameOf_ne_marker (key : String) : ∀ marker ∈ markers, fileNameOf key ≠ marker.1 :=
  ne_marker_of_length (Nat.le_of_eq (length_fileNameOf key).symm)

theorem temporary_ne_marker (key : String) :
    ∀ marker ∈ markers, fileNameOf key ++ temporaryEnding ≠ marker.1 := by
  refine ne_marker_of_length ?_
  rw [String.toList_append, List.length_append, length_fileNameOf]
  omega

/-! ## Entries of the directory -/

/-- What stands under a name in a cache directory, once the directory is there. -/
def held? (t : FileTree) (directory name : String) : Option Entry :=
  ((Disk.makeDirectories directory).on t).1.entryAt? (Path.join directory name)

theorem held?_of_shelf (h : Shelf t directory place entries) (hname : Plain name) :
    held? t directory name = entries.lookup name := by
  rw [held?, Disk.makeDirectories_shelf h, h.entryAt? hname]

/-- The results in a file: none, if it is damaged. -/
def resultsIn (f : File) : ScanResults := (f.text?.bind ScanResults.ofText?).getD ∅

theorem resultsIn_writtenFile (results : ScanResults) :
    resultsIn (writtenFile (ScanResults.toText results)) = results := by
  rw [resultsIn, writtenFile, File.text?_ofText, Option.bind_some, ScanResults.ofText?_toText,
    Option.getD_some]

theorem stored_eq_ok (hordered : Ordered t) (hname : Plain name) {results : ScanResults}
    (h : stored t (Path.join directory name) = .ok results) :
    results = ∅ ∨ ∃ f, held? t directory name = some (.file f) ∧ results = resultsIn f := by
  unfold stored at h
  split at h
  · next f hlocate =>
    obtain ⟨place, entries, hshelf, hlookup⟩ := FileTree.exists_shelf_of_locate hordered hname hlocate
    refine .inr ⟨f, ?_, (Except.ok.inj h).symm⟩
    rw [held?_of_shelf hshelf hname, hlookup]
  · exact .inl (Except.ok.inj h).symm
  · exact .inl (Except.ok.inj h).symm
  · cases h
  · cases h

/-! ## Writing -/

/-- The result is that of a file of the packages, with the file's time. -/
def IsResult (packages : List FoundPackage) (table : ImportTable) (m : ModuleName)
    (result : ScanResult) : Prop :=
  ∃ file ∈ packages.flatMap (·.files), ∃ records, file.module = m ∧
    table[m]? = some records ∧ result = .ofRecords file.mtime records

theorem isResult_of_getElem?_resultsOf {packages : List FoundPackage} {table : ImportTable}
    {m : ModuleName} : ∀ {result : ScanResult}, (resultsOf packages table)[m]? = some result →
      IsResult packages table m result := by
  unfold resultsOf
  refine List.foldlRecOn (motive := fun results : ScanResults => ∀ {result : ScanResult},
    results[m]? = some result → IsResult packages table m result) _ _ ?_ ?_
  · intro result h
    simp at h
  · intro results ih file hfile result h
    split at h
    · next records htable =>
      rw [Std.ExtTreeMap.getElem?_insert] at h
      split at h
      · next heq =>
        obtain rfl := Std.LawfulEqOrd.eq_of_compare heq
        exact ⟨file, hfile, records, rfl, htable, (Option.some.inj h).symm⟩
      · exact ih h
    · exact ih h

theorem shelf_mark {marker : String × String} (hmarker : Plain marker.1)
    (hshelf : Shelf t directory place entries) (h : (mark directory marker).on t = (t', .ok ())) :
    ∃ entries', Shelf t' directory place entries' ∧
      ∀ n, n ≠ marker.1 → entries'.lookup n = entries.lookup n := by
  simp only [mark] at h
  rw [Step.on_get_bind] at h
  split at h
  · obtain ⟨entries', hwritten, -, hsame⟩ := Disk.shelf_write hshelf hmarker h
    exact ⟨entries', hwritten, hsame⟩
  · obtain ⟨rfl, -⟩ := Prod.mk.inj h
    exact ⟨entries, hshelf, fun _ _ => rfl⟩

theorem shelf_marks : ∀ {marks : List (String × String)} {t t' entries : FileTree},
    (∀ marker ∈ marks, Plain marker.1) → Shelf t directory place entries →
      (marks.forM (mark directory)).on t = (t', .ok ()) →
        ∃ entries', Shelf t' directory place entries' ∧
          ∀ n, (∀ marker ∈ marks, n ≠ marker.1) → entries'.lookup n = entries.lookup n
  | [], _, _, entries, _, hshelf, h => by
    obtain ⟨rfl, -⟩ := Prod.mk.inj h
    exact ⟨entries, hshelf, fun _ _ => rfl⟩
  | marker :: marks, t, t', entries, hmarks, hshelf, h => by
    have h : (mark directory marker >>= fun _ => marks.forM (mark directory)).on t = (t', .ok ()) := h
    obtain ⟨u, _, hmark, hrest⟩ := Step.exists_on_of_bind h
    obtain ⟨between, hbetween, hfirst⟩ := shelf_mark (hmarks marker (by simp)) hshelf hmark
    obtain ⟨entries', hshelf', hmore⟩ :=
      shelf_marks (fun m hm => hmarks m (List.mem_cons_of_mem _ hm)) hbetween hrest
    refine ⟨entries', hshelf', fun n hn => ?_⟩
    rw [hmore n fun m hm => hn m (List.mem_cons_of_mem _ hm), hfirst n (hn marker (by simp))]

theorem shelf_replace {key text : String} (hshelf : Shelf t directory place entries)
    (h : (replace (Path.join directory (fileNameOf key)) text).on t = (t', .ok ())) :
    ∃ entries', Shelf t' directory place entries' ∧
      entries'.lookup (fileNameOf key) = some (.file (writtenFile text)) ∧
      ∀ other, fileNameOf other ≠ fileNameOf key →
        entries'.lookup (fileNameOf other) = entries.lookup (fileNameOf other) := by
  have hname := plain_fileNameOf key
  have htemporary := plain_temporary key
  simp only [replace, Path.join_append hname temporaryEnding htemporary] at h
  obtain ⟨u, _, hwrite, hmove⟩ := Step.exists_on_of_bind h
  obtain ⟨between, hbetween, hwritten, hsame⟩ := Disk.shelf_write hshelf htemporary hwrite
  have hmoved : (Disk.move (Path.join directory (fileNameOf key ++ temporaryEnding))
      (Path.join directory (fileNameOf key))).on u = (t', .ok ()) := by
    refine Step.on_of_tryCatch hmove fun e v hhandler => ?_
    obtain ⟨_, _, -, hthrow⟩ := Step.exists_on_of_bind hhandler
    cases hthrow
  obtain ⟨gone, entries', hshelf', ⟨-, hgone⟩, hfound, hrest⟩ :=
    Disk.shelf_move hbetween htemporary hname (fileNameOf_ne_temporary key key) hwritten hmoved
  refine ⟨entries', hshelf', hfound, fun other hother => ?_⟩
  rw [hrest _ hother, hgone _ (fileNameOf_ne_temporary other key),
    hsame _ (fileNameOf_ne_temporary other key)]

/-- The cache directory before and after results are kept in it. -/
theorem exists_shelves_of_write {cache : Cache} {key : String} {packages : List FoundPackage}
    {table : ImportTable} (hkey : cache.fileName = fileNameOf key) (hordered : Ordered t)
    (h : (cache.write packages table).on t = (t', .ok ())) :
    ∃ place entries entries', Shelf ((Disk.makeDirectories cache.directory).on t).1 cache.directory
        place entries ∧ Shelf t' cache.directory place entries' ∧
      entries'.lookup (fileNameOf key) =
        some (.file (writtenFile (ScanResults.toText (resultsOf packages table)))) ∧
      ∀ other, fileNameOf other ≠ fileNameOf key →
        entries'.lookup (fileNameOf other) = entries.lookup (fileNameOf other) := by
  rw [write, hkey] at h
  obtain ⟨made, _, hmake, h⟩ := Step.exists_on_of_bind h
  obtain ⟨marked, _, hmark, hreplace⟩ := Step.exists_on_of_bind h
  obtain ⟨place, entries, hshelf⟩ := Disk.exists_shelf_of_makeDirectories hordered hmake
  obtain ⟨between, hbetween, hmarks⟩ := shelf_marks plain_of_mem_markers hshelf hmark
  obtain ⟨entries', hshelf', hfound, hrest⟩ := shelf_replace hbetween hreplace
  refine ⟨place, entries, entries', by rwa [hmake], hshelf', hfound, fun other hother => ?_⟩
  rw [hrest other hother, hmarks _ (fileNameOf_ne_marker other)]

/-- **Results that are kept stand under the name of their key, and nothing else changes.** -/
theorem held?_write {cache : Cache} {key : String} {packages : List FoundPackage}
    {table : ImportTable} (hkey : cache.fileName = fileNameOf key) (hordered : Ordered t)
    (h : (cache.write packages table).on t = (t', .ok ())) :
    Ordered t' ∧ held? t' cache.directory (fileNameOf key) =
        some (.file (writtenFile (ScanResults.toText (resultsOf packages table)))) ∧
      ∀ other, fileNameOf other ≠ fileNameOf key →
        held? t' cache.directory (fileNameOf other) = held? t cache.directory (fileNameOf other) := by
  obtain ⟨place, entries, entries', hbefore, hafter, hfound, hrest⟩ :=
    exists_shelves_of_write hkey hordered h
  refine ⟨hafter.ordered, ?_, fun other hother => ?_⟩
  · rw [held?_of_shelf hafter (plain_fileNameOf key), hfound]
  · rw [held?_of_shelf hafter (plain_fileNameOf other), hrest other hother, held?,
      hbefore.entryAt? (plain_fileNameOf other)]

/-! ## Where writing goes through -/

theorem exists_mark (marker : String × String) (hmarker : Plain marker.1)
    (hshelf : Shelf t directory place entries) :
    ∃ t', (mark directory marker).on t = (t', .ok ()) := by
  simp only [mark]
  rw [Step.on_get_bind, hshelf.entryAt? hmarker]
  split
  · next hnone =>
    exact ⟨_, Disk.write_on_shelf _ hshelf hmarker fun inner h => by simp [h] at hnone⟩
  · exact ⟨t, rfl⟩

theorem exists_marks : ∀ {marks : List (String × String)} {t entries : FileTree},
    (∀ marker ∈ marks, Plain marker.1) → Shelf t directory place entries →
      ∃ t', (marks.forM (mark directory)).on t = (t', .ok ())
  | [], t, _, _, _ => ⟨t, rfl⟩
  | marker :: marks, t, entries, hmarks, hshelf => by
    obtain ⟨u, hmark⟩ := exists_mark marker (hmarks marker (by simp)) hshelf
    obtain ⟨between, hbetween, -⟩ := shelf_mark (hmarks marker (by simp)) hshelf hmark
    obtain ⟨t', hrest⟩ := exists_marks (fun m hm => hmarks m (List.mem_cons_of_mem _ hm)) hbetween
    exact ⟨t', (Step.on_bind_ok hmark).trans hrest⟩

theorem exists_replace (key text : String) (hshelf : Shelf t directory place entries)
    (hdata : ∀ inner, entries.lookup (fileNameOf key) ≠ some (.directory inner))
    (htemporary : ∀ inner, entries.lookup (fileNameOf key ++ temporaryEnding) ≠ some (.directory inner)) :
    ∃ t', (replace (Path.join directory (fileNameOf key)) text).on t = (t', .ok ()) := by
  have hname := plain_fileNameOf key
  have hplain := plain_temporary key
  have hne := fileNameOf_ne_temporary key key
  have hwrite := Disk.write_on_shelf (writtenFile text) hshelf hplain htemporary
  obtain ⟨between, hbetween, hwritten, hsame⟩ := Disk.shelf_write hshelf hplain hwrite
  have hmove := Disk.move_on_shelf hbetween hplain hname hwritten (by rw [hsame _ hne]; exact hdata)
  simp only [replace, Path.join_append hname temporaryEnding hplain]
  exact ⟨_, (Step.on_bind_ok hwrite).trans (Step.on_tryCatch_ok hmove)⟩

/-- **Results can be kept where the directory can be made and none stands in the way of a file.** -/
theorem write_goes_through {cache : Cache} {key : String} (packages : List FoundPackage)
    (table : ImportTable) (hkey : cache.fileName = fileNameOf key)
    (hmake : (Disk.makeDirectories cache.directory).on t = (t', .ok ()))
    (hshelf : Shelf t' cache.directory place entries)
    (hdata : ∀ inner, entries.lookup (fileNameOf key) ≠ some (.directory inner))
    (htemporary : ∀ inner, entries.lookup (fileNameOf key ++ temporaryEnding) ≠ some (.directory inner)) :
    ((cache.write packages table).on t).2 = .ok () := by
  obtain ⟨marked, hmark⟩ := exists_marks plain_of_mem_markers hshelf
  obtain ⟨between, hbetween, hsame⟩ := shelf_marks plain_of_mem_markers hshelf hmark
  obtain ⟨final, hreplace⟩ := exists_replace key (ScanResults.toText (resultsOf packages table)) hbetween
    (by rw [hsame _ (fileNameOf_ne_marker key)]; exact hdata)
    (by rw [hsame _ (temporary_ne_marker key)]; exact htemporary)
  rw [write, hkey, Step.on_bind_ok hmake, Step.on_bind_ok hmark, hreplace]

end Cache
end ImportAtlas
