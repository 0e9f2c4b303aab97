import ImportAtlas.Proofs.BuildCourse
/-!
# Scanning in chunks

Files are dealt out in chunks that follow each other and are never empty (`flatten_chunks`,
`nil_notMem_chunks`).  Their size is rounded up, so there may be fewer of them than was decided, but
there are never more (`length_chunks_le`).

The chunks are scanned side by side, and the collector that brings their results together may answer
any of several refusals.  Nothing else depends on it: **with a collector that can be relied on, a scan
goes through exactly if the scan of every single file does, and its table is that of one pass over
the list** (`scanFilesBy_cases`).  A refused scan ends the build before anything on disk has changed.
-/
namespace ImportAtlas
namespace Build

/-! ## Dealing out -/

section Dealing

variable {α : Type}

theorem nil_notMem_chunksOf (size : Nat) (items : List α) : [] ∉ chunksOf size items := by
  induction items using chunksOf.induct size with
  | case1 => simp [chunksOf]
  | case2 a as ih =>
    rw [chunksOf, List.mem_cons, not_or]
    exact ⟨(List.cons_ne_nil _ _).symm, ih⟩

/-- Every chunk but the last is full. -/
theorem length_chunksOf_mul_lt (size : Nat) (hsize : 0 < size) (items : List α) :
    (chunksOf size items).length * size < items.length + size := by
  induction items using chunksOf.induct size with
  | case1 =>
    rw [chunksOf, List.length_nil, List.length_nil]
    omega
  | case2 a as ih =>
    rw [List.length_drop] at ih
    rw [chunksOf, List.length_cons, List.length_cons, Nat.succ_mul]
    by_cases hlast : size - 1 ≤ as.length
    · omega
    · have hnone : as.drop (size - 1) = [] := List.drop_eq_nil_of_le (by omega)
      rw [hnone, chunksOf, List.length_nil]
      omega

theorem nil_notMem_chunks (count : Nat) (items : List α) : [] ∉ chunks count items := by
  unfold chunks
  split
  · split
    · exact List.not_mem_nil
    · next hitems => exact fun h => hitems (List.mem_singleton.1 h).symm
  · exact nil_notMem_chunksOf _ _

theorem length_chunks_le {count : Nat} (hcount : 0 < count) (items : List α) :
    (chunks count items).length ≤ count := by
  unfold chunks
  split
  · split
    · exact Nat.zero_le _
    · exact hcount
  · cases items with
    | nil =>
      rw [chunksOf]
      exact Nat.zero_le _
    | cons a as =>
      -- the size of a chunk, rounded up
      generalize hsize : ((a :: as).length + count - 1) / count = size
      have hdivides := Nat.div_add_mod ((a :: as).length + count - 1) count
      have hremains := Nat.mod_lt ((a :: as).length + count - 1) hcount
      rw [hsize] at hdivides
      have hlength : 0 < (a :: as).length := List.length_pos_of_mem List.mem_cons_self
      have hpos : 0 < size := by
        rw [← hsize]
        exact Nat.div_pos (by omega) hcount
      have hfull := length_chunksOf_mul_lt size hpos (a :: as)
      have hbound : (chunksOf size (a :: as)).length * size < (count + 1) * size := by
        rw [Nat.succ_mul]
        omega
      exact Nat.lt_succ_iff.1 (Nat.lt_of_mul_lt_mul_right hbound)

theorem chunkCount_pos (files threshold workers : Nat) : 0 < chunkCount files threshold workers := by
  unfold chunkCount
  split <;> omega

end Dealing

/-! ## Collecting -/

/-- The collector keeps tables in the order of their chunks, and where chunks are refused it answers
the refusal of one of them. -/
structure Collector.Reliable (collect : Collector) : Prop where
  tables (tables : List ImportTable) : collect (tables.map .ok) = .ok tables
  refusal (results : List (Except Error ImportTable)) (e : Error) (h : .error e ∈ results) :
    ∃ e', .error e' ∈ results ∧ collect results = .error e'

theorem reliable_inOrder : inOrder.Reliable where
  tables tables := by
    rw [inOrder_map]
    exact (mapM_eq_ok_map fun _ _ => rfl).trans (congrArg Except.ok (List.map_id tables))
  refusal results e h := by
    cases hall : inOrder results with
    | error e' =>
      obtain ⟨result, hresult, rfl⟩ := exists_error_of_mapM hall
      exact ⟨e', hresult, rfl⟩
    | ok tables =>
      obtain ⟨table, htable⟩ := exists_of_mapM_eq_ok hall _ h
      cases htable

/-! ## Scanning -/

section Scanning

variable {collect : Collector} {t : FileTree} {scanner : Scanner} {context : ScanContext}
  {files : List SourceFile} {table : ImportTable} {e : Error}

theorem exists_error_of_scanChunk (h : scanChunk t scanner context files = .error e) :
    ∃ file ∈ files, scanFile t scanner context file = .error e := by
  unfold scanChunk at h
  cases hfiles : files.mapM (scanFile t scanner context) with
  | error e' =>
    rw [hfiles] at h
    obtain rfl : e' = e := Except.error.inj h
    exact exists_error_of_mapM hfiles
  | ok rows =>
    rw [hfiles] at h
    cases h

theorem scanFilesBy_of_mapM {count : Nat} {tables : List ImportTable} (hcollect : collect.Reliable)
    (h : (chunks count files).mapM (scanChunk t scanner context) = .ok tables) :
    scanFilesBy collect t scanner context count files = scanChunk t scanner context files := by
  have hserial : scanFiles t scanner context count files = scanChunk t scanner context files :=
    scanFiles_eq count
  rw [← hserial, scanFiles, scanFilesBy, scanFilesBy, inOrder_map, h, mapM_eq_ok_iff.1 h,
    hcollect.tables]

/-- **A scan goes through as one pass over the files does, with the same table; where that is refused,
the refusal of some file is answered.** -/
theorem scanFilesBy_cases (hcollect : collect.Reliable) (t : FileTree) (scanner : Scanner)
    (context : ScanContext) (count : Nat) (files : List SourceFile) :
    (∃ table, scanChunk t scanner context files = .ok table ∧
        scanFilesBy collect t scanner context count files = .ok table) ∨
      (∃ e, scanFilesBy collect t scanner context count files = .error e ∧
        ∃ file ∈ files, scanFile t scanner context file = .error e) := by
  cases hchunks : (chunks count files).mapM (scanChunk t scanner context) with
  | ok tables =>
    have hsame := scanFilesBy_of_mapM hcollect hchunks
    cases hserial : scanChunk t scanner context files with
    | ok table => exact .inl ⟨table, rfl, hsame.trans hserial⟩
    | error e => exact .inr ⟨e, hsame.trans hserial, exists_error_of_scanChunk hserial⟩
  | error e =>
    obtain ⟨chunk, hchunk, he⟩ := exists_error_of_mapM hchunks
    obtain ⟨e', hrefused, hcollected⟩ := hcollect.refusal _ e (List.mem_map.2 ⟨chunk, hchunk, he⟩)
    obtain ⟨chunk', hchunk', he'⟩ := List.mem_map.1 hrefused
    obtain ⟨file, hfile, hscan⟩ := exists_error_of_scanChunk he'
    refine .inr ⟨e', by rw [scanFilesBy, hcollected]; rfl, file, ?_, hscan⟩
    rw [← flatten_chunks count files]
    exact List.mem_flatten_of_mem hchunk' hfile

theorem scanFilesBy_ok_iff (hcollect : collect.Reliable) (count : Nat) :
    (∃ table, scanFilesBy collect t scanner context count files = .ok table) ↔
      ∀ file ∈ files, ∃ row, scanFile t scanner context file = .ok row := by
  rcases scanFilesBy_cases hcollect t scanner context count files with
    ⟨table, hserial, hscan⟩ | ⟨e, hscan, file, hfile, he⟩
  · exact ⟨fun _ => (scanChunk_eq_ok_iff.1 hserial).1, fun _ => ⟨table, hscan⟩⟩
  · constructor
    · rintro ⟨table, htable⟩
      rw [hscan] at htable
      cases htable
    · intro hall
      obtain ⟨row, hrow⟩ := hall file hfile
      rw [he] at hrow
      cases hrow

/-- A scan that is refused ends the build and leaves the tree as it is. -/
theorem onBy_of_refused_scan {q : Request} {packages : List FoundPackage} {cache : Option Cache}
    (hfound : q.found t = .ok packages) (hsetup : q.setup t packages = .ok cache)
    (hscan : q.scanBy scanner t collect packages cache = .error e) :
    q.onBy scanner t collect = (t, .error e) := by
  rw [onBy_eq scanner hfound hsetup, hscan, Step.on_bind_error (Step.on_ofExcept _ t)]

/-- **Scanning in chunks is scanning in one pass.**  The chunks are the list of files cut into at most
as many pieces as was decided; the scan goes through if and only if that of every file does, with the
table of a single pass; and if it is refused, a build answers the refusal of one of its files and
leaves everything on disk as it was. -/
theorem scan_in_chunks (hcollect : collect.Reliable) (t : FileTree) (scanner : Scanner)
    (context : ScanContext) (threshold workers : Nat) (files : List SourceFile) :
    let count := chunkCount files.length threshold workers
    ((chunks count files).flatten = files ∧ [] ∉ chunks count files ∧
        (chunks count files).length ≤ count) ∧
      ((∃ table, scanFilesBy collect t scanner context count files = .ok table) ↔
        ∀ file ∈ files, ∃ row, scanFile t scanner context file = .ok row) ∧
      (∀ table, scanFilesBy collect t scanner context count files = .ok table →
        scanChunk t scanner context files = .ok table) ∧
      ∀ (q : Request) (packages : List FoundPackage) (cache : Option Cache),
        q.found t = .ok packages → q.setup t packages = .ok cache →
        (∃ file ∈ unknown cache (packages.flatMap (·.files)),
          ∀ row, scanFile t scanner (q.context packages) file ≠ .ok row) →
        ∃ e, q.onBy scanner t collect = (t, .error e) ∧
          ∃ file ∈ unknown cache (packages.flatMap (·.files)),
            scanFile t scanner (q.context packages) file = .error e := by
  intro count
  refine ⟨⟨flatten_chunks _ _, nil_notMem_chunks _ _, length_chunks_le (chunkCount_pos _ _ _) _⟩,
    scanFilesBy_ok_iff hcollect count, fun table htable => ?_, ?_⟩
  · rcases scanFilesBy_cases hcollect t scanner context count files with
      ⟨table', hserial, hscan⟩ | ⟨e, hscan, -⟩
    · rw [hserial, ← hscan, htable]
    · rw [hscan] at htable
      cases htable
  · rintro q packages cache hfound hsetup ⟨file, hfile, hrefused⟩
    rcases scanFilesBy_cases hcollect t scanner (q.context packages)
      (chunkCount (unknown cache (packages.flatMap (·.files))).length q.threshold q.workers)
      (unknown cache (packages.flatMap (·.files))) with ⟨table, hserial, -⟩ | ⟨e, hscan, hfrom⟩
    · obtain ⟨row, hrow⟩ := (scanChunk_eq_ok_iff.1 hserial).1 file hfile
      exact (hrefused row hrow).elim
    · exact ⟨e, onBy_of_refused_scan hfound hsetup hscan, hfrom⟩

/-- The last refusal counts. -/
def lastRefusal : Collector := fun results => (inOrder results.reverse).map List.reverse

theorem reliable_lastRefusal : lastRefusal.Reliable where
  tables tables := by
    rw [lastRefusal, ← List.map_reverse, reliable_inOrder.tables]
    exact congrArg Except.ok (List.reverse_reverse tables)
  refusal results e h := by
    obtain ⟨e', he', hrefused⟩ := reliable_inOrder.refusal _ e (List.mem_reverse.2 h)
    refine ⟨e', List.mem_reverse.1 he', ?_⟩
    rw [lastRefusal, hrefused]
    rfl

/-- Four files, the second and the third of one module. -/
def fourFiles : List SourceFile :=
  let package : ModuleName := ⟨"app", by decide⟩
  let module : ModuleName := ⟨"app.a", by decide⟩
  [⟨package, "p", 1⟩, ⟨module, "a", 1⟩, ⟨module, "b", 1⟩, ⟨⟨"app.c", by decide⟩, "c", 1⟩]

def fourPackages : List FoundPackage := [⟨⟨"app", by decide⟩, ".", fourFiles⟩]

def fourTree : FileTree :=
  ["a", "b", "c", "p"].map fun name => (name, .file (.ofText "" 1))

/-- Refuses the files `a` and `c`. -/
def pickyScanner : Scanner := fun _ file _ =>
  if file.path = "a" ∨ file.path = "c" then .error (.scanner file.path) else .ok []

def fourBuild : Request where
  find := fun _ _ => .ok ⟨⟨"app", by decide⟩, ".", fourFiles⟩
  options := { cache := .directory "kept" }
  threshold := 2
  workers := 3
  names := ["app"]

theorem computed_fourTree :
    (fourBuild.found fourTree).toOption = some fourPackages ∧
      (Cache.stored fourTree (Path.join "kept" (Cache.fileNameOf
        (fourBuild.key fourPackages)))).toOption.map (·.isEmpty) = some true := by
  decide +kernel

theorem found_fourTree : fourBuild.found fourTree = .ok fourPackages :=
  eq_ok_of_toOption computed_fourTree.1

theorem exists_setup_fourTree : ∃ cache, fourBuild.setup fourTree fourPackages = .ok (some cache) ∧
    cache.results = ∅ := by
  obtain ⟨-, hempty⟩ := computed_fourTree
  obtain ⟨results, hresults, hnone⟩ := Option.map_eq_some_iff.1 hempty
  refine ⟨⟨"kept", Cache.fileNameOf (fourBuild.key fourPackages), results⟩, ?_,
    Std.ExtTreeMap.isEmpty_iff.1 hnone⟩
  rw [setup_of_directory (d := "kept") rfl, eq_ok_of_toOption hresults]
  rfl

/-- Three chunks are decided on and two are made.  A file of each is refused, and the build answers
one of the two refusals. -/
theorem scan_in_chunks_four : ∃ cache,
    lastRefusal.Reliable ∧ fourBuild.found fourTree = .ok fourPackages ∧
      fourBuild.setup fourTree fourPackages = .ok (some cache) ∧
      chunkCount fourFiles.length 2 3 = 3 ∧ (chunks 3 fourFiles).length = 2 ∧
      (¬ ∃ table, scanFilesBy lastRefusal fourTree pickyScanner (fourBuild.context fourPackages) 3
        fourFiles = .ok table) ∧
      ∃ e, fourBuild.onBy pickyScanner fourTree lastRefusal = (fourTree, .error e) ∧
        ∃ file ∈ fourFiles, scanFile fourTree pickyScanner (fourBuild.context fourPackages) file =
          .error e := by
  obtain ⟨cache, hsetup, hresults⟩ := exists_setup_fourTree
  have hunknown : unknown (some cache) (fourPackages.flatMap (·.files)) = fourFiles := by
    refine List.filter_eq_self.2 fun file _ => ?_
    simp [Cache.lookup?, hresults]
  have hrefused : ∃ file ∈ fourFiles,
      (scanFile fourTree pickyScanner (fourBuild.context fourPackages) file).toOption = none := by
    decide +kernel
  obtain ⟨file, hfile, hnone⟩ := hrefused
  have hnever : ∀ row, scanFile fourTree pickyScanner (fourBuild.context fourPackages) file ≠ .ok row :=
    fun row hrow => by
      rw [hrow] at hnone
      cases hnone
  obtain ⟨-, hscan, -, hbuild⟩ := scan_in_chunks reliable_lastRefusal fourTree pickyScanner
    (fourBuild.context fourPackages) 2 3 fourFiles
  have hbuilt := hbuild fourBuild fourPackages (some cache) found_fourTree hsetup
  rw [hunknown] at hbuilt
  refine ⟨cache, reliable_lastRefusal, found_fourTree, hsetup, rfl, by decide +kernel,
    fun h => ?_, hbuilt ⟨file, hfile, hnever⟩⟩
  obtain ⟨row, hrow⟩ := hscan.1 h file hfile
  exact hnever row hrow

end Scanning
end Build
end ImportAtlas
