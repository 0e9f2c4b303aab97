import ImportAtlas.Proofs.Directory
import ImportAtlas.Proofs.Scanning
/-!
# The course of a build

A `Request` is all that a build is asked for.  Once its packages are found and its cache is set up, a
build takes one of four courses (`Course`): a file or the graph is refused, or the graph is made, and
then the results are kept unless all of them were recalled.  Nothing on disk changes before that, so
what comes out depends on the table alone (`answer_eq`).
-/
namespace ImportAtlas
namespace Build

/-- What a build is asked for. -/
structure Request where
  find : PackageFinder
  options : BuildOptions
  threshold : Nat
  workers : Nat
  names : List String

namespace Request

variable (q : Request) (scanner : Scanner) (t : FileTree)

/-- The tree after the build and what the build did, with results collected in some way. -/
def onBy (collect : Collector) : FileTree × Except Error Outcome :=
  (runBy collect q.find scanner q.options q.threshold q.workers q.names).on t

/-- The tree after the build and what the build did. -/
def on : FileTree × Except Error Outcome :=
  (run q.find scanner q.options q.threshold q.workers q.names).on t

def answer : Except Error Graph := (q.on scanner t).2.map (·.graph)

/-- The same build with caching disabled. -/
def uncached : Request := { q with options := { q.options with cache := .disabled } }

def Caches : Prop := q.options.cache.directory? ≠ none

def found : Except Error (List FoundPackage) := do
  let names ← packageNames q.names
  names.mapM (q.find t)

def key (packages : List FoundPackage) : String :=
  Cache.key (packages.map (·.name)) q.options.includeExternal q.options.excludeTypeChecking

def context (packages : List FoundPackage) : ScanContext :=
  .ofPackages packages q.options.includeExternal q.options.excludeTypeChecking

def setup (packages : List FoundPackage) : Except Error (Option Cache) :=
  q.options.cache.directory?.mapM fun directory =>
    Cache.setup t directory packages q.options.includeExternal q.options.excludeTypeChecking

/-- The imports of the files that are left to scan. -/
def scanBy (collect : Collector) (packages : List FoundPackage) (cache : Option Cache) :
    Except Error ImportTable :=
  let rest := unknown cache (packages.flatMap (·.files))
  scanFilesBy collect t scanner (q.context packages) (chunkCount rest.length q.threshold q.workers) rest

/-- The imports of the files, recalled and scanned. -/
def table (packages : List FoundPackage) (cache : Option Cache) : Except Error ImportTable :=
  (q.scanBy scanner t inOrder packages cache).map fun scanned =>
    insertAll (recalled cache (packages.flatMap (·.files))) scanned.toList

end Request

/-- The graph of packages and their imports, if everything in it is accepted. -/
def graphOf (packages : List FoundPackage) (modules : NameSet) (table : ImportTable) :
    Except Error Graph :=
  let assembled := (assemble packages modules table).on .empty
  assembled.2.map fun _ => assembled.1

section Course

variable {q : Request} {scanner : Scanner} {t : FileTree} {packages : List FoundPackage}
  {cache : Option Cache}

/-- The courses that a build can take once its packages are found and its cache is set up. -/
inductive Course (q : Request) (scanner : Scanner) (t : FileTree) (packages : List FoundPackage)
    (cache : Option Cache) : FileTree × Except Error Outcome → Prop where
  | refusedScan {e : Error} (htable : q.table scanner t packages cache = .error e) :
    Course q scanner t packages cache (t, .error e)
  | refusedGraph {table : ImportTable} {e : Error}
    (htable : q.table scanner t packages cache = .ok table)
    (hgraph : graphOf packages (q.context packages).modules table = .error e) :
    Course q scanner t packages cache (t, .error e)
  | recalled {table : ImportTable} {graph : Graph} (scanned : NameSet)
    (hrest : unknown cache (packages.flatMap (·.files)) = [])
    (htable : q.table scanner t packages cache = .ok table)
    (hgraph : graphOf packages (q.context packages).modules table = .ok graph) :
    Course q scanner t packages cache (t, .ok ⟨graph, scanned⟩)
  | kept {table : ImportTable} {graph : Graph} (scanned : NameSet)
    (htable : q.table scanner t packages cache = .ok table)
    (hgraph : graphOf packages (q.context packages).modules table = .ok graph) :
    Course q scanner t packages cache
      ((cache.forM (·.write packages table) >>= fun _ => pure ⟨graph, scanned⟩ : Disk Outcome).on t)

theorem on_of_refused {e : Error} (h : q.found t = .error e) : q.on scanner t = (t, .error e) := by
  unfold Request.on run runBy
  unfold Request.found at h
  cases hnames : packageNames q.names with
  | error e' =>
    rw [hnames] at h
    obtain rfl := Except.error.inj h
    rfl
  | ok names =>
    rw [hnames] at h
    have h : names.mapM (q.find t) = .error e := h
    rw [Step.on_bind_ok (Step.on_ofExcept _ t), Step.on_get_bind, h]
    rfl

/-- **With its packages found and its cache set up, a build is the scan of what is left and the
conclusion from it.** -/
theorem onBy_eq {collect : Collector} (scanner : Scanner) (hfound : q.found t = .ok packages)
    (hsetup : q.setup t packages = .ok cache) : q.onBy scanner t collect =
      (ofExcept (q.scanBy scanner t collect packages cache) >>= fun scanned =>
        conclude packages (q.context packages).modules cache (unknown cache (packages.flatMap (·.files)))
          (insertAll (recalled cache (packages.flatMap (·.files))) scanned.toList) :
        Disk Outcome).on t := by
  unfold Request.onBy runBy
  obtain ⟨names, hnames, hpackages⟩ := bind_eq_ok_iff.1 hfound
  unfold Request.setup at hsetup
  rw [hnames, Step.on_bind_ok (Step.on_ofExcept _ t), Step.on_get_bind, hpackages,
    Step.on_bind_ok (Step.on_ofExcept _ t), hsetup, Step.on_bind_ok (Step.on_ofExcept _ t)]
  rfl

theorem course_conclude {table : ImportTable} (htable : q.table scanner t packages cache = .ok table) :
    Course q scanner t packages cache ((conclude packages (q.context packages).modules cache
      (unknown cache (packages.flatMap (·.files))) table).on t) := by
  unfold conclude
  split
  · next e hassemble =>
    refine .refusedGraph htable ?_
    rw [graphOf, hassemble]
    rfl
  · next graph hassemble =>
    have hgraph : graphOf packages (q.context packages).modules table = .ok graph := by
      rw [graphOf, hassemble]
      rfl
    split
    · next hrest => exact .recalled _ hrest htable hgraph
    · exact .kept _ htable hgraph

theorem course_on (scanner : Scanner) (hfound : q.found t = .ok packages)
    (hsetup : q.setup t packages = .ok cache) :
    Course q scanner t packages cache (q.on scanner t) := by
  rw [show q.on scanner t = q.onBy scanner t inOrder from rfl, onBy_eq scanner hfound hsetup]
  cases hscan : q.scanBy scanner t inOrder packages cache with
  | error e =>
    rw [Step.on_bind_error (Step.on_ofExcept _ t)]
    refine .refusedScan ?_
    rw [Request.table, hscan]
    rfl
  | ok scanned =>
    rw [Step.on_bind_ok (Step.on_ofExcept _ t)]
    refine course_conclude ?_
    rw [Request.table, hscan]
    rfl

theorem setup_of_directory {d : String} (hd : q.options.cache.directory? = some d) :
    q.setup t packages =
      (Cache.stored t (Path.join d (Cache.fileNameOf (q.key packages)))).map fun results =>
        some ⟨d, Cache.fileNameOf (q.key packages), results⟩ := by
  unfold Request.setup
  rw [hd, Option.mapM_some]
  unfold Cache.setup Request.key
  dsimp only
  cases Cache.stored t (Path.join d (Cache.fileNameOf (Cache.key (packages.map (·.name))
    q.options.includeExternal q.options.excludeTypeChecking))) <;> rfl

theorem exists_cache_of_setup {d : String} (h : q.setup t packages = .ok cache)
    (hd : q.options.cache.directory? = some d) : ∃ results,
      cache = some ⟨d, Cache.fileNameOf (q.key packages), results⟩ ∧
        Cache.stored t (Path.join d (Cache.fileNameOf (q.key packages))) = .ok results := by
  rw [setup_of_directory hd] at h
  obtain ⟨results, hstored, rfl⟩ := map_eq_ok_iff.1 h
  exact ⟨results, rfl, hstored⟩

/-- Results that can be kept are kept, and the build goes through. -/
theorem exists_on_kept {c : Cache} {table : ImportTable} (outcome : Outcome)
    (h : ((c.write packages table).on t).2 = .ok ()) :
    ∃ t', (c.write packages table).on t = (t', .ok ()) ∧
      ((some c).forM (·.write packages table) >>= fun _ => pure outcome : Disk Outcome).on t =
        (t', .ok outcome) := by
  cases hwrite : (c.write packages table).on t with
  | mk t' answer =>
    rw [hwrite] at h
    obtain rfl : answer = .ok () := h
    exact ⟨t', rfl, Step.on_bind_ok hwrite⟩

theorem caches_of_setup {c : Cache} (h : q.setup t packages = .ok (some c)) : q.Caches := by
  intro hnone
  unfold Request.setup at h
  rw [hnone] at h
  cases h

theorem setup_of_not_caches (h : ¬ q.Caches) : q.setup t packages = .ok none := by
  unfold Request.setup
  rw [Classical.not_not.1 h]
  rfl

theorem answer_eq (hfound : q.found t = .ok packages) (hsetup : q.setup t packages = .ok cache)
    (hserves : ∀ c ∈ cache, ∀ table, ((c.write packages table).on t).2 = .ok ()) :
    q.answer scanner t = (q.table scanner t packages cache).bind
      (graphOf packages (q.context packages).modules) := by
  have hcourse := course_on scanner hfound hsetup
  unfold Request.answer
  generalize q.on scanner t = result at hcourse
  cases hcourse with
  | refusedScan htable =>
    rw [htable]
    rfl
  | refusedGraph htable hgraph =>
    rw [htable, Except.bind, hgraph]
    rfl
  | recalled _ _ htable hgraph =>
    rw [htable, Except.bind, hgraph]
    rfl
  | @kept table _ _ htable hgraph =>
    rw [htable, Except.bind, hgraph]
    cases cache with
    | none => rfl
    | some c =>
      obtain ⟨t', -, hkept⟩ := exists_on_kept _ (hserves c rfl table)
      rw [hkept]
      rfl

theorem table_none : q.table scanner t packages none =
    scanChunk t scanner (q.context packages) (packages.flatMap (·.files)) := by
  have hscan : q.scanBy scanner t inOrder packages none =
      scanChunk t scanner (q.context packages) (packages.flatMap (·.files)) := by
    unfold Request.scanBy
    rw [unknown_none]
    exact scanFiles_eq _
  rw [Request.table, hscan, recalled_none]
  unfold scanChunk
  cases (packages.flatMap (·.files)).mapM (scanFile t scanner (q.context packages)) with
  | error e => rfl
  | ok rows => exact congrArg Except.ok (insertAll_toList_insertAll ∅ rows)

/-- **Without a cache a build goes through if its packages are found, their files can be scanned and the
graph of that is accepted**, and answers the graph. -/
theorem answer_eq_ok_iff {g : Graph} (h : ¬ q.Caches) : q.answer scanner t = .ok g ↔
    ∃ packages, q.found t = .ok packages ∧
      ∃ table, scanChunk t scanner (q.context packages) (packages.flatMap (·.files)) = .ok table ∧
        graphOf packages (q.context packages).modules table = .ok g := by
  cases hfound : q.found t with
  | error e =>
    rw [Request.answer, on_of_refused hfound]
    constructor
    · intro hanswer
      cases hanswer
    · rintro ⟨packages, hpackages, -⟩
      cases hpackages
  | ok packages =>
    have hanswer : q.answer scanner t = (scanChunk t scanner (q.context packages)
        (packages.flatMap (·.files))).bind (graphOf packages (q.context packages).modules) := by
      rw [answer_eq hfound (setup_of_not_caches h) (by simp), table_none]
    rw [hanswer]
    refine bind_eq_ok_iff.trans ⟨fun hgraph => ⟨packages, rfl, hgraph⟩, ?_⟩
    rintro ⟨packages', hpackages, hgraph⟩
    obtain rfl := Except.ok.inj hpackages
    exact hgraph

end Course

end Build
end ImportAtlas
