import Mathlib.Data.List.Nodup
import ImportAtlas.Proofs.BuildCourse
import ImportAtlas.Proofs.CacheStore
/-!
# Builds that share a cache directory

A `History` of a tree is any sequence of edits and builds in which only builds write data files into
the cache directory.  The invariant of a history (`Backed`) is that every result in the directory is
what a scan found in the file of its module at the last build that covered the module, with the time
that the file had then.  So caching does not show, provided that the time of a file *vouches* for its
scan: a file that has the time its module had last time is scanned with the answer of last time.

That a text never changes without its time is not enough for that, since what an import means depends
on the modules around it.
-/
namespace ImportAtlas
namespace Build

/-! ## Histories -/

namespace Request

/-- The build keeps its results in the data file of that name, finds the source file in the tree and
would scan it with that answer. -/
def Meets (q : Request) (scanner : Scanner) (t : FileTree) (dataFile : String) (file : SourceFile)
    (answer : Except Error (ModuleName × List ImportRecord)) : Prop :=
  q.Caches ∧ ∃ packages, q.found t = .ok packages ∧ Cache.fileNameOf (q.key packages) = dataFile ∧
    file ∈ packages.flatMap (·.files) ∧ scanFile t scanner (q.context packages) file = answer

/-- The build goes through and meets a file of the module. -/
def Covers (q : Request) (scanner : Scanner) (t : FileTree) (dataFile : String) (m : ModuleName) :
    Prop :=
  (∃ graph, q.answer scanner t = .ok graph) ∧
    ∃ file answer, q.Meets scanner t dataFile file answer ∧ file.module = m

/-- The cache of the build can be read, and results can be kept in it. -/
def Serves (q : Request) (t : FileTree) : Prop :=
  ∀ packages, q.found t = .ok packages → ∃ cache, q.setup t packages = .ok cache ∧
    ∀ c ∈ cache, ∀ table, ((c.write packages table).on t).2 = .ok ()

end Request

/-- Of the builds, the latest first, the last that covered the module met the file, and a scan of it
found the row. -/
inductive LastMet (scanner : Scanner) (dataFile : String) (m : ModuleName) :
    List (FileTree × Request) → SourceFile → ModuleName × List ImportRecord → Prop where
  | now {past : List (FileTree × Request)} {t : FileTree} {q : Request} {file : SourceFile}
    {row : ModuleName × List ImportRecord} (through : ∃ graph, q.answer scanner t = .ok graph)
    (meets : q.Meets scanner t dataFile file (.ok row)) (module : file.module = m) :
    LastMet scanner dataFile m ((t, q) :: past) file row
  | earlier {past : List (FileTree × Request)} {t : FileTree} {q : Request} {file : SourceFile}
    {row : ModuleName × List ImportRecord} (h : LastMet scanner dataFile m past file row)
    (missed : ¬ q.Covers scanner t dataFile m) :
    LastMet scanner dataFile m ((t, q) :: past) file row

/-- A build may come next in a history. -/
structure Fits (scanner : Scanner) (directory : String) (past : List (FileTree × Request))
    (t : FileTree) (q : Request) : Prop where
  shares : ∀ d, q.options.cache.directory? = some d → d = directory
  serves : q.Serves t
  distinct : q.Caches → ∀ packages, q.found t = .ok packages →
    ((packages.flatMap (·.files)).map (·.module)).Nodup
  /-- A file with the time that its module had last time is scanned with the answer of last time. -/
  vouched : ∀ dataFile before row file answer, LastMet scanner dataFile file.module past before row →
    q.Meets scanner t dataFile file answer → before.mtime = file.mtime → answer = .ok row

/-- A history of a tree: the builds so far, the latest first and each with the tree it ran on, and
the tree now. -/
inductive History (scanner : Scanner) (directory : String) :
    List (FileTree × Request) → FileTree → Prop where
  /-- At first nothing is cached. -/
  | start {t : FileTree} (ordered : t.Ordered)
    (empty : ∀ key, Cache.held? t directory (Cache.fileNameOf key) = none) :
    History scanner directory [] t
  /-- The tree is edited in any way, but a data file stays as it is or goes. -/
  | edit {past : List (FileTree × Request)} {t t' : FileTree} (h : History scanner directory past t)
    (ordered : t'.Ordered)
    (spares : ∀ key, Cache.held? t' directory (Cache.fileNameOf key) =
        Cache.held? t directory (Cache.fileNameOf key) ∨
      Cache.held? t' directory (Cache.fileNameOf key) = none) :
    History scanner directory past t'
  | build {past : List (FileTree × Request)} {t : FileTree} {q : Request}
    (h : History scanner directory past t) (fits : Fits scanner directory past t q) :
    History scanner directory ((t, q) :: past) (q.on scanner t).1

section Transparency

variable {scanner : Scanner} {directory : String} {past : List (FileTree × Request)} {t : FileTree}
  {q : Request} {packages : List FoundPackage} {cache : Option Cache} {c : Cache}

/-- What the last build that covered a module met stands behind every result that is held of it. -/
structure Backed (scanner : Scanner) (directory : String) (past : List (FileTree × Request))
    (t : FileTree) : Prop where
  ordered : t.Ordered
  met : ∀ key f, Cache.held? t directory (Cache.fileNameOf key) = some (.file f) →
    ∀ m result, (Cache.resultsIn f)[m]? = some result →
      ∃ file, LastMet scanner (Cache.fileNameOf key) m past file (m, result.records m) ∧
        file.mtime = result.mtime

theorem exists_result_of_lookup? {file : SourceFile} {records : List ImportRecord}
    (h : c.lookup? file = some records) : ∃ result, c.results[file.module]? = some result ∧
      file.mtime = result.mtime ∧ result.records file.module = records := by
  unfold Cache.lookup? at h
  obtain ⟨result, hresult, h⟩ := Option.bind_eq_some_iff.1 h
  split at h
  · next hmtime => exact ⟨result, hresult, hmtime.symm, Option.some.inj h⟩
  · cases h

theorem eq_of_setup (hfits : Fits scanner directory past t q)
    (hsetup : q.setup t packages = .ok (some c)) :
    c = ⟨directory, Cache.fileNameOf (q.key packages), c.results⟩ ∧
      Cache.stored t (Path.join directory (Cache.fileNameOf (q.key packages))) = .ok c.results := by
  obtain ⟨d, hd⟩ := Option.ne_none_iff_exists'.1 (caches_of_setup hsetup)
  obtain ⟨results, hcache, hstored⟩ := exists_cache_of_setup hsetup hd
  obtain rfl := hfits.shares d hd
  obtain rfl := Option.some.inj hcache
  exact ⟨rfl, hstored⟩

theorem exists_held_of_lookup? (hbacked : Backed scanner directory past t)
    (hfits : Fits scanner directory past t q) (hsetup : q.setup t packages = .ok (some c))
    {file : SourceFile} {records : List ImportRecord} (hlookup : c.lookup? file = some records) :
    ∃ f result, Cache.held? t directory (Cache.fileNameOf (q.key packages)) = some (.file f) ∧
      (Cache.resultsIn f)[file.module]? = some result ∧ file.mtime = result.mtime ∧
        result.records file.module = records := by
  obtain ⟨result, hresult, hmtime, hrecords⟩ := exists_result_of_lookup? hlookup
  rcases Cache.stored_eq_ok hbacked.ordered (Cache.plain_fileNameOf _) (eq_of_setup hfits hsetup).2 with
    hempty | ⟨f, hheld, hresults⟩
  · rw [hempty] at hresult
    simp at hresult
  · exact ⟨f, result, hheld, hresults ▸ hresult, hmtime, hrecords⟩

/-- **A time that is vouched for makes the cache honest.** -/
theorem honest_of_backed (hbacked : Backed scanner directory past t)
    (hfits : Fits scanner directory past t q) (hfound : q.found t = .ok packages)
    (hsetup : q.setup t packages = .ok cache) :
    Honest t scanner (q.context packages) (packages.flatMap (·.files)) cache := by
  intro file hfile records hrecalled
  obtain ⟨c, rfl, hlookup⟩ := Option.bind_eq_some_iff.1 hrecalled
  obtain ⟨f, result, hheld, hresult, hmtime, rfl⟩ := exists_held_of_lookup? hbacked hfits hsetup hlookup
  obtain ⟨before, hlast, hsame⟩ := hbacked.met _ f hheld _ result hresult
  have hmeets : q.Meets scanner t (Cache.fileNameOf (q.key packages)) file
      (scanFile t scanner (q.context packages) file) :=
    ⟨caches_of_setup hsetup, packages, hfound, rfl, hfile, rfl⟩
  exact hfits.vouched _ before _ file _ hlast hmeets (hsame.trans hmtime.symm)

theorem table_eq (hbacked : Backed scanner directory past t) (hfits : Fits scanner directory past t q)
    (hcaches : q.Caches) (hfound : q.found t = .ok packages) (hsetup : q.setup t packages = .ok cache) :
    q.table scanner t packages cache =
      ((packages.flatMap (·.files)).mapM (scanFile t scanner (q.context packages))).map (insertAll ∅) :=
  table_of_honest (honest_of_backed hbacked hfits hfound hsetup)
    (hfits.distinct hcaches packages hfound) _

/-! ## What a build does to the invariant -/

theorem Backed.missed (h : Backed scanner directory past t) {key : String} {f : File} {m : ModuleName}
    {result : ScanResult} (hheld : Cache.held? t directory (Cache.fileNameOf key) = some (.file f))
    (hresult : (Cache.resultsIn f)[m]? = some result)
    (hmissed : ¬ q.Covers scanner t (Cache.fileNameOf key) m) :
    ∃ file, LastMet scanner (Cache.fileNameOf key) m ((t, q) :: past) file (m, result.records m) ∧
      file.mtime = result.mtime := by
  obtain ⟨file, hlast, hmtime⟩ := h.met key f hheld m result hresult
  exact ⟨file, hlast.earlier hmissed, hmtime⟩

theorem Backed.idle (h : Backed scanner directory past t)
    (hmissed : ∀ dataFile m, ¬ q.Covers scanner t dataFile m) :
    Backed scanner directory ((t, q) :: past) t where
  ordered := h.ordered
  met key _ hheld m _ hresult := h.missed hheld hresult (hmissed (Cache.fileNameOf key) m)

theorem not_covers_of_error {dataFile : String} {m : ModuleName} {t' : FileTree} {e : Error}
    (h : q.on scanner t = (t', .error e)) : ¬ q.Covers scanner t dataFile m := by
  rintro ⟨⟨graph, hanswer⟩, -⟩
  rw [Request.answer, h] at hanswer
  cases hanswer

theorem not_covers_of_setup {dataFile : String} {m : ModuleName}
    (hsetup : q.setup t packages = .ok none) : ¬ q.Covers scanner t dataFile m := by
  rintro ⟨-, file, answer, ⟨hcaches, -⟩, -⟩
  obtain ⟨d, hd⟩ := Option.ne_none_iff_exists'.1 hcaches
  obtain ⟨results, hcache, -⟩ := exists_cache_of_setup hsetup hd
  cases hcache

theorem found_of_covers {dataFile : String} {m : ModuleName} (hfound : q.found t = .ok packages)
    (h : q.Covers scanner t dataFile m) : dataFile = Cache.fileNameOf (q.key packages) ∧
      ∃ file ∈ packages.flatMap (·.files), file.module = m := by
  obtain ⟨-, file, answer, ⟨-, packages', hfound', hdata, hfile, -⟩, hmodule⟩ := h
  obtain rfl := Except.ok.inj (hfound.symm.trans hfound')
  exact ⟨hdata.symm, file, hfile, hmodule⟩

/-- What the scanner is told to do: the importer of every record is the module of the file. -/
def NamesImporter (scanner : Scanner) : Prop :=
  ∀ context file text records, scanner context file text = .ok records →
    ∀ r ∈ records, r.importer = file.module

theorem importer_of_scanFile {context : ScanContext} {file : SourceFile} {m : ModuleName}
    {records : List ImportRecord} (hscanner : NamesImporter scanner)
    (h : scanFile t scanner context file = .ok (m, records)) : ∀ r ∈ records, r.importer = m := by
  obtain ⟨text, htext, hmodule⟩ := exists_text_of_scanFile h
  obtain rfl : m = file.module := hmodule
  exact hscanner context file text records htext

theorem LastMet.ofScan {file : SourceFile} {records : List ImportRecord}
    {outcome : Outcome} {t' : FileTree} (hcaches : q.Caches) (hfound : q.found t = .ok packages)
    (hfile : file ∈ packages.flatMap (·.files))
    (hscan : scanFile t scanner (q.context packages) file = .ok (file.module, records))
    (hon : q.on scanner t = (t', .ok outcome)) :
    LastMet scanner (Cache.fileNameOf (q.key packages)) file.module ((t, q) :: past) file
      (file.module, records) := by
  have hmeets : q.Meets scanner t (Cache.fileNameOf (q.key packages)) file
      (.ok (file.module, records)) := ⟨hcaches, packages, hfound, rfl, hfile, hscan⟩
  have hanswer : q.answer scanner t = .ok outcome.graph := by
    rw [Request.answer, hon]
    rfl
  exact .now ⟨_, hanswer⟩ hmeets rfl

theorem Backed.recall {outcome : Outcome} (hbacked : Backed scanner directory past t)
    (hfits : Fits scanner directory past t q) (hfound : q.found t = .ok packages)
    (hsetup : q.setup t packages = .ok (some c))
    (hrest : unknown (some c) (packages.flatMap (·.files)) = [])
    (hon : q.on scanner t = (t, .ok outcome)) : Backed scanner directory ((t, q) :: past) t := by
  refine ⟨hbacked.ordered, fun key f hheld m result hresult => ?_⟩
  by_cases hcovers : q.Covers scanner t (Cache.fileNameOf key) m
  · obtain ⟨hkey, file, hfile, rfl⟩ := found_of_covers hfound hcovers
    -- Nothing was left to scan, so what is held of the module was recalled, and honestly.
    obtain ⟨records, hlookup⟩ : ∃ records, c.lookup? file = some records := by
      by_contra hnone
      have hunknown : file ∈ unknown (some c) (packages.flatMap (·.files)) :=
        List.mem_filter.2 ⟨hfile, by simpa [Option.eq_none_iff_forall_ne_some] using hnone⟩
      rw [hrest] at hunknown
      cases hunknown
    obtain ⟨f', result', hheld', hresult', hmtime, rfl⟩ :=
      exists_held_of_lookup? hbacked hfits hsetup hlookup
    rw [hkey, hheld'] at hheld
    obtain rfl := Entry.file.inj (Option.some.inj hheld)
    obtain rfl := Option.some.inj (hresult'.symm.trans hresult)
    have hscan := honest_of_backed hbacked hfits hfound hsetup file hfile _ hlookup
    rw [hkey]
    exact ⟨file, .ofScan (caches_of_setup hsetup) hfound hfile hscan hon, hmtime⟩
  · exact hbacked.missed hheld hresult hcovers

theorem Backed.write {table : ImportTable} {outcome : Outcome} {t' : FileTree}
    (hscanner : NamesImporter scanner) (hbacked : Backed scanner directory past t)
    (hfits : Fits scanner directory past t q) (hfound : q.found t = .ok packages)
    (hsetup : q.setup t packages = .ok (some c))
    (htable : q.table scanner t packages (some c) = .ok table)
    (hwrite : (c.write packages table).on t = (t', .ok ()))
    (hon : q.on scanner t = (t', .ok outcome)) : Backed scanner directory ((t, q) :: past) t' := by
  have hcaches := caches_of_setup hsetup
  obtain ⟨hcache, -⟩ := eq_of_setup hfits hsetup
  generalize c.results = results at hcache
  subst hcache
  obtain ⟨hordered, hnew, hrest⟩ := Cache.held?_write rfl hbacked.ordered hwrite
  rw [table_eq hbacked hfits hcaches hfound hsetup] at htable
  refine ⟨hordered, fun key f hheld m result hresult => ?_⟩
  by_cases hkey : Cache.fileNameOf key = Cache.fileNameOf (q.key packages)
  · -- The new data file holds results of this build alone, those recalled among them.
    rw [hkey, hnew] at hheld
    obtain rfl := Entry.file.inj (Option.some.inj hheld)
    rw [Cache.resultsIn_writtenFile] at hresult
    obtain ⟨file, hfile, records, rfl, hrow, rfl⟩ := Cache.isResult_of_getElem?_resultsOf hresult
    obtain ⟨scanned, hscanned, hscan⟩ := exists_scanFile_of_table htable hrow
    obtain rfl := List.inj_on_of_nodup_map (hfits.distinct hcaches packages hfound) hscanned hfile
      (module_of_scanFile hscan).symm
    rw [hkey, ScanResult.records_ofRecords (importer_of_scanFile hscanner hscan)]
    exact ⟨scanned, .ofScan hcaches hfound hscanned hscan hon, rfl⟩
  · rw [hrest key hkey] at hheld
    exact hbacked.missed hheld hresult fun h => hkey (found_of_covers hfound h).1

theorem Backed.build (hscanner : NamesImporter scanner) (hbacked : Backed scanner directory past t)
    (hfits : Fits scanner directory past t q) :
    Backed scanner directory ((t, q) :: past) (q.on scanner t).1 := by
  cases hfound : q.found t with
  | error e =>
    rw [on_of_refused hfound]
    exact hbacked.idle fun _ _ => not_covers_of_error (on_of_refused hfound)
  | ok packages =>
    obtain ⟨cache, hsetup, hserves⟩ := hfits.serves packages hfound
    have hcourse := course_on scanner hfound hsetup
    generalize hon : q.on scanner t = result at hcourse
    -- The tree stays as it is but for results that are kept.
    cases hcourse with
    | refusedScan _ => exact hbacked.idle fun _ _ => not_covers_of_error hon
    | refusedGraph _ _ => exact hbacked.idle fun _ _ => not_covers_of_error hon
    | recalled _ hrest _ _ =>
      cases cache with
      | none => exact hbacked.idle fun _ _ => not_covers_of_setup hsetup
      | some c => exact hbacked.recall hfits hfound hsetup hrest hon
    | @kept table graph scanned htable hgraph =>
      cases cache with
      | none => exact hbacked.idle fun _ _ => not_covers_of_setup hsetup
      | some c =>
        obtain ⟨t', hwrite, hkept⟩ := exists_on_kept ⟨graph, scanned⟩ (hserves c rfl table)
        rw [hkept] at hon ⊢
        exact hbacked.write hscanner hfits hfound hsetup htable hwrite hon

theorem History.backed (hscanner : NamesImporter scanner) (h : History scanner directory past t) :
    Backed scanner directory past t := by
  induction h with
  | start ordered empty =>
    exact ⟨ordered, fun key f hheld => by rw [empty key] at hheld; cases hheld⟩
  | edit _ ordered spares ih =>
    refine ⟨ordered, fun key f hheld => ?_⟩
    rcases spares key with hsame | hgone
    · rw [hsame] at hheld
      exact ih.met key f hheld
    · rw [hgone] at hheld
      cases hheld
  | build _ fits ih => exact ih.build hscanner fits

/-- **Caching does not show.** -/
theorem answer_eq_uncached (hscanner : NamesImporter scanner) (h : History scanner directory past t)
    (hfits : Fits scanner directory past t q) :
    q.answer scanner t = q.uncached.answer scanner t := by
  cases hfound : q.found t with
  | error e =>
    have hfound' : q.uncached.found t = .error e := hfound
    rw [Request.answer, Request.answer, on_of_refused hfound, on_of_refused hfound']
  | ok packages =>
    have hfound' : q.uncached.found t = .ok packages := hfound
    have huncached : q.uncached.setup t packages = .ok none := rfl
    obtain ⟨cache, hsetup, hserves⟩ := hfits.serves packages hfound
    have htable : q.table scanner t packages cache = q.uncached.table scanner t packages none := by
      by_cases hcaches : q.Caches
      · rw [table_eq (h.backed hscanner) hfits hcaches hfound hsetup, table_none]
        rfl
      · obtain rfl := Except.ok.inj ((setup_of_not_caches hcaches).symm.trans hsetup)
        rfl
    rw [answer_eq hfound hsetup hserves, answer_eq hfound' huncached (by simp), htable]
    rfl

end Transparency

/-! ## A small history -/

section SmallHistory

variable {scanner : Scanner} {directory : String} {past : List (FileTree × Request)} {t : FileTree}
  {q : Request} {packages : List FoundPackage} {place other : List String} {entries : FileTree}

theorem namesImporter_python : NamesImporter Scan.python :=
  fun _ _ _ _ h _ hr => (of_mem_python h hr).1

theorem History.editElsewhere {change : Option Entry → Option Entry}
    (h : History scanner directory past t) (hshelf : t.Shelf directory place entries)
    (hother : ¬ t.IsDirectory other) (hdown : ¬ other <+: place) (hup : ¬ place <+: other)
    (hchange : ∀ e inner, change e ≠ some (.directory inner)) :
    History scanner directory past (t.alter change other) := by
  have hedited := hshelf.elsewhere hother hdown hup hchange
  refine h.edit hedited.ordered fun key => .inl ?_
  rw [Cache.held?_of_shelf hedited (Cache.plain_fileNameOf key),
    Cache.held?_of_shelf hshelf (Cache.plain_fileNameOf key)]

/-- The cache of a build serves where its file can be read, its directory can be made and no
directory is in the way. -/
theorem serves_of_found (hdirectory : q.options.cache.directory? = some directory)
    (hordered : t.Ordered) (hfound : q.found t = .ok packages)
    {results : ScanResults}
    (hstored : Cache.stored t (Path.join directory (Cache.fileNameOf (q.key packages))) = .ok results)
    {made : FileTree} (hmake : (Disk.makeDirectories directory).on t = (made, .ok ()))
    (hdata : made.hasDirectory (Path.join directory (Cache.fileNameOf (q.key packages))) = false)
    (htemporary : made.hasDirectory (Path.join directory
      (Cache.fileNameOf (q.key packages) ++ Cache.temporaryEnding)) = false) : q.Serves t := by
  intro packages' hfound'
  obtain rfl := Except.ok.inj (hfound.symm.trans hfound')
  obtain ⟨place, entries, hshelf⟩ := Disk.exists_shelf_of_makeDirectories hordered hmake
  refine ⟨some ⟨directory, Cache.fileNameOf (q.key packages), results⟩, ?_, fun c hc table => ?_⟩
  · rw [setup_of_directory hdirectory, hstored]
    rfl
  · obtain rfl := Option.some.inj hc
    exact Cache.write_goes_through packages table rfl hmake hshelf
      ((hshelf.hasDirectory_eq_false_iff (Cache.plain_fileNameOf _)).1 hdata)
      ((hshelf.hasDirectory_eq_false_iff (Cache.plain_temporary _)).1 htemporary)

/-- A package with a module that imports from it. -/
def smallTree : FileTree :=
  [("pkg", .directory
    [("__init__.py", .file (.ofText "" 1)), ("b.py", .file (.ofText "from pkg import a\n" 1))])]

def smallBuild : Request where
  find := Finder.find []
  options := { cache := .directory "c" }
  threshold := 50
  workers := 4
  names := ["pkg"]

def smallPackages (mtime : Int64) : List FoundPackage :=
  let package : ModuleName := ⟨"pkg", by decide⟩
  let module : ModuleName := ⟨"pkg.b", by decide⟩
  [⟨package, "./pkg", [⟨package, "./pkg/__init__.py", 1⟩, ⟨module, "./pkg/b.py", mtime⟩]⟩]

def smallBuilt : FileTree := (smallBuild.on Scan.python smallTree).1

theorem ordered_smallTree : smallTree.Ordered := by decide

-- Each run of the build is costly to compute, so what is computed is computed at one go.
theorem computed_smallTree :
    ((Disk.makeDirectories "c").on smallTree).2.toOption = some () ∧
      (((Disk.makeDirectories "c").on smallTree).1.directory? "c").map (·.isEmpty) = some true ∧
      (smallBuild.found smallTree).toOption = some (smallPackages 1) ∧
      (Cache.stored smallTree (Path.join "c" (Cache.fileNameOf
        (smallBuild.key (smallPackages 1))))).toOption.isSome := by
  decide +kernel

theorem exists_make_smallTree : ∃ made entries,
    (Disk.makeDirectories "c").on smallTree = (made, .ok ()) ∧ made.Shelf "c" ["c"] entries ∧
      entries = [] := by
  obtain ⟨hmade, hempty, -⟩ := computed_smallTree
  cases hmake : (Disk.makeDirectories "c").on smallTree with
  | mk made answer =>
    rw [hmake] at hmade hempty
    obtain rfl := eq_ok_of_toOption hmade
    obtain ⟨place, entries, hshelf⟩ := Disk.exists_shelf_of_makeDirectories ordered_smallTree hmake
    obtain rfl := hshelf.place_of_plain ⟨by decide, by decide, by decide, by decide⟩
    rw [hshelf.directory? (by decide)] at hempty
    exact ⟨made, entries, rfl, hshelf, by simpa using hempty⟩

theorem found_smallTree : smallBuild.found smallTree = .ok (smallPackages 1) :=
  eq_ok_of_toOption computed_smallTree.2.2.1

theorem fits_smallTree : Fits Scan.python "c" [] smallTree smallBuild where
  shares d hd := (Option.some.inj hd).symm
  serves := by
    obtain ⟨made, entries, hmake, hshelf, rfl⟩ := exists_make_smallTree
    obtain ⟨results, hresults⟩ := Option.isSome_iff_exists.1 computed_smallTree.2.2.2
    refine serves_of_found rfl ordered_smallTree found_smallTree (eq_ok_of_toOption hresults) hmake ?_ ?_
    · exact (hshelf.hasDirectory_eq_false_iff (Cache.plain_fileNameOf _)).2 (by simp)
    · exact (hshelf.hasDirectory_eq_false_iff (Cache.plain_temporary _)).2 (by simp)
  distinct _ packages h := by
    obtain rfl := Except.ok.inj (found_smallTree.symm.trans h)
    decide
  vouched _ _ _ _ _ hlast := by cases hlast

theorem history_smallBuilt : History Scan.python "c" [(smallTree, smallBuild)] smallBuilt := by
  refine .build (.start ordered_smallTree fun key => ?_) fits_smallTree
  obtain ⟨made, entries, hmake, hshelf, rfl⟩ := exists_make_smallTree
  rw [Cache.held?, hmake, hshelf.entryAt? (Cache.plain_fileNameOf key)]
  rfl

theorem computed_smallBuilt :
    smallBuilt.hasDirectory "c" = true ∧ smallBuilt.IsDirectory ["pkg"] ∧
      ¬ smallBuilt.IsDirectory ["pkg", "b.py"] ∧ ¬ smallBuilt.IsDirectory ["pkg", "a.py"] ∧
      (smallBuilt.get? ["pkg", "a.py"]).isNone := by
  decide +kernel

def smallEdited (name : String) (file : File) : FileTree := smallBuilt.put ["pkg", name] (.file file)

theorem history_smallEdited {name : String} (file : File)
    (hname : ¬ smallBuilt.IsDirectory ["pkg", name]) :
    History Scan.python "c" [(smallTree, smallBuild)] (smallEdited name file) := by
  have hordered := (history_smallBuilt.backed namesImporter_python).ordered
  obtain ⟨place, entries, hshelf⟩ := Disk.shelf_of_hasDirectory hordered computed_smallBuilt.1
  obtain rfl := hshelf.place_of_plain ⟨by decide, by decide, by decide, by decide⟩
  exact history_smallBuilt.editElsewhere hshelf hname (by simp) (by simp) (by simp)

/-- The module gets another text, and another time with it. -/
def smallChanged : FileTree := smallEdited "b.py" (.ofText "import pkg.c\n" 2)

theorem history_smallChanged : History Scan.python "c" [(smallTree, smallBuild)] smallChanged :=
  history_smallEdited _ computed_smallBuilt.2.2.1

theorem computed_smallChanged :
    (smallBuild.found smallChanged).toOption = some (smallPackages 2) ∧
      smallChanged.hasDirectory "c" = true ∧
      (Cache.stored smallChanged (Path.join "c" (Cache.fileNameOf
        (smallBuild.key (smallPackages 2))))).toOption.isSome ∧
      smallChanged.hasDirectory (Path.join "c" (Cache.fileNameOf
        (smallBuild.key (smallPackages 2)))) = false ∧
      smallChanged.hasDirectory (Path.join "c" (Cache.fileNameOf
        (smallBuild.key (smallPackages 2)) ++ Cache.temporaryEnding)) = false ∧
      (∀ before ∈ (smallPackages 1).flatMap (·.files), ∀ file ∈ (smallPackages 2).flatMap (·.files),
        before.module = file.module → before.mtime = file.mtime →
          (scanFile smallChanged Scan.python (smallBuild.context (smallPackages 2)) file).toOption =
            (scanFile smallTree Scan.python (smallBuild.context (smallPackages 1)) before).toOption) ∧
      ((smallBuild.on Scan.python smallChanged).2.toOption.map fun outcome =>
        outcome.scanned.toList.map (·.text)) = some ["pkg.b"] := by
  decide +kernel

theorem found_smallChanged : smallBuild.found smallChanged = .ok (smallPackages 2) :=
  eq_ok_of_toOption computed_smallChanged.1

theorem serves_smallChanged : smallBuild.Serves smallChanged := by
  obtain ⟨-, hdirectory, hstored, hdata, htemporary, -⟩ := computed_smallChanged
  have hordered : smallChanged.Ordered := (history_smallChanged.backed namesImporter_python).ordered
  obtain ⟨place, entries, hshelf⟩ := Disk.shelf_of_hasDirectory hordered hdirectory
  obtain ⟨results, hresults⟩ := Option.isSome_iff_exists.1 hstored
  exact serves_of_found rfl hordered found_smallChanged (eq_ok_of_toOption hresults)
    (Disk.makeDirectories_shelf hshelf) hdata htemporary

theorem fits_smallChanged :
    Fits Scan.python "c" [(smallTree, smallBuild)] smallChanged smallBuild where
  shares d hd := (Option.some.inj hd).symm
  serves := serves_smallChanged
  distinct _ packages h := by
    obtain rfl := Except.ok.inj (found_smallChanged.symm.trans h)
    decide
  vouched dataFile before row file answer hlast hmeets hmtime := by
    cases hlast with
    | earlier h _ => cases h
    | now _ hmet hmodule =>
      obtain ⟨-, packages, hfound, -, hbefore, hrow⟩ := hmet
      obtain ⟨-, packages', hfound', -, hfile, hanswer⟩ := hmeets
      obtain rfl := Except.ok.inj (found_smallTree.symm.trans hfound)
      obtain rfl := Except.ok.inj (found_smallChanged.symm.trans hfound')
      obtain ⟨-, -, -, -, -, hscans, -⟩ := computed_smallChanged
      have hsame := hscans before hbefore file hfile hmodule hmtime
      rw [hanswer, hrow] at hsame
      exact eq_ok_of_toOption hsame

/-- The module that was edited is scanned again, and the other one is recalled. -/
theorem answer_eq_uncached_smallChanged :
    NamesImporter Scan.python ∧ History Scan.python "c" [(smallTree, smallBuild)] smallChanged ∧
      Fits Scan.python "c" [(smallTree, smallBuild)] smallChanged smallBuild ∧
      ((smallBuild.on Scan.python smallChanged).2.toOption.map fun outcome =>
        outcome.scanned.toList.map (·.text)) = some ["pkg.b"] ∧
      smallBuild.answer Scan.python smallChanged =
        smallBuild.uncached.answer Scan.python smallChanged :=
  ⟨namesImporter_python, history_smallChanged, fits_smallChanged, computed_smallChanged.2.2.2.2.2.2,
    answer_eq_uncached namesImporter_python history_smallChanged fits_smallChanged⟩

/-- The module that the import asked for is written after the build. -/
def smallExtended : FileTree := smallEdited "a.py" (.ofText "" 1)

/-- What a graph imports, by name. -/
def importNames (answer : Except Error Graph) : Option (List (String × String)) :=
  answer.toOption.map fun g => g.importList.map fun i => (i.importer.text, i.imported.text)

/-- **A new module is missed.**  No file of the tree has changed, but an import of one now means the
module that is new, and its time does not tell. -/
theorem answer_ne_uncached_smallExtended :
    History Scan.python "c" [(smallTree, smallBuild)] smallExtended ∧
      (∀ place file, smallBuilt.get? place = some (.file file) →
        smallExtended.get? place = some (.file file)) ∧
      importNames (smallBuild.answer Scan.python smallExtended) = some [("pkg.b", "pkg")] ∧
      importNames (smallBuild.uncached.answer Scan.python smallExtended) =
        some [("pkg.b", "pkg.a")] ∧
      smallBuild.answer Scan.python smallExtended ≠
        smallBuild.uncached.answer Scan.python smallExtended := by
  have himports : importNames (smallBuild.answer Scan.python smallExtended) =
        some [("pkg.b", "pkg")] ∧
      importNames (smallBuild.uncached.answer Scan.python smallExtended) =
        some [("pkg.b", "pkg.a")] := by
    decide +kernel
  obtain ⟨hstale, hright⟩ := himports
  obtain ⟨-, hplace, -, hname, hnew⟩ := computed_smallBuilt
  have hordered : smallBuilt.Ordered := (history_smallBuilt.backed namesImporter_python).ordered
  refine ⟨history_smallEdited _ hname, fun place file hfile => ?_, hstale, hright, ?_⟩
  · exact FileTree.get?_put_new hordered hplace (Option.isNone_iff_eq_none.1 hnew) hfile
  · intro heq
    rw [heq, hright] at hstale
    revert hstale
    decide

/-- A module that two files define. -/
def twiceTree : FileTree :=
  [("pkg", .directory
    [("__init__.py", .file (.ofText "" 1)),
      ("a", .directory [("__init__.py", .file (.ofText "import pkg.b\n" 1))]),
      ("a.py", .file (.ofText "" 2)), ("b.py", .file (.ofText "" 1))])]

/-- Of two files of one module the cache remembers the later, so the next build takes the earlier for
new and lets it win.  Nothing happens between the two builds. -/
theorem answer_ne_uncached_twice :
    importNames (smallBuild.answer Scan.python (smallBuild.on Scan.python twiceTree).1) =
        some [("pkg.a", "pkg.b")] ∧
      importNames (smallBuild.uncached.answer Scan.python (smallBuild.on Scan.python twiceTree).1) =
        some [] := by
  decide +kernel

end SmallHistory

end Build
end ImportAtlas
