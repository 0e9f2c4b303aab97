import ImportAtlas.Source
import ImportAtlas.Text.Order
/-!
# Results of earlier scans

A cache keeps, for each module, the imports that a scan found in its file and when the file had last
been changed.  A result holds for a file as long as that time is the same, to the nanosecond, and no
longer.

Results of one build are of no use to another that looks at other packages or asks other questions,
so each build has a `key`, and builds of different keys share nothing.  The order in which packages
are named is not part of the key.
-/
namespace ImportAtlas

/-- The imports of each scanned module. -/
abbrev ImportTable := Std.ExtTreeMap ModuleName (List ImportRecord)

/-- Where two tables meet, the one that is put in counts. -/
theorem getElem?_insertMany_toList {β : Type} (t u : Std.ExtTreeMap ModuleName β) (m : ModuleName) :
    (t.insertMany u.toList)[m]? = u[m]?.or t[m]? := by
  cases h : u[m]? with
  | some b =>
    rw [Std.ExtTreeMap.getElem?_insertMany_list_of_mem Std.ReflCmp.compare_self
      Std.ExtTreeMap.distinct_keys_toList (Std.ExtTreeMap.mem_toList_iff_getElem?_eq_some.2 h),
      Option.some_or]
  | none =>
    have hm : (u.toList.map Prod.fst).contains m = false := by
      rw [Std.ExtTreeMap.map_fst_toList_eq_keys, ← Bool.not_eq_true, List.contains_iff_mem,
        Std.ExtTreeMap.mem_keys]
      intro hmem
      simp [Std.ExtTreeMap.getElem?_eq_some_getElem hmem] at h
    rw [Std.ExtTreeMap.getElem?_insertMany_list_of_contains_eq_false hm, Option.none_or]

/-- What a scan found in a file of the given time. -/
structure ScanResult where
  mtime : Int64
  imports : List (ModuleName × Site)
deriving DecidableEq

namespace ScanResult

def ofRecords (mtime : Int64) (records : List ImportRecord) : ScanResult :=
  ⟨mtime, records.map fun r => (r.imported, r.site)⟩

/-- The imports as records of the module that makes them. -/
def records (r : ScanResult) (importer : ModuleName) : List ImportRecord :=
  r.imports.map fun (imported, site) => Import.at ⟨importer, imported⟩ site

theorem records_ofRecords {importer : ModuleName} {mtime : Int64} {rs : List ImportRecord}
    (h : ∀ r ∈ rs, r.importer = importer) : (ofRecords mtime rs).records importer = rs := by
  unfold records ofRecords
  rw [List.map_map]
  conv => rhs; rw [← List.map_id rs]
  refine List.map_congr_left fun r hr => ?_
  obtain rfl := h r hr
  rfl

end ScanResult

abbrev ScanResults := Std.ExtTreeMap ModuleName ScanResult

structure Cache where
  directory : String
  /-- The name of the file in the directory. -/
  fileName : String
  results : ScanResults

namespace Cache

def externalMark : String := ":external"

def noTypeCheckingMark : String := ":no_type_checking"

/-- What tells a build from others: its packages, in the order of their names, and its options. -/
def key (packages : List ModuleName) (includeExternal excludeTypeChecking : Bool) : String :=
  ",".intercalate (Text.sorted (packages.map (·.text))) ++
    (if includeExternal then externalMark else "") ++
    (if excludeTypeChecking then noTypeCheckingMark else "")

/-- The imports of a file, if its result still holds. -/
def lookup? (cache : Cache) (file : SourceFile) : Option (List ImportRecord) := do
  let result ← cache.results[file.module]?
  if result.mtime = file.mtime then some (result.records file.module) else none

/-- The results for the files of packages.  Of two files of one module the later counts. -/
def resultsOf (packages : List FoundPackage) (table : ImportTable) : ScanResults :=
  (packages.flatMap (·.files)).foldl (fun results file =>
    match table[file.module]? with
    | some records => results.insert file.module (.ofRecords file.mtime records)
    | none => results) ∅

end Cache
end ImportAtlas
