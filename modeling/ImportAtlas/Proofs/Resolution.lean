import ImportAtlas.Proofs.Distillation
import ImportAtlas.Scan
/-!
# What a scan finds, reference by reference

A scan of a text that is Python goes through its references one by one (`python_eq_ok_iff`).  Each makes a
record if its dots lead to an object and the object means something (`mem_records_iff`), which is a module
of the build or what the object is distilled to (`meaning?_eq_some_iff`).
-/
namespace ImportAtlas

namespace Resolution

variable {context : ScanContext} {object m : ModuleName}

theorem mem_of_home? {modules : NameSet} (h : home? modules object = some m) : m ∈ modules := by
  unfold home? at h
  split at h
  · next hmem => exact Option.some.inj h ▸ hmem
  · simpa using (Option.filter_eq_some_iff.1 h).2

theorem meaning?_eq_some_iff : meaning? context object = some m ↔
    home? context.modules object = some m ∨ (home? context.modules object = none ∧
      context.includeExternal = true ∧ distilled? context.packages object = some m) := by
  rw [meaning?, Option.or_eq_some_iff]
  cases context.includeExternal <;> simp

end Resolution

namespace Scan

open Python (Node references)

variable {context : ScanContext} {file : SourceFile} {source : String} {nodes : List Node}

theorem python_eq_ok_iff {found : List ImportRecord} : python context file source = .ok found ↔
    ∃ nodes, Python.parse source = .ok nodes ∧ found = records context file source.toList nodes := by
  unfold python
  cases Python.parse source with
  | ok nodes => simp [eq_comm]
  | error row => simp

theorem mem_records_iff {text : List Char} {record : ImportRecord} :
    record ∈ records context file text nodes ↔ ∃ r ∈ references false nodes, counts context r = true ∧
      ∃ object imported, Resolution.absolute? file.module file.isPackage r = some object ∧
        Resolution.meaning? context object = some imported ∧
        record = ⟨file.module, imported, some (lineNumber r.row), some (Text.lineAt text r.row)⟩ := by
  simp only [records, List.mem_eraseDups, List.mem_filterMap, List.mem_filter, record?, Option.bind_eq_bind,
    Option.bind_eq_some_iff, Option.pure_def, Option.some.injEq, and_assoc, eq_comm (b := record)]
  simp only [exists_and_left]

end Scan
end ImportAtlas
