import ImportAtlas.Cache.Document
import ImportAtlas.Proofs.Json
/-!
# Scan results come back from their document

What a cache writes is what it later reads: the document of any results reads back, and reading its
fields gives the very results.  Nothing is assumed of the results, neither of the texts of lines
nor of the times, which may be any signed 64-bit number.
-/
namespace ImportAtlas

open Json (ReadsBack)

theorem ModuleName.ofString?_text (m : ModuleName) : ModuleName.ofString? m.text = some m := by
  rw [ModuleName.ofString?, dif_pos m.wellDotted]

theorem ModuleName.ofJson?_toJson (m : ModuleName) : ModuleName.ofJson? m.toJson = some m :=
  m.ofString?_text

namespace Json

theorem word32?_toNat (n : UInt32) : word32? (integer n.toNat) = some n := by
  have hn : (0 : Int) ≤ n.toNat ∧ (n.toNat : Int) < UInt32.size :=
    ⟨Int.natCast_nonneg _, Int.ofNat_lt.2 n.toNat_lt_size⟩
  unfold word32?
  rw [integer?, Option.bind_eq_bind, Option.bind_some, if_pos hn, Int.toNat_natCast,
    UInt32.ofNat_toNat]

theorem signed64?_toInt (n : Int64) : signed64? (integer n.toInt) = some n := by
  have hn : Int64.minValue.toInt ≤ n.toInt ∧ n.toInt ≤ Int64.maxValue.toInt :=
    ⟨n.minValue_le_toInt, n.toInt_le⟩
  unfold signed64?
  rw [integer?, Option.bind_eq_bind, Option.bind_some, if_pos hn, Int64.ofInt_toInt]

end Json

namespace ImportRecord

theorem optional?_lineJson (line : Option UInt32) :
    Json.optional? Json.word32? (lineJson line) = some line := by
  cases line with
  | none => rfl
  | some n => simp only [lineJson, Json.optional?, Json.word32?_toNat, Option.map_some]

theorem optional?_textJson (text : Option String) :
    Json.optional? Json.string? (textJson text) = some text := by
  cases text <;> rfl

theorem readsBack_lineJson (line : Option UInt32) : ReadsBack (lineJson line) := by
  cases line with
  | none => exact Json.readsBack_null
  | some n => exact Json.readsBack_integer n.toNat

theorem readsBack_textJson (text : Option String) : ReadsBack (textJson text) := by
  cases text with
  | none => exact Json.readsBack_null
  | some t => exact Json.readsBack_string t

end ImportRecord

namespace ScanResult

theorem import?_ofImport (i : ModuleName × Site) : import? (ofImport i) = some i := by
  simp only [ofImport, import?, ModuleName.ofJson?_toJson, ImportRecord.optional?_lineJson,
    ImportRecord.optional?_textJson, Option.bind_eq_bind, Option.bind_some]
  rfl

theorem mapM_import?_ofImport (imports : List (ModuleName × Site)) :
    (imports.map ofImport).mapM import? = some imports := by
  induction imports with
  | nil => rfl
  | cons i imports ih => simp [import?_ofImport, ih]

theorem ofJson?_toJson (r : ScanResult) : ofJson? r.toJson = some r := by
  have hmtime : Json.membersNamed "mtime_ns" [("mtime_ns", .integer r.mtime.toInt),
      ("imports", .array (r.imports.map ofImport))] = [.integer r.mtime.toInt] := rfl
  have himports : Json.membersNamed "imports" [("mtime_ns", .integer r.mtime.toInt),
      ("imports", .array (r.imports.map ofImport))] = [.array (r.imports.map ofImport)] := rfl
  simp only [toJson, ofJson?, hmtime, himports, ofFields?, Json.signed64?_toInt, Json.array?,
    Option.bind_eq_bind, Option.bind_some, mapM_import?_ofImport]
  rfl

theorem readsBack_ofImport (i : ModuleName × Site) : ReadsBack (ofImport i) := by
  refine Json.readsBack_array fun j hj => ?_
  simp only [List.mem_cons, List.not_mem_nil, or_false] at hj
  rcases hj with rfl | rfl | rfl
  · exact Json.readsBack_string _
  · exact ImportRecord.readsBack_lineJson _
  · exact ImportRecord.readsBack_textJson _

theorem readsBack_toJson (r : ScanResult) : ReadsBack r.toJson := by
  refine Json.readsBack_object fun m hm => ?_
  simp only [List.mem_cons, List.not_mem_nil, or_false] at hm
  rcases hm with rfl | rfl
  · exact Json.readsBack_integer _
  · refine Json.readsBack_array fun j hj => ?_
    obtain ⟨i, -, rfl⟩ := List.mem_map.1 hj
    exact readsBack_ofImport i

end ScanResult

namespace ScanResults

theorem readsBack_toJson (results : ScanResults) : ReadsBack results.toJson := by
  refine Json.readsBack_object fun member hmember => ?_
  obtain ⟨⟨m, r⟩, -, rfl⟩ := List.mem_map.1 hmember
  exact r.readsBack_toJson

theorem mapM_ofMember?_members (rows : List (ModuleName × ScanResult)) :
    (rows.map fun (m, r) => (m.text, r.toJson)).mapM ofMember? = some rows := by
  induction rows with
  | nil => rfl
  | cons row rows ih =>
    have hrow : ofMember? (row.1.text, row.2.toJson) = some row := by
      simp only [ofMember?, ModuleName.ofString?_text, ScanResult.ofJson?_toJson,
        Option.bind_eq_bind, Option.bind_some]
      rfl
    simp [hrow, ih]

/-- The rows of a map, put into an empty one, make the map again. -/
theorem foldl_insert_toList (results : ScanResults) :
    results.toList.foldl (fun all (m, r) => all.insert m r) (∅ : ScanResults) = results := by
  have hfold := Std.ExtTreeMap.insertMany_list_eq_foldl (t := (∅ : ScanResults)) (l := results.toList)
  refine hfold.symm.trans (Std.ExtTreeMap.ext_getElem? fun m => ?_)
  rw [getElem?_insertMany_toList, Std.ExtTreeMap.getElem?_empty, Option.or_none]

theorem ofJson?_toJson (results : ScanResults) : ofJson? results.toJson = some results := by
  simp only [toJson, ofJson?, Json.object?, Option.bind_eq_bind, Option.bind_some,
    mapM_ofMember?_members]
  exact congrArg some (foldl_insert_toList results)

/-- **Results come back from the text that is written for them.** -/
theorem ofText?_toText (results : ScanResults) : ofText? (toText results) = some results := by
  rw [ofText?, toText, (readsBack_toJson results).parse?_render, Option.bind_some, ofJson?_toJson]

end ScanResults
end ImportAtlas
