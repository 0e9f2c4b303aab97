import ImportAtlas.Cache
import ImportAtlas.Import.Document
import ImportAtlas.Json.Reader
import ImportAtlas.Json.Writer
/-!
# Scan results as JSON

Results are written as an object from modules to what is known of them: the time of the file under
`mtime_ns` and, under `imports`, a triple of module, line and text for each import.

Reading is strict where it matters.  A field that is missing or comes twice, a number that is no
integer of its range or a triple of another length spoils the whole document, for a damaged document
is not worth repairing.  Members of other names are passed over, and of two results for one module
the later counts.
-/
namespace ImportAtlas
namespace ScanResult

def ofImport : ModuleName × Site → Json
  | (imported, site) =>
    .array [imported.toJson, ImportRecord.lineJson site.line, ImportRecord.textJson site.text]

def import? : Json → Option (ModuleName × Site)
  | .array [imported, line, text] => do
    return (← ModuleName.ofJson? imported,
      ⟨← Json.optional? Json.word32? line, ← Json.optional? Json.string? text⟩)
  | _ => none

def toJson (r : ScanResult) : Json :=
  .object [("mtime_ns", .integer r.mtime.toInt), ("imports", .array (r.imports.map ofImport))]

def ofFields? (mtime imports : Json) : Option ScanResult := do
  return ⟨← mtime.signed64?, ← (← imports.array?).mapM import?⟩

/-- Reads a result, written as an object or as the row of its fields. -/
def ofJson? : Json → Option ScanResult
  | .object members =>
    match Json.membersNamed "mtime_ns" members, Json.membersNamed "imports" members with
    | [mtime], [imports] => ofFields? mtime imports
    | _, _ => none
  | .array [mtime, imports] => ofFields? mtime imports
  | _ => none

end ScanResult

namespace ScanResults

def toJson (results : ScanResults) : Json :=
  .object (results.toList.map fun (m, r) => (m.text, r.toJson))

def ofMember? : String × Json → Option (ModuleName × ScanResult)
  | (name, j) => do return (← ModuleName.ofString? name, ← ScanResult.ofJson? j)

def ofJson? (j : Json) : Option ScanResults := do
  let results ← (← j.object?).mapM ofMember?
  return results.foldl (fun results (m, r) => results.insert m r) ∅

def toText (results : ScanResults) : String := results.toJson.render

def ofText? (text : String) : Option ScanResults := (Json.parse? text).bind ofJson?

end ScanResults
end ImportAtlas
