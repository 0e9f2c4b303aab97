import ImportAtlas.Import
import ImportAtlas.Json
/-!
# Import records as JSON

A record is an object with a member for each field, or an array of the four fields in order.  In an
object the line and its text may be missing, which is the same as `null`, and other members are
passed over.
-/
namespace ImportAtlas

def ModuleName.ofJson? (j : Json) : Option ModuleName := j.string?.bind ModuleName.ofString?

def ModuleName.toJson (m : ModuleName) : Json := .string m.text

namespace ImportRecord

def ofFields? (importer imported line text : Json) : Option ImportRecord := do
  return { importer := ← ModuleName.ofJson? importer
           imported := ← ModuleName.ofJson? imported
           line := ← Json.optional? Json.word32? line
           text := ← Json.optional? Json.string? text }

def ofJson? : Json → Option ImportRecord
  | .array [importer, imported, line, text] => ofFields? importer imported line text
  | .object members => do
    ofFields? (← Json.field? "importer" members) (← Json.field? "imported" members)
      ((Json.field? "line_number" members).getD .null)
      ((Json.field? "line_contents" members).getD .null)
  | _ => none

def lineJson : Option UInt32 → Json
  | some n => .integer n.toNat
  | none => .null

def textJson : Option String → Json
  | some text => .string text
  | none => .null

def toJson (r : ImportRecord) : Json :=
  .object
    [ ("importer", r.importer.toJson), ("imported", r.imported.toJson),
      ("line_number", lineJson r.line), ("line_contents", textJson r.text) ]

/-- The records in a list of documents, in order and each once; one that is none spoils the list. -/
def sorted (documents : List Json) : Except Error (Std.ExtTreeSet ImportRecord) :=
  match documents.mapM ofJson? with
  | some records => .ok (.ofList records)
  | none => .error .json

end ImportRecord
end ImportAtlas
