import ImportAtlas.Python.Statement
import ImportAtlas.Resolution
/-!
# Scanning a source file

The imports that a file makes, in the order of its text.  A reference that means no module of the
build is passed over, and so is a guarded one if the build asks for that.  The same import on the
same line with the same text is recorded once.

What a build scans with is a `Scanner`; the one for Python is `Scan.python`.  A scanner answers from
its arguments alone, so it does not matter in which order files are scanned.
-/
namespace ImportAtlas

/-- From a build, a file of it and the file's text to the imports that the file makes. -/
abbrev Scanner := ScanContext → SourceFile → String → Except Error (List ImportRecord)

namespace Scan

open Python (Node Reference)

/-- Lines are counted from one. -/
def lineNumber (row : Nat) : UInt32 := .ofNat (row + 1)

/-- The import that a reference makes, if it makes one. -/
def record? (context : ScanContext) (file : SourceFile) (text : List Char) (r : Reference) :
    Option ImportRecord := do
  let object ← Resolution.absolute? file.module file.isPackage r
  let imported ← Resolution.meaning? context object
  return ⟨file.module, imported, some (lineNumber r.row), some (Text.lineAt text r.row)⟩

/-- The reference is to be looked at. -/
def counts (context : ScanContext) (r : Reference) : Bool :=
  !(context.excludeTypeChecking && r.guarded)

/-- The imports that the statements of a file make. -/
def records (context : ScanContext) (file : SourceFile) (text : List Char) (nodes : List Node) :
    List ImportRecord :=
  (((Python.references false nodes).filter (counts context)).filterMap
    (record? context file text)).eraseDups

/-- Scans Python. -/
def python : Scanner := fun context file source =>
  match Python.parse source with
  | .ok nodes => .ok (records context file source.toList nodes)
  | .error row =>
    .error (.sourceSyntax file.path (lineNumber row) (Text.lineAt source.toList row))

end Scan
end ImportAtlas
