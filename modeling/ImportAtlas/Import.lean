import ImportAtlas.Name
import ImportAtlas.Error
/-!
# Imports and the places they are written at

An `Import` is a pair of modules: who imports, and what is imported.  One import may be written in
several places, so the place is a thing of its own (`Site`: a line and its trimmed text, either of
which may be unknown), and one `ImportRecord` is an import together with one place.

All three are ordered field by field, with an unknown line or text first.
-/
namespace ImportAtlas

/-- Reads a name, with the refusal as an error. -/
def ModuleName.parse (text : String) : Except Error ModuleName :=
  match ModuleName.ofString? text with
  | some m => .ok m
  | none => .error (.invalidName text)

/-- The module `name` directly beneath `m`; a dotted or empty `name` is refused. -/
def ModuleName.child (m : ModuleName) (name : String) : Except Error ModuleName :=
  if '.' ∈ name.toList then .error (.invalidName (m.text ++ "." ++ name))
  else ModuleName.parse (m.text ++ "." ++ name)

/-! ## Orders by several keys -/

section Keys

variable {α β γ δ : Type} [Ord β] [Ord γ] [Ord δ]
variable [Std.LawfulEqOrd β] [Std.LawfulEqOrd γ] [Std.LawfulEqOrd δ]
variable {key₁ : α → β} {key₂ : α → γ} {key₃ : α → δ} {a b : α}

/-- What an order by two keys takes for equal has the same keys. -/
theorem keys_eq_of_compareLex (h : compareLex (compareOn key₁) (compareOn key₂) a b = .eq) :
    key₁ a = key₁ b ∧ key₂ a = key₂ b := by
  obtain ⟨h₁, h₂⟩ := Ordering.then_eq_eq.1 h
  exact ⟨Std.LawfulEqOrd.eq_of_compare h₁, Std.LawfulEqOrd.eq_of_compare h₂⟩

/-- **An order by three keys takes only equals for equal**, if what has the same keys is the same. -/
theorem eq_of_compareLex
    (hkeys : ∀ a b, key₁ a = key₁ b → key₂ a = key₂ b → key₃ a = key₃ b → a = b)
    (h : compareLex (compareOn key₁) (compareLex (compareOn key₂) (compareOn key₃)) a b = .eq) :
    a = b := by
  obtain ⟨h₁, h⟩ := Ordering.then_eq_eq.1 h
  obtain ⟨h₂, h₃⟩ := keys_eq_of_compareLex h
  exact hkeys a b (Std.LawfulEqOrd.eq_of_compare h₁) h₂ h₃

end Keys

@[ext]
structure Import where
  importer : ModuleName
  imported : ModuleName
deriving DecidableEq

namespace Import

instance : Ord Import :=
  ⟨compareLex (compareOn importer) (compareOn imported)⟩

instance : Std.TransOrd Import :=
  inferInstanceAs (Std.TransCmp (compareLex (compareOn importer) (compareOn imported)))

theorem eq_of_compare_eq {a b : Import} (h : compare a b = .eq) : a = b := by
  obtain ⟨himporter, himported⟩ := keys_eq_of_compareLex h
  exact Import.ext himporter himported

instance : Std.LawfulEqOrd Import := ⟨eq_of_compare_eq⟩

/-- The import read against its direction. -/
def flip (i : Import) : Import := ⟨i.imported, i.importer⟩

/-- `m` is one of the two ends. -/
def Touches (i : Import) (m : ModuleName) : Prop := i.importer = m ∨ i.imported = m

instance (i : Import) (m : ModuleName) : Decidable (i.Touches m) :=
  inferInstanceAs (Decidable (i.importer = m ∨ i.imported = m))

end Import

/-- Where an import is written. -/
structure Site where
  line : Option UInt32
  text : Option String
deriving DecidableEq

@[ext]
structure ImportRecord where
  importer : ModuleName
  imported : ModuleName
  line : Option UInt32
  text : Option String
deriving DecidableEq

namespace ImportRecord

def toImport (r : ImportRecord) : Import := ⟨r.importer, r.imported⟩

def site (r : ImportRecord) : Site := ⟨r.line, r.text⟩

instance : Ord ImportRecord :=
  ⟨compareLex (compareOn toImport) (compareLex (compareOn line) (compareOn text))⟩

instance : Std.TransOrd ImportRecord :=
  inferInstanceAs (Std.TransCmp
    (compareLex (compareOn toImport) (compareLex (compareOn line) (compareOn text))))

instance : Std.LawfulEqOrd ImportRecord := ⟨eq_of_compareLex fun _ _ h =>
  ImportRecord.ext (congrArg Import.importer h) (congrArg Import.imported h)⟩

end ImportRecord

/-- One import together with one of its places. -/
def Import.at (i : Import) (s : Site) : ImportRecord := ⟨i.importer, i.imported, s.line, s.text⟩

end ImportAtlas
