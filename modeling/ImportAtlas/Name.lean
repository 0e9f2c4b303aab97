import Std.Data.ExtTreeMap
import Std.Data.ExtTreeSet
import ImportAtlas.Dotted
/-!
# Module names

A module is known by its dotted name, `pkg.sub.mod`, and the hierarchy of modules is read off the
names alone: nothing has to exist for `pkg` to be the parent of `pkg.sub`.  A `ModuleName` carries
the proof that no segment is empty, so a name that is refused is refused once, where it is read
(`ofString?`), and every later step may take segments apart and put them together freely.

Names are ordered by their text, code point by code point.  That is not the order of their
segment rows (`a-b` comes before `a.b` here), and every sorted answer of the library uses it.

Two views of the hierarchy live side by side: on the text (`IsBeneath`: the other name and a dot
come first) and on the segments (`parent?` drops the last one).
-/
namespace ImportAtlas

/-- A dotted name none of whose segments is empty. -/
structure ModuleName where
  text : String
  wellDotted : Dotted.WellDotted text.toList
deriving DecidableEq

namespace ModuleName

theorem ext_text {a b : ModuleName} (h : a.text = b.text) : a = b := by
  cases a; cases b; congr

instance : Ord ModuleName := ⟨compareOn text⟩

instance : Std.TransOrd ModuleName := inferInstanceAs (Std.TransCmp (compareOn text))

theorem eq_of_compare_eq {a b : ModuleName} (h : compare a b = .eq) : a = b :=
  ext_text (Std.LawfulEqOrd.eq_of_compare (h : compare a.text b.text = .eq))

instance : Std.LawfulEqOrd ModuleName := ⟨eq_of_compare_eq⟩

instance : ToString ModuleName := ⟨text⟩

/-- The name a text spells, if it spells one: empty texts and empty segments are refused. -/
def ofString? (text : String) : Option ModuleName :=
  if h : Dotted.WellDotted text.toList then some ⟨text, h⟩ else none

/-- Segments of a name: neither empty nor dotted. -/
def IsSegment (s : List Char) : Prop := s ≠ [] ∧ '.' ∉ s

def ofSegments (segments : List (List Char)) (hne : segments ≠ [])
    (h : ∀ s ∈ segments, IsSegment s) : ModuleName where
  text := String.ofList (Dotted.join segments)
  wellDotted := by
    rw [String.toList_ofList]
    exact Dotted.wellDotted_join hne h

instance (s : List Char) : Decidable (IsSegment s) :=
  inferInstanceAs (Decidable (s ≠ [] ∧ '.' ∉ s))

def segments (m : ModuleName) : List (List Char) := Dotted.split m.text.toList

theorem segments_ne_nil (m : ModuleName) : m.segments ≠ [] := Dotted.split_ne_nil _

theorem isSegment_of_mem {m : ModuleName} {s : List Char} (h : s ∈ m.segments) : IsSegment s :=
  ⟨m.wellDotted s h, Dotted.dot_notMem_of_mem_split _ s h⟩

theorem segments_ofSegments {ss : List (List Char)} (hne : ss ≠ []) (h : ∀ s ∈ ss, IsSegment s) :
    (ofSegments ss hne h).segments = ss := by
  rw [segments, ofSegments, String.toList_ofList]
  exact Dotted.split_join ss hne (fun s hs => (h s hs).2)

/-- **A name is its row of segments.** -/
theorem segments_injective {a b : ModuleName} (h : a.segments = b.segments) : a = b := by
  apply ext_text
  rw [← String.ofList_toList (s := a.text), ← Dotted.join_split a.text.toList,
    ← String.ofList_toList (s := b.text), ← Dotted.join_split b.text.toList]
  exact congrArg (fun ss => String.ofList (Dotted.join ss)) h

def depth (m : ModuleName) : Nat := m.segments.length

/-- The name one level up, `none` at the top. -/
def parent? (m : ModuleName) : Option ModuleName :=
  if h : m.segments.dropLast = [] then none
  else some (ofSegments m.segments.dropLast h
    (fun _ hs => isSegment_of_mem (List.dropLast_subset _ hs)))

/-- The name `n` levels up. -/
def up : Nat → ModuleName → Option ModuleName
  | 0, m => some m
  | n + 1, m => m.parent?.bind (up n)

/-- The name that goes on from `m` with the segments of `path`. -/
def append (m path : ModuleName) : ModuleName :=
  ofSegments (m.segments ++ path.segments) (by simp [segments_ne_nil]) (fun _ hs => by
    rcases List.mem_append.1 hs with hs | hs
    · exact isSegment_of_mem hs
    · exact isSegment_of_mem hs)

/-- The top-level name that `m` belongs to. -/
def root (m : ModuleName) : ModuleName :=
  ofSegments [m.segments.head m.segments_ne_nil] (by simp) (fun s hs => by
    rw [List.mem_singleton.1 hs]
    exact isSegment_of_mem (List.head_mem _))

/-- The name that keeps the first segment of `m` and `n` more. -/
def keep (m : ModuleName) (n : Nat) : ModuleName :=
  ofSegments (m.segments.take (n + 1)) (by simp [segments_ne_nil])
    (fun _ hs => isSegment_of_mem (List.mem_of_mem_take hs))

/-- `m` sits somewhere beneath `other`: its text goes on from the other's with a dot. -/
def IsBeneath (m other : ModuleName) : Prop :=
  other.text.toList ++ ['.'] <+: m.text.toList

instance (m other : ModuleName) : Decidable (m.IsBeneath other) :=
  decidable_of_iff ((other.text.toList ++ ['.']).isPrefixOf m.text.toList = true)
    List.isPrefixOf_iff_prefix

/-- `m` sits exactly one level beneath `other`. -/
def IsChildOf (m other : ModuleName) : Prop := m.parent? = some other

instance (m other : ModuleName) : Decidable (m.IsChildOf other) :=
  inferInstanceAs (Decidable (m.parent? = some other))

/-- One of the two contains the other, or they are the same. -/
def Overlaps (m other : ModuleName) : Prop :=
  m = other ∨ m.IsBeneath other ∨ other.IsBeneath m

instance (m other : ModuleName) : Decidable (m.Overlaps other) :=
  inferInstanceAs (Decidable (m = other ∨ m.IsBeneath other ∨ other.IsBeneath m))

theorem depth_parent? {m p : ModuleName} (h : m.parent? = some p) : p.depth + 1 = m.depth := by
  unfold parent? at h
  split at h
  · cases h
  · next hne =>
    obtain rfl := Option.some.inj h
    have : 0 < m.segments.length := List.length_pos_iff.2 m.segments_ne_nil
    rw [depth, segments_ofSegments, List.length_dropLast, depth]
    omega

/-- The proper ancestors of a name, nearest first. -/
def ancestors (m : ModuleName) : List ModuleName :=
  match _h : m.parent? with
  | none => []
  | some p => p :: p.ancestors
termination_by m.depth
decreasing_by have := depth_parent? ‹_›; omega

end ModuleName

/-- A finite set of names; its list is sorted and without repetition. -/
abbrev NameSet := Std.ExtTreeSet ModuleName

/-- The set of the names in a list. -/
abbrev NameSet.ofList (names : List ModuleName) : NameSet := Std.ExtTreeSet.ofList names

theorem NameSet.mem_ofList {names : List ModuleName} {m : ModuleName} :
    m ∈ NameSet.ofList names ↔ m ∈ names := by
  simp

theorem NameSet.mem_singleton {m n : ModuleName} : m ∈ NameSet.ofList [n] ↔ m = n :=
  NameSet.mem_ofList.trans List.mem_singleton

end ImportAtlas
