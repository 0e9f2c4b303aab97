/-!
# Dotted text

A dotted text is a row of segments with one dot between neighbours.  `split` cuts at every dot and
`join` writes the segments back, and the two undo each other: `join (split t)` is `t` for every
text, and `split (join ss)` is `ss` for every nonempty row of segments that hold no dot
(`join_split`, `split_join`).

Everything is said on lists of characters, where a segment is a list and "has no dot" is plain
membership; `String` enters only where a name is shown or read.
-/
namespace ImportAtlas
namespace Dotted

/-- The maximal runs between dots.  There is always at least one, perhaps empty. -/
def split : List Char → List (List Char)
  | [] => [[]]
  | c :: rest =>
    if c = '.' then [] :: split rest
    else match split rest with
      | [] => [[c]]
      | segment :: segments => (c :: segment) :: segments

def join : List (List Char) → List Char
  | [] => []
  | [segment] => segment
  | segment :: segments => segment ++ '.' :: join segments

/-- No segment is empty; in particular the text itself is not. -/
def WellDotted (text : List Char) : Prop := ∀ segment ∈ split text, segment ≠ []

instance (text : List Char) : Decidable (WellDotted text) :=
  inferInstanceAs (Decidable (∀ segment ∈ split text, segment ≠ []))

theorem split_ne_nil : ∀ text : List Char, split text ≠ []
  | [] => by simp [split]
  | c :: rest => by
    unfold split
    split
    · simp
    · split <;> simp

theorem split_cons_dot (rest : List Char) : split ('.' :: rest) = [] :: split rest := by
  simp [split]

theorem split_cons_of_ne {c : Char} (h : c ≠ '.') {rest segment : List Char}
    {segments : List (List Char)} (hs : split rest = segment :: segments) :
    split (c :: rest) = (c :: segment) :: segments := by
  simp [split, h, hs]

theorem join_cons_of_ne_nil (segment : List Char) {segments : List (List Char)}
    (h : segments ≠ []) : join (segment :: segments) = segment ++ '.' :: join segments := by
  cases segments with
  | nil => exact absurd rfl h
  | cons _ _ => rfl

theorem join_cons_cons (c : Char) (segment : List Char) (segments : List (List Char)) :
    join ((c :: segment) :: segments) = c :: join (segment :: segments) := by
  cases segments <;> rfl

theorem join_split : ∀ text : List Char, join (split text) = text
  | [] => rfl
  | c :: rest => by
    by_cases h : c = '.'
    · subst h
      rw [split_cons_dot, join_cons_of_ne_nil _ (split_ne_nil rest), join_split rest]; rfl
    · cases hs : split rest with
      | nil => exact absurd hs (split_ne_nil rest)
      | cons segment segments =>
        rw [split_cons_of_ne h hs, join_cons_cons, ← hs, join_split rest]

theorem split_append_dot : ∀ (segment rest : List Char), '.' ∉ segment →
    split (segment ++ '.' :: rest) = segment :: split rest
  | [], rest, _ => split_cons_dot rest
  | c :: segment, rest, h => by
    have hc : c ≠ '.' := fun e => h (by simp [e])
    have hrest : '.' ∉ segment := fun m => h (List.mem_cons_of_mem _ m)
    exact split_cons_of_ne hc (split_append_dot segment rest hrest)

theorem split_of_dot_notMem : ∀ segment : List Char, '.' ∉ segment → split segment = [segment]
  | [], _ => rfl
  | c :: segment, h => by
    have hc : c ≠ '.' := fun e => h (by simp [e])
    have hrest : '.' ∉ segment := fun m => h (List.mem_cons_of_mem _ m)
    exact split_cons_of_ne hc (split_of_dot_notMem segment hrest)

theorem split_join : ∀ segments : List (List Char), segments ≠ [] →
    (∀ s ∈ segments, '.' ∉ s) → split (join segments) = segments
  | [], h, _ => absurd rfl h
  | [segment], _, h => split_of_dot_notMem segment (h segment (by simp))
  | segment :: next :: segments, _, h => by
    rw [join_cons_of_ne_nil _ (by simp), split_append_dot _ _ (h segment (by simp)),
      split_join (next :: segments) (by simp) (fun s hs => h s (List.mem_cons_of_mem _ hs))]

theorem dot_notMem_of_mem_split : ∀ (text : List Char) (s : List Char), s ∈ split text → '.' ∉ s
  | [], s, hs => by
    have : s = [] := by simpa [split] using hs
    simp [this]
  | c :: rest, s, hs => by
    by_cases h : c = '.'
    · subst h
      rw [split_cons_dot] at hs
      rcases List.mem_cons.1 hs with rfl | hs
      · simp
      · exact dot_notMem_of_mem_split rest s hs
    · cases e : split rest with
      | nil => exact absurd e (split_ne_nil rest)
      | cons segment segments =>
        rw [split_cons_of_ne h e] at hs
        rcases List.mem_cons.1 hs with rfl | hs
        · intro m
          rcases List.mem_cons.1 m with m | m
          · exact h m.symm
          · exact dot_notMem_of_mem_split rest segment (by simp [e]) m
        · exact dot_notMem_of_mem_split rest s (by simp [e, hs])

theorem subset_join : ∀ {segments : List (List Char)} {s : List Char}, s ∈ segments → s ⊆ join segments
  | [segment], s, hs => by
    obtain rfl := List.mem_singleton.1 hs
    exact List.Subset.refl _
  | segment :: next :: segments, s, hs => by
    rw [join_cons_of_ne_nil _ (List.cons_ne_nil _ _)]
    rcases List.mem_cons.1 hs with rfl | hs
    · exact List.subset_append_left _ _
    · exact fun c hc => List.mem_append_right _ (List.mem_cons_of_mem _ (subset_join hs hc))

theorem split_append : ∀ front back : List Char,
    split (front ++ '.' :: back) = split front ++ split back
  | [], back => split_cons_dot back
  | c :: front, back => by
    by_cases hc : c = '.'
    · subst hc
      rw [List.cons_append, split_cons_dot, split_cons_dot, split_append front back, List.cons_append]
    · obtain ⟨segment, segments, hs⟩ := List.exists_cons_of_ne_nil (split_ne_nil front)
      have happend : split (front ++ '.' :: back) = segment :: (segments ++ split back) := by
        rw [split_append front back, hs, List.cons_append]
      rw [List.cons_append, split_cons_of_ne hc hs, split_cons_of_ne hc happend, List.cons_append]

theorem join_append {front back : List (List Char)} (hfront : front ≠ []) (hback : back ≠ []) :
    join (front ++ back) = join front ++ '.' :: join back := by
  induction front with
  | nil => exact absurd rfl hfront
  | cons segment front ih =>
    by_cases h : front = []
    · subst h
      exact join_cons_of_ne_nil segment hback
    · have hne : front ++ back ≠ [] := List.append_ne_nil_of_left_ne_nil h back
      rw [List.cons_append, join_cons_of_ne_nil segment hne, ih h, join_cons_of_ne_nil segment h,
        List.append_assoc, List.cons_append]

/-- Segments that are neither empty nor dotted join to a well dotted text. -/
theorem wellDotted_join {segments : List (List Char)} (hne : segments ≠ [])
    (h : ∀ s ∈ segments, s ≠ [] ∧ '.' ∉ s) : WellDotted (join segments) := by
  intro s hs
  rw [split_join segments hne (fun s hs => (h s hs).2)] at hs
  exact (h s hs).1

end Dotted
end ImportAtlas
