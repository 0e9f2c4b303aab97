import ImportAtlas.Import
/-!
# Names and what is beneath them

A text spells at most one name (`ofString?_eq_some_iff`), and the names a module sits beneath form a
line: of two of them, one is beneath the other (`comparable_of_isBeneath`).  That is why modules of
which neither contains the other can have nothing beneath them in common.

Sitting beneath is said on the text.  It is the same to have the other's segments and more
(`isBeneath_iff_segments`), or to come to the other by going from parent to parent
(`mem_ancestors_iff`).
-/
namespace ImportAtlas
namespace ModuleName

variable {a b m n p : ModuleName} {text : String} {k : Nat}

theorem ofString?_eq_some_iff : ofString? text = some a ↔ a.text = text := by
  constructor
  · intro h
    unfold ofString? at h
    split at h
    · rw [← Option.some.inj h]
    · cases h
  · rintro rfl
    exact dif_pos a.wellDotted

theorem parse_eq_ok_iff : parse text = .ok a ↔ a.text = text := by
  rw [← ofString?_eq_some_iff, parse]
  cases ofString? text <;> simp

/-- **Two names that a third is beneath are the same or one is beneath the other.** -/
theorem comparable_of_isBeneath (ha : n.IsBeneath a) (hb : n.IsBeneath b) : a.Overlaps b := by
  rcases Nat.lt_trichotomy a.text.toList.length b.text.toList.length with hlt | heq | hlt
  · have hle : (a.text.toList ++ ['.']).length ≤ b.text.toList.length := by
      rw [List.length_append, List.length_singleton]
      omega
    have hbn := (List.prefix_append b.text.toList ['.']).trans hb
    exact .inr (.inr (List.prefix_of_prefix_length_le ha hbn hle))
  · have hdots : (a.text.toList ++ ['.']).length = (b.text.toList ++ ['.']).length := by simp [heq]
    have hpre := List.prefix_of_prefix_length_le ha hb (Nat.le_of_eq hdots)
    have htext := List.append_cancel_right (hpre.eq_of_length hdots)
    exact .inl (ext_text (String.toList_inj.1 htext))
  · have hle : (b.text.toList ++ ['.']).length ≤ a.text.toList.length := by
      rw [List.length_append, List.length_singleton]
      omega
    have han := (List.prefix_append a.text.toList ['.']).trans ha
    exact .inr (.inl (List.prefix_of_prefix_length_le hb han hle))

theorem Overlaps.symm (h : a.Overlaps b) : b.Overlaps a :=
  h.imp Eq.symm Or.symm

theorem IsBeneath.trans (h : n.IsBeneath m) (hm : m.IsBeneath a) : n.IsBeneath a :=
  List.IsPrefix.trans hm ((List.prefix_append m.text.toList ['.']).trans h)

/-! ## Segments and ancestors -/

/-- **The two views of the hierarchy agree**: on the text and on the segments. -/
theorem isBeneath_iff_segments :
    n.IsBeneath a ↔ ∃ rest ≠ [], n.segments = a.segments ++ rest := by
  constructor
  · rintro ⟨back, htext⟩
    rw [List.append_assoc, List.singleton_append] at htext
    refine ⟨Dotted.split back, Dotted.split_ne_nil back, ?_⟩
    rw [segments, ← htext, Dotted.split_append, segments]
  · rintro ⟨rest, hrest, hsegments⟩
    refine ⟨Dotted.join rest, ?_⟩
    have htext : Dotted.join n.segments = n.text.toList := Dotted.join_split n.text.toList
    rw [hsegments, Dotted.join_append a.segments_ne_nil hrest, segments, Dotted.join_split] at htext
    rw [← htext, List.append_assoc, List.singleton_append]

theorem prefix_segments_iff : a.segments <+: n.segments ↔ n = a ∨ n.IsBeneath a := by
  rw [isBeneath_iff_segments]
  constructor
  · rintro ⟨rest, hsegments⟩
    by_cases hrest : rest = []
    · rw [hrest, List.append_nil] at hsegments
      exact .inl (segments_injective hsegments.symm)
    · exact .inr ⟨rest, hrest, hsegments.symm⟩
  · rintro (rfl | ⟨rest, -, hsegments⟩)
    · exact List.prefix_rfl
    · exact ⟨rest, hsegments.symm⟩

theorem overlaps_iff_front : a.Overlaps b ↔ b.segments <+: a.segments ∨ a.segments <+: b.segments := by
  rw [prefix_segments_iff, prefix_segments_iff]
  constructor
  · rintro (e | h | h)
    · exact .inl (.inl e)
    · exact .inl (.inr h)
    · exact .inr (.inr h)
  · rintro ((e | h) | e | h)
    · exact .inl e
    · exact .inr (.inl h)
    · exact .inl e.symm
    · exact .inr (.inr h)

theorem segments_append (m p : ModuleName) : (m.append p).segments = m.segments ++ p.segments :=
  segments_ofSegments _ _

theorem depth_lt_of_isBeneath (h : n.IsBeneath a) : a.depth < n.depth := by
  obtain ⟨rest, hrest, hsegments⟩ := isBeneath_iff_segments.1 h
  have hpos := List.length_pos_iff.2 hrest
  rw [depth, depth, hsegments, List.length_append]
  omega

theorem not_isBeneath_self (a : ModuleName) : ¬ a.IsBeneath a :=
  fun h => Nat.lt_irrefl _ (depth_lt_of_isBeneath h)

theorem segments_of_parent? (h : m.parent? = some p) : p.segments = m.segments.dropLast := by
  unfold parent? at h
  split at h
  · cases h
  · obtain rfl := Option.some.inj h
    exact segments_ofSegments _ _

/-- Going up leads to a front of the name. -/
theorem front_of_up : ∀ {k : Nat} {m : ModuleName}, m.up k = some a → a.segments <+: m.segments
  | 0, m, h => by
    obtain rfl := Option.some.inj h
    exact List.prefix_rfl
  | k + 1, m, h => by
    obtain ⟨p, hp, h⟩ := Option.bind_eq_some_iff.1 h
    have hparent : p.segments <+: m.segments := by
      rw [segments_of_parent? hp]
      exact List.dropLast_prefix _
    exact (front_of_up h).trans hparent

theorem parent?_eq_none_iff : m.parent? = none ↔ m.segments.dropLast = [] := by
  unfold parent?
  split <;> simp_all

theorem ancestors_of_parent? (h : m.parent? = some p) : m.ancestors = p :: p.ancestors := by
  rw [ancestors]
  split
  · next hnone => rw [h] at hnone; cases hnone
  · next hsome => rw [h] at hsome; cases hsome; rfl

theorem ancestors_of_parent?_eq_none (h : m.parent? = none) : m.ancestors = [] := by
  rw [ancestors]
  split
  · rfl
  · next hsome => rw [h] at hsome; cases hsome

/-- What is beneath `a` is a child of `a` or has a parent beneath `a`. -/
theorem isBeneath_iff_of_parent? (h : m.parent? = some p) : m.IsBeneath a ↔ a = p ∨ p.IsBeneath a := by
  have hp := segments_of_parent? h
  have hm : m.segments = p.segments ++ [m.segments.getLast m.segments_ne_nil] := by
    rw [hp, List.dropLast_concat_getLast]
  rw [isBeneath_iff_segments, isBeneath_iff_segments]
  constructor
  · rintro ⟨rest, hrest, hsegments⟩
    have hdrop : p.segments = a.segments ++ rest.dropLast := by
      rw [hp, hsegments, List.dropLast_append_of_ne_nil hrest]
    by_cases hr : rest.dropLast = []
    · rw [hr, List.append_nil] at hdrop
      exact .inl (segments_injective hdrop.symm)
    · exact .inr ⟨_, hr, hdrop⟩
  · rintro (rfl | ⟨rest, hrest, hsegments⟩)
    · exact ⟨_, List.cons_ne_nil _ _, hm⟩
    · rw [hsegments, List.append_assoc] at hm
      exact ⟨_, List.append_ne_nil_of_left_ne_nil hrest _, hm⟩

/-- **The ancestors of a name are the names it sits beneath.** -/
theorem mem_ancestors_iff (m : ModuleName) : a ∈ m.ancestors ↔ m.IsBeneath a := by
  cases h : m.parent? with
  | none =>
    rw [ancestors_of_parent?_eq_none h]
    refine ⟨fun ha => (List.not_mem_nil ha).elim, fun hbeneath => ?_⟩
    obtain ⟨rest, hrest, hsegments⟩ := isBeneath_iff_segments.1 hbeneath
    have hnil := parent?_eq_none_iff.1 h
    rw [hsegments, List.dropLast_append_of_ne_nil hrest] at hnil
    exact (a.segments_ne_nil (List.append_eq_nil_iff.1 hnil).1).elim
  | some p =>
    have := depth_parent? h
    rw [ancestors_of_parent? h, List.mem_cons, mem_ancestors_iff p, isBeneath_iff_of_parent? h]
termination_by m.depth

/-! ## Levels up -/

/-- There are as many levels to go up as there are segments above the last. -/
theorem up_eq_none_iff : ∀ {k : Nat} {m : ModuleName}, m.up k = none ↔ m.depth ≤ k
  | 0, m => by
    have hpos : 0 < m.depth := List.length_pos_iff.2 m.segments_ne_nil
    rw [up]
    simp [Nat.ne_of_gt hpos]
  | k + 1, m => by
    rw [up]
    cases h : m.parent? with
    | none =>
      have htop : m.segments.length - 1 = 0 := by
        rw [← List.length_dropLast, parent?_eq_none_iff.1 h, List.length_nil]
      rw [Option.bind_none, depth]
      simp only [true_iff]
      omega
    | some p =>
      rw [Option.bind_some, up_eq_none_iff, ← depth_parent? h, Nat.add_le_add_iff_right]

theorem depth_of_up : ∀ {k : Nat} {m : ModuleName}, m.up k = some a → a.depth + k = m.depth
  | 0, m, h => by
    obtain rfl := Option.some.inj h
    rfl
  | k + 1, m, h => by
    obtain ⟨p, hp, h⟩ := Option.bind_eq_some_iff.1 h
    rw [← depth_parent? hp, ← depth_of_up h, Nat.add_assoc]

/-- Going up takes segments off at the end. -/
theorem segments_of_up (h : m.up k = some a) : a.segments = m.segments.take (m.depth - k) := by
  have htake := List.prefix_iff_eq_take.1 (front_of_up h)
  rwa [← depth, ← Nat.add_sub_cancel a.depth k, depth_of_up h] at htake

end ModuleName
end ImportAtlas
