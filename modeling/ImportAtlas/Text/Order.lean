/-!
# Texts in order

Sorting by insertion, code point by code point.  Repetitions stay.
-/
namespace ImportAtlas
namespace Text

/-- Puts a text in front of the first that is not before it. -/
def place (a : String) : List String → List String
  | [] => [a]
  | b :: bs => if a ≤ b then a :: b :: bs else b :: place a bs

def sorted (texts : List String) : List String := texts.foldr place []

theorem place_perm (a : String) : ∀ bs : List String, (place a bs).Perm (a :: bs)
  | [] => .refl _
  | b :: bs => by
    unfold place
    split
    · exact .refl _
    · exact ((place_perm a bs).cons b).trans (.swap a b bs)

theorem sorted_perm : ∀ texts : List String, (sorted texts).Perm texts
  | [] => .refl _
  | a :: texts => (place_perm a (sorted texts)).trans ((sorted_perm texts).cons a)

theorem pairwise_place (a : String) : ∀ bs : List String, bs.Pairwise (· ≤ ·) →
    (place a bs).Pairwise (· ≤ ·)
  | [], _ => List.pairwise_singleton _ a
  | b :: bs, h => by
    unfold place
    obtain ⟨hb, hbs⟩ := List.pairwise_cons.1 h
    split
    · next hab =>
      refine List.pairwise_cons.2 ⟨fun c hc => ?_, h⟩
      rcases List.mem_cons.1 hc with rfl | hc
      · exact hab
      · exact String.le_trans hab (hb c hc)
    · next hab =>
      refine List.pairwise_cons.2 ⟨fun c hc => ?_, pairwise_place a bs hbs⟩
      rcases List.mem_cons.1 ((place_perm a bs).mem_iff.1 hc) with rfl | hc
      · exact (String.le_total _ _).resolve_left hab
      · exact hb c hc

/-- **Sorting sorts.** -/
theorem pairwise_sorted : ∀ texts : List String, (sorted texts).Pairwise (· ≤ ·)
  | [] => List.Pairwise.nil
  | a :: texts => pairwise_place a _ (pairwise_sorted texts)

/-- Sorting undoes any change of order. -/
theorem sorted_eq_of_perm {texts texts' : List String} (h : texts.Perm texts') :
    sorted texts = sorted texts' := by
  have hperm := (sorted_perm texts).trans (h.trans (sorted_perm texts').symm)
  exact hperm.eq_of_pairwise (fun _ _ _ _ => String.le_antisymm) (pairwise_sorted _) (pairwise_sorted _)

end Text
end ImportAtlas
