import Mathlib.Data.List.Perm.Basic
import ImportAtlas.Cache.Store
/-!
# What a key tells

The key of a build is one flat text: the names of its packages in order, with commas between them, and
behind them a mark for each option that is set.  Builds of the same packages and options have the same
key, in whatever order the packages are named.

The way back needs names that cannot be taken for anything else (`Unmistakable`).  Nothing in a key is
quoted, so **a name with a comma in it reads as two names, and one that ends in a mark reads as a name
with an option** (`key_of_mistakable`): such builds share a data file though no digests collide.
Without such names a key can be read back (`key_tells`).
-/
namespace ImportAtlas
namespace Cache

/-- The name holds no comma and does not end in the mark of an option. -/
def Unmistakable (m : ModuleName) : Prop :=
  ',' ∉ m.text.toList ∧ ¬ externalMark.toList <:+ m.text.toList ∧
    ¬ noTypeCheckingMark.toList <:+ m.text.toList

instance (m : ModuleName) : Decidable (Unmistakable m) :=
  inferInstanceAs (Decidable (_ ∧ _ ∧ _))

/-- Two different keys have one digest. -/
def Collide (k k' : String) : Prop := k ≠ k' ∧ Digest.ofText k = Digest.ofText k'

section Reading

variable {packages packages' : List ModuleName} {external external' exclude exclude' : Bool}

/-! ## Marks -/

/-- What ends a row between commas, and holds no comma itself, ends one of its pieces. -/
theorem exists_suffix_of_intercalate {mark : List Char} (hne : mark ≠ []) (hcomma : ',' ∉ mark) :
    ∀ {pieces : List (List Char)}, mark <:+ [','].intercalate pieces → ∃ p ∈ pieces, mark <:+ p
  | [], h => absurd (List.suffix_nil.1 h) hne
  | [p], h => ⟨p, List.mem_singleton_self p, by simpa using h⟩
  | p :: q :: rest, h => by
    have hlater : mark <:+ [','].intercalate (q :: rest) → ∃ p' ∈ p :: q :: rest, mark <:+ p' := by
      intro hmark
      obtain ⟨p', hp', hmark⟩ := exists_suffix_of_intercalate hne hcomma hmark
      exact ⟨p', List.mem_cons_of_mem _ hp', hmark⟩
    rw [List.intercalate_cons_cons] at h
    rcases List.suffix_or_suffix_of_suffix h (List.suffix_append _ _) with hmark | ⟨front, hfront⟩
    · exact hlater hmark
    · -- The mark reaches into what is before the later pieces, and so to the comma.
      rw [← hfront, List.suffix_append_inj_of_length_eq rfl] at h
      rcases List.suffix_concat_iff.1 h.1 with rfl | ⟨front', rfl, -⟩
      · exact hlater ⟨[], hfront.symm⟩
      · rw [← hfront] at hcomma
        simp at hcomma

/-- A mark that ends neither text can be taken off. -/
theorem eq_of_append_mark {mark front front' : List Char} {on on' : Bool}
    (hfront : ¬ mark <:+ front) (hfront' : ¬ mark <:+ front')
    (h : front ++ (if on then mark else []) = front' ++ (if on' then mark else [])) :
    front = front' ∧ on = on' := by
  cases on <;> cases on' <;> simp only [Bool.false_eq_true, if_true, if_false, List.append_nil] at h
  · exact ⟨h, rfl⟩
  · exact absurd (h ▸ List.suffix_append _ _) hfront
  · exact absurd (h ▸ List.suffix_append _ _) hfront'
  · exact ⟨List.append_cancel_right h, rfl⟩

/-! ## Names -/

/-- The names of packages in order, with commas between them. -/
def row (packages : List ModuleName) : List Char :=
  [','].intercalate ((Text.sorted (packages.map (·.text))).map String.toList)

theorem toList_key : (key packages external exclude).toList =
    (row packages ++ if external then externalMark.toList else []) ++
      if exclude then noTypeCheckingMark.toList else [] := by
  have hmark : ∀ (on : Bool) (mark : String),
      (if on then mark else "").toList = if on then mark.toList else [] := by
    intro on mark
    cases on <;> rfl
  rw [key, String.toList_append, String.toList_append, String.toList_intercalate, hmark, hmark, row]
  rfl

theorem mem_pieces_iff {piece : List Char} :
    piece ∈ (Text.sorted (packages.map (·.text))).map String.toList ↔
      ∃ m ∈ packages, m.text.toList = piece := by
  simp only [List.mem_map, (Text.sorted_perm _).mem_iff]
  exact ⟨fun ⟨_, ⟨m, hm, htext⟩, hpiece⟩ => ⟨m, hm, htext ▸ hpiece⟩,
    fun ⟨m, hm, hpiece⟩ => ⟨m.text, ⟨m, hm, rfl⟩, hpiece⟩⟩

theorem not_suffix_row {mark : List Char} (hne : mark ≠ []) (hcomma : ',' ∉ mark)
    (h : ∀ m ∈ packages, ¬ mark <:+ m.text.toList) : ¬ mark <:+ row packages := by
  intro hrow
  obtain ⟨piece, hpiece, hmark⟩ := exists_suffix_of_intercalate hne hcomma hrow
  obtain ⟨m, hm, rfl⟩ := mem_pieces_iff.1 hpiece
  exact h m hm hmark

theorem splitOn_row (hcomma : ∀ m ∈ packages, ',' ∉ m.text.toList) (hne : packages ≠ []) :
    (row packages).splitOn ',' = (Text.sorted (packages.map (·.text))).map String.toList := by
  refine List.splitOn_intercalate _ (fun piece hpiece => ?_) fun hnil => ?_
  · obtain ⟨m, hm, rfl⟩ := mem_pieces_iff.1 hpiece
    exact hcomma m hm
  · obtain ⟨m, hm⟩ := List.exists_mem_of_ne_nil _ hne
    have hpiece := mem_pieces_iff.2 ⟨m, hm, rfl⟩
    rw [hnil] at hpiece
    exact List.not_mem_nil hpiece

theorem eq_nil_of_row (hcomma : ∀ m ∈ packages, ',' ∉ m.text.toList) (h : row packages = []) :
    packages = [] := by
  by_contra hne
  have hpieces := splitOn_row hcomma hne
  rw [h, List.splitOn_nil] at hpieces
  obtain ⟨m, -, hm⟩ := mem_pieces_iff.1 (hpieces ▸ List.mem_singleton_self [])
  exact m.wellDotted [] (by simp [hm, Dotted.split]) rfl

/-- **Names without commas can be read back from their row**, but for their order. -/
theorem perm_of_row_eq (hcomma : ∀ m ∈ packages, ',' ∉ m.text.toList)
    (hcomma' : ∀ m ∈ packages', ',' ∉ m.text.toList) (h : row packages = row packages') :
    packages.Perm packages' := by
  by_cases hnil : packages = []
  · subst hnil
    rw [eq_nil_of_row hcomma' h.symm]
  · have hnil' : packages' ≠ [] := by
      rintro rfl
      exact hnil (eq_nil_of_row hcomma h)
    have hpieces : (Text.sorted (packages.map (·.text))).map String.toList =
        (Text.sorted (packages'.map (·.text))).map String.toList := by
      rw [← splitOn_row hcomma hnil, h, splitOn_row hcomma' hnil']
    have hsorted := (List.map_inj_right fun _ _ => String.toList_inj.1).1 hpieces
    have htexts : (packages.map (·.text)).Perm (packages'.map (·.text)) :=
      (Text.sorted_perm _).symm.trans (hsorted ▸ Text.sorted_perm _)
    exact (List.map_perm_map_iff fun _ _ => ModuleName.ext_text).1 htexts

/-! ## Builds -/

theorem key_of_perm (h : packages.Perm packages') :
    key packages external exclude = key packages' external exclude := by
  rw [key, key, Text.sorted_eq_of_perm (h.map _)]

theorem eq_of_key_eq (hplain : ∀ m ∈ packages, Unmistakable m) (hplain' : ∀ m ∈ packages', Unmistakable m)
    (h : key packages external exclude = key packages' external' exclude') :
    packages.Perm packages' ∧ external = external' ∧ exclude = exclude' := by
  have hrow : ∀ {packages : List ModuleName}, (∀ m ∈ packages, Unmistakable m) →
      ¬ externalMark.toList <:+ row packages ∧ ¬ noTypeCheckingMark.toList <:+ row packages :=
    fun hplain => ⟨not_suffix_row (by decide) (by decide) fun m hm => (hplain m hm).2.1,
      not_suffix_row (by decide) (by decide) fun m hm => (hplain m hm).2.2⟩
  have hmarked : ∀ {packages : List ModuleName} {external : Bool}, (∀ m ∈ packages, Unmistakable m) →
      ¬ noTypeCheckingMark.toList <:+ row packages ++ if external then externalMark.toList else [] := by
    intro packages external hplain hmark
    cases external with
    | false => exact (hrow hplain).2 (by simpa using hmark)
    | true =>
      -- of two marks that end one text, one would end the other
      rcases List.suffix_or_suffix_of_suffix hmark (List.suffix_append _ _) with hends | hends
      · revert hends; decide
      · revert hends; decide
  have htext := congrArg String.toList h
  rw [toList_key, toList_key] at htext
  obtain ⟨hmarks, hexclude⟩ := eq_of_append_mark (hmarked hplain) (hmarked hplain') htext
  obtain ⟨hnames, hexternal⟩ := eq_of_append_mark (hrow hplain).1 (hrow hplain').1 hmarks
  have hperm := perm_of_row_eq (fun m hm => (hplain m hm).1) (fun m hm => (hplain' m hm).1) hnames
  exact ⟨hperm, hexternal, hexclude⟩

theorem digest_eq_of_fileNameOf_eq {k k' : String} (h : fileNameOf k = fileNameOf k') :
    Digest.ofText k = Digest.ofText k' := by
  rwa [fileNameOf, fileNameOf, String.append_left_inj] at h

/-- Whatever the names are, the options of the same packages can be told apart. -/
theorem options_of_key_eq (h : key packages external exclude = key packages external' exclude') :
    external = external' ∧ exclude = exclude' := by
  have hlength := congrArg (·.toList.length) h
  have hexternal : externalMark.toList.length = 9 := by decide
  have hexclude : noTypeCheckingMark.toList.length = 17 := by decide
  simp only [toList_key, List.length_append] at hlength
  cases external <;> cases external' <;> cases exclude <;> cases exclude' <;>
    simp [hexternal, hexclude] at hlength ⊢ <;> omega

/-- **A key tells the build**: builds of the same packages and options have the same key, and where no
name can be taken for anything else, no others have.  Then two builds share a data file only if they are
the same, or if the digests of two different keys collide. -/
theorem key_tells (hdistinct : packages.Nodup) (hdistinct' : packages'.Nodup) :
    ((∀ m, m ∈ packages ↔ m ∈ packages') ∧ external = external' ∧ exclude = exclude' →
      key packages external exclude = key packages' external' exclude') ∧
    ((∀ m ∈ packages ++ packages', Unmistakable m) →
      (key packages external exclude = key packages' external' exclude' →
        (∀ m, m ∈ packages ↔ m ∈ packages') ∧ external = external' ∧ exclude = exclude') ∧
      (fileNameOf (key packages external exclude) = fileNameOf (key packages' external' exclude') →
        ((∀ m, m ∈ packages ↔ m ∈ packages') ∧ external = external' ∧ exclude = exclude') ∨
          Collide (key packages external exclude) (key packages' external' exclude'))) := by
  have hsame := List.perm_ext_iff_of_nodup hdistinct hdistinct'
  refine ⟨?_, fun hplain => ?_⟩
  · rintro ⟨hmem, rfl, rfl⟩
    exact key_of_perm (hsame.2 hmem)
  · obtain ⟨hplain, hplain'⟩ := List.forall_mem_append.1 hplain
    have htells : key packages external exclude = key packages' external' exclude' →
        (∀ m, m ∈ packages ↔ m ∈ packages') ∧ external = external' ∧ exclude = exclude' := fun hkey =>
      (eq_of_key_eq hplain hplain' hkey).imp_left hsame.1
    refine ⟨htells, fun hfile => ?_⟩
    exact (Classical.em _).imp htells fun hkey => ⟨hkey, digest_eq_of_fileNameOf_eq hfile⟩

end Reading

/-- The order in which packages are named does not matter, and either option does. -/
theorem key_tells_blueGreen : ∃ blue green : ModuleName, blue.text = "blue" ∧ green.text = "green" ∧
    [blue, green].Nodup ∧ [green, blue].Nodup ∧ (∀ m ∈ [blue, green] ++ [green, blue], Unmistakable m) ∧
      key [blue, green] true false = key [green, blue] true false ∧
      key [blue, green] true false ≠ key [green, blue] false true := by
  let blue : ModuleName := ⟨"blue", by decide⟩
  let green : ModuleName := ⟨"green", by decide⟩
  have hdistinct : [blue, green].Nodup := by decide +kernel
  have hdistinct' : [green, blue].Nodup := by decide +kernel
  have hplain : ∀ m ∈ [blue, green] ++ [green, blue], Unmistakable m := by decide +kernel
  refine ⟨blue, green, rfl, rfl, hdistinct, hdistinct', hplain, ?_, fun hkey => ?_⟩
  · exact (key_tells hdistinct hdistinct').1 ⟨fun m => by simp [or_comm], rfl, rfl⟩
  · obtain ⟨-, hexternal, -⟩ := ((key_tells hdistinct hdistinct').2 hplain).1 hkey
    cases hexternal

/-- **Names that can be taken for more than a name make builds share a data file**: one name with a comma
in it and the two that it reads as, and a name that ends in a mark and the option that it reads as. -/
theorem key_of_mistakable : ∃ ab a b marked : ModuleName,
    ab.text = "a,b" ∧ a.text = "a" ∧ b.text = "b" ∧ marked.text = "a:external" ∧
      ab ∉ [a, b] ∧ key [ab] false false = key [a, b] false false ∧
      marked ∉ [a] ∧ key [marked] false false = key [a] true false :=
  ⟨⟨"a,b", by decide⟩, ⟨"a", by decide⟩, ⟨"b", by decide⟩, ⟨"a:external", by decide⟩,
    rfl, rfl, rfl, rfl, by decide +kernel, by decide +kernel, by decide +kernel, by decide +kernel⟩

end Cache
end ImportAtlas
