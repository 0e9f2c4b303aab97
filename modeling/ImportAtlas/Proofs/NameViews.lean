import ImportAtlas.Graph.Change
import ImportAtlas.Proofs.Package
import ImportAtlas.Proofs.Pattern
/-!
# Four views of the hierarchy

What is beneath a name can be told in four ways: from the bytes of the two names, from their segments,
by going from parent to parent, and with a pattern.

The bytes (`BytesBeneath`) are compared without a thought of characters: the other name's bytes come
first, and the next byte is a dot.  That is right because in UTF-8 a front of the bytes that is itself a
text is a front of the text (`prefix_utf8_iff`); a byte of a longer character is never taken for a dot.

A name without a star, and one more part behind it, is a pattern for the names that have the segments
of the name first and then what the part stands for (`fits_behind_iff`).

**All views agree on every two names, and on every open module of every graph** (`hierarchy_views_agree`).
-/
namespace ImportAtlas

/-! ## Bytes -/

namespace Text

/-- The bytes of a text in UTF-8. -/
def utf8 (text : List Char) : List UInt8 := text.flatMap String.utf8EncodeChar

theorem utf8_append (front back : List Char) : utf8 (front ++ back) = utf8 front ++ utf8 back :=
  List.flatMap_append

/-- **A front in bytes is a front in characters.** -/
theorem prefix_utf8_iff {front text : List Char} : utf8 front <+: utf8 text ↔ front <+: text := by
  constructor
  · rintro ⟨rest, hbytes⟩
    have hencoded : front.utf8Encode ++ rest.toByteArray = text.utf8Encode := by
      rw [List.utf8Encode, List.utf8Encode, ← List.toByteArray_append]
      exact congrArg List.toByteArray hbytes
    exact List.isPrefix_of_utf8Encode_append_eq_utf8Encode _ hencoded
  · rintro ⟨back, rfl⟩
    rw [utf8_append]
    exact List.prefix_append _ _

end Text

theorem prefix_concat_iff_next {α : Type} {front row : List α} {x : α} :
    front ++ [x] <+: row ↔ front.length < row.length ∧ front <+: row ∧ row[front.length]? = some x := by
  constructor
  · rintro ⟨rest, rfl⟩
    simp
  · rintro ⟨-, ⟨rest, rfl⟩, hnext⟩
    rw [List.getElem?_append_right (Nat.le_refl _), Nat.sub_self, ← List.head?_eq_getElem?] at hnext
    obtain ⟨more, rfl⟩ := List.head?_eq_some_iff.1 hnext
    exact ⟨more, by simp⟩

namespace ModuleName

open Text (utf8 utf8_append prefix_utf8_iff)

variable {a m p : ModuleName} {k : Nat}

def bytes (m : ModuleName) : List UInt8 := m.text.toUTF8.data.toList

theorem bytes_eq (m : ModuleName) : m.bytes = utf8 m.text.toList := by
  rw [bytes, String.toUTF8, ← String.utf8Encode_toList, List.utf8Encode, List.toList_data_toByteArray, utf8]

/-- The bytes of `m` are more than the other's, have them in front, and go on with a dot. -/
def BytesBeneath (m other : ModuleName) : Prop :=
  other.bytes.length < m.bytes.length ∧ other.bytes <+: m.bytes ∧
    m.bytes[other.bytes.length]? = some '.'.toUInt8

instance (m other : ModuleName) : Decidable (m.BytesBeneath other) :=
  inferInstanceAs (Decidable (_ ∧ _ ∧ _))

theorem bytesBeneath_iff : m.BytesBeneath a ↔ m.IsBeneath a := by
  have hdot : utf8 ['.'] = ['.'.toUInt8] := by decide
  rw [BytesBeneath, ← prefix_concat_iff_next, bytes_eq, bytes_eq, ← hdot, ← utf8_append, prefix_utf8_iff,
    IsBeneath]

/-! ## Levels -/

theorem isBeneath_iff_front : m.IsBeneath a ↔ a.segments <+: m.segments ∧ a.segments ≠ m.segments := by
  rw [prefix_segments_iff]
  constructor
  · intro h
    refine ⟨.inr h, fun e => ?_⟩
    obtain rfl := segments_injective e
    exact not_isBeneath_self a h
  · rintro ⟨rfl | h, hne⟩
    · exact absurd rfl hne
    · exact h

theorem isBeneath_iff_depth : m.IsBeneath a ↔ a.segments <+: m.segments ∧ a.depth < m.depth := by
  constructor
  · exact fun h => ⟨(isBeneath_iff_front.1 h).1, depth_lt_of_isBeneath h⟩
  · rintro ⟨hfront, hdepth⟩
    refine isBeneath_iff_front.2 ⟨hfront, fun e => ?_⟩
    rw [depth, depth, e] at hdepth
    omega

theorem up_eq_some_iff : m.up k = some a ↔ a.segments <+: m.segments ∧ a.depth + k = m.depth := by
  constructor
  · exact fun h => ⟨front_of_up h, depth_of_up h⟩
  · rintro ⟨hfront, hdepth⟩
    have hpos : 0 < a.depth := List.length_pos_iff.2 a.segments_ne_nil
    cases hup : m.up k with
    | none =>
      have := up_eq_none_iff.1 hup
      omega
    | some a' =>
      have htake := segments_of_up hup
      rw [← hdepth, Nat.add_sub_cancel] at htake
      have hsame : a'.segments = a.segments := htake.trans (List.prefix_iff_eq_take.1 hfront).symm
      rw [segments_injective hsame]

/-- One or more levels up from a name are the names it sits beneath. -/
theorem isBeneath_iff_up : m.IsBeneath a ↔ ∃ k, m.up (k + 1) = some a := by
  simp only [up_eq_some_iff]
  rw [isBeneath_iff_depth]
  constructor
  · rintro ⟨hfront, hdepth⟩
    exact ⟨m.depth - a.depth - 1, hfront, by omega⟩
  · rintro ⟨k, hfront, hdepth⟩
    exact ⟨hfront, by omega⟩

theorem parent?_eq_some_iff_depth : m.parent? = some p ↔ m.IsBeneath p ∧ m.depth = p.depth + 1 := by
  have hup : m.up 1 = m.parent? := Option.bind_fun_some _
  rw [← hup, up_eq_some_iff, isBeneath_iff_depth]
  constructor
  · rintro ⟨hfront, hdepth⟩
    exact ⟨⟨hfront, by omega⟩, hdepth.symm⟩
  · rintro ⟨⟨hfront, -⟩, hdepth⟩
    exact ⟨hfront, hdepth.symm⟩

theorem parent?_eq_some_iff_segments :
    m.parent? = some p ↔ ∃ last, m.segments = p.segments ++ [last] := by
  rw [parent?_eq_some_iff_depth, isBeneath_iff_segments, depth, depth]
  constructor
  · rintro ⟨⟨rest, -, hsegments⟩, hdepth⟩
    rw [hsegments, List.length_append, Nat.add_left_cancel_iff] at hdepth
    obtain ⟨last, rfl⟩ := List.length_eq_one_iff.1 hdepth
    exact ⟨last, hsegments⟩
  · rintro ⟨last, hsegments⟩
    exact ⟨⟨_, List.cons_ne_nil _ _, hsegments⟩, by rw [hsegments, List.length_append]; rfl⟩

/-- On the text, the parent is what is before the last dot. -/
theorem parent?_eq_some_iff_text : m.parent? = some p ↔
    ∃ last, '.' ∉ last ∧ m.text.toList = p.text.toList ++ '.' :: last := by
  rw [parent?_eq_some_iff_segments]
  constructor
  · rintro ⟨last, hsegments⟩
    have hlast : last ∈ m.segments := by
      rw [hsegments]
      exact List.mem_append_right _ (List.mem_singleton.2 rfl)
    have htext : Dotted.join m.segments = m.text.toList := Dotted.join_split _
    rw [hsegments, Dotted.join_append p.segments_ne_nil (List.cons_ne_nil _ _), segments,
      Dotted.join_split] at htext
    exact ⟨last, (isSegment_of_mem hlast).2, htext.symm⟩
  · rintro ⟨last, hdot, htext⟩
    exact ⟨last, by rw [segments, htext, Dotted.split_append, Dotted.split_of_dot_notMem last hdot, segments]⟩

end ModuleName

/-! ## Patterns behind a name -/

namespace Pattern

variable {m n : ModuleName} {last part : List Char} {block : List (List Char)} {text : String}

theorem standsFor_of_star_notMem (h : '*' ∉ part) : StandsFor part block ↔ block = [part] := by
  have hone : part ≠ ['*'] := fun e => h (e ▸ List.mem_cons_self)
  have hmore : part ≠ ['*', '*'] := fun e => h (e ▸ List.mem_cons_self)
  rw [StandsFor, if_neg hone, if_neg hmore]

/-- Names stand for themselves, one by one, and what is last for whatever is left. -/
theorem forall₂_standsFor_concat : ∀ {names : List (List Char)} {blocks : List (List (List Char))},
    (∀ name ∈ names, '*' ∉ name) → (List.Forall₂ StandsFor (names ++ [last]) blocks ↔
      ∃ block, StandsFor last block ∧ blocks = names.map ([·]) ++ [block])
  | [], blocks, _ => by
    rw [List.nil_append, List.forall₂_cons_left_iff]
    simp
  | name :: names, blocks, hnames => by
    obtain ⟨hname, hnames⟩ := List.forall_mem_cons.1 hnames
    rw [List.cons_append, List.forall₂_cons_left_iff]
    simp only [standsFor_of_star_notMem hname, forall₂_standsFor_concat hnames, List.map_cons,
      List.cons_append]
    constructor
    · rintro ⟨_, _, rfl, ⟨block, hblock, rfl⟩, rfl⟩
      exact ⟨block, hblock, rfl⟩
    · rintro ⟨block, hblock, rfl⟩
      exact ⟨_, _, rfl, ⟨block, hblock, rfl⟩, rfl⟩

theorem star_notMem_of_mem_segments (hstar : '*' ∉ m.text.toList) : ∀ name ∈ m.segments, '*' ∉ name := by
  intro name hname hmem
  have htext : Dotted.join m.segments = m.text.toList := Dotted.join_split _
  exact hstar (htext ▸ Dotted.subset_join hname hmem)

/-- A name and one more part. -/
theorem split_behind (hdot : '.' ∉ last) (htext : text.toList = m.text.toList ++ '.' :: last) :
    Dotted.split text.toList = m.segments ++ [last] := by
  rw [htext, Dotted.split_append, Dotted.split_of_dot_notMem last hdot, ModuleName.segments]

theorem isPattern_behind (hstar : '*' ∉ m.text.toList) (hdot : '.' ∉ last)
    (htext : text.toList = m.text.toList ++ '.' :: last) (hlast : IsPart last) : IsPattern text := by
  have hnames := star_notMem_of_mem_segments hstar
  have hplain : ∀ name ∈ m.segments, name ≠ ['*', '*'] :=
    fun name hname e => hnames name hname (e ▸ List.mem_cons_self)
  rw [IsPattern, split_behind hdot htext]
  refine ⟨fun part hpart => ?_, List.Pairwise.isChain (List.pairwise_append.2 ⟨?_, ?_, ?_⟩)⟩
  · rcases List.mem_append.1 hpart with hpart | hpart
    · exact .inr (.inr ⟨(ModuleName.isSegment_of_mem hpart).1, hnames part hpart⟩)
    · exact List.mem_singleton.1 hpart ▸ hlast
  · exact List.pairwise_of_forall_mem_list fun name hname _ _ h => hplain name hname h.1
  · exact List.pairwise_singleton _ _
  · exact fun name hname _ _ h => hplain name hname h.1

/-- **A part behind a name stands for what comes behind the name.** -/
theorem fits_behind_iff (hstar : '*' ∉ m.text.toList) (hdot : '.' ∉ last)
    (htext : text.toList = m.text.toList ++ '.' :: last) :
    Fits text n ↔ ∃ block, StandsFor last block ∧ n.segments = m.segments ++ block := by
  rw [Fits, split_behind hdot htext]
  simp only [forall₂_standsFor_concat (star_notMem_of_mem_segments hstar)]
  have hflatten (block : List (List Char)) :
      (m.segments.map ([·]) ++ [block]).flatten = m.segments ++ block := by
    rw [List.flatten_append, ← List.flatMap_def, List.flatMap_singleton', List.flatten_singleton]
  constructor
  · rintro ⟨_, hsegments, block, hblock, rfl⟩
    exact ⟨block, hblock, hsegments.symm.trans (hflatten block)⟩
  · rintro ⟨block, hblock, hsegments⟩
    exact ⟨_, (hflatten block).trans hsegments.symm, block, hblock, rfl⟩

theorem fits_star_iff (hstar : '*' ∉ m.text.toList) : Fits (m.text ++ ".*") n ↔ n.parent? = some m := by
  rw [fits_behind_iff hstar (by decide) String.toList_append, ModuleName.parent?_eq_some_iff_segments]
  constructor
  · rintro ⟨block, hone, hsegments⟩
    obtain ⟨last, rfl⟩ := List.length_eq_one_iff.1 hone
    exact ⟨last, hsegments⟩
  · rintro ⟨last, hsegments⟩
    exact ⟨[last], rfl, hsegments⟩

theorem fits_stars_iff (hstar : '*' ∉ m.text.toList) : Fits (m.text ++ ".**") n ↔ n.IsBeneath m := by
  rw [fits_behind_iff hstar (by decide) String.toList_append, ModuleName.isBeneath_iff_segments]
  rfl

end Pattern

namespace Graph

open Pattern

/-- **All views of the hierarchy agree.**  One name sits beneath another by its text exactly if it does by
its bytes, exactly if its segments begin with the other's and go on, and exactly if one or more steps from
parent to parent lead to the other.  In a graph, the modules beneath an open module with no star in its name
are those that match the name with `**` behind it, its children are those that match the name with `*`
behind it, and both are what the names alone say. -/
theorem hierarchy_views_agree :
    (∀ a b : ModuleName,
      (b.BytesBeneath a ↔ b.IsBeneath a) ∧
      (b.BytesBeneath a ↔ a.segments <+: b.segments ∧ a.segments ≠ b.segments) ∧
      (b.BytesBeneath a ↔ ∃ k, b.up (k + 1) = some a)) ∧
    ∀ (g : Graph) (m : ModuleName), m ∈ g.modules → g.isSquashed m = false → '*' ∉ m.text.toList →
      ∃ below children,
        g.descendants m.text = .ok below ∧ g.matchingModules (m.text ++ ".**") = .ok below ∧
        g.children m.text = .ok children ∧ g.matchingModules (m.text ++ ".*") = .ok children ∧
        (∀ n, n ∈ below ↔ n ∈ g.modules ∧ n.BytesBeneath m) ∧
        ∀ n, n ∈ children ↔ n ∈ g.modules ∧ n.IsChildOf m := by
  refine ⟨fun a b => ?_, fun g m hm hopen hstar => ?_⟩
  · rw [ModuleName.bytesBeneath_iff]
    exact ⟨Iff.rfl, ModuleName.isBeneath_iff_front, ModuleName.isBeneath_iff_up⟩
  · have hbelow (n : ModuleName) : n ∈ NameSet.ofList (g.beneath m) ↔ n ∈ g.modules ∧ n.IsBeneath m := by
      rw [NameSet.mem_ofList, mem_beneath]
    have hchildren (n : ModuleName) : n ∈ g.childrenOf m ↔ n ∈ g.modules ∧ n.IsChildOf m := by
      rw [mem_childrenOf, ModuleName.IsChildOf, ModuleName.parent?_eq_some_iff_depth]
    refine ⟨_, _, descendants_text hm hopen, matchingModules_eq_ok_iff.2 ⟨?_, fun n => ?_⟩,
      children_text hm hopen, matchingModules_eq_ok_iff.2 ⟨?_, fun n => ?_⟩, fun n => ?_, hchildren⟩
    · exact isPattern_behind hstar (by decide) String.toList_append (.inr (.inl rfl))
    · rw [hbelow, fits_stars_iff hstar]
    · exact isPattern_behind hstar (by decide) String.toList_append (.inl rfl)
    · rw [hchildren, fits_star_iff hstar, ModuleName.IsChildOf]
    · rw [hbelow, ModuleName.bytesBeneath_iff]

/-- A package whose name takes two bytes, a level that nobody added, and names that only begin alike. -/
def accented : Graph :=
  ofEdits [.addModule "é" false, .addModule "é.b" false, .addImport "é.c.d" "éa", .addModule "é-b.c" true]

theorem hierarchy_views_agree_accented :
    ∃ (m b d a : ModuleName) (below children : NameSet),
      Reachable accented ∧ m.text = "é" ∧ b.text = "é.b" ∧ d.text = "é.c.d" ∧ a.text = "éa" ∧
      m ∈ accented.modules ∧ accented.isSquashed m = false ∧ '*' ∉ m.text.toList ∧
      (∃ k, d.up (k + 1) = some m) ∧ ¬ a.BytesBeneath m ∧
      accented.descendants "é" = .ok below ∧ accented.matchingModules "é.**" = .ok below ∧
      accented.children "é" = .ok children ∧ accented.matchingModules "é.*" = .ok children ∧
      b ∈ below ∧ d ∈ below ∧ a ∉ below ∧ b ∈ children ∧ d ∉ children := by
  let m : ModuleName := ⟨"é", by decide⟩
  let b : ModuleName := ⟨"é.b", by decide⟩
  let d : ModuleName := ⟨"é.c.d", by decide⟩
  let a : ModuleName := ⟨"éa", by decide⟩
  have hm : m ∈ accented.modules := by decide +kernel
  have hb : b ∈ accented.modules := by decide +kernel
  have hd : d ∈ accented.modules := by decide +kernel
  have hopen : accented.isSquashed m = false := by decide +kernel
  have hstar : '*' ∉ m.text.toList := by decide
  have hbm : b.BytesBeneath m := by decide +kernel
  have hdm : d.BytesBeneath m := by decide +kernel
  have ham : ¬ a.BytesBeneath m := by decide +kernel
  obtain ⟨hnames, hgraphs⟩ := hierarchy_views_agree
  obtain ⟨below, children, hdescendants, hstars, hchildren, hone, hmem, hchild⟩ :=
    hgraphs accented m hm hopen hstar
  refine ⟨m, b, d, a, below, children, ⟨_, rfl⟩, rfl, rfl, rfl, rfl, hm, hopen, hstar,
    (hnames m d).2.2.1 hdm, ham, hdescendants, hstars, hchildren, hone, (hmem b).2 ⟨hb, hbm⟩,
    (hmem d).2 ⟨hd, hdm⟩, fun h => ham ((hmem a).1 h).2, (hchild b).2 ⟨hb, by decide +kernel⟩,
    fun h => ?_⟩
  have hnot : ¬ d.IsChildOf m := by decide +kernel
  exact hnot ((hchild d).1 h).2

end Graph
end ImportAtlas
