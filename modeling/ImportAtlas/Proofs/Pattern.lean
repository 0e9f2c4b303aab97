import Mathlib.Data.List.Chain
import Mathlib.Data.List.Forall2
import Mathlib.Data.String.Basic
import ImportAtlas.Pattern
import ImportAtlas.Proofs.Answer
/-!
# What patterns match

A pattern is cut at its dots, and each part stands for a run of segments: a star for one, two stars for
one or more, a name for itself.  `Fits` says so on the text alone, with one block of segments for each
part, and `matchesAll` decides it by trying how much each `**` takes (`matchesAll_iff`,
`isMatch_iff_fits`).  `IsPattern` says which texts are read at all.

A pattern for imports is divided at the first arrow in it (`cut_eq_some_iff`), so whatever comes behind
that arrow belongs to the imported end, another arrow too.

**Every text is either refused or answered with exactly what fits it** (`matching_iff_fits`).
-/
namespace ImportAtlas
namespace Pattern

/-- A part is a star, two stars, or a name without a star. -/
def IsPart (part : List Char) : Prop := part = ['*'] ∨ part = ['*', '*'] ∨ (part ≠ [] ∧ '*' ∉ part)

/-- Every part of the text is one, and no two neighbours are both `**`. -/
def IsPattern (text : String) : Prop :=
  (∀ part ∈ Dotted.split text.toList, IsPart part) ∧
    (Dotted.split text.toList).IsChain fun a b => ¬ (a = ['*', '*'] ∧ b = ['*', '*'])

/-- What a part stands for: one segment, any run of them that is not empty, or the segment it is. -/
def StandsFor (part : List Char) (block : List (List Char)) : Prop :=
  if part = ['*'] then block.length = 1
  else if part = ['*', '*'] then block ≠ []
  else block = [part]

/-- The segments of the name can be cut into blocks, one for each part of the text in order. -/
def Fits (text : String) (m : ModuleName) : Prop :=
  ∃ blocks, blocks.flatten = m.segments ∧ List.Forall₂ StandsFor (Dotted.split text.toList) blocks

/-- The first arrow in the text divides it into `before` and `after`. -/
structure Divided (text before after : String) : Prop where
  eq : text = before ++ " -> " ++ after
  first : ∀ before' after', text = before' ++ " -> " ++ after' → before.length ≤ before'.length

variable {part : Part} {parts : List Part} {segment : List Char} {segments : List (List Char)}
variable {text : String}

/-! ## Matching -/

theorem matches_nil_iff : Matches [] segments ↔ segments = [] := by
  constructor
  · intro h
    cases h
    rfl
  · rintro rfl
    exact .nil

theorem matches_cons_iff : Matches (part :: parts) segments ↔
    ∃ block rest, segments = block ++ rest ∧ part.Covers block ∧ Matches parts rest := by
  constructor
  · intro h
    cases h with
    | cons hcovers hrest => exact ⟨_, _, rfl, hcovers, hrest⟩
  · rintro ⟨block, rest, rfl, hcovers, hrest⟩
    exact .cons hcovers hrest

/-- No part stands for nothing. -/
theorem not_matches_cons_nil : ¬ Matches (part :: parts) [] := by
  rw [matches_cons_iff]
  rintro ⟨block, rest, hnil, hcovers, -⟩
  obtain rfl : block = [] := (List.append_eq_nil_iff.1 hnil.symm).1
  cases part with
  | name expected => cases hcovers
  | one => cases hcovers
  | oneOrMore => exact hcovers rfl

theorem matches_name_cons_iff {expected : List Char} :
    Matches (.name expected :: parts) (segment :: segments) ↔
      expected = segment ∧ Matches parts segments := by
  rw [matches_cons_iff]
  constructor
  · rintro ⟨block, rest, hrow, rfl, hrest⟩
    obtain ⟨rfl, rfl⟩ := List.cons.inj hrow
    exact ⟨rfl, hrest⟩
  · rintro ⟨rfl, hrest⟩
    exact ⟨[expected], segments, rfl, rfl, hrest⟩

theorem matches_one_cons_iff :
    Matches (.one :: parts) (segment :: segments) ↔ Matches parts segments := by
  rw [matches_cons_iff]
  constructor
  · rintro ⟨block, rest, hrow, hone, hrest⟩
    obtain ⟨only, rfl⟩ := List.length_eq_one_iff.1 hone
    obtain ⟨-, rfl⟩ := List.cons.inj hrow
    exact hrest
  · exact fun hrest => ⟨[segment], segments, rfl, rfl, hrest⟩

/-- `**` takes a segment, and then it is done or goes on. -/
theorem matches_oneOrMore_cons_iff : Matches (.oneOrMore :: parts) (segment :: segments) ↔
    Matches parts segments ∨ Matches (.oneOrMore :: parts) segments := by
  rw [matches_cons_iff, matches_cons_iff]
  constructor
  · rintro ⟨block, rest, hrow, hne, hrest⟩
    obtain ⟨first, more, rfl⟩ := List.exists_cons_of_ne_nil hne
    obtain ⟨-, rfl⟩ := List.cons.inj hrow
    by_cases hmore : more = []
    · rw [hmore]
      exact .inl hrest
    · exact .inr ⟨more, rest, rfl, hmore, hrest⟩
  · rintro (hrest | ⟨block, rest, rfl, -, hrest⟩)
    · exact ⟨[segment], segments, rfl, List.cons_ne_nil _ _, hrest⟩
    · exact ⟨segment :: block, rest, rfl, List.cons_ne_nil _ _, hrest⟩

/-- **Trying how much each `**` takes decides what a pattern means.** -/
theorem matchesAll_iff : matchesAll parts segments = true ↔ Matches parts segments := by
  fun_induction matchesAll parts segments with
  | case1 segments => rw [List.isEmpty_iff, matches_nil_iff]
  | case2 part parts => simp only [Bool.false_eq_true, not_matches_cons_nil]
  | case3 expected parts segment segments ih =>
    rw [Bool.and_eq_true, decide_eq_true_eq, ih, matches_name_cons_iff]
  | case4 parts segment segments ih => rw [ih, matches_one_cons_iff]
  | case5 parts segment segments ihdone ihmore =>
    rw [Bool.or_eq_true, ihdone, ihmore, matches_oneOrMore_cons_iff]

/-- What is cut part by part is cut into blocks. -/
theorem matches_iff_blocks : Matches parts segments ↔
    ∃ blocks, blocks.flatten = segments ∧ List.Forall₂ Part.Covers parts blocks := by
  constructor
  · intro h
    induction h with
    | nil => exact ⟨[], rfl, .nil⟩
    | @cons part parts block rest hcovers _ ih =>
      obtain ⟨blocks, rfl, hblocks⟩ := ih
      exact ⟨block :: blocks, List.flatten_cons, .cons hcovers hblocks⟩
  · rintro ⟨blocks, rfl, hblocks⟩
    induction hblocks with
    | nil => exact .nil
    | cons hcovers _ ih =>
      rw [List.flatten_cons]
      exact .cons hcovers ih

/-! ## Reading -/

/-- What is read from the text of a part. -/
def partOf (text : List Char) : Part :=
  if text = ['*'] then .one else if text = ['*', '*'] then .oneOrMore else .name text

theorem covers_partOf {text : List Char} {block : List (List Char)} :
    (partOf text).Covers block ↔ StandsFor text block := by
  unfold partOf StandsFor
  split
  · rfl
  split <;> rfl

theorem partOf_eq_oneOrMore_iff {text : List Char} : partOf text = .oneOrMore ↔ text = ['*', '*'] := by
  unfold partOf
  split
  · next h => simp [h]
  split <;> simp_all

theorem isPart_of_ofText? {text : List Char} (h : Part.ofText? text = some part) : IsPart text := by
  unfold Part.ofText? at h
  split at h
  · cases h
  · next hnil =>
    split at h
    · next hone => exact .inl hone
    split at h
    · next hmore => exact .inr (.inl hmore)
    split at h
    · cases h
    · next hstar => exact .inr (.inr ⟨hnil, hstar⟩)

theorem ofText?_of_isPart {text : List Char} (h : IsPart text) :
    Part.ofText? text = some (partOf text) := by
  rcases h with rfl | rfl | ⟨hnil, hstar⟩
  · rfl
  · rfl
  · have hone : text ≠ ['*'] := fun e => hstar (e ▸ List.mem_cons_self)
    have hmore : text ≠ ['*', '*'] := fun e => hstar (e ▸ List.mem_cons_self)
    rw [Part.ofText?, if_neg hnil, if_neg hone, if_neg hmore, if_neg hstar, partOf, if_neg hone,
      if_neg hmore]

theorem ofText?_eq_some_iff {text : List Char} :
    Part.ofText? text = some part ↔ IsPart text ∧ part = partOf text := by
  constructor
  · intro h
    have hpart := isPart_of_ofText? h
    rw [ofText?_of_isPart hpart] at h
    exact ⟨hpart, (Option.some.inj h).symm⟩
  · rintro ⟨hpart, rfl⟩
    exact ofText?_of_isPart hpart

theorem mapM_ofText?_eq_some_iff : ∀ {texts : List (List Char)} {parts : List Part},
    texts.mapM Part.ofText? = some parts ↔ (∀ text ∈ texts, IsPart text) ∧ parts = texts.map partOf
  | [], parts => by simp [eq_comm]
  | text :: texts, parts => by
    simp only [List.mapM_cons, Option.bind_eq_bind, Option.bind_eq_some_iff, ofText?_eq_some_iff,
      mapM_ofText?_eq_some_iff, Option.pure_def, Option.some.injEq, List.forall_mem_cons, List.map_cons]
    constructor
    · rintro ⟨_, ⟨htext, rfl⟩, _, ⟨htexts, rfl⟩, rfl⟩
      exact ⟨⟨htext, htexts⟩, rfl⟩
    · rintro ⟨⟨htext, htexts⟩, rfl⟩
      exact ⟨_, ⟨htext, rfl⟩, _, ⟨htexts, rfl⟩, rfl⟩

theorem spaced_cons_cons {next : Part} : Spaced (part :: next :: parts) ↔
    ¬ (part = .oneOrMore ∧ next = .oneOrMore) ∧ Spaced (next :: parts) := by
  cases part <;> cases next <;> simp [Spaced]

theorem spaced_iff_isChain : ∀ {parts : List Part},
    Spaced parts ↔ parts.IsChain fun a b => ¬ (a = .oneOrMore ∧ b = .oneOrMore)
  | [] => by simp [Spaced]
  | [part] => by cases part <;> simp [Spaced]
  | part :: next :: parts => by rw [List.isChain_cons_cons, spaced_cons_cons, spaced_iff_isChain]

end Pattern

open Pattern

/-- **A text is read as a pattern exactly if it is one**, part by part. -/
theorem ModulePattern.ofString?_eq_some_iff {text : String} {p : ModulePattern} :
    ofString? text = some p ↔ IsPattern text ∧ p = ⟨text, (Dotted.split text.toList).map partOf⟩ := by
  have hspaced : Spaced ((Dotted.split text.toList).map partOf) ↔
      (Dotted.split text.toList).IsChain fun a b => ¬ (a = ['*', '*'] ∧ b = ['*', '*']) := by
    rw [spaced_iff_isChain, List.isChain_map]
    simp only [partOf_eq_oneOrMore_iff]
  simp only [ofString?, Option.bind_eq_bind, Option.bind_eq_some_iff, mapM_ofText?_eq_some_iff,
    Option.ite_none_right_eq_some, Option.some.injEq]
  constructor
  · rintro ⟨_, ⟨hparts, rfl⟩, hchain, rfl⟩
    exact ⟨⟨hparts, hspaced.1 hchain⟩, rfl⟩
  · rintro ⟨⟨hparts, hchain⟩, rfl⟩
    exact ⟨_, ⟨hparts, rfl⟩, hspaced.2 hchain, rfl⟩

theorem ModulePattern.exists_ofString?_iff {text : String} :
    (∃ p, ofString? text = some p) ↔ IsPattern text := by
  simp only [ofString?_eq_some_iff, exists_and_left, exists_eq, and_true]

/-- **What a pattern matches is what fits its text.** -/
theorem ModulePattern.isMatch_iff_fits {text : String} {p : ModulePattern} (h : ofString? text = some p)
    (m : ModuleName) : p.isMatch m = true ↔ Fits text m := by
  obtain ⟨-, rfl⟩ := ofString?_eq_some_iff.1 h
  rw [isMatch, matchesAll_iff, matches_iff_blocks]
  simp only [List.forall₂_map_left_iff, covers_partOf]
  rfl

/-! ## Arrows -/

namespace ImportPattern

/-- The first occurrence of the mark in the text has `before` before it and `after` behind it. -/
structure CutAt (mark text before after : List Char) : Prop where
  eq : text = before ++ mark ++ after
  first : ∀ before' after', text = before' ++ mark ++ after' → before.length ≤ before'.length

section Cut

variable {mark text before after tail rest : List Char} {c : Char}

theorem cutAt_append_iff : CutAt mark (mark ++ tail) before after ↔ before = [] ∧ after = tail := by
  constructor
  · rintro ⟨heq, hfirst⟩
    have hnil : before = [] := List.length_eq_zero_iff.1 (Nat.le_zero.1 (hfirst [] tail rfl))
    subst hnil
    exact ⟨rfl, (List.append_cancel_left heq).symm⟩
  · rintro ⟨rfl, rfl⟩
    exact ⟨rfl, fun _ _ _ => Nat.zero_le _⟩

/-- A text that does not begin with the mark is cut where the rest of it is. -/
theorem cutAt_cons_iff (h : ¬ mark <+: c :: rest) : CutAt mark (c :: rest) before after ↔
    ∃ front, before = c :: front ∧ CutAt mark rest front after := by
  constructor
  · rintro ⟨heq, hfirst⟩
    cases before with
    | nil => exact absurd ⟨after, heq.symm⟩ h
    | cons c' front =>
      obtain ⟨rfl, rfl⟩ := List.cons.inj heq
      refine ⟨front, rfl, rfl, fun before' after' hrest => Nat.le_of_succ_le_succ ?_⟩
      exact hfirst (c :: before') after' (congrArg (c :: ·) hrest)
  · rintro ⟨front, rfl, rfl, hfirst⟩
    refine ⟨rfl, fun before' after' heq => ?_⟩
    cases before' with
    | nil => exact absurd ⟨after', heq.symm⟩ h
    | cons c' before' => exact Nat.succ_le_succ (hfirst before' after' (List.cons.inj heq).2)

/-- **A text is cut at the first occurrence of the mark.** -/
theorem cut_eq_some_iff : ∀ {text before after : List Char},
    cut mark text = some (before, after) ↔ CutAt mark text before after
  | [], before, after => by
    unfold cut
    split
    · next hmark =>
      subst hmark
      rw [Option.some.injEq, Prod.mk.injEq, eq_comm, @eq_comm _ [] after]
      exact cutAt_append_iff.symm
    · next hmark =>
      refine iff_of_false (Option.some_ne_none _).symm fun h => hmark ?_
      exact (List.append_eq_nil_iff.1 (List.append_eq_nil_iff.1 h.eq.symm).1).2
  | c :: rest, before, after => by
    unfold cut
    split
    · next hprefix =>
      obtain ⟨tail, htail⟩ := hprefix
      rw [← htail, List.drop_left, cutAt_append_iff, Option.some.injEq, Prod.mk.injEq, eq_comm,
        @eq_comm _ tail after]
    · next hprefix =>
      rw [cutAt_cons_iff hprefix]
      simp only [Option.map_eq_some_iff, Prod.exists, Prod.mk.injEq, cut_eq_some_iff]
      constructor
      · rintro ⟨front, _, hcut, rfl, rfl⟩
        exact ⟨front, rfl, hcut⟩
      · rintro ⟨front, rfl, hcut⟩
        exact ⟨front, after, hcut, rfl, rfl⟩

end Cut

theorem eq_arrow_iff {text before after : String} : text = before ++ " -> " ++ after ↔
    text.toList = before.toList ++ arrow ++ after.toList := by
  rw [← String.toList_inj, String.toList_append, String.toList_append]
  rfl

theorem divided_iff {text before after : String} : Divided text before after ↔
    cut arrow text.toList = some (before.toList, after.toList) := by
  rw [cut_eq_some_iff]
  constructor
  · rintro ⟨heq, hfirst⟩
    refine ⟨eq_arrow_iff.1 heq, fun before' after' h => ?_⟩
    have hle := hfirst (.ofList before') (.ofList after')
      (eq_arrow_iff.2 (by rw [String.toList_ofList, String.toList_ofList, h]))
    rwa [← String.length_toList, ← String.length_toList, String.toList_ofList] at hle
  · rintro ⟨heq, hfirst⟩
    refine ⟨eq_arrow_iff.2 heq, fun before' after' h => ?_⟩
    rw [← String.length_toList, ← String.length_toList]
    exact hfirst _ _ (eq_arrow_iff.1 h)

/-- What comes behind the first arrow is the imported end, even if there is an arrow in it. -/
example : Divided "a -> b -> c" "a" "b -> c" := divided_iff.2 (by decide)

end ImportPattern

/-- The first arrow is in one place. -/
theorem Pattern.Divided.unique {text before after before' after' : String}
    (h : Divided text before after) (h' : Divided text before' after') :
    before = before' ∧ after = after' := by
  rw [ImportPattern.divided_iff] at h h'
  rw [h, Option.some.injEq, Prod.mk.injEq, String.toList_inj, String.toList_inj] at h'
  exact h'

/-- **A pattern for imports is a pattern on both sides of the first arrow.** -/
theorem ImportPattern.ofString?_eq_some_iff {text : String} {p : ImportPattern} : ofString? text = some p ↔
    ∃ before after, Divided text before after ∧ ModulePattern.ofString? before = some p.importer ∧
      ModulePattern.ofString? after = some p.imported := by
  obtain ⟨importer, imported⟩ := p
  simp only [ofString?, Option.bind_eq_bind, Option.bind_eq_some_iff, Option.pure_def,
    Option.some.injEq, ImportPattern.mk.injEq, divided_iff]
  constructor
  · rintro ⟨⟨before, after⟩, hcut, _, hbefore, _, hafter, rfl, rfl⟩
    exact ⟨.ofList before, .ofList after, by rw [String.toList_ofList, String.toList_ofList, hcut],
      hbefore, hafter⟩
  · rintro ⟨before, after, hcut, hbefore, hafter⟩
    refine ⟨(before.toList, after.toList), hcut, importer, ?_, imported, ?_, rfl, rfl⟩
    · rw [String.ofList_toList, hbefore]
    · rw [String.ofList_toList, hafter]

/-! ## Answers -/

/-- By the importer, and for one importer by what it imports. -/
def Import.Earlier (i j : Import) : Prop :=
  i.importer.text < j.importer.text ∨ (i.importer = j.importer ∧ i.imported.text < j.imported.text)

theorem Import.earlier_of_compare {i j : Import} (h : compare i j = .lt) : i.Earlier j := by
  rcases Ordering.then_eq_lt.1 h with himporter | ⟨himporter, himported⟩
  · exact .inl (compare_lt_iff_lt.1 himporter)
  · exact .inr ⟨ModuleName.eq_of_compare_eq himporter, compare_lt_iff_lt.1 himported⟩

theorem ModulePattern.parse_eq_ok_iff {text : String} {p : ModulePattern} :
    parse text = .ok p ↔ ofString? text = some p := by
  rw [parse]
  cases ofString? text <;> simp

theorem ImportPattern.parse_eq_ok_iff {text : String} {p : ImportPattern} :
    parse text = .ok p ↔ ofString? text = some p := by
  rw [parse]
  cases ofString? text <;> simp

namespace Graph

variable {g : Graph} {text : String}

/-- The modules that match a pattern are those that fit its text. -/
theorem matchingModules_eq_ok_iff {found : NameSet} : g.matchingModules text = .ok found ↔
    IsPattern text ∧ ∀ m, m ∈ found ↔ m ∈ g.modules ∧ Fits text m := by
  have hfits {p : ModulePattern} (h : ModulePattern.ofString? text = some p) (m : ModuleName) :
      m ∈ NameSet.ofList (g.moduleList.filter p.isMatch) ↔ m ∈ g.modules ∧ Fits text m := by
    rw [NameSet.mem_ofList, List.mem_filter, mem_moduleList, ModulePattern.isMatch_iff_fits h]
  simp only [matchingModules, bind_eq_ok_iff, ModulePattern.parse_eq_ok_iff]
  constructor
  · rintro ⟨p, hp, hfound⟩
    obtain rfl := Except.ok.inj hfound
    exact ⟨ModulePattern.exists_ofString?_iff.1 ⟨p, hp⟩, hfits hp⟩
  · rintro ⟨hpattern, hfound⟩
    obtain ⟨p, hp⟩ := ModulePattern.exists_ofString?_iff.2 hpattern
    refine ⟨p, hp, congrArg Except.ok (Std.ExtTreeSet.ext_mem fun m => ?_)⟩
    rw [hfits hp, hfound]

theorem exists_matchingModules_iff :
    (∃ found, g.matchingModules text = .ok found) ↔ IsPattern text := by
  simp only [matchingModules, bind_eq_ok_iff, ModulePattern.parse_eq_ok_iff,
    ← ModulePattern.exists_ofString?_iff]
  exact ⟨fun ⟨_, p, hp, _⟩ => ⟨p, hp⟩, fun ⟨p, hp⟩ => ⟨_, p, hp, rfl⟩⟩

theorem matchingImports_eq_ok_iff {found : List Import} : g.matchingImports text = .ok found ↔
    ∃ p, ImportPattern.ofString? text = some p ∧ g.importList.filter p.isMatch = found := by
  simp only [matchingImports, bind_eq_ok_iff, ImportPattern.parse_eq_ok_iff]
  exact exists_congr fun p => and_congr_right fun _ => ⟨Except.ok.inj, congrArg _⟩

theorem exists_matchingImports_iff : (∃ found, g.matchingImports text = .ok found) ↔
    ∃ before after, Divided text before after ∧ IsPattern before ∧ IsPattern after := by
  simp only [matchingImports_eq_ok_iff, ImportPattern.ofString?_eq_some_iff,
    ← ModulePattern.exists_ofString?_iff]
  constructor
  · rintro ⟨_, p, ⟨before, after, hdivided, hbefore, hafter⟩, -⟩
    exact ⟨before, after, hdivided, ⟨_, hbefore⟩, ⟨_, hafter⟩⟩
  · rintro ⟨before, after, hdivided, ⟨importer, hbefore⟩, ⟨imported, hafter⟩⟩
    exact ⟨_, ⟨importer, imported⟩, ⟨before, after, hdivided, hbefore, hafter⟩, rfl⟩

/-- The imports that match a pattern are those with two ends that fit, in order. -/
theorem fits_of_matchingImports {found : List Import} {before after : String}
    (h : g.matchingImports text = .ok found) (hdivided : Divided text before after) :
    found.Pairwise Import.Earlier ∧
      ∀ i, i ∈ found ↔ i ∈ g.imports ∧ Fits before i.importer ∧ Fits after i.imported := by
  obtain ⟨p, hp, rfl⟩ := matchingImports_eq_ok_iff.1 h
  obtain ⟨before', after', hdivided', hbefore, hafter⟩ := ImportPattern.ofString?_eq_some_iff.1 hp
  obtain ⟨rfl, rfl⟩ := hdivided.unique hdivided'
  refine ⟨(Std.ExtTreeMap.ordered_keys.imp Import.earlier_of_compare).filter _, fun i => ?_⟩
  rw [List.mem_filter, mem_importList, ImportPattern.isMatch, Bool.and_eq_true,
    ModulePattern.isMatch_iff_fits hbefore, ModulePattern.isMatch_iff_fits hafter]

/-- **A pattern means what it says.**  A text is read as a pattern for modules exactly if each part of it
is a star, two stars or a name, with no two `**` side by side, and then the answer is the modules whose
segments can be cut into blocks as the parts say.  As a pattern for imports it is read exactly if it has an
arrow and is a pattern for modules on both sides of the first one, and then the answer is the imports
whose ends fit, each once, in order. -/
theorem matching_iff_fits (g : Graph) (text : String) :
    ((∃ found, g.matchingModules text = .ok found) ↔ IsPattern text) ∧
    (∀ found, g.matchingModules text = .ok found →
      ∀ m, m ∈ found ↔ m ∈ g.modules ∧ Fits text m) ∧
    ((∃ found, g.matchingImports text = .ok found) ↔
      ∃ before after, Divided text before after ∧ IsPattern before ∧ IsPattern after) ∧
    ∀ found before after, g.matchingImports text = .ok found → Divided text before after →
      found.Pairwise Import.Earlier ∧
        ∀ i, i ∈ found ↔ i ∈ g.imports ∧ Fits before i.importer ∧ Fits after i.imported :=
  ⟨exists_matchingModules_iff, fun _ h => (matchingModules_eq_ok_iff.1 h).2, exists_matchingImports_iff,
    fun _ _ _ h hdivided => fits_of_matchingImports h hdivided⟩

end Graph

end ImportAtlas
