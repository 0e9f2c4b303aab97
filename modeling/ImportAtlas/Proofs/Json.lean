import ImportAtlas.Json.Reader
import ImportAtlas.Json.Writer
/-!
# What is written reads back

A document *reads back* if the reader, given the text the writer makes of it and anything that may
follow a value, hands on the document and leaves the rest.  Numbers, texts and `null` read back, and
arrays and objects do if their parts do, so a shape reads back by how it is built.  A `decimal` and a
`garbled` string do not: what the writer puts for them stands for no particular value.
-/
namespace ImportAtlas

/-! ## Digits -/

namespace Text

theorem isDigit_digit : ∀ n < 10, (digit n).isDigit = true := by decide

theorem digit_ne_zero : ∀ n < 10, n ≠ 0 → digit n ≠ '0' := by decide

theorem isDigit_of_mem_decimal (n : Nat) : ∀ c ∈ decimal n, c.isDigit = true := by
  induction n using Nat.strongRecOn with
  | ind n ih =>
    intro c hc
    unfold decimal at hc
    split at hc
    · next h =>
      rw [List.mem_singleton.1 hc]
      exact isDigit_digit n h
    · next h =>
      rcases List.mem_append.1 hc with hc | hc
      · exact ih (n / 10) (by omega) c hc
      · rw [List.mem_singleton.1 hc]
        exact isDigit_digit (n % 10) (by omega)

theorem head?_decimal_ne_zero (n : Nat) (hn : n ≠ 0) : (decimal n).head? ≠ some '0' := by
  induction n using Nat.strongRecOn with
  | ind n ih =>
    unfold decimal
    split
    · next h =>
      intro e
      exact digit_ne_zero n h hn (Option.some.inj e)
    · next h =>
      have hhead := ih (n / 10) (by omega) (by omega)
      rw [List.head?_append]
      cases hd : (decimal (n / 10)).head? with
      | none => exact absurd (List.head?_eq_none_iff.1 hd) (decimal_ne_nil (n / 10))
      | some c => rwa [hd] at hhead

theorem decimal_zero : decimal 0 = ['0'] := by
  unfold decimal
  rfl

end Text

namespace Json

/-! ## Strings -/

theorem hex4_escape {n : Nat} (h : n < 0x20) (rest : List Char) :
    hex4 ('0' :: '0' :: Text.digit (n / 16) :: Text.digit (n % 16) :: rest) = some (n, rest) := by
  have high : Text.digitValue? 16 (Text.digit (n / 16)) = some (n / 16) :=
    Text.digitValue?_digit_sixteen (n / 16) (by omega)
  have low : Text.digitValue? 16 (Text.digit (n % 16)) = some (n % 16) :=
    Text.digitValue?_digit_sixteen (n % 16) (by omega)
  have zero : Text.digitValue? 16 '0' = some 0 := rfl
  have hn : 16 * (n / 16) + n % 16 = n := by omega
  simp [hex4, Text.number?, high, low, zero, Text.spelled, hn]

theorem codePoint_escape {c : Char} (h : c.toNat < 0x20) (rest : List Char) :
    codePoint ('0' :: '0' :: Text.digit (c.toNat / 16) :: Text.digit (c.toNat % 16) :: rest) =
      some (some c, rest) := by
  have hhigh : ¬ (0xD800 ≤ c.toNat ∧ c.toNat < 0xDC00) := by omega
  have hlow : ¬ (0xDC00 ≤ c.toNat ∧ c.toNat < 0xE000) := by omega
  simp only [codePoint, hex4_escape h, Option.bind_eq_bind, Option.bind_some, if_neg hhigh,
    if_neg hlow, Char.ofNat_toNat]

/-- The character `c` in front of what has been read. -/
def before (c : Char) (read : List (Option Char) × List Char) : List (Option Char) × List Char :=
  (some c :: read.1, read.2)

theorem characters_simpleEscape {e c : Char} (h : simpleEscape? e = some c) (hu : e ≠ 'u')
    (fuel : Nat) (rest : List Char) :
    characters (fuel + 1) ('\\' :: e :: rest) = (characters fuel rest).map (before c) := by
  rw [characters]
  · rw [h, Option.bind_eq_bind, Option.bind_some]
    cases characters fuel rest <;> rfl
  · exact hu

/-- One step of reading takes what the writer puts for one character. -/
theorem characters_escape (fuel : Nat) (c : Char) (rest : List Char) :
    characters (fuel + 1) (escape c ++ rest) = (characters fuel rest).map (before c) := by
  unfold escape
  split
  · subst c; exact characters_simpleEscape rfl (by decide) fuel rest
  split
  · subst c; exact characters_simpleEscape rfl (by decide) fuel rest
  split
  · subst c; exact characters_simpleEscape rfl (by decide) fuel rest
  split
  · subst c; exact characters_simpleEscape rfl (by decide) fuel rest
  split
  · subst c; exact characters_simpleEscape rfl (by decide) fuel rest
  split
  · subst c; exact characters_simpleEscape rfl (by decide) fuel rest
  split
  · subst c; exact characters_simpleEscape rfl (by decide) fuel rest
  split
  · next h =>
    simp only [List.cons_append, List.nil_append, characters, codePoint_escape h,
      Option.bind_eq_bind, Option.bind_some]
    cases characters fuel rest <;> rfl
  · next hquote hbackslash _ _ _ _ _ hcontrol =>
    have hplain : ¬ (c = '\\' ∨ c.toNat < 0x20) := fun h => h.elim hbackslash hcontrol
    rw [List.singleton_append, characters, if_neg hplain]
    · cases characters fuel rest <;> rfl
    all_goals simp_all

theorem characters_escaped (rest : List Char) : ∀ (cs : List Char) (fuel : Nat), cs.length < fuel →
    characters fuel (cs.flatMap escape ++ '"' :: rest) = some (cs.map some, rest)
  | [], fuel + 1, _ => rfl
  | c :: cs, fuel + 1, h => by
    have hcs : cs.length < fuel := by
      rw [List.length_cons] at h
      omega
    rw [List.flatMap_cons, List.append_assoc, characters_escape, characters_escaped rest cs fuel hcs]
    rfl

theorem length_le_length_escaped : ∀ cs : List Char, cs.length ≤ (cs.flatMap escape).length
  | [] => Nat.le_refl _
  | c :: cs => by
    have hc : 0 < (escape c).length := by
      unfold escape
      repeat' split
      all_goals simp
    have := length_le_length_escaped cs
    rw [List.flatMap_cons, List.length_append, List.length_cons]
    omega

theorem toList_quote (t : String) :
    (quote t).toList = '"' :: (t.toList.flatMap escape ++ ['"']) := by
  simp [quote, String.toList_append]

/-- **A quoted text reads back**, with its opening quote taken off. -/
theorem text_quoted (t : String) (rest : List Char) :
    text (t.toList.flatMap escape ++ '"' :: rest) = some (some t, rest) := by
  have hfuel : t.toList.length < (t.toList.flatMap escape ++ '"' :: rest).length + 1 := by
    have := length_le_length_escaped t.toList
    rw [List.length_append]
    omega
  have hchars : (t.toList.map some).mapM id = some t.toList := by
    induction t.toList with
    | nil => rfl
    | cons c cs ih => simp [ih]
  rw [text, characters_escaped rest _ _ hfuel]
  simp only [Option.map_some, hchars, String.ofList_toList]

/-! ## Numbers -/

/-- What may come after a value: nothing, or what goes on or ends the row it stands in. -/
def Closes (rest : List Char) : Prop := ∀ c ∈ rest.head?, c = ',' ∨ c = ']' ∨ c = '\x7d'

theorem Closes.nil : Closes [] := by simp [Closes]

theorem Closes.cons {c : Char} (h : c = ',' ∨ c = ']' ∨ c = '\x7d') (rest : List Char) :
    Closes (c :: rest) := by
  intro d hd
  obtain rfl := Option.some.inj hd
  exact h

/-- Digits are read up to where a value ends, and no fraction and no exponent follows. -/
theorem Closes.ends_number {rest : List Char} (h : Closes rest) :
    rest.takeWhile Char.isDigit = [] ∧ rest.dropWhile Char.isDigit = rest ∧
      fraction rest = some (false, rest) ∧ exponent rest = some (false, rest) := by
  cases rest with
  | nil => exact ⟨rfl, rfl, rfl, rfl⟩
  | cons c cs => rcases h c rfl with rfl | rfl | rfl <;> exact ⟨rfl, rfl, rfl, rfl⟩

theorem digits_decimal (n : Nat) {rest : List Char} (h : Closes rest) :
    digits (Text.decimal n ++ rest) = (Text.decimal n, rest) := by
  obtain ⟨htake, hdrop, -, -⟩ := h.ends_number
  have hall := Text.isDigit_of_mem_decimal n
  rw [digits, List.takeWhile_append_of_pos hall, List.dropWhile_append_of_pos hall, htake, hdrop,
    List.append_nil]

theorem decimal_leads (n : Nat) :
    ¬ ((Text.decimal n).head? = some '0' ∧ (Text.decimal n).length ≠ 1) := by
  rintro ⟨hhead, hlength⟩
  by_cases hn : n = 0
  · subst hn
    exact hlength (by rw [Text.decimal_zero]; rfl)
  · exact Text.head?_decimal_ne_zero n hn hhead

theorem decimal_eq_cons (n : Nat) : ∃ c cs, Text.decimal n = c :: cs ∧ c.isDigit = true := by
  obtain ⟨c, cs, h⟩ := List.exists_cons_of_ne_nil (Text.decimal_ne_nil n)
  exact ⟨c, cs, h, Text.isDigit_of_mem_decimal n c (by simp [h])⟩

theorem number_decimal (n : Nat) {rest : List Char} (h : Closes rest) :
    number (Text.decimal n ++ rest) = some (integer n, rest) := by
  obtain ⟨-, -, hfraction, hexponent⟩ := h.ends_number
  obtain ⟨c, cs, hc, hdigit⟩ := decimal_eq_cons n
  have hsign : c ≠ '-' := by rintro rfl; revert hdigit; decide
  have hread : digits (c :: (cs ++ rest)) = (Text.decimal n, rest) := by
    rw [← List.cons_append, ← hc, digits_decimal n h]
  rw [hc, List.cons_append]
  simp [number, hsign, hread, decimal_leads, Text.number?_decimal, hfraction, hexponent]

theorem number_minus_decimal (n : Nat) {rest : List Char} (h : Closes rest) :
    number ('-' :: (Text.decimal (n + 1) ++ rest)) = some (integer (.negSucc n), rest) := by
  obtain ⟨-, -, hfraction, hexponent⟩ := h.ends_number
  have hlead := decimal_leads (n + 1)
  simp [number, digits_decimal (n + 1) h, hlead, Text.number?_decimal, hfraction, hexponent]
  omega

theorem exists_signed_eq_cons (i : Int) : ∃ c cs, signed i = c :: cs ∧ (c.isDigit = true ∨ c = '-') := by
  cases i with
  | ofNat n =>
    obtain ⟨c, cs, h, hc⟩ := decimal_eq_cons n
    exact ⟨c, cs, h, .inl hc⟩
  | negSucc n => exact ⟨'-', _, rfl, .inr rfl⟩

/-- **An integer reads back.** -/
theorem number_signed (i : Int) {rest : List Char} (h : Closes rest) :
    number (signed i ++ rest) = some (integer i, rest) := by
  cases i with
  | ofNat n => exact number_decimal n h
  | negSucc n => exact number_minus_decimal n h

/-! ## Values -/

/-- The text that is written for a document is read as that document, whatever ends it. -/
def ReadsBack (j : Json) : Prop :=
  ∀ (fuel : Nat) (rest : List Char), j.render.toList.length ≤ fuel → Closes rest →
    value (fuel + 1) (j.render.toList ++ rest) = some (j, rest)

theorem skipBlanks_cons {c : Char} (h : isBlank c = false) (rest : List Char) :
    skipBlanks (c :: rest) = c :: rest := by
  rw [skipBlanks, List.dropWhile_cons_of_neg (by simp [h])]

theorem not_isBlank_of_isDigit {c : Char} (h : c.isDigit = true) : isBlank c = false := by
  unfold isBlank
  simp only [Bool.or_eq_false_iff, decide_eq_false_iff_not]
  refine ⟨⟨⟨?_, ?_⟩, ?_⟩, ?_⟩ <;> (rintro rfl; revert h; decide)

theorem value_number {c : Char} (hc : c.isDigit = true ∨ c = '-') (fuel : Nat) (rest : List Char) :
    value (fuel + 1) (c :: rest) = number (c :: rest) := by
  have hblank : isBlank c = false := by
    rcases hc with hc | rfl
    · exact not_isBlank_of_isDigit hc
    · rfl
  rw [value, skipBlanks_cons hblank]
  split
  case h_7 => rfl
  all_goals
    next heq =>
      obtain ⟨rfl, -⟩ := List.cons.inj heq
      exfalso
      revert hc
      decide

theorem value_quote (fuel : Nat) (t : String) (rest : List Char) :
    value (fuel + 1) ('"' :: (t.toList.flatMap escape ++ '"' :: rest)) = some (string t, rest) := by
  have hblank : isBlank '"' = false := rfl
  simp only [value, skipBlanks_cons hblank, text_quoted]
  rfl

theorem readsBack_null : ReadsBack null := fun _ _ _ _ => rfl

theorem readsBack_string (t : String) : ReadsBack (string t) := by
  intro fuel rest _ _
  rw [render, toList_quote, List.cons_append, List.append_assoc, List.singleton_append, value_quote]

theorem readsBack_integer (i : Int) : ReadsBack (integer i) := by
  intro fuel rest _ hrest
  obtain ⟨c, cs, hcons, hc⟩ := exists_signed_eq_cons i
  rw [render, String.toList_ofList, hcons, List.cons_append, value_number hc, ← List.cons_append,
    ← hcons, number_signed i hrest]

/-- No document starts with a blank, nor as an array ends. -/
theorem exists_render_eq_cons (j : Json) :
    ∃ c cs, j.render.toList = c :: cs ∧ isBlank c = false ∧ c ≠ ']' := by
  cases j with
  | null => exact ⟨'n', _, rfl, rfl, by decide⟩
  | bool b => cases b with
    | true => exact ⟨'t', _, rfl, rfl, by decide⟩
    | false => exact ⟨'f', _, rfl, rfl, by decide⟩
  | integer i =>
    obtain ⟨c, cs, hcons, hc⟩ := exists_signed_eq_cons i
    refine ⟨c, cs, by rw [render, String.toList_ofList, hcons], ?_, ?_⟩
    · rcases hc with hc | rfl
      · exact not_isBlank_of_isDigit hc
      · rfl
    · rintro rfl
      revert hc
      decide
  | decimal => exact ⟨'0', _, rfl, rfl, by decide⟩
  | string t => exact ⟨'"', _, toList_quote t, rfl, by decide⟩
  | garbled => exact ⟨'"', _, rfl, rfl, by decide⟩
  | array js =>
    exact ⟨'[', _, by rw [render, String.toList_append, String.toList_append]; rfl, rfl, by decide⟩
  | object ms =>
    exact ⟨'\x7b', _, by rw [render, String.toList_append, String.toList_append]; rfl, rfl, by decide⟩

/-! ## Arrays -/

theorem toList_renderItems_cons (j : Json) {js : List Json} (h : js ≠ []) :
    (renderItems (j :: js)).toList = j.render.toList ++ ',' :: (renderItems js).toList := by
  obtain ⟨k, js, rfl⟩ := List.exists_cons_of_ne_nil h
  rw [renderItems, String.toList_append, String.toList_append, List.append_assoc]
  · rfl
  · simp

theorem items_renderItems (rest : List Char) : ∀ (js : List Json) (fuel : Nat), js ≠ [] →
    (∀ j ∈ js, ReadsBack j) → (renderItems js).toList.length ≤ fuel →
      items (fuel + 2) ((renderItems js).toList ++ ']' :: rest) = some (js, rest)
  | [], _, h, _, _ => absurd rfl h
  | j :: js, fuel, _, hjs, hfuel => by
    have hj : ReadsBack j := hjs j (by simp)
    by_cases hnil : js = []
    · subst hnil
      have hvalue := hj fuel (']' :: rest) hfuel (.cons (by simp) rest)
      rw [renderItems, items, hvalue]
      rfl
    · rw [toList_renderItems_cons j hnil, List.length_append, List.length_cons] at hfuel
      obtain ⟨fuel, rfl⟩ : ∃ n, fuel = n + 1 := ⟨fuel - 1, by omega⟩
      have hvalue := hj (fuel + 1) (',' :: ((renderItems js).toList ++ ']' :: rest)) (by omega)
        (.cons (by simp) _)
      have hmore := items_renderItems rest js fuel hnil
        (fun i hi => hjs i (List.mem_cons_of_mem _ hi)) (by omega)
      have hblank : isBlank ',' = false := rfl
      rw [toList_renderItems_cons j hnil, List.append_assoc, List.cons_append, items, hvalue]
      simp only [Option.bind_eq_bind, Option.bind_some, skipBlanks_cons hblank, hmore]
      rfl

theorem exists_renderItems_eq_cons {js : List Json} (h : js ≠ []) :
    ∃ c cs, (renderItems js).toList = c :: cs ∧ isBlank c = false ∧ c ≠ ']' := by
  obtain ⟨j, js, rfl⟩ := List.exists_cons_of_ne_nil h
  obtain ⟨c, cs, hcons, hc⟩ := exists_render_eq_cons j
  by_cases hjs : js = []
  · subst hjs
    exact ⟨c, cs, hcons, hc⟩
  · exact ⟨c, _, by rw [toList_renderItems_cons j hjs, hcons, List.cons_append], hc⟩

/-- **An array reads back if its items do.** -/
theorem readsBack_array {js : List Json} (h : ∀ j ∈ js, ReadsBack j) : ReadsBack (array js) := by
  intro fuel rest hfuel _
  have htext : (array js).render.toList = '[' :: ((renderItems js).toList ++ [']']) := by
    rw [render, String.toList_append, String.toList_append]
    rfl
  rw [htext, List.length_cons, List.length_append, List.length_singleton] at hfuel
  have hopen : isBlank '[' = false := rfl
  have hclose : isBlank ']' = false := rfl
  rw [htext, List.cons_append, List.append_assoc, List.singleton_append]
  simp only [value, skipBlanks_cons hopen]
  by_cases hjs : js = []
  · subst hjs
    simp only [renderItems, String.toList_empty, List.nil_append, skipBlanks_cons hclose]
  · obtain ⟨c, cs, hcons, hblank, hc⟩ := exists_renderItems_eq_cons hjs
    obtain ⟨fuel, rfl⟩ : ∃ n, fuel = n + 2 := ⟨fuel - 2, by omega⟩
    have hitems := items_renderItems rest js fuel hjs h (by omega)
    rw [hcons, List.cons_append] at hitems ⊢
    rw [skipBlanks_cons hblank]
    split
    · next heq => exact absurd (List.cons.inj heq).1 hc
    · rw [hitems]
      rfl

/-! ## Objects -/

theorem toList_renderMembers_singleton (name : String) (j : Json) :
    (renderMembers [(name, j)]).toList =
      '"' :: (name.toList.flatMap escape ++ '"' :: ':' :: j.render.toList) := by
  rw [renderMembers, String.toList_append, String.toList_append, toList_quote]
  simp

theorem toList_renderMembers_cons (name : String) (j : Json) {ms : List (String × Json)}
    (h : ms ≠ []) : (renderMembers ((name, j) :: ms)).toList =
      '"' :: (name.toList.flatMap escape ++
        '"' :: ':' :: (j.render.toList ++ ',' :: (renderMembers ms).toList)) := by
  obtain ⟨m, ms, rfl⟩ := List.exists_cons_of_ne_nil h
  rw [renderMembers, String.toList_append, String.toList_append, String.toList_append,
    String.toList_append, toList_quote]
  · simp
  · simp

theorem members_last {fuel : Nat} {cs rest : List Char} {j : Json} (name : String)
    (h : value fuel cs = some (j, '\x7d' :: rest)) :
    members (fuel + 1) ('"' :: (name.toList.flatMap escape ++ '"' :: ':' :: cs)) =
      some ([(name, j)], rest) := by
  have hquote : isBlank '"' = false := rfl
  have hcolon : isBlank ':' = false := rfl
  have hbrace : isBlank '\x7d' = false := rfl
  simp only [members, skipBlanks_cons hquote, text_quoted, Option.bind_eq_bind, Option.bind_some,
    skipBlanks_cons hcolon, h, skipBlanks_cons hbrace]

theorem members_next {fuel : Nat} {cs more rest : List Char} {j : Json} {ms : List (String × Json)}
    (name : String) (h : value fuel cs = some (j, ',' :: more))
    (hmore : members fuel more = some (ms, rest)) :
    members (fuel + 1) ('"' :: (name.toList.flatMap escape ++ '"' :: ':' :: cs)) =
      some ((name, j) :: ms, rest) := by
  have hquote : isBlank '"' = false := rfl
  have hcolon : isBlank ':' = false := rfl
  have hcomma : isBlank ',' = false := rfl
  simp only [members, skipBlanks_cons hquote, text_quoted, Option.bind_eq_bind, Option.bind_some,
    skipBlanks_cons hcolon, h, skipBlanks_cons hcomma, hmore]
  rfl

theorem length_renderMembers_cons (name : String) (j : Json) {ms : List (String × Json)}
    (h : ms ≠ []) :
    j.render.toList.length + (renderMembers ms).toList.length <
      (renderMembers ((name, j) :: ms)).toList.length := by
  rw [toList_renderMembers_cons name j h]
  simp only [List.length_cons, List.length_append]
  omega

theorem members_renderMembers (rest : List Char) : ∀ (ms : List (String × Json)) (fuel : Nat),
    ms ≠ [] → (∀ m ∈ ms, ReadsBack m.2) → (renderMembers ms).toList.length ≤ fuel →
      members (fuel + 2) ((renderMembers ms).toList ++ '\x7d' :: rest) = some (ms, rest)
  | [], _, h, _, _ => absurd rfl h
  | (name, j) :: ms, fuel, _, hms, hfuel => by
    have hj : ReadsBack j := hms (name, j) (by simp)
    by_cases hnil : ms = []
    · subst hnil
      rw [toList_renderMembers_singleton] at hfuel ⊢
      simp only [List.length_cons, List.length_append] at hfuel
      have hvalue := hj fuel ('\x7d' :: rest) (by omega) (.cons (by simp) rest)
      simpa using members_last name hvalue
    · have hlength := length_renderMembers_cons name j hnil
      obtain ⟨fuel, rfl⟩ : ∃ n, fuel = n + 1 := ⟨fuel - 1, by omega⟩
      have hvalue := hj (fuel + 1) (',' :: ((renderMembers ms).toList ++ '\x7d' :: rest)) (by omega)
        (.cons (by simp) _)
      have hmore := members_renderMembers rest ms fuel hnil
        (fun m hm => hms m (List.mem_cons_of_mem _ hm)) (by omega)
      rw [toList_renderMembers_cons name j hnil]
      simpa using members_next name hvalue hmore

theorem exists_renderMembers_eq_cons {ms : List (String × Json)} (h : ms ≠ []) :
    ∃ cs, (renderMembers ms).toList = '"' :: cs := by
  obtain ⟨⟨name, j⟩, ms, rfl⟩ := List.exists_cons_of_ne_nil h
  by_cases hms : ms = []
  · subst hms
    exact ⟨_, toList_renderMembers_singleton name j⟩
  · exact ⟨_, toList_renderMembers_cons name j hms⟩

/-- **An object reads back if its values do.** -/
theorem readsBack_object {ms : List (String × Json)} (h : ∀ m ∈ ms, ReadsBack m.2) :
    ReadsBack (object ms) := by
  intro fuel rest hfuel _
  have htext : (object ms).render.toList = '\x7b' :: ((renderMembers ms).toList ++ ['\x7d']) := by
    rw [render, String.toList_append, String.toList_append]
    rfl
  rw [htext, List.length_cons, List.length_append, List.length_singleton] at hfuel
  have hopen : isBlank '\x7b' = false := rfl
  have hclose : isBlank '\x7d' = false := rfl
  rw [htext, List.cons_append, List.append_assoc, List.singleton_append]
  simp only [value, skipBlanks_cons hopen]
  by_cases hms : ms = []
  · subst hms
    simp only [renderMembers, String.toList_empty, List.nil_append, skipBlanks_cons hclose]
  · obtain ⟨cs, hcons⟩ := exists_renderMembers_eq_cons hms
    obtain ⟨fuel, rfl⟩ : ∃ n, fuel = n + 2 := ⟨fuel - 2, by omega⟩
    have hmembers := members_renderMembers rest ms fuel hms h (by omega)
    have hblank : isBlank '"' = false := rfl
    rw [hcons, List.cons_append] at hmembers ⊢
    rw [skipBlanks_cons hblank]
    split
    · next heq => exact absurd (List.cons.inj heq).1 (by decide)
    · rw [hmembers]
      rfl

/-- **A document that reads back is what its text says.** -/
theorem ReadsBack.parse?_render {j : Json} (h : ReadsBack j) : parse? j.render = some j := by
  have hvalue := h j.render.toList.length [] (Nat.le_refl _) .nil
  rw [List.append_nil] at hvalue
  simp only [parse?, hvalue, Option.bind_eq_bind, Option.bind_some]
  rfl

end Json
end ImportAtlas
