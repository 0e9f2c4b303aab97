import ImportAtlas.Python.Token
import ImportAtlas.Text.Space
/-!
# From characters to tokens

Between two tokens is a gap of white space, comments and continued lines, and the gap is where
indentation is measured: a space counts one, a tab eight, and a form feed or a carriage return starts
the count again.  White space of any other kind separates tokens but is opaque to the layout: behind
it no line end is seen until a comment or a token comes, so a statement that ends in a no-break space
does not end at all.

A format string is read in three moods, kept on a stack: its literal text, the code of a field, and
the format of a field, which may hold fields again.
-/
namespace ImportAtlas
namespace Python
namespace Lexer

/-! ## Gaps -/

structure Gap where
  row : Nat
  /-- A line end has been seen since the last token or comment. -/
  broken : Bool := false
  /-- A line end has been seen since the last token. -/
  ended : Bool := false
  width : Nat := 0
  /-- Opaque white space has been met since the last token or comment. -/
  opaqueSpace : Bool := false
  shallowest : Option Nat := none

namespace Gap

def advance (g : Gap) (n : Nat) : Gap := if g.opaqueSpace then g else { g with width := g.width + n }

def restart (g : Gap) : Gap := if g.opaqueSpace then g else { g with width := 0 }

def newline (g : Gap) : Gap :=
  if g.opaqueSpace then { g with row := g.row + 1 }
  else { g with row := g.row + 1, broken := true, ended := true, width := 0 }

/-- A comment or a token comes: if it is first on its line, the line's indentation is noted. -/
def note (g : Gap) : Gap :=
  if g.broken then
    { g with shallowest := some ((g.shallowest.map (min g.width)).getD g.width) }
  else g

/-- After a comment the layout looks afresh. -/
def afterComment (g : Gap) : Gap := { g.note with broken := false, opaqueSpace := false }

/-- The end of the source is the end of a line. -/
def finish (g : Gap) : Gap :=
  if g.opaqueSpace then g else { g with broken := true, ended := true, width := 0 }

def token (g : Gap) (kind : Kind) : Token where
  kind := kind
  row := g.row
  indent := if g.ended then some g.width else none
  shallowest := g.note.shallowest

end Gap

/-- White space that the layout rules cannot see through. -/
def isOpaqueSpace (c : Char) : Bool :=
  Text.isSpace c || c = '\ufeff' || c = '\u2060' || c = '\u200b'

/-- Passes over a gap. -/
def skipGap : Nat → Gap → List Char → Gap × List Char
  | 0, g, cs => (g, cs)
  | _, g, [] => (g.finish, [])
  | fuel + 1, g, c :: rest =>
    if c = ' ' then skipGap fuel (g.advance 1) rest
    else if c = '\t' then skipGap fuel (g.advance 8) rest
    else if c = '\n' then skipGap fuel g.newline rest
    else if c = '\r' ∨ c = '\x0c' then skipGap fuel g.restart rest
    else if c = '#' then skipGap fuel g.afterComment (rest.dropWhile (· ≠ '\n'))
    else if c = '\\' then
      match rest with
      | '\n' :: rest => skipGap fuel { g with row := g.row + 1 } rest
      | '\r' :: '\n' :: rest => skipGap fuel { g with row := g.row + 1 } rest
      | [] => (g.finish, [])
      | _ => (g, c :: rest)
    else if isOpaqueSpace c then skipGap fuel { g with opaqueSpace := true } rest
    else (g, c :: rest)

/-! ## Words, numbers, operators -/

theorem isWord_of_starts {c : Char} (h : Text.startsIdentifier c = true) (rest : List Char) :
    IsWord (c :: rest.takeWhile Text.continuesIdentifier) :=
  ⟨List.cons_ne_nil _ _, List.forall_mem_cons.2
    ⟨Text.continues_of_starts h, List.all_eq_true.1 List.all_takeWhile⟩⟩

/-- The word that a character begins, and what follows it. -/
def word (c : Char) (h : Text.startsIdentifier c = true) (rest : List Char) : Word × List Char :=
  (⟨.ofList (c :: rest.takeWhile Text.continuesIdentifier), by
      rw [String.toList_ofList]; exact isWord_of_starts h rest⟩,
    rest.dropWhile Text.continuesIdentifier)

/-- Digits of a radix, with single underscores before any of them. -/
def radixDigits (isDigit : Char → Bool) : List Char → Option (List Char)
  | '_' :: c :: rest => if isDigit c then some ((radixDigits isDigit rest).getD rest) else none
  | c :: rest => if isDigit c then some ((radixDigits isDigit rest).getD rest) else none
  | [] => none

/-- Decimal digits, with single underscores after any of them. -/
def decimalDigits : List Char → Option (List Char)
  | c :: '_' :: rest => if c.isDigit then some ((decimalDigits rest).getD rest) else none
  | c :: rest => if c.isDigit then some ((decimalDigits rest).getD rest) else none
  | [] => none

def isHexDigit (c : Char) : Bool :=
  c.isDigit || ('a' ≤ c && c ≤ 'f') || ('A' ≤ c && c ≤ 'F')

def exponent (cs : List Char) : Option (List Char) :=
  match cs with
  | c :: rest =>
    if c = 'e' ∨ c = 'E' then
      match rest with
      | '+' :: ds => decimalDigits ds
      | '-' :: ds => decimalDigits ds
      | ds => decimalDigits ds
    else none
  | [] => none

def dropOne (letters : List Char) : List Char → List Char
  | c :: rest => if letters.contains c then rest else c :: rest
  | [] => []

/-- What follows a number, if one is here. -/
def number (cs : List Char) : Option (List Char) :=
  let radix (isDigit : Char → Bool) (ds : List Char) :=
    (radixDigits isDigit ds).map (dropOne ['l', 'L'])
  let decimal :=
    match decimalDigits cs with
    | some rest =>
      match rest with
      | '.' :: more =>
        let rest := (decimalDigits more).getD more
        some (dropOne ['j', 'J'] ((exponent rest).getD rest))
      | _ => match exponent rest with
        | some rest => some (dropOne ['j', 'J'] rest)
        | none => some (dropOne ['l', 'L', 'j', 'J'] rest)
    | none => match cs with
      | '.' :: more => (decimalDigits more).map fun rest =>
        dropOne ['j', 'J'] ((exponent rest).getD rest)
      | _ => none
  match cs with
  | '0' :: 'x' :: ds => (radix isHexDigit ds).orElse fun _ => decimal
  | '0' :: 'X' :: ds => (radix isHexDigit ds).orElse fun _ => decimal
  | '0' :: 'o' :: ds => (radix (fun c => '0' ≤ c && c ≤ '7') ds).orElse fun _ => decimal
  | '0' :: 'O' :: ds => (radix (fun c => '0' ≤ c && c ≤ '7') ds).orElse fun _ => decimal
  | '0' :: 'b' :: ds => (radix (fun c => c = '0' || c = '1') ds).orElse fun _ => decimal
  | '0' :: 'B' :: ds => (radix (fun c => c = '0' || c = '1') ds).orElse fun _ => decimal
  | _ => decimal

/-- The operators, longer ones before those that begin them. -/
def operators : List String :=
  ["**=", "//=", ">>=", "<<=", "...", "**", "//", ">>", "<<", "<=", ">=", "==", "!=", "<>", "->",
    ":=", "+=", "-=", "*=", "/=", "%=", "@=", "&=", "|=", "^=", "+", "-", "*", "/", "%", "@", "&",
    "|", "^", "~", "<", ">", "(", ")", "[", "]", "\x7b", "\x7d", ",", ":", ".", ";", "="]

def operator? (cs : List Char) : Option (String × List Char) :=
  (operators.find? fun op => decide (op.toList <+: cs)).map fun op => (op, cs.drop op.length)

/-! ## Strings -/

structure Quote where
  mark : Char
  triple : Bool
  raw : Bool
  format : Bool

namespace Quote

/-- What follows the closing quote, if it is here. -/
def closed? (q : Quote) (cs : List Char) : Option (List Char) :=
  let mark := if q.triple then [q.mark, q.mark, q.mark] else [q.mark]
  if mark <+: cs then some (cs.drop mark.length) else none

end Quote

/-- A row of prefix letters and an opening quote. -/
def quote? (cs : List Char) : Option (Quote × List Char) :=
  let letters := cs.takeWhile ("fFrRbBuU".toList.contains ·)
  let has (c : Char) := letters.any (·.toLower = c)
  let opened (mark : Char) (triple : Bool) : Quote := ⟨mark, triple, has 'r', has 'f'⟩
  match cs.drop letters.length with
  | '\'' :: '\'' :: '\'' :: rest => some (opened '\'' true, rest)
  | '\'' :: rest => some (opened '\'' false, rest)
  | '"' :: '"' :: '"' :: rest => some (opened '"' true, rest)
  | '"' :: rest => some (opened '"' false, rest)
  | '\x60' :: rest => some (opened '\x60' false, rest)
  | _ => none

/-- What follows a string without fields, and the row there; `none` if it does not close. -/
def plainString (q : Quote) : Nat → Nat → List Char → Option (Nat × List Char)
  | 0, _, _ => none
  | _, _, [] => none
  | fuel + 1, row, c :: rest =>
    match q.closed? (c :: rest) with
    | some rest => some (row, rest)
    | none =>
      if c = '\\' then
        match rest with
        | '\r' :: '\n' :: rest => plainString q fuel (row + 1) rest
        | '\n' :: rest => plainString q fuel (row + 1) rest
        | _ :: rest => plainString q fuel row rest
        | [] => none
      else if c = '\n' then
        if q.triple then plainString q fuel (row + 1) rest else none
      else plainString q fuel row rest

/-- Where the literal text of a format string stops. -/
inductive Stop where
  | closing (rest : List Char)
  | field (rest : List Char)
  | stray

/-- Passes over literal text.  Doubled braces stand for themselves, and a named character in braces
is part of its escape. -/
def formatText (q : Quote) : Nat → Nat → List Char → Nat × Stop
  | 0, row, _ => (row, .stray)
  | _, row, [] => (row, .stray)
  | fuel + 1, row, c :: rest =>
    match q.closed? (c :: rest) with
    | some rest => (row, .closing rest)
    | none =>
      if c = '{' then
        match rest with
        | '{' :: rest => formatText q fuel row rest
        | rest => (row, .field rest)
      else if c = '}' then
        match rest with
        | '}' :: rest => formatText q fuel row rest
        | _ => (row, .stray)
      else if c = '\\' then
        match rest with
        | '\r' :: '\n' :: rest => formatText q fuel (row + 1) rest
        | '\n' :: rest => formatText q fuel (row + 1) rest
        | 'N' :: '{' :: rest =>
          if q.raw then formatText q fuel row ('{' :: rest)
          else formatText q fuel row ((rest.dropWhile (· ≠ '}')).drop 1)
        | '{' :: rest => formatText q fuel row ('{' :: rest)
        | '}' :: rest => formatText q fuel row ('}' :: rest)
        | _ :: rest => formatText q fuel row rest
        | [] => (row, .stray)
      else if c = '\n' then
        if q.triple then formatText q fuel (row + 1) rest else (row, .stray)
      else formatText q fuel row rest

/-! ## The token row -/

/-- What is being read inside a format string; the innermost first. -/
inductive Mood where
  | literal (q : Quote)
  | field (q : Quote) (depth : Nat)
  | format (q : Quote)

/-- The stack of moods after an operator in code. -/
def afterOperator (op : String) : List Mood → List Mood
  | .field q depth :: moods =>
    if op = "(" ∨ op = "[" ∨ op = "\x7b" then .field q (depth + 1) :: moods
    else if op = ")" ∨ op = "]" ∨ op = "\x7d" then
      if depth = 0 then moods else .field q (depth - 1) :: moods
    else if op = ":" ∧ depth = 0 then .format q :: .field q depth :: moods
    else .field q depth :: moods
  | moods => moods

/-- At the outer level of a field a colon always ends the expression. -/
def operatorIn? (moods : List Mood) (cs : List Char) : Option (String × List Char) :=
  match moods, cs with
  | .field _ 0 :: _, ':' :: rest => some (":", rest)
  | _, cs => operator? cs

def conversion? (moods : List Mood) (cs : List Char) : Option (List Char) :=
  match moods, cs with
  | .field _ 0 :: _, '!' :: c :: rest => if 'a' ≤ c ∧ c ≤ 'z' then some rest else none
  | _, _ => none

/-- A token within a string, where no gap precedes it. -/
def inner (row : Nat) (kind : Kind) : Token := ⟨kind, row, none, none⟩

def scan : Nat → List Mood → Nat → List Char → List Token
  | 0, _, row, _ => [inner row .stray, inner row .endOfSource]
  | fuel + 1, .literal q :: moods, row, cs =>
    match formatText q (fuel + 1) row cs with
    | (row, .closing rest) => inner row .formatClose :: scan fuel moods row rest
    | (row, .field rest) =>
      inner row (.operator "\x7b") :: scan fuel (.field q 0 :: .literal q :: moods) row rest
    | (row, .stray) => [inner row .stray, inner row .endOfSource]
  | fuel + 1, .format q :: moods, row, cs =>
    match cs with
    | '{' :: rest =>
      inner row (.operator "\x7b") :: scan fuel (.field q 0 :: .format q :: moods) row rest
    | '}' :: rest => inner row (.operator "\x7d") :: scan fuel (moods.drop 1) row rest
    | '\n' :: rest =>
      if q.triple then scan fuel (.format q :: moods) (row + 1) rest
      else [inner row .stray, inner row .endOfSource]
    | _ :: rest => scan fuel (.format q :: moods) row rest
    | [] => [inner row .stray, inner row .endOfSource]
  | fuel + 1, moods, row, cs =>
    let (gap, cs) := skipGap (fuel + 1) { row } cs
    let row := gap.row
    match cs with
    | [] => [gap.token .endOfSource]
    | c :: rest =>
      match quote? cs with
      | some (q, rest) =>
        if q.format then gap.token .formatOpen :: scan fuel (.literal q :: moods) row rest
        else match plainString q (fuel + 1) row rest with
          | some (row, rest) => gap.token .text :: scan fuel moods row rest
          | none => [gap.token .stray, inner row .endOfSource]
      | none =>
        if h : Text.startsIdentifier c then
          let (w, rest) := word c h rest
          gap.token (.word w) :: scan fuel moods row rest
        else match number cs with
          | some rest => gap.token .number :: scan fuel moods row rest
          | none => match conversion? moods cs with
            | some rest => gap.token .conversion :: scan fuel moods row rest
            | none => match operatorIn? moods cs with
              | some (op, rest) =>
                gap.token (.operator op) :: scan fuel (afterOperator op moods) row rest
              | none => gap.token .stray :: scan fuel moods row rest

end Lexer

/-- The tokens of a source; the last one is its end. -/
def tokens (source : String) : List Token :=
  let cs := source.toList
  Lexer.scan (cs.length + 1) [] 0 cs

end Python
end ImportAtlas
