import ImportAtlas.Json
import ImportAtlas.Text.Digits
/-!
# Reading JSON

One document with blanks around it and nothing after it, by the grammar of RFC 8259.  A string may
escape a code point outside the basic plane by a pair of surrogates; a string with a surrogate alone
is well formed, but it is no text, and no name of a member.  A control character that is not escaped
is refused.

The functions read from the front of a list of characters and hand on the rest.  A value holds
values, so reading is bounded by the number of characters, of which every value takes at least one.
-/
namespace ImportAtlas
namespace Json

def isBlank (c : Char) : Bool := c = ' ' || c = '\t' || c = '\n' || c = '\r'

def skipBlanks (cs : List Char) : List Char := cs.dropWhile isBlank

/-! ## Numbers -/

/-- The digits at the front and what follows them. -/
def digits (cs : List Char) : List Char × List Char := (cs.takeWhile Char.isDigit, cs.dropWhile Char.isDigit)

/-- A fraction: whether there is one, and what follows. -/
def fraction : List Char → Option (Bool × List Char)
  | '.' :: cs => match digits cs with
    | ([], _) => none
    | (_, rest) => some (true, rest)
  | cs => some (false, cs)

def exponent : List Char → Option (Bool × List Char)
  | c :: cs =>
    if c = 'e' ∨ c = 'E' then
      let unsigned := match cs with
        | '+' :: r => r
        | '-' :: r => r
        | r => r
      match digits unsigned with
      | ([], _) => none
      | (_, rest) => some (true, rest)
    else some (false, c :: cs)
  | [] => some (false, [])

def number (cs : List Char) : Option (Json × List Char) := do
  let (negative, unsigned) := match cs with
    | '-' :: r => (true, r)
    | r => (false, r)
  let (whole, rest) := digits unsigned
  if whole.head? = some '0' ∧ whole.length ≠ 1 then none
  else
    let n ← Text.number? 10 whole
    let (fractional, rest) ← fraction rest
    let (scaled, rest) ← exponent rest
    if fractional || scaled || (negative && n = 0) then some (decimal, rest)
    else some (integer (if negative then -(n : Int) else n), rest)

/-! ## Strings -/

/-- Four hex digits. -/
def hex4 : List Char → Option (Nat × List Char)
  | a :: b :: c :: d :: rest => (Text.number? 16 [a, b, c, d]).map (·, rest)
  | _ => none

/-- The character of a `\u` escape, whose second half may follow as another; none if the escape is
half of a pair that is not here. -/
def codePoint (cs : List Char) : Option (Option Char × List Char) := do
  let (high, rest) ← hex4 cs
  if 0xD800 ≤ high ∧ high < 0xDC00 then
    match rest with
    | '\\' :: 'u' :: more =>
      let (low, more) ← hex4 more
      if 0xDC00 ≤ low ∧ low < 0xE000 then
        some (some (Char.ofNat (0x10000 + (high - 0xD800) * 0x400 + (low - 0xDC00))), more)
      else some (none, rest)
    | _ => some (none, rest)
  else if 0xDC00 ≤ high ∧ high < 0xE000 then some (none, rest)
  else some (some (Char.ofNat high), rest)

def simpleEscape? : Char → Option Char
  | '"' => some '"'
  | '\\' => some '\\'
  | '/' => some '/'
  | 'b' => some '\x08'
  | 'f' => some '\x0c'
  | 'n' => some '\n'
  | 'r' => some '\r'
  | 't' => some '\t'
  | _ => none

/-- The characters of a string up to its closing quote, with a gap for each half of a pair. -/
def characters : Nat → List Char → Option (List (Option Char) × List Char)
  | 0, _ => none
  | _, [] => none
  | _, '"' :: rest => some ([], rest)
  | fuel + 1, '\\' :: 'u' :: rest => do
    let (c, rest) ← codePoint rest
    let (more, rest) ← characters fuel rest
    return (c :: more, rest)
  | fuel + 1, '\\' :: e :: rest => do
    let c ← simpleEscape? e
    let (more, rest) ← characters fuel rest
    return (some c :: more, rest)
  | fuel + 1, c :: rest => do
    if c = '\\' ∨ c.toNat < 0x20 then none
    else
      let (more, rest) ← characters fuel rest
      return (some c :: more, rest)

/-- A string whose opening quote has been read: its text, if it has one. -/
def text (cs : List Char) : Option (Option String × List Char) :=
  (characters (cs.length + 1) cs).map fun (characters, rest) =>
    ((characters.mapM id).map String.ofList, rest)

/-! ## Values -/

/-- The rest after a word that must come now. -/
def keyword (word : List Char) (cs : List Char) : Option (List Char) :=
  if word <+: cs then some (cs.drop word.length) else none

mutual

/-- A value after blanks. -/
def value : Nat → List Char → Option (Json × List Char)
  | 0, _ => none
  | fuel + 1, cs =>
    match skipBlanks cs with
    | 'n' :: rest => (keyword "ull".toList rest).map (null, ·)
    | 't' :: rest => (keyword "rue".toList rest).map (bool true, ·)
    | 'f' :: rest => (keyword "alse".toList rest).map (bool false, ·)
    | '"' :: rest => (text rest).map fun (t, rest) => ((t.map string).getD garbled, rest)
    | '[' :: rest => match skipBlanks rest with
      | ']' :: rest => some (array [], rest)
      | rest => (items fuel rest).map fun (js, rest) => (array js, rest)
    | '{' :: rest => match skipBlanks rest with
      | '}' :: rest => some (object [], rest)
      | rest => (members fuel rest).map fun (ms, rest) => (object ms, rest)
    | rest => number rest

/-- The values of an array from its first value to its closing bracket. -/
def items : Nat → List Char → Option (List Json × List Char)
  | 0, _ => none
  | fuel + 1, cs => do
    let (j, rest) ← value fuel cs
    match skipBlanks rest with
    | ']' :: rest => some ([j], rest)
    | ',' :: rest =>
      let (js, rest) ← items fuel rest
      return (j :: js, rest)
    | _ => none

/-- The members of an object from its first name to its closing brace. -/
def members : Nat → List Char → Option (List (String × Json) × List Char)
  | 0, _ => none
  | fuel + 1, cs => do
    match skipBlanks cs with
    | '"' :: rest =>
      let (name, rest) ← text rest
      let name ← name
      match skipBlanks rest with
      | ':' :: rest =>
        let (j, rest) ← value fuel rest
        match skipBlanks rest with
        | '}' :: rest => some ([(name, j)], rest)
        | ',' :: rest =>
          let (ms, rest) ← members fuel rest
          return ((name, j) :: ms, rest)
        | _ => none
      | _ => none
    | _ => none

end

/-- The document a text holds, if it is one. -/
def parse? (text : String) : Option Json := do
  let cs := text.toList
  let (j, rest) ← value (cs.length + 1) cs
  if skipBlanks rest = [] then some j else none

end Json
end ImportAtlas
