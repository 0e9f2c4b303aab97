import ImportAtlas.Text.Identifier
/-!
# Tokens of Python

A token knows its row and how the line breaks before it look to the layout rules: whether it comes
first on its line and how far in, and how far in the shallowest of the lines before it starts,
counting lines with nothing but a comment.  Line ends are not tokens.  Whether a line end means
anything is decided by whoever reads the tokens, for the same break ends a statement in one place and
is nothing but white space in another.

Words are not divided into identifiers and keywords either: a keyword is one only where the grammar
has a place for it.  A `Word` carries the proof that it is one, so that what is named after words cannot
hold any other character.
-/
namespace ImportAtlas
namespace Python

/-- A text is a word: it is not empty, and all of it may stand in an identifier. -/
def IsWord (text : List Char) : Prop := text ≠ [] ∧ ∀ c ∈ text, Text.continuesIdentifier c = true

structure Word where
  text : String
  isWord : IsWord text.toList
deriving DecidableEq

inductive Kind where
  | word (word : Word)
  | number
  /-- A string literal without interpolation. -/
  | text
  /-- The start of a format string; its fields follow, between braces. -/
  | formatOpen
  | formatClose
  /-- `!r` in a field of a format string. -/
  | conversion
  | operator (text : String)
  /-- What no token looks like. -/
  | stray
  | endOfSource
deriving DecidableEq

structure Token where
  kind : Kind
  row : Nat
  /-- The indentation of the token's line, if the token comes first on it. -/
  indent : Option Nat
  /-- The least indentation of the lines begun since the token before. -/
  shallowest : Option Nat
deriving DecidableEq

namespace Token

def isOperator (t : Token) (text : String) : Bool := t.kind = .operator text

/-- The text of a word. -/
def word? (t : Token) : Option String :=
  match t.kind with
  | .word w => some w.text
  | _ => none

def isWord (t : Token) (text : String) : Bool := t.word? = some text

/-- The token as the first of a statement, where the comments before it may stand anywhere. -/
def afresh (t : Token) : Token := { t with shallowest := none }

def startsText (t : Token) : Bool := t.kind = .text || t.kind = .formatOpen

end Token

end Python
end ImportAtlas
