/-!
# JSON documents

A document as data.  An object keeps its members in the order written, repetitions included: whether
a repeated member is an error or the last one counts is for the reader of a shape to say.  A number
is either an integer, exactly, or something else (`decimal`): a fraction, an exponent or a negative
zero.  A string that escapes half of a surrogate pair has no text (`garbled`).  No shape that the
library reads wants either, so their value is not kept.
-/
namespace ImportAtlas

inductive Json where
  | null
  | bool (value : Bool)
  | integer (value : Int)
  | decimal
  | string (text : String)
  | garbled
  | array (items : List Json)
  | object (members : List (String × Json))

namespace Json

def string? : Json → Option String
  | string text => some text
  | _ => none

def integer? : Json → Option Int
  | integer value => some value
  | _ => none

def array? : Json → Option (List Json)
  | array items => some items
  | _ => none

def object? : Json → Option (List (String × Json))
  | object members => some members
  | _ => none

/-- An integer in the range of 32-bit words. -/
def word32? (j : Json) : Option UInt32 := do
  let n ← j.integer?
  if 0 ≤ n ∧ n < UInt32.size then some (.ofNat n.toNat) else none

/-- An integer in the signed 64-bit range. -/
def signed64? (j : Json) : Option Int64 := do
  let n ← j.integer?
  if Int64.minValue.toInt ≤ n ∧ n ≤ Int64.maxValue.toInt then some (.ofInt n) else none

/-- `null` as nothing, or else what `read` makes of it. -/
def optional? {α : Type} (read : Json → Option α) : Json → Option (Option α)
  | null => some none
  | j => (read j).map some

/-- All values of a member, in order. -/
def membersNamed (name : String) (members : List (String × Json)) : List Json :=
  (members.filter (·.1 = name)).map (·.2)

/-- The last member of that name. -/
def field? (name : String) (members : List (String × Json)) : Option Json :=
  (membersNamed name members).getLast?

end Json
end ImportAtlas
