import ImportAtlas.Text.Digits
/-!
# YAML documents

A document as data, for the small documents that settings are written in.  A scalar keeps its text,
whether it was written plain, and its tag if it has one: what a plain `7` is depends on who asks,
so it stays text here.
-/
namespace ImportAtlas

inductive Yaml where
  | scalar (tag : Option String) (plain : Bool) (text : String)
  | sequence (tag : Option String) (items : List Yaml)
  | mapping (tag : Option String) (entries : List (Yaml × Yaml))

namespace Yaml

/-- What stands where nothing is written. -/
def blank : Yaml := scalar none true ""

/-- The node with a tag.  A bare mark says nothing about a scalar. -/
def withTag (tag : String) : Yaml → Yaml
  | scalar _ plain text => scalar (if tag = "!" then none else some tag) plain text
  | sequence _ items => sequence (some tag) items
  | mapping _ entries => mapping (some tag) entries

/-- The spellings of null. -/
def nullTexts : List String := ["", "~", "null", "Null", "NULL"]

def nullTag : String := "!!null"

/-- Null is plain, and without a tag that says otherwise. -/
def isNull : Yaml → Bool
  | scalar tag true text => tag.all (· = nullTag) && nullTexts.contains text
  | _ => false

/-- Nothing is written where the node is. -/
def isEmpty : Yaml → Bool
  | scalar _ true text => text = ""
  | _ => false

/-- Any scalar can be read as text, a number or a null included. -/
def text? : Yaml → Option String
  | scalar _ _ text => some text
  | _ => none

/-- `true` and `false` in the three spellings, plain only. -/
def bool? : Yaml → Option Bool
  | scalar _ true text =>
    if ["true", "True", "TRUE"].contains text then some true
    else if ["false", "False", "FALSE"].contains text then some false
    else none
  | _ => none

/-- A decimal, `0x`, `0o` or `0b` number, plain, after an optional plus sign.  A decimal number does
not begin with a zero that could be left out. -/
def unsigned64? : Yaml → Option UInt64
  | scalar tag true text =>
    if tag = some nullTag then none else
    let body := match text.toList with
      | '+' :: ds => ds
      | ds => ds
    match body with
    | '0' :: 'x' :: ds => Text.word64? 16 ds
    | '0' :: 'o' :: ds => Text.word64? 8 ds
    | '0' :: 'b' :: ds => Text.word64? 2 ds
    | ['0'] => some 0
    | '0' :: _ => none
    | ds => Text.word64? 10 ds
  | _ => none

end Yaml
end ImportAtlas
