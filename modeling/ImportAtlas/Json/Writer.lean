import ImportAtlas.Json
import ImportAtlas.Text.Digits
/-!
# Writing JSON

The compact form: no blanks, members in order, every character as itself except the quote, the
backslash and the control characters, which have escapes of their own where JSON gives them one and
four lower-case hex digits otherwise.
-/
namespace ImportAtlas
namespace Json

/-- The escape of a character that may not stand for itself in a string. -/
def escape (c : Char) : List Char :=
  if c = '"' then ['\\', '"']
  else if c = '\\' then ['\\', '\\']
  else if c = '\x08' then ['\\', 'b']
  else if c = '\t' then ['\\', 't']
  else if c = '\n' then ['\\', 'n']
  else if c = '\x0c' then ['\\', 'f']
  else if c = '\r' then ['\\', 'r']
  else if c.toNat < 0x20 then
    ['\\', 'u', '0', '0', Text.digit (c.toNat / 16), Text.digit (c.toNat % 16)]
  else [c]

def quote (text : String) : String :=
  "\"" ++ String.ofList (text.toList.flatMap escape) ++ "\""

/-- An integer in decimal. -/
def signed : Int → List Char
  | .ofNat n => Text.decimal n
  | .negSucc n => '-' :: Text.decimal (n + 1)

mutual

def render : Json → String
  | null => "null"
  | bool true => "true"
  | bool false => "false"
  | integer value => .ofList (signed value)
  | decimal => "0.0"
  | string text => quote text
  | garbled => "\"\\ud800\""
  | array items => "[" ++ renderItems items ++ "]"
  | object members => "\x7b" ++ renderMembers members ++ "\x7d"

def renderItems : List Json → String
  | [] => ""
  | [item] => item.render
  | item :: items => item.render ++ "," ++ renderItems items

def renderMembers : List (String × Json) → String
  | [] => ""
  | [(name, value)] => quote name ++ ":" ++ value.render
  | (name, value) :: members => quote name ++ ":" ++ value.render ++ "," ++ renderMembers members

end

end Json
end ImportAtlas
