/-!
# White space and lines

The characters with the Unicode property White_Space, and trimming by them.  A zero-width space and
a byte order mark do not have the property, whatever they look like.  A line ends at a line feed; a
carriage return before it is white space at the end of the line.
-/
namespace ImportAtlas
namespace Text

def isSpace (c : Char) : Bool :=
  let n := c.toNat
  (9 ≤ n && n ≤ 13) || n == 32 || n == 0x85 || n == 0xA0 || n == 0x1680 ||
    (0x2000 ≤ n && n ≤ 0x200A) || n == 0x2028 || n == 0x2029 || n == 0x202F || n == 0x205F ||
    n == 0x3000

/-- Drops white space at both ends. -/
def trimmed (cs : List Char) : List Char :=
  ((cs.dropWhile isSpace).reverse.dropWhile isSpace).reverse

/-- What stands between the occurrences of a separator; a text without one is a single piece. -/
def pieces (separator : Char) : List Char → List (List Char)
  | [] => [[]]
  | c :: rest =>
    if c = separator then [] :: pieces separator rest
    else match pieces separator rest with
      | [] => [[c]]
      | piece :: more => (c :: piece) :: more

/-- The trimmed text of a line, counted from zero; empty where there is no such line. -/
def lineAt (source : List Char) (row : Nat) : String :=
  .ofList (trimmed (((pieces '\n' source)[row]?).getD []))

end Text
end ImportAtlas
