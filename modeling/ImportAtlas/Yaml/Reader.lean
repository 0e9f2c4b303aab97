import ImportAtlas.Yaml
/-!
# Reading YAML

The part of YAML 1.1 that settings files use: one document, perhaps between `---` and `...`; block
mappings and sequences by indentation; flow sequences and mappings; plain, quoted and block scalars;
tags, anchors and aliases; comments.  Directives and explicit keys are refused.

A cursor is what is left of the text, the column it stands at, and whether only blanks precede it on
its line.  Block structure is all columns: a collection's entries start at its own column, what
belongs to an entry starts further right, and the first token that does not ends the collection.
The one exception is a sequence as the value of a key, which may start at the key's column.
-/
namespace ImportAtlas
namespace Yaml

structure Cursor where
  rest : List Char
  column : Nat := 0
  fresh : Bool := true
  /-- The anchored nodes read so far, the last first. -/
  anchors : List (String × Yaml) := []

namespace Cursor

def isBreak (c : Char) : Bool := c = '\n' || c = '\r'

def isBlank (c : Char) : Bool := c = ' ' || c = '\t'

/-- The next character, if any, is a blank or a line break. -/
def endsToken : List Char → Bool
  | [] => true
  | c :: _ => isBlank c || isBreak c

def atEnd (cur : Cursor) : Bool := cur.rest.isEmpty

def dropComment : List Char → List Char := List.dropWhile (!isBreak ·)

/-- The position at the start of a line. -/
def atLine (cur : Cursor) (rest : List Char) : Cursor := { cur with rest, column := 0, fresh := true }

/-- The position after blanks, comments and line breaks.  `spaced` says that a `#` here would start a
comment.  A tab may not indent. -/
def skipFrom : Nat → Bool → Cursor → Cursor
  | 0, _, cur => cur
  | fuel + 1, spaced, cur =>
    match cur.rest with
    | ' ' :: rest => skipFrom fuel true { cur with rest, column := cur.column + 1 }
    | '\t' :: rest =>
      if cur.fresh then cur else skipFrom fuel true { cur with rest, column := cur.column + 1 }
    | '\n' :: rest => skipFrom fuel true (cur.atLine rest)
    | '\r' :: rest => skipFrom fuel true (cur.atLine rest)
    | '#' :: rest =>
      if spaced then skipFrom fuel true { cur with rest := dropComment rest } else cur
    | _ => cur

def skip (cur : Cursor) : Cursor := skipFrom (cur.rest.length + 1) cur.fresh cur

/-- The position after `n` characters of one line. -/
def advance (cur : Cursor) (n : Nat) : Cursor :=
  { cur with rest := cur.rest.drop n, column := cur.column + n, fresh := false }

/-- A marker of three characters at the start of a line. -/
def marked (mark : List Char) (cur : Cursor) : Bool :=
  cur.fresh && cur.column = 0 && decide (mark <+: cur.rest) && endsToken (cur.rest.drop 3)

def startsDocument : Cursor → Bool := marked ['-', '-', '-']

def endsDocument : Cursor → Bool := marked ['.', '.', '.']

/-- Nothing more of this document comes here. -/
def done (cur : Cursor) : Bool := cur.atEnd || cur.startsDocument || cur.endsDocument

/-- A dash that announces an entry. -/
def atDash (cur : Cursor) : Bool :=
  match cur.rest with
  | '-' :: rest => endsToken rest
  | _ => false

/-- A colon that ends a key. -/
def atColon (cur : Cursor) : Bool :=
  match cur.rest with
  | ':' :: rest => endsToken rest
  | _ => false

end Cursor

open Cursor

/-! ## Scalars -/

/-- The lines that follow a line, with so many blank ones in between already passed. -/
def foldAfter : Nat → List (List Char) → List Char
  | blank, [] => List.replicate blank '\n'
  | blank, [] :: more => foldAfter (blank + 1) more
  | blank, line :: more =>
    (if blank = 0 then [' '] else List.replicate blank '\n') ++ line ++ foldAfter 0 more

/-- Joins the lines of a scalar: a single break becomes a space, and of several breaks the first is
dropped. -/
def fold : List (List Char) → List Char
  | [] => []
  | line :: more => line ++ foldAfter 0 more

/-- The characters that mean something between flow brackets. -/
def flowSigns : List Char := ",[]\x7b\x7d".toList

/-- May a plain scalar start here? -/
def startsPlain (flow : Bool) : List Char → Bool
  | [] => false
  | c :: rest =>
    if c = '-' then !endsToken rest
    else if c = '?' ∨ c = ':' then !flow && !endsToken rest
    else !flowSigns.contains c && !"#&*!|>\x27\"%@\x60".toList.contains c && !isBlank c && !isBreak c

/-- The characters of a plain scalar on one line. -/
def plainLine (flow : Bool) : Bool → List Char → List Char × List Char
  | _, [] => ([], [])
  | spaced, c :: rest =>
    let ends := isBreak c || (c = ':' && endsToken rest) || (c = '#' && spaced) ||
      (flow && flowSigns.contains c)
    if ends then ([], c :: rest)
    else
      let (more, rest) := plainLine flow (isBlank c) rest
      (c :: more, rest)

def trimRight (cs : List Char) : List Char := (cs.reverse.dropWhile isBlank).reverse

/-- The lines of a plain scalar.  A later line belongs to it if it is indented beyond `parent` and
could not be anything else. -/
def plainLines (flow : Bool) (parent : Int) : Nat → Cursor → List (List Char) × Cursor
  | 0, cur => ([], cur)
  | fuel + 1, cur =>
    let (line, rest) := plainLine flow false cur.rest
    let text := trimRight line
    let after := cur.advance text.length
    match rest with
    | c :: _ =>
      if isBreak c then
        let next := breaks cur rest
        if next.2.done || (!flow && (next.2.column : Int) ≤ parent) || next.2.rest.head? = some '#' ||
            !continues flow next.2.rest then ([text], after)
        else
          let (more, after) := plainLines flow parent fuel next.2
          (text :: List.replicate (next.1 - 1) [] ++ more, after)
      else ([text], after)
    | [] => ([text], after)
where
  /-- Passes over line breaks and indentation: how many breaks there were, and where text goes on. -/
  breaks (cur : Cursor) (rest : List Char) : Nat × Cursor :=
    let gap := rest.takeWhile fun c => isBlank c || isBreak c
    let last := gap.reverse.takeWhile isBlank
    (gap.count '\n', { cur.atLine (rest.drop gap.length) with column := last.length })
  continues (flow : Bool) : List Char → Bool
    | [] => false
    | c :: rest => !(c = ':' && endsToken rest) && !(flow && flowSigns.contains c)

/-- A colon in flow brackets that is neither part of the text nor the end of a key. -/
def strayColon (line rest : List Char) : Bool :=
  (line.getLast? = some ':' && (rest.head?.map flowSigns.contains).getD false) ||
    (line.zip (line.drop 1)).contains (':', '?')

/-- A plain scalar, and whether it fits one line. -/
def plain (flow : Bool) (parent : Int) (cur : Cursor) : Option (Yaml × Bool × Cursor) :=
  let (lines, cur) := plainLines flow parent (cur.rest.length + 1) cur
  if flow && strayColon (lines.getLast?.getD []) cur.rest then none
  else some (scalar none true (.ofList (fold lines)), lines.length ≤ 1, cur)

def hexOf (cs : List Char) : Option Char := do
  let n ← Text.number? 16 cs
  if n.isValidChar then some (.ofNat n) else none

/-- What a backslash stands for in double quotes. -/
def escapeOf : List Char → Option (List Char × Nat)
  | 'x' :: a :: b :: _ => (hexOf [a, b]).map ([·], 3)
  | 'u' :: a :: b :: c :: d :: _ => (hexOf [a, b, c, d]).map ([·], 5)
  | 'U' :: a :: b :: c :: d :: e :: f :: g :: h :: _ => (hexOf [a, b, c, d, e, f, g, h]).map ([·], 9)
  | c :: _ => (simple c).map ([·], 1)
  | [] => none
where
  simple : Char → Option Char
    | '0' => some '\x00'
    | 'a' => some '\x07'
    | 'b' => some '\x08'
    | 't' => some '\t'
    | '\t' => some '\t'
    | 'n' => some '\n'
    | 'v' => some '\x0b'
    | 'f' => some '\x0c'
    | 'r' => some '\r'
    | 'e' => some '\x1b'
    | ' ' => some ' '
    | '"' => some '"'
    | '/' => some '/'
    | '\\' => some '\\'
    | 'N' => some '\u0085'
    | '_' => some '\u00a0'
    | 'L' => some '\u2028'
    | 'P' => some '\u2029'
    | _ => none

/-- The lines of a quoted scalar up to its closing quote, the characters of the current line
gathered in reverse. -/
def quotedLines (double : Bool) : Nat → List Char → Cursor → Option (List (List Char) × Cursor)
  | 0, _, _ => none
  | fuel + 1, line, cur =>
    match cur.rest with
    | [] => none
    | '\'' :: '\'' :: _ =>
      if double then quotedLines double fuel ('\'' :: line) (cur.advance 1)
      else quotedLines double fuel ('\'' :: line) (cur.advance 2)
    | '\\' :: '\n' :: rest =>
      if double then
        quotedLines double fuel line { cur.atLine (rest.dropWhile isBlank) with fresh := false }
      else endLine fuel cur ('\\' :: line) ('\n' :: rest)
    | '\\' :: rest =>
      if double then
        match escapeOf rest with
        | some (cs, n) => quotedLines double fuel (cs ++ line) (cur.advance (n + 1))
        | none => none
      else quotedLines double fuel ('\\' :: line) (cur.advance 1)
    | c :: rest =>
      if c = (if double then '"' else '\'') then some ([line.reverse], cur.advance 1)
      else if isBreak c then endLine fuel cur line (c :: rest)
      else quotedLines double fuel (c :: line) (cur.advance 1)
where
  endLine (fuel : Nat) (cur : Cursor) (line rest : List Char) :
      Option (List (List Char) × Cursor) :=
    let (count, next) := plainLines.breaks cur rest
    if next.done then none
    else do
      let (more, cur) ← quotedLines double fuel [] { next with fresh := false }
      return ((line.dropWhile isBlank).reverse :: List.replicate (count - 1) [] ++ more, cur)

/-- A quoted scalar, and whether it fits one line. -/
def quoted (double : Bool) (cur : Cursor) : Option (Yaml × Bool × Cursor) := do
  let (lines, cur) ← quotedLines double (cur.rest.length + 1) [] (cur.advance 1)
  return (scalar none false (.ofList (fold lines)), lines.length ≤ 1, cur)

/-! ### Block scalars -/

/-- The lines of a block scalar: those indented beyond `parent`, with blank lines between. -/
def blockLines (parent : Int) : Nat → List Char → List (List Char) × List Char
  | 0, rest => ([], rest)
  | _, [] => ([], [])
  | fuel + 1, rest =>
    let indent := (rest.takeWhile (· = ' ')).length
    let body := rest.drop indent
    let line := rest.takeWhile (!isBreak ·)
    let next := (rest.drop line.length).drop 1
    if body.head?.map isBreak = some true ∨ body = [] then
      let (more, rest) := blockLines parent fuel next
      ([] :: more, rest)
    else if (indent : Int) ≤ parent then ([], rest)
    else
      let (more, rest) := blockLines parent fuel next
      (line :: more, rest)

/-- A literal (`|`) or folded (`>`) scalar with its chomping mark. -/
def block (parent : Int) (cur : Cursor) : Option (Yaml × Cursor) :=
  match cur.rest with
  | style :: rest =>
    let (keep, strip, rest) := match rest with
      | '+' :: r => (true, false, r)
      | '-' :: r => (false, true, r)
      | r => (false, false, r)
    let header := rest.takeWhile (!isBreak ·)
    if !(header.dropWhile isBlank).isEmpty && (header.dropWhile isBlank).head? ≠ some '#' then none
    else
      let (lines, rest) := blockLines parent (rest.length + 1) ((rest.drop header.length).drop 1)
      let indent := ((lines.find? (!·.isEmpty)).map fun l => (l.takeWhile (· = ' ')).length).getD 0
      let body := lines.map (·.drop indent)
      let trailing := (body.reverse.takeWhile List.isEmpty).length
      let body := body.take (body.length - trailing)
      let text := if style = '|' then List.intercalate ['\n'] body else fold body
      let ending := if strip || body.isEmpty && !keep then []
        else if keep then List.replicate (trailing + 1) '\n' else ['\n']
      some (scalar none false (.ofList (text ++ ending)), cur.atLine rest)
  | [] => none

/-! ## Nodes -/

/-- What may stand before a node. -/
structure Properties where
  tag : Option String := none
  anchor : Option String := none

def isNameChar (c : Char) : Bool := c.isAlphanum || c = '_' || c = '-'

def isTagChar (c : Char) : Bool := isNameChar c || ";/?:@&=+$.!~*'()%".toList.contains c

/-- The tag after its first mark.  A second mark may follow at once; between two marks would be a
handle, and none are declared. -/
def tagText (cs : List Char) : Option (List Char) :=
  let name := cs.takeWhile isNameChar
  let text := cs.takeWhile isTagChar
  if (cs.drop name.length).head? = some '!' ∧ (name ≠ [] ∨ text.length = 1) then none else some text

/-- The text and length of a tag. -/
def tag? (flow : Bool) (cs : List Char) : Option (String × Nat) := do
  let text ← tagText cs
  let rest := cs.drop text.length
  if endsToken rest || (flow && rest.head? = some ',') then some ("!" ++ .ofList text, text.length + 1)
  else none

/-- The name and length of an anchor. -/
def anchor? (cs : List Char) : Option (String × Nat) :=
  let name := cs.takeWhile isNameChar
  let rest := cs.drop name.length
  if name ≠ [] && (endsToken rest || (rest.head?.map ("?:,]\x7d%@\x60".toList.contains ·)).getD false) then
    some (.ofList name, name.length + 1)
  else none

/-- A tag and an anchor in either order, and where the node would begin; `none` if one of them is
malformed or comes twice. -/
def properties (flow : Bool) : Nat → Properties → Cursor → Option (Properties × Cursor)
  | 0, _, _ => none
  | fuel + 1, props, cur =>
    match cur.rest with
    | '!' :: rest => do
      let (tag, length) ← tag? flow rest
      if props.tag.isSome then none
      else properties flow fuel { props with tag } (cur.advance length).skip
    | '&' :: rest => do
      let (anchor, length) ← anchor? rest
      if props.anchor.isSome then none
      else properties flow fuel { props with anchor } (cur.advance length).skip
    | _ => some (props, cur)

def hasProperties (cur : Cursor) : Bool := cur.rest.head? = some '!' || cur.rest.head? = some '&'

/-- The node with its properties.  An anchored one can be repeated from now on. -/
def endowed (props : Properties) (node : Yaml) (cur : Cursor) : Yaml × Cursor :=
  let node := match props.tag with
    | some tag => node.withTag tag
    | none => node
  match props.anchor with
  | some anchor => (node, { cur with anchors := (anchor, node) :: cur.anchors })
  | none => (node, cur)

/-- A scalar without properties, or a repeated node.  It may turn out to be a key. -/
def word (flow : Bool) (parent : Int) (cur : Cursor) : Option (Yaml × Bool × Cursor) :=
  match cur.rest with
  | '"' :: _ => quoted true cur
  | '\'' :: _ => quoted false cur
  | '*' :: rest => do
    let (anchor, length) ← anchor? rest
    let node ← cur.anchors.lookup anchor
    return (node, true, cur.advance length)
  | rest => if startsPlain flow rest then plain flow parent cur else none

/-- A scalar on one line with its properties, if a colon follows: a key, and what is after the
colon. -/
def key? (parent : Int) (cur : Cursor) : Option (Yaml × Cursor) := do
  let (props, start) ← properties false 3 {} cur
  if start.fresh && hasProperties cur then none
  else
    let (leaf, single, after) ← word false parent start
    let (leaf, after) := endowed props leaf after
    let colon := { after with rest := after.rest.dropWhile isBlank }
    if single && colon.atColon then some (leaf, colon.advance 1) else none

mutual

/-- A node in flow brackets. -/
def flowNode : Nat → Cursor → Option (Yaml × Cursor)
  | 0, _ => none
  | fuel + 1, cur =>
    let cur := cur.skip
    if hasProperties cur then do
      let (props, start) ← properties true 3 {} cur
      if ",]\x7d".toList.contains (start.rest.head?.getD ',') then return endowed props blank start
      else
        let (node, cur) ← flowNode fuel start
        return endowed props node cur
    else match cur.rest with
      | '[' :: _ => flowItems fuel (cur.advance 1)
      | '{' :: _ => flowEntries fuel (cur.advance 1)
      | _ => (word true (-1) cur).map fun (node, _, cur) => (node, cur)

/-- Items up to the closing bracket; a comma may stand before it. -/
def flowItems : Nat → Cursor → Option (Yaml × Cursor)
  | 0, _ => none
  | fuel + 1, cur => do
    let cur := cur.skip
    match cur.rest with
    | ']' :: _ => return (sequence none [], cur.advance 1)
    | _ =>
      let (item, cur) ← flowNode fuel cur
      let cur := cur.skip
      match cur.rest with
      | ']' :: _ => return (sequence none [item], cur.advance 1)
      | ',' :: _ => match ← flowItems fuel (cur.advance 1) with
        | (sequence _ items, cur) => return (sequence none (item :: items), cur)
        | _ => none
      | _ => none

/-- Entries up to the closing brace; a key without a colon has a blank value. -/
def flowEntries : Nat → Cursor → Option (Yaml × Cursor)
  | 0, _ => none
  | fuel + 1, cur => do
    let cur := cur.skip
    match cur.rest with
    | '}' :: _ => return (mapping none [], cur.advance 1)
    | _ =>
      let (key, cur) ← flowNode fuel cur
      let cur := cur.skip
      let (value, cur) ← match cur.rest with
        | ':' :: _ =>
          let cur := (cur.advance 1).skip
          if ",\x7d".toList.contains (cur.rest.head?.getD ' ') then some (blank, cur)
          else flowNode fuel cur
        | _ => some (blank, cur)
      let cur := cur.skip
      match cur.rest with
      | '}' :: _ => return (mapping none [(key, value)], cur.advance 1)
      | ',' :: _ => match ← flowEntries fuel (cur.advance 1) with
        | (mapping _ entries, cur) => return (mapping none ((key, value) :: entries), cur)
        | _ => none
      | _ => none

end

mutual

/-- A node to the right of `parent`.  A block collection may start here only if `inBlock`. -/
def node : Nat → Int → Bool → Cursor → Option (Yaml × Cursor)
  | 0, _, _, _ => none
  | fuel + 1, parent, inBlock, cur =>
    let cur := cur.skip
    if cur.done || (cur.fresh && (cur.column : Int) ≤ parent) then some (blank, cur)
    else match if inBlock then key? parent cur else none with
      | some (key, after) =>
        (pairs fuel cur.column key after).map fun (es, cur) => (mapping none es, cur)
      | none =>
        if hasProperties cur then do
          let (props, next) ← properties false 3 {} cur
          if next.done || (next.fresh && (next.column : Int) ≤ parent) then
            return endowed props blank next
          else
            let (n, cur) ← node fuel parent next.fresh next
            return endowed props n cur
        else match cur.rest with
          | '[' :: _ => flowItems fuel (cur.advance 1)
          | '{' :: _ => flowEntries fuel (cur.advance 1)
          | '|' :: _ => block parent cur
          | '>' :: _ => block parent cur
          | _ =>
            if cur.atDash then
              if inBlock then
                (entries fuel cur.column false cur).map fun (is, cur) => (sequence none is, cur)
              else none
            else match word false parent cur with
              | none => none
              | some (leaf, _, after) =>
                if ({ after with rest := after.rest.dropWhile isBlank } : Cursor).atColon then none
                else some (leaf, after)

/-- The items of a sequence whose dashes stand at `column`.  A sequence at the column of a key ends
where that key's neighbours go on. -/
def entries : Nat → Nat → Bool → Cursor → Option (List Yaml × Cursor)
  | 0, _, _, _ => none
  | fuel + 1, column, atKey, cur => do
    let (item, cur) ← node fuel column true (cur.advance 1)
    let cur := cur.skip
    if cur.done || (cur.fresh && cur.column < column) then return ([item], cur)
    else if cur.fresh && cur.column = column then
      if cur.atDash then
        let (items, cur) ← entries fuel column atKey cur
        return (item :: items, cur)
      else if atKey then return ([item], cur)
      else none
    else none

/-- The entries of a mapping at `column`, from the value of the first key on. -/
def pairs : Nat → Nat → Yaml → Cursor → Option (List (Yaml × Yaml) × Cursor)
  | 0, _, _, _ => none
  | fuel + 1, column, key, cur => do
    let start := cur.skip
    let (value, cur) ←
      if start.fresh && start.column = column && start.atDash && !start.done then
        (entries fuel column true start).map fun (is, cur) => (sequence none is, cur)
      else node fuel column start.fresh cur
    let cur := cur.skip
    if cur.done || (cur.fresh && cur.column < column) then return ([(key, value)], cur)
    else if cur.fresh && cur.column = column then
      let (next, after) ← key? column cur
      let (more, cur) ← pairs fuel column next after
      return ((key, value) :: more, cur)
    else none

end

/-! ## Documents -/

/-- The one document of a text: `none` if the text is not well formed or holds more than one, and
`some none` if it holds none. -/
def parse? (text : String) : Option (Option Yaml) := do
  let cs := match text.toList with
    | '\ufeff' :: cs => cs
    | cs => cs
  let cur := ({ rest := cs } : Cursor).skip
  if cur.atEnd then return none
  else
    let cur := if cur.startsDocument then cur.advance 3 else cur
    let (document, cur) ← node (cs.length + 1) (-1) cur.skip.fresh cur
    let cur := cur.skip
    let cur := if cur.endsDocument then (cur.advance 3).skip else cur
    if cur.atEnd then return some document else none

end Yaml
end ImportAtlas
