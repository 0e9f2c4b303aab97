import ImportAtlas.Python.Expression
/-!
# Patterns of a `case`

What stands between `case` and its colon or guard: literals and dotted names, classes with argument
patterns, sequences, mappings, stars, alternatives, and a name for what was matched.  Only whether
the tokens are such a pattern is of interest.
-/
namespace ImportAtlas
namespace Python
namespace CasePattern

open Place

/-- The rest of a dotted name. -/
def dots : Nat → Place → List Token → Option (List Token)
  | 0, _, _ => none
  | fuel + 1, p, ts =>
    if p.sign "." ts then do
      let (_, ts) ← p.identifier (ts.drop 1)
      dots fuel p ts
    else some ts

/-- A number that may be the second half of a complex one. -/
def imaginary (p : Place) (ts : List Token) : Option (List Token) :=
  if p.sign "+" ts || p.sign "-" ts then
    match p.start? (ts.drop 1) with
    | some (⟨.number, _, _, _⟩, ts) => some ts
    | _ => none
  else some ts

mutual

/-- A pattern, perhaps a keyword's, perhaps with a name for it. -/
def pattern : Nat → Place → List Token → Option (List Token)
  | 0, _, _ => none
  | fuel + 1, p, ts => do
    let ts ← alternatives fuel p ts
    let p := p.due
    let ts ← if p.sign "=" ts then alternatives fuel p (ts.drop 1) else some ts
    if p.keyword "as" ts then
      let (_, ts) ← p.identifier (ts.drop 1)
      return ts
    else return ts

def alternatives : Nat → Place → List Token → Option (List Token)
  | 0, _, _ => none
  | fuel + 1, p, ts => do
    let ts ← simple fuel p ts
    let p := p.due
    if p.sign "|" ts then alternatives fuel p (ts.drop 1) else return ts

def simple : Nat → Place → List Token → Option (List Token)
  | 0, _, _ => none
  | fuel + 1, p, ts => do
    let (t, rest) ← p.start? ts
    let p := p.due
    match t.kind with
    | .word _ =>
      let ts ← dots fuel p rest
      if p.sign "(" ts then patterns fuel p.inBrackets ")" (ts.drop 1) else return ts
    | .number => imaginary p rest
    | .text => (Expression.texts fuel p rest).map (·.2)
    | .formatOpen =>
      let ts ← Expression.fields fuel p.inBrackets rest
      (Expression.texts fuel p ts).map (·.2)
    | .operator "-" =>
      match p.start? rest with
      | some (⟨.number, _, _, _⟩, ts) => imaginary p ts
      | _ => none
    | .operator "*" => (p.identifier rest).map (·.2)
    | .operator "**" => (p.identifier rest).map (·.2)
    | .operator "(" => patterns fuel p.inBrackets ")" rest
    | .operator "[" => patterns fuel p.inBrackets "]" rest
    | .operator "\x7b" => keyed fuel p.inBrackets rest
    | _ => none

/-- Patterns between commas up to a closing bracket. -/
def patterns : Nat → Place → String → List Token → Option (List Token)
  | 0, _, _, _ => none
  | fuel + 1, p, close, ts =>
    if p.sign close ts then some (ts.drop 1)
    else do
      let ts ← pattern fuel p ts
      if p.sign "," ts then patterns fuel p close (ts.drop 1) else p.passSign close ts

/-- The entries of a mapping up to its closing brace. -/
def keyed : Nat → Place → List Token → Option (List Token)
  | 0, _, _ => none
  | fuel + 1, p, ts =>
    if p.sign "\x7d" ts then some (ts.drop 1)
    else do
      let (t, _) ← p.start? ts
      let ts ← simple fuel p ts
      let ts ←
        if t.isOperator "*" || t.isOperator "**" then some ts
        else do
          let ts ← p.due.passSign ":" ts
          pattern fuel p.due ts
      if p.sign "," ts then keyed fuel p (ts.drop 1) else p.passSign "\x7d" ts

end

/-- Patterns between commas outside brackets; a comma may come last. -/
def row : Nat → Place → List Token → Option (List Token)
  | 0, _, _ => none
  | fuel + 1, p, ts => do
    let ts ← pattern fuel p ts
    if p.sign "," ts then
      match row fuel p (ts.drop 1) with
      | some ts => return ts
      | none => return ts.drop 1
    else return ts

end CasePattern
end Python
end ImportAtlas
