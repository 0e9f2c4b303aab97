import ImportAtlas.Python.CasePattern
import ImportAtlas.Python.Lexer
/-!
# Statements

Reads a whole source as a list of nodes, or says on which row the first statement stands that cannot
be read.  The row is where that statement begins: for a compound statement its header, for a clause
the clause's word.

Layout follows two rules.  Behind a colon, a line further in than the block opens a new block, and
any other line leaves the body empty.  A line less far in than a block ends it, and may end several;
a line further in, with no colon before it, simply belongs to the block.
-/
namespace ImportAtlas
namespace Python

/-- A reader of statements: what they are, or the row of the first that is none. -/
abbrev BlockReader (α : Type) := List Token → Except Nat (α × List Token)

def rowOf : List Token → Nat
  | t :: _ => t.row
  | [] => 0

/-- What a reader reads, or a fault on the given row. -/
def orFault {α : Type} (row : Nat) : Option α → Except Nat α
  | some a => .ok a
  | none => .error row

namespace Statement

open Place Expression

/-! ## Imports -/

/-- A dotted name that is due. -/
def dotted : Nat → Place → Reader DottedName
  | 0, _, _ => none
  | fuel + 1, p, ts => do
    let (w, ts) ← p.identifier ts
    let p := p.due
    if p.sign "." ts then
      let (more, ts) ← dotted fuel p (ts.drop 1)
      return (⟨w, more.words⟩, ts)
    else return (⟨w, []⟩, ts)

/-- A dotted name, and the alias it may have. -/
def imported (fuel : Nat) (p : Place) : Reader DottedName := fun ts => do
  let (m, ts) ← dotted fuel p ts
  let p := p.due
  if p.keyword "as" ts then
    let (_, ts) ← p.identifier (ts.drop 1)
    return (m, ts)
  else return (m, ts)

/-- Names between commas; a comma may come last. -/
def importList : Nat → Place → Reader (List DottedName)
  | 0, _, _ => none
  | fuel + 1, p, ts => do
    let (m, ts) ← imported fuel p ts
    if p.due.sign "," ts then
      match p.closing.next? (ts.drop 1) with
      | some _ => match importList fuel p.closing (ts.drop 1) with
        | some (ms, ts) => return (m :: ms, ts)
        | none => return ([m], ts.drop 1)
      | none => return ([m], ts.drop 1)
    else return ([m], ts)

/-- The dots before a relative name; three in a row make one token. -/
def leadingDots : Nat → Place → List Token → Nat × List Token
  | 0, _, ts => (0, ts)
  | fuel + 1, p, ts =>
    match p.start? ts with
    | some (⟨.operator ".", _, _, _⟩, rest) =>
      let (n, ts) := leadingDots fuel p rest
      (n + 1, ts)
    | some (⟨.operator "...", _, _, _⟩, rest) =>
      let (n, ts) := leadingDots fuel p rest
      (n + 3, ts)
    | _ => (0, ts)

/-- Where a `from` import takes its names from. -/
def origin (fuel : Nat) (p : Place) : Reader Origin := fun ts =>
  match leadingDots fuel p ts with
  | (0, ts) => do
    let (m, ts) ← dotted fuel p ts
    return (.absolute m, ts)
  | (above + 1, ts) => do
    let (t, _) ← p.start? ts
    if t.isWord "import" then return (.relative above none, ts)
    else
      let (m, ts) ← dotted fuel p ts
      return (.relative above (some m), ts)

/-- What a `from` import takes.  A future import names what it takes. -/
def selection (fuel : Nat) (p : Place) (future : Bool) : Reader Selection := fun ts => do
  let (t, rest) ← p.start? ts
  if t.isOperator "*" then if future then none else return (.everything, rest)
  else if t.isOperator "(" then
    let inside := p.inBrackets
    let (ms, ts) ← importList fuel inside.due rest
    return (.names ms, ← inside.passSign ")" ts)
  else
    let (ms, ts) ← importList fuel p ts
    return (.names ms, ts)

def fromImport (fuel : Nat) (p : Place) : Reader ImportClause := fun ts => do
  let future := ((ts.head?).map (·.isWord "__future__")).getD false
  let (source, ts) ←
    if future then do
      let (w, ts) ← p.identifier ts
      some (.absolute ⟨w, []⟩, ts)
    else origin fuel p ts
  let (t, rest) ← p.start? ts
  if t.isWord "import" then
    let (names, ts) ← selection fuel p future rest
    return (.members source names, ts)
  else none

/-! ## Simple statements -/

def augmented : List String :=
  ["+=", "-=", "*=", "/=", "//=", "%=", "@=", "&=", "|=", "^=", ">>=", "<<=", "**="]

/-- The operator assigns the value behind it. -/
def assigns (t : Token) : Bool := ("=" :: augmented).any t.isOperator

/-- A row, and what is assigned to it, which may be an assignment again. -/
def assigned : Nat → Place → List Token → Option (List Token)
  | 0, _, _ => none
  | fuel + 1, p, ts => do
    let (e, ts) ← row fuel p ts
    match p.next? ts with
    | some (t, rest) =>
      if assigns t then
        if e.isTarget then assigned fuel p rest else none
      else return ts
    | none => return ts

/-- An expression by itself, or an assignment, perhaps with a type. -/
def expressionStatement : Nat → Place → List Token → Option (List Token)
  | 0, _, _ => none
  | fuel + 1, p, ts => do
    let (e, rest) ← row fuel p ts
    if p.sign ":" rest && e.isTarget then
      let (_, rest) ← type fuel p (rest.drop 1)
      if p.sign "=" rest then assigned fuel p (rest.drop 1) else return rest
    else assigned fuel p ts

/-- Expressions between commas, none of them missing. -/
def expressions : Nat → Place → List Token → Option (List Token)
  | 0, _, _ => none
  | fuel + 1, p, ts => do
    let (_, ts) ← expression fuel p ts
    if p.sign "," ts then expressions fuel p (ts.drop 1) else return ts

def identifiers : Nat → Place → List Token → Option (List Token)
  | 0, _, _ => none
  | fuel + 1, p, ts => do
    let (_, ts) ← p.identifier ts
    if p.sign "," ts then identifiers fuel p (ts.drop 1) else return ts

/-- A row, if anything is left of the statement. -/
def optionalRow (fuel : Nat) (p : Place) (ts : List Token) : List Token :=
  if (p.next? ts).isSome then ((row fuel p ts).map (·.2)).getD ts else ts

/-- Nothing more of the statement comes. -/
def ended (p : Place) (ts : List Token) : Bool := (p.next? ts).isNone || p.sign ";" ts

/-- The reading, if it takes the whole statement. -/
def whole (p : Place) (reading : Option (List Token)) : Option (List Token) :=
  reading.filter (ended p)

/-- `print` with a row of values, or with a destination first. -/
def printed (fuel : Nat) (p : Place) (ts : List Token) : Option (List Token) := do
  if p.sign ">>" ts then
    let (_, ts) ← expression fuel p (ts.drop 1)
    if p.sign "," ts then return optionalRow fuel p (ts.drop 1) else return ts
  else
    let (_, ts) ← row fuel p ts
    return ts

/-- `exec` with a text or a name, and where it runs. -/
def executed (fuel : Nat) (p : Place) (ts : List Token) : Option (List Token) := do
  let (t, rest) ← p.start? ts
  let ts ← match t.kind with
    | .word _ => some rest
    | .text => (texts fuel p rest).map (·.2)
    | _ => none
  if p.keyword "in" ts then expressions fuel p (ts.drop 1) else return ts

/-- A simple statement that is no import. -/
def plain (fuel : Nat) (p : Place) (ts : List Token) : Option (List Token) := do
  let (t, rest) ← p.start? ts
  let asExpression := expressionStatement fuel p ts
  match t.word? with
  | some "assert" => expressions fuel p rest
  | some "return" => return optionalRow fuel p rest
  | some "del" => (row fuel p rest).map (·.2)
  | some "raise" =>
    let ts := optionalRow fuel p rest
    if p.keyword "from" ts then (expression fuel p (ts.drop 1)).map (·.2) else return ts
  | some "pass" => return rest
  | some "break" => return rest
  | some "continue" => return rest
  | some "global" => identifiers fuel p rest
  | some "nonlocal" => identifiers fuel p rest
  | some "print" => (whole p asExpression).orElse fun _ => printed fuel p rest
  | some "exec" => (whole p asExpression).orElse fun _ => executed fuel p rest
  | some "type" => (whole p asExpression).orElse fun _ => do
    let (_, ts) ← type fuel p rest
    let ts ← p.passSign "=" ts
    (type fuel p ts).map (·.2)
  | _ => asExpression

def simple (fuel : Nat) (p : Place) : Reader Node := fun ts => do
  let (t, rest) ← p.start? ts
  if t.isWord "import" then
    let (names, ts) ← importList fuel p rest
    return (.importing t.row (.modules names), ts)
  else if t.isWord "from" then
    let (clause, ts) ← fromImport fuel p rest
    return (.importing t.row clause, ts)
  else
    let ts ← plain fuel p ts
    return (.plain, ts)

/-- The statements of one line, with semicolons between them. -/
def simpleLine : Nat → Nat → BlockReader (List Node)
  | 0, _, ts => .error (rowOf ts)
  | fuel + 1, block, ts => do
    let p : Place := { block, reach := .line }
    let (node, rest) ← orFault (rowOf ts) (whole' p (simple fuel p ts))
    if p.sign ";" rest then
      if (p.next? (rest.drop 1)).isNone then return ([node], rest.drop 1)
      else
        let (nodes, rest) ← simpleLine fuel block (rest.drop 1)
        return (node :: nodes, rest)
    else return ([node], rest)
where
  whole' (p : Place) (reading : Option (Node × List Token)) : Option (Node × List Token) :=
    reading.filter fun r => ended p r.2

/-! ## Headers of compound statements -/

/-- Parameters of a type, in brackets, if there are any. -/
def typeParameters (fuel : Nat) (p : Place) (ts : List Token) : Option (List Token) :=
  if p.sign "[" ts then entries fuel p.inBrackets (ts.drop 1) else some ts
where
  entries : Nat → Place → List Token → Option (List Token)
    | 0, _, _ => none
    | fuel + 1, p, ts => do
      let (_, ts) ← type fuel p ts
      let ts ← if p.sign ":" ts then (type fuel p (ts.drop 1)).map (·.2) else some ts
      if p.sign "," ts then
        if p.sign "]" (ts.drop 1) then return ts.drop 2 else entries fuel p (ts.drop 1)
      else p.passSign "]" ts

/-- A function's name, parameters and type. -/
def functionHeader (fuel : Nat) (p : Place) (ts : List Token) : Option (List Token) := do
  let (_, ts) ← p.identifier ts
  let ts ← typeParameters fuel p ts
  let ts ← p.passSign "(" ts
  let (_, ts) ← parameters fuel p.inBrackets true ")" ts
  if p.sign "->" ts then (type fuel p (ts.drop 1)).map (·.2) else return ts

/-- A class's name and bases. -/
def classHeader (fuel : Nat) (p : Place) (ts : List Token) : Option (List Token) := do
  let (_, ts) ← p.identifier ts
  let ts ← typeParameters fuel p ts
  if p.sign "(" ts then arguments fuel p.inBrackets (ts.drop 1) else return ts

/-- A loop's targets and what it runs over. -/
def forHeader (fuel : Nat) (p : Place) (ts : List Token) : Option (List Token) := do
  let (_, ts) ← targets fuel p ts
  let ts ← p.passKeyword "in" ts
  let (_, ts) ← row fuel p ts
  return ts

/-- What an `except` clause catches. -/
def exceptHeader (fuel : Nat) (p : Place) (ts : List Token) : Option (List Token) :=
  if p.sign ":" ts then some ts
  else if p.sign "*" ts then (row fuel p (ts.drop 1)).map (·.2)
  else (row fuel p ts).map (·.2)

/-- A pattern with its guard. -/
def caseHeader (fuel : Nat) (p : Place) (ts : List Token) : Option (List Token) := do
  let ts ← CasePattern.row fuel p ts
  if p.keyword "if" ts then (expression fuel p (ts.drop 1)).map (·.2) else return ts

/-- The header up to its colon. -/
def withColon (p : Place) (header : Option (List Token)) : Option (List Token) :=
  header.bind (p.passSign ":")

/-- The token is the given word and within the block. -/
def clause (word : String) (block : Nat) : List Token → Bool
  | t :: _ => t.isWord word && ((t.indent.map fun w => decide (block ≤ w)).getD true)
  | [] => false

/-- The subjects of a `match` statement, if this is one: its colon ends the line. -/
def matchHeader (fuel : Nat) (p : Place) (ts : List Token) : Option (List Token) := do
  let (_, ts) ← row fuel p ts
  let ts ← p.passSign ":" ts
  if ((ts.head?).bind (·.indent)).isSome then return ts else none

/-! ## Blocks -/

/-- The statements below a node. -/
def childrenOf : Node → List Node
  | .compound _ _ children => children
  | _ => []

mutual

/-- The statements of a block up to the line that ends it. -/
def statements : Nat → Nat → BlockReader (List Node)
  | 0, _, ts => .error (rowOf ts)
  | fuel + 1, block, ts =>
    match ts with
    | [] => .ok ([], [])
    | t :: _ =>
      if t.kind = .endOfSource then .ok ([], ts)
      else if ((t.indent.map fun w => decide (w < block)).getD false) then .ok ([], ts)
      else do
        let (nodes, ts) ← statement fuel block ts
        let (more, ts) ← statements fuel block ts
        return (nodes ++ more, ts)

/-- What stands behind a colon: a block, an empty line, or simple statements. -/
def suite : Nat → Nat → BlockReader (List Node)
  | 0, _, ts => .error (rowOf ts)
  | fuel + 1, block, ts =>
    match (ts.head?).bind (·.indent) with
    | some w => if block < w then statements fuel w ts else .ok ([], ts)
    | none => simpleLine fuel block ts

/-- A header, a colon and a suite, as one node. -/
def construct : Nat → Nat → Construct → Option Expr → Nat → Option (List Token) → List Token →
    Except Nat (Node × List Token)
  | 0, _, _, _, row, _, _ => .error row
  | fuel + 1, block, kind, condition, row, header, _ => do
    let p : Place := { block, reach := .header }
    let ts ← orFault row (withColon p header)
    let (children, ts) ← suite fuel block ts
    return (.compound kind condition children, ts)

/-- A clause of the given word, as often as it comes. -/
def clauses : Nat → Nat → String → Construct → (List Token → Option (Option Expr × List Token)) →
    BlockReader (List Node)
  | 0, _, _, _, _, ts => .error (rowOf ts)
  | fuel + 1, block, word, kind, header, ts =>
    if clause word block ts then do
      let row := rowOf ts
      let (condition, rest) ← orFault row (header (ts.drop 1))
      let (node, ts) ← construct fuel block kind condition row (some rest) ts
      let (more, ts) ← clauses fuel block word kind header ts
      return (node :: more, ts)
    else .ok ([], ts)

/-- At most one clause that has no header but its word. -/
def bareClause : Nat → Nat → String → BlockReader (List Node)
  | 0, _, _, ts => .error (rowOf ts)
  | fuel + 1, block, word, ts =>
    if clause word block ts then do
      let (node, ts) ← construct fuel block .other none (rowOf ts) (some (ts.drop 1)) ts
      return ([node], ts)
    else .ok ([], ts)

/-- The cases of a `match` statement up to the line that ends its block. -/
def cases : Nat → Nat → BlockReader (List Node)
  | 0, _, ts => .error (rowOf ts)
  | fuel + 1, block, ts =>
    match ts with
    | [] => .ok ([], [])
    | t :: rest =>
      if t.kind = .endOfSource then .ok ([], ts)
      else if ((t.indent.map fun w => decide (w < block)).getD false) then .ok ([], ts)
      else if t.isWord "case" then do
        let p : Place := { block, reach := .header }
        let (node, ts) ← construct fuel block .other none t.row (caseHeader fuel p rest) ts
        let (more, ts) ← cases fuel block ts
        return (node :: more, ts)
      else .error t.row

/-- A class or function behind its decorators. -/
def decorated : Nat → Nat → BlockReader (List Node)
  | 0, _, ts => .error (rowOf ts)
  | fuel + 1, block, ts =>
    match ts with
    | [] => .error 0
    | t :: rest =>
      if !t.within block then .error t.row
      else if t.isOperator "@" then do
        let p : Place := { block, reach := .line }
        let (_, after) ← orFault t.row (expression fuel p rest)
        if (p.next? after).isNone then decorated fuel block after else .error t.row
      else if t.isWord "class" || t.isWord "def" || t.isWord "async" then statement fuel block ts
      else .error t.row

/-- One statement, which may be several simple ones on a line. -/
def statement : Nat → Nat → BlockReader (List Node)
  | 0, _, ts => .error (rowOf ts)
  | fuel + 1, block, ts =>
    match ts with
    | [] => .ok ([], [])
    | t :: rest =>
      let ts := t.afresh :: rest
      let p : Place := { block, reach := .header }
      let row := t.row
      let one (kind : Construct) (condition : Option Expr) (header : Option (List Token)) :=
        construct fuel block kind condition row header ts
      if t.isOperator "@" then decorated fuel block ts
      else match t.word? with
      | some "if" => do
        let (condition, header) ← orFault row (expression fuel p rest)
        let (node, ts) ← one .ifStatement none (some header)
        let (elifs, ts) ← clauses fuel block "elif" .elifClause
          (fun ts => (expression fuel p ts).map fun (e, ts) => (some e, ts)) ts
        let (elses, ts) ← bareClause fuel block "else" ts
        return ([.compound .ifStatement (some condition) (childrenOf node ++ elifs ++ elses)], ts)
      | some "while" => do
        let (condition, header) ← orFault row (expression fuel p rest)
        let (node, ts) ← one .whileLoop (some condition) (some header)
        let (elses, ts) ← bareClause fuel block "else" ts
        return (node :: elses, ts)
      | some "for" => do
        let (node, ts) ← one .other none (forHeader fuel p rest)
        let (elses, ts) ← bareClause fuel block "else" ts
        return (node :: elses, ts)
      | some "try" => do
        let (node, ts) ← one .other none (some rest)
        let (excepts, ts) ← clauses fuel block "except" .other
          (fun ts => (exceptHeader fuel p ts).map (none, ·)) ts
        let (elses, ts) ← if excepts.isEmpty then .ok ([], ts) else bareClause fuel block "else" ts
        let (finals, ts) ← bareClause fuel block "finally" ts
        if excepts.isEmpty && finals.isEmpty then .error row
        else return (node :: excepts ++ elses ++ finals, ts)
      | some "with" => do
        let (node, ts) ← one .other none ((Expression.row fuel p rest).map (·.2))
        return ([node], ts)
      | some "def" => do
        let (node, ts) ← one .other none (functionHeader fuel p rest)
        return ([node], ts)
      | some "class" => do
        let (node, ts) ← one .other none (classHeader fuel p rest)
        return ([node], ts)
      | some "async" =>
        if ["def", "for", "with"].any (p.keyword · rest) then statement fuel block rest
        else simpleLine fuel block ts
      | some "match" =>
        match matchHeader fuel p rest with
        | none => simpleLine fuel block ts
        | some after =>
          match (after.head?).bind (·.indent) with
          | some w =>
            if block < w then do
              let (nodes, ts) ← cases fuel w after
              return ([.compound .other none nodes], ts)
            else .ok ([.plain], after)
          | none => .error row
      | _ => simpleLine fuel block ts

end
end Statement

/-- The nodes of a source, or the row of the first statement that cannot be read.  Every step of the
reader goes down a bounded number of rules before it takes a token, so the bound is never met. -/
def parse (source : String) : Except Nat (List Node) := do
  let ts := tokens source
  let (nodes, rest) ← Statement.statements (32 * (ts.length + 1)) 0 ts
  match rest with
  | [] => return nodes
  | t :: _ => if t.kind = .endOfSource then return nodes else .error t.row

end Python
end ImportAtlas
