import ImportAtlas.Python.Syntax
import ImportAtlas.Python.Token
/-!
# Expressions

Reads an expression off the front of a token row and says what little of its form matters.  The
reader decides whether tokens are an expression at all; it builds no tree.

What a line break means depends on where it stands (`Reach`).  In a statement on a line of its own a
break after an operand ends the statement.  In the header of a compound statement nothing but the
colon ends the expression, so a break there is white space, and in brackets it always is.  Where an
operand is still due, a break is white space everywhere.  There is one catch: **a break that is white
space may not lead to a line shallower than the block, except where a closing bracket could stand**,
for that is where the block would end.
-/
namespace ImportAtlas
namespace Python

/-- A reader of something at the front of a token row. -/
abbrev Reader (α : Type) := List Token → Option (α × List Token)

inductive Reach where
  | line
  | header
  | bracket
deriving DecidableEq

/-- Where an expression stands. -/
structure Place where
  /-- The indentation of the block around it. -/
  block : Nat
  reach : Reach
  /-- The next token might be a closing bracket. -/
  closable : Bool := false

namespace Token

/-- The lines begun before the token are all within the block. -/
def within (t : Token) (block : Nat) : Bool := (t.shallowest.map fun w => decide (block ≤ w)).getD true

end Token

namespace Place

def inBrackets (p : Place) : Place := { p with reach := .bracket, closable := true }

/-- Further on, where an operand has been begun and no bracket can close before it is complete. -/
def due (p : Place) : Place := { p with closable := false }

def closing (p : Place) : Place := { p with closable := decide (p.reach = .bracket) }

/-- After an operand, the token still belongs to what is being read. -/
def sees (p : Place) (t : Token) : Bool :=
  match p.reach with
  | .line => t.indent.isNone
  | .header => t.within p.block
  | .bracket => true

/-- An operand may start at the token. -/
def admits (p : Place) (t : Token) : Bool :=
  p.closable || t.within p.block || t.startsText

/-- The next token, where something may follow an operand. -/
def next? (p : Place) : List Token → Option (Token × List Token)
  | t :: ts => if p.sees t then some (t, ts) else none
  | [] => none

/-- The next token, where an operand is due. -/
def start? (p : Place) : List Token → Option (Token × List Token)
  | t :: ts => if p.admits t then some (t, ts) else none
  | [] => none

/-- Does the operator follow? -/
def sign (p : Place) (op : String) (ts : List Token) : Bool :=
  ((p.next? ts).map (·.1.isOperator op)).getD false

def keyword (p : Place) (text : String) (ts : List Token) : Bool :=
  ((p.next? ts).map (·.1.isWord text)).getD false

/-- Passes over an operator that must follow. -/
def passSign (p : Place) (op : String) (ts : List Token) : Option (List Token) :=
  if p.sign op ts then some (ts.drop 1) else none

def passKeyword (p : Place) (text : String) (ts : List Token) : Option (List Token) :=
  if p.keyword text ts then some (ts.drop 1) else none

/-- An identifier that is due.  Any word will do. -/
def identifier (p : Place) : Reader Word := fun ts =>
  match p.start? ts with
  | some (⟨.word w, _, _, _⟩, ts) => some (w, ts)
  | _ => none

end Place

namespace Expr

/-- The form can be assigned to. -/
def isTarget : Expr → Bool
  | .name _ => true
  | .attribute _ => true
  | .place => true
  | .other => false

/-- Several forms between commas. -/
def ofRow (items : List Expr) : Expr := if items.all isTarget then place else other

end Expr

namespace Expression

open Place

/-- Operators between two operands that cannot begin with `not` or `lambda`. -/
def binaryOperators : List String :=
  ["+", "-", "*", "/", "//", "%", "@", "**", "&", "|", "^", "<<", ">>",
    "<", ">", "<=", ">=", "==", "!=", "<>"]

def constants : List String := ["True", "False", "None"]

mutual

/-- A full expression: a choice between two, a name bound on the way, a value with a name for it. -/
def expression : Nat → Place → Reader Expr
  | 0, _, _ => none
  | fuel + 1, p, ts => do
    let (e, ts) ← disjunction fuel p ts
    let p := p.due
    if p.sign ":=" ts && (match e with | .name _ => true | _ => false) then
      let (_, ts) ← expression fuel p (ts.drop 1)
      return (.other, ts)
    else if p.keyword "if" ts then
      let (_, ts) ← disjunction fuel p (ts.drop 1)
      let ts ← p.passKeyword "else" ts
      let (_, ts) ← expression fuel p ts
      return (.other, ts)
    else if p.keyword "as" ts then
      let (_, ts) ← expression fuel p (ts.drop 1)
      return (.other, ts)
    else return (e, ts)

/-- Operands with operators between them. -/
def disjunction : Nat → Place → Reader Expr
  | 0, _, _ => none
  | fuel + 1, p, ts => do
    let (e, ts) ← operand fuel p ts
    operators fuel p.due e ts

/-- What may follow `and` and `or`. -/
def operand : Nat → Place → Reader Expr
  | 0, _, _ => none
  | fuel + 1, p, ts => do
    let (t, rest) ← p.start? ts
    if t.isWord "not" then
      let (_, ts) ← operand fuel p.due rest
      return (.other, ts)
    else if t.isWord "lambda" then
      let (_, ts) ← parameters fuel p.due false ":" rest
      let (_, ts) ← expression fuel p.due ts
      return (.other, ts)
    else unary fuel p ts

def operators : Nat → Place → Expr → Reader Expr
  | 0, _, _, _ => none
  | fuel + 1, p, e, ts =>
    match p.next? ts with
    | some (⟨.operator op, _, _, _⟩, rest) =>
      if binaryOperators.contains op then do
        let (_, ts) ← unary fuel p rest
        operators fuel p .other ts
      else some (e, ts)
    | some (⟨.word ⟨text, _⟩, _, _, _⟩, rest) =>
      if text = "and" ∨ text = "or" then do
        let (_, ts) ← operand fuel p rest
        operators fuel p .other ts
      else if text = "in" then do
        let (_, ts) ← unary fuel p rest
        operators fuel p .other ts
      else if text = "is" then do
        let rest := (p.passKeyword "not" rest).getD rest
        let (_, ts) ← unary fuel p rest
        operators fuel p .other ts
      else if text = "not" then do
        let rest ← p.passKeyword "in" rest
        let (_, ts) ← unary fuel p rest
        operators fuel p .other ts
      else some (e, ts)
    | _ => some (e, ts)

/-- An operand of arithmetic, with its signs. -/
def unary : Nat → Place → Reader Expr
  | 0, _, _ => none
  | fuel + 1, p, ts => do
    let (t, rest) ← p.start? ts
    if t.isOperator "-" || t.isOperator "+" || t.isOperator "~" then
      let (_, ts) ← unary fuel p.due rest
      return (.other, ts)
    else if t.isWord "await" then
      match primary fuel p.due rest with
      | some (_, ts) => return (.other, ts)
      | none => primary fuel p ts
    else primary fuel p ts

/-- An atom with its attributes, items and calls. -/
def primary : Nat → Place → Reader Expr
  | 0, _, _ => none
  | fuel + 1, p, ts => do
    let (e, ts) ← atom fuel p ts
    trailers fuel p.due e ts

def trailers : Nat → Place → Expr → Reader Expr
  | 0, _, _, _ => none
  | fuel + 1, p, e, ts =>
    if p.sign "." ts then do
      let (id, ts) ← p.identifier (ts.drop 1)
      trailers fuel p (.attribute id.text) ts
    else if p.sign "(" ts then do
      let ts ← arguments fuel p.inBrackets (ts.drop 1)
      trailers fuel p .other ts
    else if p.sign "[" ts then do
      let ts ← subscripts fuel p.inBrackets.due (ts.drop 1)
      trailers fuel p .place ts
    else some (e, ts)

def atom : Nat → Place → Reader Expr
  | 0, _, _ => none
  | fuel + 1, p, ts => do
    let (t, rest) ← p.start? ts
    match t.kind with
    | .word ⟨text, _⟩ => return (if constants.contains text then .other else .name text, rest)
    | .number => return (.other, rest)
    | .text => texts fuel p.due rest
    | .formatOpen =>
      let ts ← fields fuel p.inBrackets rest
      texts fuel p.due ts
    | .operator "..." => return (.other, rest)
    | .operator "(" => bracketed fuel p.inBrackets ")" rest
    | .operator "[" => bracketed fuel p.inBrackets "]" rest
    | .operator "\x7b" =>
      let ts ← braces fuel p.inBrackets rest
      return (.other, ts)
    | _ => none

/-- The string literals that follow one. -/
def texts : Nat → Place → Reader Expr
  | 0, _, _ => none
  | fuel + 1, p, ts =>
    match p.next? ts with
    | some (⟨.text, _, _, _⟩, rest) => texts fuel p rest
    | some (⟨.formatOpen, _, _, _⟩, rest) => do
      let ts ← fields fuel p.inBrackets rest
      texts fuel p ts
    | _ => some (.other, ts)

/-- The fields of a format string up to its end. -/
def fields : Nat → Place → List Token → Option (List Token)
  | 0, _, _ => none
  | fuel + 1, p, ts =>
    match ts with
    | ⟨.formatClose, _, _, _⟩ :: ts => some ts
    | ⟨.operator "\x7b", _, _, _⟩ :: ts => do
      let ts ← field fuel p ts
      fields fuel p ts
    | _ => none

/-- A field behind its opening brace: a value, perhaps a sign to show its text, a conversion, a
format. -/
def field : Nat → Place → List Token → Option (List Token)
  | 0, _, _ => none
  | fuel + 1, p, ts => do
    let (_, ts) ← row fuel p.due ts
    let ts := (p.passSign "=" ts).getD ts
    let ts := match ts with
      | ⟨.conversion, _, _, _⟩ :: ts => ts
      | ts => ts
    if p.sign ":" ts then format fuel p (ts.drop 1) else p.passSign "\x7d" ts

/-- The fields within a format, up to the brace that closes the outer field. -/
def format : Nat → Place → List Token → Option (List Token)
  | 0, _, _ => none
  | fuel + 1, p, ts =>
    match ts with
    | ⟨.operator "\x7d", _, _, _⟩ :: ts => some ts
    | ⟨.operator "\x7b", _, _, _⟩ :: ts => do
      let ts ← field fuel p ts
      format fuel p ts
    | _ => none

/-- `yield` has been read: what it yields, which may be nothing. -/
def yielded : Nat → Place → List Token → Option (List Token)
  | 0, _, _ => none
  | fuel + 1, p, ts =>
    if p.keyword "from" ts then do
      let (_, ts) ← expression fuel p.due (ts.drop 1)
      return ts
    else if (p.next? ts).isSome then
      match row fuel p.closing ts with
      | some (_, ts) => some ts
      | none => some ts
    else some ts

/-- One entry of a row: starred, a `yield`, or an expression. -/
def element : Nat → Place → Reader Expr
  | 0, _, _ => none
  | fuel + 1, p, ts => do
    let (t, rest) ← p.start? ts
    if t.isOperator "*" then
      let (e, ts) ← disjunction fuel p.due rest
      return (if e.isTarget then .place else .other, ts)
    else if t.isWord "yield" then
      let ts ← yielded fuel p rest
      return (.other, ts)
    else expression fuel p ts

/-- Entries between commas; a comma may come last. -/
def row : Nat → Place → Reader Expr
  | 0, _, _ => none
  | fuel + 1, p, ts => do
    let (e, ts) ← element fuel p ts
    if p.sign "," ts then
      let (more, ts) ← rowAfterComma fuel p.closing (ts.drop 1)
      return (Expr.ofRow (e :: more), ts)
    else return (e, ts)

def rowAfterComma : Nat → Place → Reader (List Expr)
  | 0, _, _ => none
  | fuel + 1, p, ts =>
    match p.next? ts with
    | none => some ([], ts)
    | some _ => match element fuel p ts with
      | none => some ([], ts)
      | some (e, ts) =>
        if p.sign "," ts then do
          let (more, ts) ← rowAfterComma fuel p (ts.drop 1)
          return (e :: more, ts)
        else some ([e], ts)

/-- Entries up to a closing bracket, or a comprehension. -/
def bracketed : Nat → Place → String → Reader Expr
  | 0, _, _, _ => none
  | fuel + 1, p, close, ts =>
    if p.sign close ts then some (.place, ts.drop 1)
    else do
      let (e, ts) ← element fuel p ts
      if p.keyword "for" ts || p.keyword "async" ts then
        let ts ← comprehension fuel p.due ts
        return (.other, ← p.passSign close ts)
      else
        let (more, ts) ← if p.sign "," ts then rowAfterComma fuel p (ts.drop 1) else some ([], ts)
        return (Expr.ofRow (e :: more), ← p.passSign close ts)

/-- The clauses behind the value of a comprehension. -/
def comprehension : Nat → Place → List Token → Option (List Token)
  | 0, _, _ => none
  | fuel + 1, p, ts =>
    let ts := (p.passKeyword "async" ts).getD ts
    if p.keyword "for" ts then do
      let (_, ts) ← targets fuel p (ts.drop 1)
      let ts ← p.passKeyword "in" ts
      let ts ← sources fuel p ts
      comprehension fuel p ts
    else if p.keyword "if" ts then do
      let (_, ts) ← disjunction fuel p (ts.drop 1)
      comprehension fuel p ts
    else some ts

/-- What a comprehension runs over. -/
def sources : Nat → Place → List Token → Option (List Token)
  | 0, _, _ => none
  | fuel + 1, p, ts => do
    let (_, ts) ← disjunction fuel p ts
    if p.sign "," ts then
      match sources fuel p (ts.drop 1) with
      | some ts => return ts
      | none => return ts.drop 1
    else return ts

/-- Targets between commas, as after `for`. -/
def targets : Nat → Place → Reader Expr
  | 0, _, _ => none
  | fuel + 1, p, ts => do
    let (t, rest) ← p.start? ts
    let (e, ts) ← primary fuel p.due (if t.isOperator "*" then rest else ts)
    if !e.isTarget then none
    else if p.sign "," ts then
      match p.keyword "in" (ts.drop 1), targets fuel p (ts.drop 1) with
      | false, some (_, ts) => return (.place, ts)
      | _, _ => return (.place, ts.drop 1)
    else return (e, ts)

/-- The arguments of a call up to its closing parenthesis. -/
def arguments : Nat → Place → List Token → Option (List Token)
  | 0, _, _ => none
  | fuel + 1, p, ts =>
    if p.sign ")" ts then some (ts.drop 1)
    else do
      let (t, rest) ← p.start? ts
      let ts ←
        if t.isOperator "*" || t.isOperator "**" then
          (expression fuel p.due rest).map (·.2)
        else do
          let (e, ts) ← expression fuel p ts
          if p.sign "=" ts && (match e with | .name _ => true | _ => false) then
            (expression fuel p.due (ts.drop 1)).map (·.2)
          else if p.keyword "for" ts || p.keyword "async" ts then comprehension fuel p.due ts
          else some ts
      if p.sign "," ts then arguments fuel p (ts.drop 1) else p.passSign ")" ts

/-- Items and slices up to a closing bracket; there is at least one. -/
def subscripts : Nat → Place → List Token → Option (List Token)
  | 0, _, _ => none
  | fuel + 1, p, ts => do
    let ts ← subscript fuel p ts
    let p := p.closing
    if p.sign "," ts then
      if p.sign "]" (ts.drop 1) then return ts.drop 2
      else subscripts fuel p (ts.drop 1)
    else p.passSign "]" ts

def subscript : Nat → Place → List Token → Option (List Token)
  | 0, _, _ => none
  | fuel + 1, p, ts => do
    let ts ← if p.sign ":" ts then some ts else (element fuel p ts).map (·.2)
    let ts ← bound fuel p.closing ts
    bound fuel p.closing ts

/-- A colon and what may stand behind it in a slice. -/
def bound : Nat → Place → List Token → Option (List Token)
  | 0, _, _ => none
  | fuel + 1, p, ts =>
    if p.sign ":" ts then
      let ts := ts.drop 1
      if p.sign ":" ts || p.sign "]" ts || p.sign "," ts then some ts
      else (expression fuel p ts).map (·.2)
    else some ts

/-- A dictionary or a set behind its opening brace. -/
def braces : Nat → Place → List Token → Option (List Token)
  | 0, _, _ => none
  | fuel + 1, p, ts =>
    if p.sign "\x7d" ts then some (ts.drop 1)
    else do
      let (paired, ts) ← entry fuel p ts
      if p.keyword "for" ts || p.keyword "async" ts then
        let ts ← comprehension fuel p.due ts
        p.passSign "\x7d" ts
      else entries fuel p paired ts

/-- An entry of a dictionary (`true`) or a set. -/
def entry : Nat → Place → Reader Bool
  | 0, _, _ => none
  | fuel + 1, p, ts => do
    let (t, rest) ← p.start? ts
    if t.isOperator "**" then
      let (_, ts) ← disjunction fuel p.due rest
      return (true, ts)
    else
      let (_, ts) ← element fuel p ts
      if p.sign ":" ts then
        let (_, ts) ← expression fuel p.due (ts.drop 1)
        return (true, ts)
      else return (false, ts)

/-- The other entries, all of one kind, up to the closing brace. -/
def entries : Nat → Place → Bool → List Token → Option (List Token)
  | 0, _, _, _ => none
  | fuel + 1, p, paired, ts =>
    if p.sign "," ts then
      if p.sign "\x7d" (ts.drop 1) then some (ts.drop 2)
      else do
        let (kind, ts) ← entry fuel p (ts.drop 1)
        if kind = paired then entries fuel p paired ts else none
    else p.passSign "\x7d" ts

/-- Parameters up to the sign that ends them; with `typed`, they may have annotations. -/
def parameters : Nat → Place → Bool → String → Reader Unit
  | 0, _, _, _, _ => none
  | fuel + 1, p, typed, close, ts =>
    if p.sign close ts then some ((), ts.drop 1)
    else do
      let ts ← parameter fuel p typed ts
      if p.sign "," ts then parameters fuel p typed close (ts.drop 1)
      else return ((), ← p.passSign close ts)

def parameter : Nat → Place → Bool → List Token → Option (List Token)
  | 0, _, _, _ => none
  | fuel + 1, p, typed, ts => do
    let (t, rest) ← p.start? ts
    match t.kind with
    | .operator "/" => return rest
    | .operator "*" =>
      match p.identifier rest with
      | some (_, ts) => annotation fuel p typed ts
      | none => return rest
    | .operator "**" =>
      let (_, ts) ← p.due.identifier rest
      annotation fuel p typed ts
    | .operator "(" =>
      let (e, ts) ← bracketed fuel p.inBrackets ")" rest
      if e.isTarget then preset fuel p ts else none
    | .word _ =>
      let ts ← annotation fuel p typed rest
      preset fuel p ts
    | _ => none

/-- The type of a parameter, if it has one. -/
def annotation : Nat → Place → Bool → List Token → Option (List Token)
  | 0, _, _, _ => none
  | fuel + 1, p, typed, ts =>
    if typed && p.sign ":" ts then (type fuel p.due (ts.drop 1)).map (·.2) else some ts

/-- The value of a parameter that is not given, if it has one. -/
def preset : Nat → Place → List Token → Option (List Token)
  | 0, _, _ => none
  | fuel + 1, p, ts =>
    if p.sign "=" ts then (expression fuel p.due (ts.drop 1)).map (·.2) else some ts

/-- A type: an expression, perhaps starred. -/
def type : Nat → Place → Reader Expr
  | 0, _, _ => none
  | fuel + 1, p, ts => do
    let (t, rest) ← p.start? ts
    if t.isOperator "*" || t.isOperator "**" then expression fuel p.due rest
    else expression fuel p ts

end

end Expression
end Python
end ImportAtlas
