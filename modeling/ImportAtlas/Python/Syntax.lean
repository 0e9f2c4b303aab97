import ImportAtlas.Name
import ImportAtlas.Python.Token
/-!
# Python source as a tree of statements

A source is read for the imports it makes, so the tree keeps what that takes and no more: import
statements with their rows, and the constructs that statements stand in, with their conditions.
Every other statement is `plain`.  Of an expression it matters only whether it is a bare name, an
access to an attribute, or something else.

An `if` statement is one node: the statements of its body and then a node for each `elif` or `else`
clause.  So "somewhere inside this `if`, in any branch" is the same as "below this node".
-/
namespace ImportAtlas
namespace Python

/-- As much of an expression as anybody looks at. -/
inductive Expr where
  | name (id : String)
  | attribute (id : String)
  /-- Another form that can be assigned to: an item, a starred target, a row of targets. -/
  | place
  | other
deriving DecidableEq

/-- A dotted name as it is written: words, with dots between them. -/
structure DottedName where
  first : Word
  rest : List Word
deriving DecidableEq

def DottedName.words (m : DottedName) : List Word := m.first :: m.rest

/-- What a `from` import takes out of a module. -/
inductive Selection where
  | everything
  | names (names : List DottedName)
deriving DecidableEq

/-- Where a `from` import takes its names from. -/
inductive Origin where
  | absolute (name : DottedName)
  /-- One dot and more of them `above` it, and perhaps a name behind them. -/
  | relative (above : Nat) (name : Option DottedName)
deriving DecidableEq

inductive ImportClause where
  /-- `import a.b, c as d`; aliases are not kept. -/
  | modules (names : List DottedName)
  /-- `from ..a import b` -/
  | members (source : Origin) (selection : Selection)
deriving DecidableEq

/-- What a group of statements belongs to. -/
inductive Construct where
  | ifStatement
  | elifClause
  | whileLoop
  | other
deriving DecidableEq

inductive Node where
  | importing (row : Nat) (clause : ImportClause)
  | plain
  | compound (construct : Construct) (condition : Option Expr) (children : List Node)

end Python
end ImportAtlas
