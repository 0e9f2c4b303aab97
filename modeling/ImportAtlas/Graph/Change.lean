import ImportAtlas.Graph.Hierarchy
import ImportAtlas.Step
/-!
# Changing a graph

A change either goes through or is refused, and in both cases there is a graph afterwards: a record
whose imported module is refused has already brought its importer into the graph, and the caller sees
it there.

The one rule behind every refusal: **nothing sits beneath a squashed module**, neither when a module
comes in nor when one is squashed.
-/
namespace ImportAtlas

/-- A step that changes a graph. -/
abbrev Changing := Step Graph

namespace Graph

/-- The nearest squashed module that `m` would sit beneath. -/
def squashedAbove? (g : Graph) (m : ModuleName) : Option ModuleName :=
  m.ancestors.find? g.isSquashed

/-- Why `m` may not come into the graph with that flag, if it may not.  A module that is there with
the same flag may always come again. -/
def refusal? (g : Graph) (m : ModuleName) (squashed : Bool) : Option Error :=
  match g.squashedAbove? m with
  | some above => some (.beneathSquashed m.text above.text)
  | none => match g.modules[m]? with
    | some flag => if flag = squashed then none else some (.squashConflict m.text)
    | none => if squashed && !(g.beneath m).isEmpty then some (.squashOverDescendants m.text)
      else none

def insertModule (m : ModuleName) (squashed : Bool) : Changing Unit := do
  let g ← get
  match g.refusal? m squashed with
  | some e => throw e
  | none => set { g with modules := g.modules.insert m squashed }

/-- An end of an import: whatever is there already will do, and a missing one comes in open. -/
def ensureModule (m : ModuleName) : Changing Unit := do
  unless m ∈ (← get).modules do
    insertModule m false

def addModule (name : String) (squashed : Bool) : Changing Unit := do
  insertModule (← ofExcept (ModuleName.parse name)) squashed

/-- Notes one more site of an import. -/
def cite (g : Graph) (i : Import) (s : Site) : Graph :=
  { g with imports := g.imports.insert i ((g.imports[i]?).getD [] ++ [s]) }

/-- Records one occurrence of an import, bringing in its ends where they are missing: the importer
first, so it stays when the imported module is refused. -/
def addRecord (r : ImportRecord) : Changing Unit := do
  ensureModule r.importer
  ensureModule r.imported
  modify (·.cite r.toImport r.site)

/-- An import between two names, at the given site. -/
def addImport (importer imported : String) (s : Site) : Changing Unit := do
  let a ← ofExcept (ModuleName.parse importer)
  let b ← ofExcept (ModuleName.parse imported)
  addRecord (Import.at ⟨a, b⟩ s)

/-- The graph without `m` and without the imports that touch it.  What is beneath `m` stays. -/
def without (g : Graph) (m : ModuleName) : Graph where
  modules := g.modules.erase m
  imports := g.imports.filter fun i _ => !decide (i.Touches m)

def removeModule (name : String) : Changing Unit :=
  modify fun g => match g.present name with
    | .ok m => g.without m
    | .error _ => g

def removeImport (importer imported : String) : Changing Unit := do
  let g ← get
  let a ← ofExcept (g.present importer)
  let b ← ofExcept (g.present imported)
  set { g with imports := g.imports.erase ⟨a, b⟩ }

/-! ## Squashing

Squashing `p` contracts its subtree onto `p`.  Imports that touch nothing beneath `p` keep their
sites; an import that does is moved to `p`, and if `p` did not import that module already, the moved
one has no sites.  Imports inside the subtree disappear. -/

/-- Where a module goes when `p` is squashed. -/
def contract (p m : ModuleName) : ModuleName := if m.IsBeneath p then p else m

/-- `i` has an end beneath `p`. -/
def Inner (p : ModuleName) (i : Import) : Prop := i.importer.IsBeneath p ∨ i.imported.IsBeneath p

instance (p : ModuleName) (i : Import) : Decidable (Inner p i) :=
  inferInstanceAs (Decidable (i.importer.IsBeneath p ∨ i.imported.IsBeneath p))

/-- The imports that contraction onto `p` asks for: of every module beneath it, those that touch it,
unless they end up where they start. -/
def contracted (g : Graph) (p : ModuleName) : List Import :=
  (((g.beneath p).flatMap fun m => g.importList.filter (·.Touches m)).map fun i =>
    ⟨contract p i.importer, contract p i.imported⟩).filter fun i => i.importer ≠ i.imported

/-- The graph with the contracted imports.  Those that were there keep their sites. -/
def joined (g : Graph) (p : ModuleName) : Graph :=
  { g with imports := (g.contracted p).foldl (fun imports i => imports.insertIfNew i []) g.imports }

/-- The graph with `p` squashed: contracted imports come in, then the modules beneath `p` go, one
after the other, each with the imports that touch it. -/
def squashed (g : Graph) (p : ModuleName) : Graph :=
  let cleared := (g.beneath p).foldl without (g.joined p)
  { cleared with modules := cleared.modules.insert p true }

def squashModule (name : String) : Changing Unit := do
  let g ← get
  let p ← ofExcept (g.present name)
  unless g.isSquashed p do
    set (g.squashed p)

/-! ## Runs of changes -/

/-- One call that may change a graph. -/
inductive Edit where
  | addModule (name : String) (squashed : Bool)
  | addImport (importer imported : String)
  | addImportAt (importer imported : String) (line : UInt32) (text : String)
  | addRecord (record : ImportRecord)
  | removeModule (name : String)
  | removeImport (importer imported : String)
  | squashModule (name : String)

def Edit.apply : Edit → Changing Unit
  | addModule name squashed => Graph.addModule name squashed
  | addImport importer imported => Graph.addImport importer imported ⟨none, none⟩
  | addImportAt importer imported line text =>
    Graph.addImport importer imported ⟨some line, some text⟩
  | addRecord record => Graph.addRecord record
  | removeModule name => Graph.removeModule name
  | removeImport importer imported => Graph.removeImport importer imported
  | squashModule name => Graph.squashModule name

/-- The graph after one call, whether it went through or not. -/
def edit (g : Graph) (e : Edit) : Graph := (e.apply.on g).1

/-- What one call answered. -/
def answer (g : Graph) (e : Edit) : Except Error Unit := (e.apply.on g).2

/-- The graph after any number of calls on an empty graph. -/
def ofEdits (edits : List Edit) : Graph := edits.foldl edit empty

/-- Some run of calls leads to the graph. -/
def Reachable (g : Graph) : Prop := ∃ edits, ofEdits edits = g

end Graph
end ImportAtlas
