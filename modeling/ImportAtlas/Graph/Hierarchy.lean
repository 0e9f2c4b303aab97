import ImportAtlas.Graph
/-!
# Packages within a graph

The modules of a graph hang in a tree by their names, with levels missing wherever nobody added
them.  A module's closure is the module and everything beneath it: the modules that count as *the
package*.  A squashed module is its whole closure, and asking for its children or descendants is an
error, since the graph has been told to forget them.

Two packages can be asked about together only if neither contains the other (`disjoint`).
-/
namespace ImportAtlas
namespace Graph

/-- Every module of the graph beneath `m`, at any depth. -/
def beneath (g : Graph) (m : ModuleName) : List ModuleName :=
  g.moduleList.filter (·.IsBeneath m)

/-- The modules that make up the package `m`. -/
def closure (g : Graph) (m : ModuleName) : NameSet :=
  if g.isSquashed m then .ofList [m]
  else .ofList (g.moduleList.filter fun n => n = m ∨ n.IsBeneath m)

/-- The modules that a question about `m` is about: `m` alone, or the whole package. -/
def extent (g : Graph) (asPackage : Bool) (m : ModuleName) : NameSet :=
  if asPackage then g.closure m else .ofList [m]

def childrenOf (g : Graph) (m : ModuleName) : NameSet :=
  .ofList ((g.beneath m).filter fun n => n.depth = m.depth + 1)

def children (g : Graph) (name : String) : Except Error NameSet := do
  let m ← g.present name
  if g.isSquashed m then .error (.squashedHasNoChildren name)
  else return g.childrenOf m

def descendants (g : Graph) (name : String) : Except Error NameSet := do
  let m ← g.present name
  if g.isSquashed m then .error (.squashedHasNoDescendants name)
  else return .ofList (g.beneath m)

def packageClosure (g : Graph) (name : String) : Except Error NameSet := do
  return g.closure (← g.present name)

/-- Refuses two modules of which one contains the other. -/
def disjoint (importer imported : ModuleName) : Except Error Unit :=
  if importer.Overlaps imported then .error (.sharedDescendants importer.text imported.text)
  else .ok ()

/-- Whether `importer` imports `imported` directly; as packages, whether any member of the one
imports any member of the other. -/
def directImportExists (g : Graph) (importer imported : String) (asPackages : Bool) :
    Except Error Bool := do
  let a ← g.present importer
  let b ← g.present imported
  if asPackages then
    disjoint a b
  return g.importList.any fun i =>
    (g.extent asPackages a).contains i.importer && (g.extent asPackages b).contains i.imported

end Graph
end ImportAtlas
