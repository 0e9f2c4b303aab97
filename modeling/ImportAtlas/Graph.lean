import ImportAtlas.Import
/-!
# The import graph

A graph holds modules, each open or squashed, and imports between them, each with the sites it is
written at.  A squashed module stands for a whole subtree that the graph does not look into; the
modules beneath it are not in the graph.

Both parts are finite maps whose equality is equality of look-ups, so a graph *is* what can be asked
of it: two graphs with the same modules, flags, imports and sites are one graph, whatever was done
to reach them.  Walking a map visits its keys in order, which is where sorted answers come from.

An import may have no sites: contracting a subtree leaves such imports behind.
-/
namespace ImportAtlas

structure Graph where
  /-- The modules of the graph; `true` marks a squashed one. -/
  modules : Std.ExtTreeMap ModuleName Bool := ∅
  /-- The imports of the graph, each with its sites in the order they were recorded. -/
  imports : Std.ExtTreeMap Import (List Site) := ∅

namespace Graph

def empty : Graph := {}

theorem ext_lookup {g h : Graph} (hm : ∀ m : ModuleName, g.modules[m]? = h.modules[m]?)
    (hi : ∀ i : Import, g.imports[i]? = h.imports[i]?) : g = h := by
  cases g; cases h
  congr
  · exact Std.ExtTreeMap.ext_getElem? hm
  · exact Std.ExtTreeMap.ext_getElem? hi

/-- The module of that name, or the refusal to answer about it. -/
def present (g : Graph) (name : String) : Except Error ModuleName :=
  match ModuleName.ofString? name with
  | some m => if m ∈ g.modules then .ok m else .error (.moduleNotPresent name)
  | none => .error (.moduleNotPresent name)

def moduleList (g : Graph) : List ModuleName := g.modules.keys

def importList (g : Graph) : List Import := g.imports.keys

theorem mem_moduleList {g : Graph} {m : ModuleName} : m ∈ g.moduleList ↔ m ∈ g.modules :=
  Std.ExtTreeMap.mem_keys

theorem mem_importList {g : Graph} {i : Import} : i ∈ g.importList ↔ i ∈ g.imports :=
  Std.ExtTreeMap.mem_keys

theorem nodup_importList (g : Graph) : g.importList.Nodup := Std.ExtTreeMap.nodup_keys

def isSquashed (g : Graph) (m : ModuleName) : Bool := g.modules[m]? == some true

def contains (g : Graph) (name : String) : Bool :=
  match g.present name with
  | .ok _ => true
  | .error _ => false

def moduleCount (g : Graph) : Nat := g.modules.size

def importCount (g : Graph) : Nat := g.imports.size

theorem length_importList (g : Graph) : g.importList.length = g.importCount := Std.ExtTreeMap.length_keys

def squashed? (g : Graph) (name : String) : Except Error Bool := do
  return g.isSquashed (← g.present name)

/-! ## Direct imports -/

/-- What `m` imports. -/
def successors (g : Graph) (m : ModuleName) : List ModuleName :=
  (g.importList.filter (·.importer = m)).map (·.imported)

/-- What imports `m`. -/
def predecessors (g : Graph) (m : ModuleName) : List ModuleName :=
  (g.importList.filter (·.imported = m)).map (·.importer)

theorem mem_successors {g : Graph} {m n : ModuleName} : n ∈ g.successors m ↔ ⟨m, n⟩ ∈ g.imports := by
  simp only [successors, List.mem_map, List.mem_filter, mem_importList, decide_eq_true_eq]
  constructor
  · rintro ⟨i, ⟨hi, rfl⟩, rfl⟩
    exact hi
  · exact fun hi => ⟨_, ⟨hi, rfl⟩, rfl⟩

theorem mem_predecessors {g : Graph} {m n : ModuleName} :
    n ∈ g.predecessors m ↔ ⟨n, m⟩ ∈ g.imports := by
  simp only [predecessors, List.mem_map, List.mem_filter, mem_importList, decide_eq_true_eq]
  constructor
  · rintro ⟨i, ⟨hi, rfl⟩, rfl⟩
    exact hi
  · exact fun hi => ⟨_, ⟨hi, rfl⟩, rfl⟩

def importedBy (g : Graph) (name : String) : Except Error NameSet := do
  return .ofList (g.successors (← g.present name))

def importersOf (g : Graph) (name : String) : Except Error NameSet := do
  return .ofList (g.predecessors (← g.present name))

/-- The recorded places of an import, oldest first; none if there is no such import. -/
def records (g : Graph) (i : Import) : List ImportRecord :=
  ((g.imports[i]?).getD []).map i.at

def importRecords (g : Graph) (importer imported : String) : List ImportRecord :=
  match ModuleName.ofString? importer, ModuleName.ofString? imported with
  | some a, some b => g.records ⟨a, b⟩
  | _, _ => []

/-! ## A one-line picture -/

/-- At most five names, in order, and dots for the rest. -/
def display (g : Graph) : String :=
  let shown := (g.moduleList.take 5).map fun m => "'" ++ m.text ++ "'"
  let rest := if 5 < g.moduleCount then ["..."] else []
  if g.moduleCount = 0 then "<ImportGraph: empty>"
  else "<ImportGraph: " ++ ", ".intercalate (shown ++ rest) ++ ">"

end Graph
end ImportAtlas
