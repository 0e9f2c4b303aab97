import ImportAtlas.Proofs.Assembly
import ImportAtlas.Proofs.BuildCourse
import ImportAtlas.Proofs.SourceNames
/-!
# What a build of Python packages answers

With caching disabled a build answers from the tree alone.  The modules that the finder finds belong to
the packages, and what a scan finds can then be put together; so only the packages and their files can
be refused, and **a build goes through exactly if its packages are found and their files can be scanned**
(`exists_built_iff`).  The graph is then that of the records of the files, module by module
(`built_eq_ok_iff`), which is where two builds are compared.
-/
namespace ImportAtlas
namespace Build

/-- The graph of Python packages or the refusal of it, with caching disabled. -/
def built (options : BuildOptions) (threshold workers : Nat) (names : List String) (t : FileTree) :
    Except Error Graph :=
  ((build { options with cache := .disabled } threshold workers names).on t).2.map (·.graph)

/-- What such a build is asked for. -/
def uncachedRequest (options : BuildOptions) (threshold workers : Nat) (names : List String) : Request where
  find := Finder.find options.searchPaths
  options := { options with cache := .disabled }
  threshold := threshold
  workers := workers
  names := names

/-- The Python packages of those names. -/
def packagesOf (searchPaths names : List String) (t : FileTree) : Except Error (List FoundPackage) := do
  let names ← packageNames names
  names.mapM (Finder.find searchPaths t)

/-- What has to be known to scan a file of the packages. -/
def contextOf (options : BuildOptions) (packages : List FoundPackage) : ScanContext :=
  .ofPackages packages options.includeExternal options.excludeTypeChecking

/-- Every file of the packages can be read and is Python. -/
def Scannable (t : FileTree) (options : BuildOptions) (packages : List FoundPackage) : Prop :=
  ∀ file ∈ packages.flatMap (·.files),
    ∃ row, scanFile t Scan.python (contextOf options packages) file = .ok row

/-- The table of all files of the packages. -/
def scanned (t : FileTree) (options : BuildOptions) (packages : List FoundPackage) : ImportTable :=
  tableOf t Scan.python (contextOf options packages) (packages.flatMap (·.files))

/-- The records of all files of the packages, module by module. -/
def recordsOf (t : FileTree) (options : BuildOptions) (packages : List FoundPackage) :
    List ImportRecord :=
  recordsFor (scanned t options packages) (packages.flatMap (·.modules))

section Python

variable {options : BuildOptions} {threshold workers : Nat} {searchPaths names : List String}
  {t : FileTree} {packages : List FoundPackage} {g : Graph} {r : ImportRecord}

theorem rooted_of_packagesOf (h : packagesOf searchPaths names t = .ok packages) :
    Rooted (packages.map (·.name)) (packages.flatMap (·.modules)) := by
  obtain ⟨ms, -, hfound⟩ := bind_eq_ok_iff.1 h
  intro m hm
  obtain ⟨p, hp, hm⟩ := List.mem_flatMap.1 hm
  obtain ⟨package, -, hfind⟩ := exists_of_mem_mapM hfound hp
  obtain ⟨rfl, hbelongs⟩ := Finder.belongs_of_find hfind
  exact ⟨p.name, List.mem_map.2 ⟨p, hp, rfl⟩, hbelongs m hm⟩

theorem exists_python_of_scanned {m : ModuleName} {records : List ImportRecord}
    (hscannable : Scannable t options packages) (h : (scanned t options packages)[m]? = some records) :
    ∃ file text, file.module = m ∧ Scan.python (contextOf options packages) file text = .ok records := by
  obtain ⟨file, -, hscan⟩ := exists_scanFile_of_table (scanChunk_eq_ok_iff.2 ⟨hscannable, rfl⟩) h
  obtain ⟨text, hpython, hmodule⟩ := exists_text_of_scanFile hscan
  exact ⟨file, text, hmodule.symm, hpython⟩

theorem placeable_of_mem_recordsOf (hscannable : Scannable t options packages)
    (hr : r ∈ recordsOf t options packages) :
    Placeable (packages.map (·.name)) (packages.flatMap (·.modules)) r := by
  obtain ⟨m, hm, records, hrow, hr⟩ := mem_recordsFor.1 hr
  obtain ⟨file, text, rfl, hpython⟩ := exists_python_of_scanned hscannable hrow
  exact placeable_of_mem_python hm hpython hr

/-- **What was found and scanned is put together to a graph.** -/
theorem exists_graphOf (hfound : packagesOf searchPaths names t = .ok packages)
    (hscannable : Scannable t options packages) :
    ∃ g, graphOf packages (contextOf options packages).modules (scanned t options packages) = .ok g ∧
      Assembled (packages.map (·.name)) (packages.flatMap (·.modules)) (recordsOf t options packages)
        g := by
  obtain ⟨g, hassemble, hg⟩ := exists_assembled rfl (rooted_of_packagesOf hfound)
    fun r hr => placeable_of_mem_recordsOf hscannable hr
  refine ⟨g, ?_, hg⟩
  unfold graphOf
  exact congrArg (fun run : Graph × Except Error Unit => run.2.map fun _ => run.1) hassemble

/-- **The graph of a build is that of the records of its files.** -/
theorem built_eq_ok_iff : built options threshold workers names t = .ok g ↔
    ∃ packages, packagesOf options.searchPaths names t = .ok packages ∧ Scannable t options packages ∧
      Assembled (packages.map (·.name)) (packages.flatMap (·.modules)) (recordsOf t options packages)
        g := by
  have hcaches : ¬ (uncachedRequest options threshold workers names).Caches := fun h => h rfl
  show (uncachedRequest options threshold workers names).answer Scan.python t = .ok g ↔ _
  rw [answer_eq_ok_iff hcaches]
  constructor
  · rintro ⟨packages, hfound, table, htable, hgraph⟩
    obtain ⟨hscans, rfl⟩ := scanChunk_eq_ok_iff.1 htable
    have hscannable : Scannable t options packages := hscans
    obtain ⟨g', hgraph', hg'⟩ := exists_graphOf hfound hscannable
    obtain rfl := Except.ok.inj (hgraph.symm.trans hgraph')
    exact ⟨packages, hfound, hscannable, hg'⟩
  · rintro ⟨packages, hfound, hscannable, hg⟩
    obtain ⟨g', hgraph', hg'⟩ := exists_graphOf hfound hscannable
    obtain rfl := hg.eq hg' (fun _ => Iff.rfl) fun _ => rfl
    exact ⟨packages, hfound, _, scanChunk_eq_ok_iff.2 ⟨hscannable, rfl⟩, hgraph'⟩

/-- **A build goes through if and only if its packages are found and their files can be scanned.** -/
theorem exists_built_iff : (∃ g, built options threshold workers names t = .ok g) ↔
    ∃ packages, packagesOf options.searchPaths names t = .ok packages ∧
      Scannable t options packages := by
  constructor
  · rintro ⟨g, hg⟩
    obtain ⟨packages, hfound, hscannable, -⟩ := built_eq_ok_iff.1 hg
    exact ⟨packages, hfound, hscannable⟩
  · rintro ⟨packages, hfound, hscannable⟩
    obtain ⟨g, -, hg⟩ := exists_graphOf hfound hscannable
    exact ⟨g, built_eq_ok_iff.2 ⟨packages, hfound, hscannable, hg⟩⟩

end Python
end Build
end ImportAtlas
