import Mathlib.Data.List.Pairwise
import ImportAtlas.Proofs.PythonBuild
/-!
# The order of packages

The order in which packages are named decides in which order they are found, their files are scanned and
their modules come into the graph.  **None of it shows in the graph** (`built_of_perm`).

What a scan finds in a file depends on the set of the packages alone, since what is distilled from an
object does (`meaning?_of_perm`).  The results of packages that have no module in common can go into the
table in any order (`scanned_of_perm`).  And all records of an import were found in files of one module,
so they are not torn apart when packages change places (`filter_recordsOf_of_perm`).

Packages that do have a module in common are another matter, since of two results for a module the later
counts.
-/
namespace ImportAtlas
namespace Build

open Resolution

/-! ## Finding the packages -/

section Finding

variable {texts texts' searchPaths : List String} {ms : List ModuleName} {t : FileTree}
  {packages : List FoundPackage}

theorem distinctNames_eq_ok_iff : ∀ {texts : List String} {earlier ms : List ModuleName},
    distinctNames earlier texts = .ok ms ↔
      texts.mapM ModuleName.parse = .ok ms ∧ ms.Nodup ∧ ∀ m ∈ ms, m ∉ earlier
  | [], earlier, ms => by
    constructor
    · intro h
      obtain rfl := Except.ok.inj h
      exact ⟨rfl, .nil, fun m hm => (List.not_mem_nil hm).elim⟩
    · rintro ⟨h, -⟩
      obtain rfl := Except.ok.inj h
      rfl
  | text :: texts, earlier, ms => by
    rw [distinctNames, bind_eq_ok_iff, List.mapM_cons]
    simp only [bind_eq_ok_iff]
    constructor
    · rintro ⟨m, hm, h⟩
      split at h
      · cases h
      · next hnew =>
        obtain ⟨rest, hrest, h⟩ := bind_eq_ok_iff.1 h
        obtain rfl := Except.ok.inj h
        obtain ⟨hparsed, hnodup, hlater⟩ := distinctNames_eq_ok_iff.1 hrest
        refine ⟨⟨m, hm, rest, hparsed, rfl⟩, List.nodup_cons.2 ⟨fun hmem => ?_, hnodup⟩,
          List.forall_mem_cons.2 ⟨hnew, fun n hn hearlier => ?_⟩⟩
        · exact hlater m hmem (List.mem_append.2 (.inr (List.mem_singleton.2 rfl)))
        · exact hlater n hn (List.mem_append.2 (.inl hearlier))
    · rintro ⟨⟨m, hm, rest, hparsed, h⟩, hnodup, hlater⟩
      obtain rfl := Except.ok.inj h
      obtain ⟨hnotMem, hnodup⟩ := List.nodup_cons.1 hnodup
      obtain ⟨hnew, hlater⟩ := List.forall_mem_cons.1 hlater
      refine ⟨m, hm, ?_⟩
      rw [if_neg hnew]
      refine bind_eq_ok_iff.2 ⟨rest, distinctNames_eq_ok_iff.2 ⟨hparsed, hnodup, fun n hn hmem => ?_⟩, rfl⟩
      rcases List.mem_append.1 hmem with hearlier | hsame
      · exact hlater n hn hearlier
      · exact hnotMem (List.mem_singleton.1 hsame ▸ hn)

theorem exists_packageNames_of_perm (hperm : texts.Perm texts') (h : packageNames texts = .ok ms) :
    ∃ ms', packageNames texts' = .ok ms' ∧ ms.Perm ms' := by
  unfold packageNames at h ⊢
  split at h
  · cases h
  · next hne =>
    obtain ⟨hparsed, hnodup, -⟩ := distinctNames_eq_ok_iff.1 h
    obtain ⟨ms', hparsed', hms⟩ := exists_mapM_of_perm hperm hparsed
    refine ⟨ms', ?_, hms⟩
    rw [if_neg fun hnil => hne (hnil ▸ hperm).eq_nil]
    exact distinctNames_eq_ok_iff.2 ⟨hparsed', hms.nodup_iff.1 hnodup, fun _ _ => List.not_mem_nil⟩

theorem exists_packagesOf_of_perm (hperm : texts.Perm texts')
    (h : packagesOf searchPaths texts t = .ok packages) :
    ∃ packages', packagesOf searchPaths texts' t = .ok packages' ∧ packages.Perm packages' := by
  obtain ⟨ms, hms, hfound⟩ := bind_eq_ok_iff.1 h
  obtain ⟨ms', hms', hnames⟩ := exists_packageNames_of_perm hperm hms
  obtain ⟨packages', hfound', hpackages⟩ := exists_mapM_of_perm hnames hfound
  exact ⟨packages', bind_eq_ok_iff.2 ⟨ms', hms', hfound'⟩, hpackages⟩

end Finding

/-! ## Scanning their files -/

section Scanning

variable {packages packages' : List FoundPackage} {includeExternal excludeTypeChecking : Bool}
  {options : BuildOptions} {t : FileTree}

theorem modules_of_perm (hperm : packages.Perm packages') :
    (ScanContext.ofPackages packages includeExternal excludeTypeChecking).modules =
      (ScanContext.ofPackages packages' includeExternal excludeTypeChecking).modules := by
  refine Std.ExtTreeSet.ext_mem fun m => ?_
  exact NameSet.mem_ofList.trans ((hperm.flatMap_right _).mem_iff.trans NameSet.mem_ofList.symm)

theorem meaning?_of_perm (hperm : packages.Perm packages') :
    meaning? (.ofPackages packages includeExternal excludeTypeChecking) =
      meaning? (.ofPackages packages' includeExternal excludeTypeChecking) := by
  funext object
  unfold meaning?
  rw [modules_of_perm hperm]
  show _ = Option.or _ (if includeExternal = true then distilled? (packages'.map (·.name)) object else none)
  rw [← distilled?_congr fun _ => (hperm.map _).mem_iff]
  rfl

theorem scanFile_of_perm (hperm : packages.Perm packages') :
    scanFile t Scan.python (contextOf options packages) =
      scanFile t Scan.python (contextOf options packages') := by
  have hmeaning : meaning? (contextOf options packages) = meaning? (contextOf options packages') :=
    meaning?_of_perm hperm
  have hpython : Scan.python (contextOf options packages) = Scan.python (contextOf options packages') := by
    unfold Scan.python Scan.records Scan.record?
    rw [hmeaning]
    rfl
  unfold scanFile
  rw [hpython]

theorem scannable_of_perm (hperm : packages.Perm packages') :
    Scannable t options packages ↔ Scannable t options packages' := by
  unfold Scannable
  simp only [scanFile_of_perm hperm, (hperm.flatMap_right _).mem_iff]

/-- The two packages have no module in common. -/
def DisjointModules (p p' : FoundPackage) : Prop := p.modules.Disjoint p'.modules

instance : DecidableRel DisjointModules := fun p p' =>
  inferInstanceAs (Decidable (∀ m ∈ p.modules, m ∉ p'.modules))

instance : Std.Symm DisjointModules := ⟨fun _ _ h => List.disjoint_symm h⟩

/-- **Packages of different modules may be scanned in any order.** -/
theorem scanned_of_perm (hperm : packages.Perm packages') (hdisjoint : packages.Pairwise DisjointModules) :
    scanned t options packages = scanned t options packages' := by
  have hrow : rowOf t Scan.python (contextOf options packages) =
      rowOf t Scan.python (contextOf options packages') := by
    unfold rowOf
    rw [scanFile_of_perm hperm]
  unfold scanned tableOf
  rw [hrow]
  generalize hrows : rowOf t Scan.python (contextOf options packages') = row
  have hmodule : ∀ p : FoundPackage, (p.files.map row).map (·.1) = p.modules := by
    intro p
    rw [← hrows, List.map_map]
    exact List.map_congr_left fun file _ => module_rowOf file
  -- the rows go in package by package
  unfold insertAll
  rw [List.map_flatMap, List.map_flatMap, List.foldl_flatMap, List.foldl_flatMap]
  refine hperm.foldl_eq' (fun p hp p' hp' table => ?_) ∅
  by_cases hsame : p = p'
  · rw [hsame]
  · refine insertAll_comm ?_ table
    rw [hmodule, hmodule]
    exact hdisjoint.forall hp hp' hsame

end Scanning

/-! ## The graph -/

section Ordering

variable {packages packages' : List FoundPackage} {options : BuildOptions} {threshold workers : Nat}
  {names names' : List String} {t : FileTree} {g : Graph}

theorem flatMap_eq_of_perm {α β : Type} {l l' : List α} {f : α → List β} (hperm : l.Perm l') (a : α)
    (hf : ∀ b, b ≠ a → f b = []) : l.flatMap f = l'.flatMap f := by
  induction hperm with
  | nil => rfl
  | cons b _ ih => rw [List.flatMap_cons, List.flatMap_cons, ih]
  | swap b c l =>
    by_cases hb : b = a
    · by_cases hc : c = a
      · rw [hb, hc]
      · simp [hf c hc]
    · simp [hf b hb]
  | trans _ _ ih ih' => exact ih.trans ih'

/-- **The records of an import are the same, and in the same order.**  They all come from the module that
imports. -/
theorem filter_recordsOf_of_perm (hperm : packages.Perm packages')
    (hdisjoint : packages.Pairwise DisjointModules) (hscannable : Scannable t options packages)
    (i : Import) : (recordsOf t options packages).filter (·.toImport = i) =
      (recordsOf t options packages').filter (·.toImport = i) := by
  unfold recordsOf recordsFor
  rw [← scanned_of_perm hperm hdisjoint, List.filter_flatMap, List.filter_flatMap]
  refine flatMap_eq_of_perm (hperm.flatMap_right _) i.importer fun m hm => ?_
  -- only a file of the importing module has records of the import
  rw [List.filter_eq_nil_iff]
  intro r hr hri
  cases hrow : (scanned t options packages)[m]? with
  | none =>
    rw [hrow] at hr
    cases hr
  | some records =>
    rw [hrow] at hr
    obtain ⟨file, text, rfl, hpython⟩ := exists_python_of_scanned hscannable hrow
    obtain ⟨himporter, -⟩ := of_mem_python hpython hr
    obtain rfl := of_decide_eq_true hri
    exact hm himporter.symm

theorem built_reordered (hperm : names.Perm names')
    (hdisjoint : ∀ packages, packagesOf options.searchPaths names t = .ok packages →
      packages.Pairwise DisjointModules)
    (h : built options threshold workers names t = .ok g) :
    built options threshold workers names' t = .ok g := by
  obtain ⟨packages, hfound, hscannable, hg⟩ := built_eq_ok_iff.1 h
  obtain ⟨packages', hfound', hpackages⟩ := exists_packagesOf_of_perm hperm hfound
  have hscannable' := (scannable_of_perm hpackages).1 hscannable
  obtain ⟨g', -, hg'⟩ := exists_graphOf hfound' hscannable'
  have hsame : g = g' := hg.eq hg' (fun m => (hpackages.flatMap_right _).mem_iff)
    (filter_recordsOf_of_perm hpackages (hdisjoint packages hfound) hscannable)
  rw [hsame]
  exact built_eq_ok_iff.2 ⟨packages', hfound', hscannable', hg'⟩

/-- **The order in which packages are named does not matter**, if they have no module in common: a build
goes through in both orders or in neither, with one graph.  So the data file of a cache, whose name comes
from the packages in the order of their names, can serve every order. -/
theorem built_of_perm (hperm : names.Perm names')
    (hdisjoint : ∀ packages, packagesOf options.searchPaths names t = .ok packages →
      packages.Pairwise DisjointModules) :
    (∀ g, built options threshold workers names t = .ok g ↔
        built options threshold workers names' t = .ok g) ∧
      ∀ packages packages', packagesOf options.searchPaths names t = .ok packages →
        packagesOf options.searchPaths names' t = .ok packages' →
        Cache.key (packages.map (·.name)) options.includeExternal options.excludeTypeChecking =
          Cache.key (packages'.map (·.name)) options.includeExternal options.excludeTypeChecking := by
  have hdisjoint' : ∀ packages', packagesOf options.searchPaths names' t = .ok packages' →
      packages'.Pairwise DisjointModules := by
    intro packages' hfound'
    obtain ⟨packages, hfound, hpackages⟩ := exists_packagesOf_of_perm hperm.symm hfound'
    exact hpackages.symm.pairwise (hdisjoint packages hfound) fun h => List.disjoint_symm h
  refine ⟨fun g => ⟨built_reordered hperm hdisjoint, built_reordered hperm.symm hdisjoint'⟩,
    fun packages packages' hfound hfound' => ?_⟩
  obtain ⟨found, hfound'', hpackages⟩ := exists_packagesOf_of_perm hperm hfound
  obtain rfl : found = packages' := Except.ok.inj (hfound''.symm.trans hfound')
  unfold Cache.key
  rw [Text.sorted_eq_of_perm ((hpackages.map _).map _)]

/-- Three packages, two of them in one namespace, that import each other and things beside them. -/
def sharedTree : FileTree :=
  [("lib", .directory
    [("core", .directory [("__init__.py", .file (.ofText "import lib.net.tcp, os\nimport tool\n" 1))]),
      ("net", .directory
        [("http", .directory [("__init__.py", .file (.ofText "import lib.net.tcp.raw, lib.core\n" 1))])])]),
    ("tool", .directory [("__init__.py", .file (.ofText "import lib.net.http, lib.math.big, os\n" 1))])]

theorem computed_sharedTree :
    (packagesOf [] ["tool", "lib.core", "lib.net.http"] sharedTree).toOption.map
        (fun packages => decide (packages.Pairwise DisjointModules)) = some true ∧
      (built { includeExternal := true } 50 4 ["tool", "lib.core", "lib.net.http"]
          sharedTree).toOption.map (fun g => g.moduleList.map fun m => (m.text, g.isSquashed m)) =
        some [("lib.core", false), ("lib.math", true), ("lib.net.http", false), ("lib.net.tcp", true),
          ("os", true), ("tool", false)] := by
  decide +kernel

/-- Whichever package is the last to be found, `lib.net.tcp.raw` is distilled with regard to the one that
goes along with it the furthest. -/
theorem built_of_perm_sharedTree : ∃ g,
    built { includeExternal := true } 50 4 ["tool", "lib.core", "lib.net.http"] sharedTree = .ok g ∧
      (g.moduleList.map fun m => (m.text, g.isSquashed m)) = [("lib.core", false), ("lib.math", true),
        ("lib.net.http", false), ("lib.net.tcp", true), ("os", true), ("tool", false)] ∧
      built { includeExternal := true } 50 4 ["lib.net.http", "tool", "lib.core"] sharedTree = .ok g := by
  obtain ⟨hdisjoint, hbuilt⟩ := computed_sharedTree
  obtain ⟨g, hg, hshown⟩ := Option.map_eq_some_iff.1 hbuilt
  have hg := eq_ok_of_toOption hg
  have hperm : ["tool", "lib.core", "lib.net.http"].Perm ["lib.net.http", "tool", "lib.core"] := by decide
  have hpairwise : ∀ packages, packagesOf [] ["tool", "lib.core", "lib.net.http"] sharedTree = .ok packages →
      packages.Pairwise DisjointModules := by
    intro packages hfound
    rw [hfound] at hdisjoint
    exact of_decide_eq_true (Option.some.inj hdisjoint)
  exact ⟨g, hg, hshown, ((built_of_perm hperm hpairwise).1 g).1 hg⟩

end Ordering
end Build
end ImportAtlas
