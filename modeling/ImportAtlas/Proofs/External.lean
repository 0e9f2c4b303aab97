import ImportAtlas.Proofs.PythonBuild
/-!
# Including external packages

A build that includes external packages sees more than one that does not, and that is all.  What an
object means without them is what it means with them, as far as that was found (`meaning?_internal`):
an object with a home means its home in both, and what is distilled from any other is clear of the
packages and so never a module of one.

This law goes up through the build, layer by layer, to the records of a file, the table of a scan and the
records of the graph (`recordsOf_internal`).  On the way repetitions are dropped, which is the same before
and after (`filter_eraseDups`).  In the graph the records that are left out are those of the imports that
touch a squashed module, **so what removes the squashed modules makes the one graph of the other**
(`built_internal`).
-/
namespace ImportAtlas
namespace Build

open ImportAtlas.Graph ImportAtlas.Resolution

/-- The records of imports within the modules that were found. -/
def internal (found : List ModuleName) (records : List ImportRecord) : List ImportRecord :=
  records.filter (·.imported ∈ found)

theorem filter_eraseDups {α : Type} [DecidableEq α] (p : α → Bool) : ∀ l : List α,
    l.eraseDups.filter p = (l.filter p).eraseDups
  | [] => rfl
  | a :: as => by
    have hlength : (as.filter fun b => !b == a).length < as.length + 1 :=
      Nat.lt_succ_of_le (List.length_filter_le _ _)
    have ih := filter_eraseDups p (as.filter fun b => !b == a)
    rw [List.eraseDups_cons]
    by_cases hp : p a = true
    · rw [List.filter_cons_of_pos hp, List.filter_cons_of_pos hp, List.eraseDups_cons, ih,
        List.filter_comm]
    · -- the item goes, and with it all its repetitions
      have hnone : ∀ b ∈ as.filter p, (!b == a) = true := by
        intro b hb
        have hne : b ≠ a := fun e => hp (e ▸ (List.mem_filter.1 hb).2)
        simpa using hne
      rw [List.filter_cons_of_neg hp, List.filter_cons_of_neg hp, ih, List.filter_comm,
        List.filter_eq_self.2 hnone]
termination_by l => l.length

section Scans

variable {packages : List FoundPackage} {excludeTypeChecking : Bool} {object : ModuleName}
  {file : SourceFile} {text : String} {t : FileTree} {options : BuildOptions}

variable (hrooted : Rooted (packages.map (·.name)) (packages.flatMap (·.modules)))
include hrooted

theorem meaning?_internal :
    meaning? (.ofPackages packages false excludeTypeChecking) object =
      (meaning? (.ofPackages packages true excludeTypeChecking) object).filter
        (· ∈ packages.flatMap (·.modules)) := by
  show (home? (.ofList (packages.flatMap (·.modules))) object).or none =
    ((home? (.ofList (packages.flatMap (·.modules))) object).or
      (distilled? (packages.map (·.name)) object)).filter _
  cases hhome : home? (.ofList (packages.flatMap (·.modules))) object with
  | some m =>
    have hm := NameSet.mem_ofList.1 (mem_of_home? hhome)
    exact (Option.filter_some_pos (by simpa using hm)).symm
  | none =>
    cases hdistilled : distilled? (packages.map (·.name)) object with
    | none => rfl
    | some m =>
      have hclear := justClear_of_distilled? hdistilled
      have hm : m ∉ packages.flatMap (·.modules) := fun hm => hrooted.not_overlaps hm hclear (.inl rfl)
      exact (Option.filter_some_neg (by simpa using hm)).symm

theorem record?_internal (text : List Char) (r : Python.Reference) :
    Scan.record? (.ofPackages packages false excludeTypeChecking) file text r =
      (Scan.record? (.ofPackages packages true excludeTypeChecking) file text r).filter
        (·.imported ∈ packages.flatMap (·.modules)) := by
  unfold Scan.record?
  cases absolute? file.module file.isPackage r with
  | none => rfl
  | some object =>
    have hmeaning := @meaning?_internal packages excludeTypeChecking object hrooted
    simp only [Option.bind_eq_bind, Option.bind_some]
    rw [hmeaning]
    cases meaning? (.ofPackages packages true excludeTypeChecking) object with
    | none => rfl
    | some m =>
      by_cases hm : m ∈ packages.flatMap (·.modules)
      · rw [Option.filter_some_pos (by simpa using hm)]
        exact (Option.filter_some_pos (by simpa using hm)).symm
      · rw [Option.filter_some_neg (by simpa using hm)]
        exact (Option.filter_some_neg (by simpa using hm)).symm

theorem python_internal :
    Scan.python (.ofPackages packages false excludeTypeChecking) file text =
      (Scan.python (.ofPackages packages true excludeTypeChecking) file text).map
        (internal (packages.flatMap (·.modules))) := by
  unfold Scan.python
  split
  · refine congrArg Except.ok ?_
    unfold Scan.records internal
    rw [filter_eraseDups, List.filter_filterMap]
    exact congrArg List.eraseDups (List.filterMap_congr fun r _ => record?_internal hrooted _ r)
  · rfl

theorem scanFile_internal :
    scanFile t Scan.python (.ofPackages packages false excludeTypeChecking) file =
      (scanFile t Scan.python (.ofPackages packages true excludeTypeChecking) file).map fun row =>
        (row.1, internal (packages.flatMap (·.modules)) row.2) := by
  unfold scanFile
  cases t.source file.path with
  | error e => rfl
  | ok text =>
    show (Scan.python _ file text >>= fun records => pure (file.module, records)) = Except.map _
      (Scan.python _ file text >>= fun records => pure (file.module, records))
    rw [python_internal hrooted]
    cases Scan.python (.ofPackages packages true excludeTypeChecking) file text <;> rfl

theorem rowOf_internal :
    rowOf t Scan.python (.ofPackages packages false excludeTypeChecking) file =
      ((rowOf t Scan.python (.ofPackages packages true excludeTypeChecking) file).1,
        internal (packages.flatMap (·.modules))
          (rowOf t Scan.python (.ofPackages packages true excludeTypeChecking) file).2) := by
  unfold rowOf
  rw [scanFile_internal hrooted]
  cases scanFile t Scan.python (.ofPackages packages true excludeTypeChecking) file <;> rfl

theorem scannable_internal_iff : Scannable t { options with includeExternal := false } packages ↔
    Scannable t { options with includeExternal := true } packages := by
  refine forall₂_congr fun file _ => ?_
  show (∃ row, scanFile t Scan.python (.ofPackages packages false options.excludeTypeChecking) file =
    .ok row) ↔ ∃ row, scanFile t Scan.python (.ofPackages packages true options.excludeTypeChecking)
      file = .ok row
  rw [scanFile_internal hrooted]
  cases scanFile t Scan.python (.ofPackages packages true options.excludeTypeChecking) file <;>
    simp [Except.map]

theorem getElem?_scanned_internal {m : ModuleName} :
    (scanned t { options with includeExternal := false } packages)[m]? =
      ((scanned t { options with includeExternal := true } packages)[m]?).map
        (internal (packages.flatMap (·.modules))) := by
  have hrows : (packages.flatMap (·.files)).map
        (rowOf t Scan.python (contextOf { options with includeExternal := false } packages)) =
      ((packages.flatMap (·.files)).map
        (rowOf t Scan.python (contextOf { options with includeExternal := true } packages))).map
          fun row => (row.1, internal (packages.flatMap (·.modules)) row.2) := by
    rw [List.map_map]
    exact List.map_congr_left fun file _ => rowOf_internal hrooted
  unfold scanned tableOf
  rw [hrows]
  exact getElem?_insertAll_map _ _ fun _ => by simp

/-- **Without external packages, the records of the files are those that stay within the modules that
were found.** -/
theorem recordsOf_internal : recordsOf t { options with includeExternal := false } packages =
    internal (packages.flatMap (·.modules))
      (recordsOf t { options with includeExternal := true } packages) := by
  unfold recordsOf recordsFor
  rw [internal, List.filter_flatMap]
  refine congrArg (List.flatMap · (packages.flatMap (·.modules))) (funext fun m => ?_)
  rw [getElem?_scanned_internal hrooted]
  cases (scanned t { options with includeExternal := true } packages)[m]? <;> rfl

end Scans

/-! ## Graphs -/

section Graphs

variable {packages found : List ModuleName} {done : List ImportRecord} {g h : Graph} {i : Import}
  {removed : List ModuleName}

/-- An import touches a squashed module exactly if what it imports was not found. -/
theorem Assembled.touches_squashed_iff {r : ImportRecord} (h : Assembled packages found done g)
    (hr : r ∈ done) : (∃ m, g.isSquashed m = true ∧ r.toImport.Touches m) ↔ r.imported ∉ found := by
  constructor
  · rintro ⟨m, hm, rfl | rfl⟩
    · exact ((h.isSquashed_iff.1 hm).1 (h.placeable r hr).importer).elim
    · exact (h.isSquashed_iff.1 hm).1
  · exact fun himported => ⟨r.imported, h.isSquashed_iff.2 ⟨himported, r, hr, rfl⟩, .inr rfl⟩

/-- **Without its squashed modules a graph is that of the records that stay within the modules that
were found.** -/
theorem Assembled.without_squashed (h : Assembled packages found done g)
    (hremoved : ∀ m, m ∈ removed ↔ g.isSquashed m = true) :
    Assembled packages found (internal found done)
      ((removed.map fun m => Edit.removeModule m.text).foldl edit g) := by
  obtain ⟨hmodules, himports⟩ := foldl_removeModule removed g h.endsPresent
  have hfound : ∀ r ∈ done, r.imported ∈ found ↔ ¬ ∃ m ∈ removed, r.toImport.Touches m := by
    intro r hr
    rw [← Decidable.not_iff_not, ← h.touches_squashed_iff hr, Decidable.not_not]
    simp only [hremoved]
  have hinternal : ∀ r, r ∈ internal found done ↔ r ∈ done ∧ r.imported ∈ found := by
    intro r
    rw [internal, List.mem_filter, decide_eq_true_eq]
  refine ⟨fun r hr => h.placeable r ((hinternal r).1 hr).1, fun m => ?_, fun i => ?_, fun i => ?_⟩
  · rw [hmodules, h.modules]
    by_cases hm : m ∈ found
    · have hkept : m ∉ removed := fun hmem => (h.isSquashed_iff.1 ((hremoved m).1 hmem)).1 hm
      rw [if_neg hkept, if_pos hm, if_pos hm]
    · have hnone : ¬ ∃ r ∈ internal found done, r.imported = m := by
        rintro ⟨r, hr, rfl⟩
        exact hm ((hinternal r).1 hr).2
      rw [if_neg hm, if_neg hm, if_neg hnone]
      split
      · rfl
      · next hkept =>
        exact if_neg fun himported => hkept ((hremoved m).2 (h.isSquashed_iff.2 ⟨hm, himported⟩))
  · rw [Std.ExtTreeMap.mem_iff_isSome_getElem?, himports]
    split
    · next htouched =>
      -- what was found is never squashed
      refine ⟨nofun, ?_⟩
      rintro ⟨r, hr, rfl⟩
      obtain ⟨hr, himported⟩ := (hinternal r).1 hr
      exact ((hfound r hr).1 himported htouched).elim
    · next hfree =>
      rw [← Std.ExtTreeMap.mem_iff_isSome_getElem?, h.imports]
      constructor
      · rintro ⟨r, hr, rfl⟩
        exact ⟨r, (hinternal r).2 ⟨hr, (hfound r hr).2 hfree⟩, rfl⟩
      · rintro ⟨r, hr, rfl⟩
        exact ⟨r, ((hinternal r).1 hr).1, rfl⟩
  · unfold Graph.records
    rw [himports]
    split
    · next htouched =>
      refine (List.filter_eq_nil_iff.2 fun r hr hri => ?_).symm
      obtain ⟨hr, himported⟩ := (hinternal r).1 hr
      obtain rfl := of_decide_eq_true hri
      exact (hfound r hr).1 himported htouched
    · next hfree =>
      refine (h.records i).trans ?_
      rw [internal, List.filter_filter]
      refine List.filter_congr fun r hr => ?_
      by_cases hri : r.toImport = i
      · subst hri
        simp [(hfound r hr).2 hfree]
      · simp [hri]

end Graphs

/-! ## Builds -/

section Builds

variable {g h : Graph}

/-- **Including external packages only adds squashed modules.**  A build goes through without them if and
only if it goes through with them.  None of the squashed modules of the larger graph imports anything,
and removing them all, in any order, makes the smaller graph of it. -/
theorem built_internal (options : BuildOptions) (threshold workers : Nat) (names : List String)
    (t : FileTree) :
    ((∃ g, built { options with includeExternal := false } threshold workers names t = .ok g) ↔
        ∃ h, built { options with includeExternal := true } threshold workers names t = .ok h) ∧
      ∀ g h, built { options with includeExternal := false } threshold workers names t = .ok g →
        built { options with includeExternal := true } threshold workers names t = .ok h →
          (∀ m, h.isSquashed m = true → h.successors m = []) ∧
            ∀ removed : List ModuleName, (∀ m, m ∈ removed ↔ h.isSquashed m = true) →
              (removed.map fun m => Edit.removeModule m.text).foldl edit h = g := by
  constructor
  · rw [exists_built_iff, exists_built_iff]
    refine exists_congr fun packages => and_congr_right fun hfound => ?_
    exact scannable_internal_iff (rooted_of_packagesOf hfound)
  · intro g h hg hh
    obtain ⟨packages, hfound, -, hg⟩ := built_eq_ok_iff.1 hg
    obtain ⟨packages', hfound', -, hh⟩ := built_eq_ok_iff.1 hh
    obtain rfl : packages = packages' := Except.ok.inj (hfound.symm.trans hfound')
    refine ⟨fun m hm => hh.successors_eq_nil hm, fun removed hremoved => ?_⟩
    rw [recordsOf_internal (rooted_of_packagesOf hfound)] at hg
    exact (hh.without_squashed hremoved).eq hg (fun _ => Iff.rfl) fun _ => rfl

/-- Two packages of one namespace.  They import each other, what else the namespace has, and `os`. -/
def namespaceTree : FileTree :=
  [("foo", .directory
    [("blue", .directory
      [("__init__.py", .file (.ofText "from . import inner\nimport os.path, os, foo.green.leaf\n" 1)),
        ("inner.py", .file (.ofText "import os, foo.red.one\n" 1))]),
      ("green", .directory
        [("leaf", .directory [("__init__.py", .file (.ofText "import foo.green.bud\n" 1))])])])]

/-- The names of the squashed modules and the number of imports. -/
def squashedAndImports (g : Graph) : List String × Nat :=
  ((g.moduleList.filter g.isSquashed).map (·.text), g.importCount)

theorem computed_namespaceTree :
    (built { includeExternal := false } 50 4 ["foo.blue", "foo.green.leaf"] namespaceTree).toOption.map
        squashedAndImports = some ([], 2) ∧
      (built { includeExternal := true } 50 4 ["foo.blue", "foo.green.leaf"] namespaceTree).toOption.map
        squashedAndImports = some (["foo.green.bud", "foo.red", "os"], 6) := by
  decide +kernel

/-- Three squashed modules come in, and four imports of them. -/
theorem built_internal_namespaceTree : ∃ g h,
    built { includeExternal := false } 50 4 ["foo.blue", "foo.green.leaf"] namespaceTree = .ok g ∧
      built { includeExternal := true } 50 4 ["foo.blue", "foo.green.leaf"] namespaceTree = .ok h ∧
      squashedAndImports g = ([], 2) ∧
      squashedAndImports h = (["foo.green.bud", "foo.red", "os"], 6) ∧
      ((h.moduleList.filter h.isSquashed).map fun m => Edit.removeModule m.text).foldl edit h = g := by
  obtain ⟨hinternal, hexternal⟩ := computed_namespaceTree
  obtain ⟨g, hg, hgshown⟩ := Option.map_eq_some_iff.1 hinternal
  obtain ⟨h, hh, hhshown⟩ := Option.map_eq_some_iff.1 hexternal
  have hg := eq_ok_of_toOption hg
  have hh := eq_ok_of_toOption hh
  obtain ⟨-, hremoving⟩ := (built_internal {} 50 4 _ _).2 g h hg hh
  refine ⟨g, h, hg, hh, hgshown, hhshown, hremoving _ fun m => ?_⟩
  rw [List.mem_filter, mem_moduleList]
  exact and_iff_right_of_imp mem_of_isSquashed

end Builds
end Build
end ImportAtlas
