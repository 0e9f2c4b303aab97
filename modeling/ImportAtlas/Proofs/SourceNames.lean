import ImportAtlas.Proofs.Directory
import ImportAtlas.Proofs.Name
import ImportAtlas.Proofs.SourceFiles
/-!
# The modules of source files

The module of a source file has the package's segments, one for each directory on the way to the file and
one for the file itself, unless it is a package file (`exists_sourceAt`).  That holds as long as the
directories have names that can be segments and are not called as a package file is (`IsPart`); nothing
looks at the names of directories, so a tree has to be asked for it.  In any tree, the module is the
package or beneath it (`belongs_of_find`).

Then the segments of a module tell its file, up to one thing: a file `a.py` and the package file of a
directory `a` beside it are both the module `a` (`Twins`), and nothing keeps a package from having both.
**A package is found as soon as its directory is, and two of its files have one module only if they are
such twins** (`modules_of_found`).
-/
namespace ImportAtlas
namespace Finder

open FileTree (Ordered)

/-- The name can stand for itself in the name of a module. -/
def IsPart (name : String) : Prop := ModuleName.IsSegment name.toList ∧ name ≠ packageStem

/-- Two source files, by their paths beneath a directory: a module and the package file of a package of
the module's name beside it. -/
def Twins (directory : String) (f g : SourceFile) : Prop :=
  ∃ directories stem, f.path = (directories ++ [stem ++ ending]).foldl Path.join directory ∧
    g.path = (directories ++ [stem, packageFile]).foldl Path.join directory

variable {package m : ModuleName} {directory : String} {names : List String}

/-! ## The segments of a module -/

theorem join_eq_intercalate : ∀ segments : List (List Char),
    Dotted.join segments = ['.'].intercalate segments
  | [] => rfl
  | [segment] => by rw [List.intercalate_singleton]; rfl
  | segment :: next :: segments => by
    rw [Dotted.join_cons_of_ne_nil _ (List.cons_ne_nil _ _), join_eq_intercalate (next :: segments),
      List.intercalate_cons_cons, List.append_assoc]
    rfl

/-- Segments are joined as texts are. -/
theorem toList_intercalate_dot (texts : List String) :
    (".".intercalate texts).toList = Dotted.join (texts.map String.toList) := by
  rw [String.toList_intercalate, join_eq_intercalate]
  rfl

/-- The names beneath a package spell a module if each can be a segment of it, but for those that add
nothing. -/
theorem exists_moduleAt (package : ModuleName)
    (h : ∀ name ∈ names, name ≠ packageStem → ModuleName.IsSegment name.toList) :
    ∃ m, moduleAt package names = .ok m ∧
      m.segments = package.segments ++ (names.filter (· ≠ packageStem)).map String.toList := by
  have hsegments : ∀ s ∈ package.segments ++ (names.filter (· ≠ packageStem)).map String.toList,
      ModuleName.IsSegment s := by
    intro s hs
    rcases List.mem_append.1 hs with hs | hs
    · exact ModuleName.isSegment_of_mem hs
    · obtain ⟨name, hname, rfl⟩ := List.mem_map.1 hs
      obtain ⟨hname, hkept⟩ := List.mem_filter.1 hname
      exact h name hname (by simpa using hkept)
  have hne := List.append_ne_nil_of_left_ne_nil package.segments_ne_nil
    ((names.filter (· ≠ packageStem)).map String.toList)
  refine ⟨.ofSegments _ hne hsegments, ModuleName.parse_eq_ok_iff.2 ?_,
    ModuleName.segments_ofSegments hne hsegments⟩
  rw [← String.toList_inj, toList_intercalate_dot, ModuleName.ofSegments, String.toList_ofList,
    List.map_cons]
  have htext : Dotted.join package.segments = package.text.toList := Dotted.join_split _
  by_cases hnone : (names.filter (· ≠ packageStem)).map String.toList = []
  · rw [hnone, List.append_nil, htext]
    rfl
  · rw [Dotted.join_append package.segments_ne_nil hnone, htext, Dotted.join_cons_of_ne_nil _ hnone]

namespace Taken

/-- What a file adds to the name of the package: the directories, and itself unless it is a package
file. -/
def parts (f : Taken) : List String := f.directories ++ if f.stem = packageStem then [] else [f.stem]

/-- Two files that add the same are at the same place, or one is a module and the other the package file
of a directory of the module's name. -/
theorem eq_or_twins_of_parts {f g : Taken} (h : f.parts = g.parts) :
    f.place = g.place ∨ (g.stem = packageStem ∧ g.directories = f.directories ++ [f.stem]) ∨
      (f.stem = packageStem ∧ f.directories = g.directories ++ [g.stem]) := by
  unfold parts at h
  by_cases hf : f.stem = packageStem <;> by_cases hg : g.stem = packageStem
  · rw [if_pos hf, if_pos hg, List.append_nil, List.append_nil] at h
    exact .inl (by rw [place, place, h, hf, hg])
  · rw [if_pos hf, if_neg hg, List.append_nil] at h
    exact .inr (.inr ⟨hf, h⟩)
  · rw [if_neg hf, if_pos hg, List.append_nil] at h
    exact .inr (.inl ⟨hg, h.symm⟩)
  · rw [if_neg hf, if_neg hg] at h
    obtain ⟨hdirectories, hstem⟩ := List.append_inj' h rfl
    exact .inl (by rw [place, place, hdirectories, (List.cons.inj hstem).1])

end Taken

/-- A file of directories that can be parts of a name has a module, and the module its segments. -/
theorem exists_sourceAt {f : Taken} (hdirectories : ∀ name ∈ f.directories, IsPart name)
    (hstem : f.stem ≠ "" ∧ '.' ∉ f.stem.toList) :
    ∃ file, sourceAt package directory [] f = .ok file ∧
      file.path = f.place.foldl Path.join directory ∧
      file.module.segments = package.segments ++ f.parts.map String.toList := by
  have hparts : ∀ name ∈ f.directories ++ [f.stem], name ≠ packageStem →
      ModuleName.IsSegment name.toList := by
    intro name hname _
    rcases List.mem_append.1 hname with hname | hname
    · exact (hdirectories name hname).1
    · obtain rfl := List.mem_singleton.1 hname
      exact ⟨fun hnil => hstem.1 (String.toList_eq_nil_iff.1 hnil), hstem.2⟩
  obtain ⟨m, hm, hsegments⟩ := exists_moduleAt package hparts
  refine ⟨⟨m, f.place.foldl Path.join directory, timestamp f.file⟩, ?_, rfl, ?_⟩
  · rw [sourceAt, List.nil_append, hm]
    rfl
  · have hkept : f.directories.filter (· ≠ packageStem) = f.directories :=
      List.filter_eq_self.2 fun name hname => by simpa using (hdirectories name hname).2
    rw [hsegments, List.filter_append, hkept, Taken.parts]
    by_cases hlast : f.stem = packageStem <;> simp [hlast]

/-! ## Beneath the package -/

theorem belongs_of_moduleAt (h : moduleAt package names = .ok m) : m = package ∨ m.IsBeneath package := by
  have htext := ModuleName.parse_eq_ok_iff.1 h
  by_cases hnone : names.filter (· ≠ packageStem) = []
  · rw [hnone, String.intercalate_singleton] at htext
    exact .inl (ModuleName.ext_text htext)
  · rw [String.intercalate_cons_of_ne_nil hnone] at htext
    refine .inr ?_
    rw [ModuleName.IsBeneath, htext, String.toList_append, String.toList_append]
    exact List.prefix_append _ _

/-- **A package is found under the name that was asked for, and its modules are the package itself and
modules beneath it.** -/
theorem belongs_of_find {searchPaths : List String} {t : FileTree} {p : FoundPackage}
    (h : find searchPaths t package = .ok p) :
    p.name = package ∧ ∀ m ∈ p.modules, m = package ∨ m.IsBeneath package := by
  unfold find at h
  obtain ⟨directory, -, h⟩ := bind_eq_ok_iff.1 h
  split at h
  · cases h
  · obtain ⟨files, hfiles, h⟩ := bind_eq_ok_iff.1 h
    obtain rfl := Except.ok.inj h
    refine ⟨rfl, fun m hm => ?_⟩
    obtain ⟨file, hfile, rfl⟩ := List.mem_map.1 hm
    rw [sourcesIn_eq_mapM] at hfiles
    obtain ⟨f, -, hsource⟩ := exists_of_mem_mapM hfiles hfile
    obtain ⟨m, hmodule, hfile⟩ := bind_eq_ok_iff.1 hsource
    obtain rfl := Except.ok.inj hfile
    exact belongs_of_moduleAt hmodule

/-! ## The package's directory -/

theorem plain_packageFile : Path.Plain packageFile := ⟨by decide, by decide, by decide, by decide⟩

theorem descend_ne_empty (searchPath : String) (m : ModuleName) :
    Path.descend searchPath m.segments ≠ "" := by
  rw [Path.descend, ← List.dropLast_concat_getLast m.segments_ne_nil, List.foldl_concat]
  have hlast : String.ofList (m.segments.getLast m.segments_ne_nil) ≠ "" := fun h =>
    (ModuleName.isSegment_of_mem (List.getLast_mem m.segments_ne_nil)).1 (by simpa using h)
  unfold Path.join
  split
  · exact hlast
  split <;> simp [hlast]

/-- A directory with a package file is one. -/
theorem exists_directory_of_isRegular {t : FileTree} (hordered : Ordered t) (hne : directory ≠ "")
    (h : isRegular t directory = true) : ∃ place entries, t.Shelf directory place entries ∧
      t.directory? directory = some entries := by
  unfold isRegular FileTree.hasFile FileTree.file? FileTree.entryAt? at h
  cases hlocate : t.locate (Path.join directory packageFile) with
  | found place e =>
    obtain ⟨q, entries, hshelf, -⟩ :=
      FileTree.exists_shelf_of_locate hordered plain_packageFile hlocate
    exact ⟨q, entries, hshelf, hshelf.directory? hne⟩
  | vacant _ => simp [hlocate] at h
  | absent => simp [hlocate] at h
  | blocked => simp [hlocate] at h

theorem isRegular_of_directoryOn {t : FileTree} : ∀ {searchPaths : List String} {met : Bool},
    directoryOn t package met searchPaths = .ok directory →
      directory ≠ "" ∧ isRegular t directory = true
  | [], _, h => by cases h
  | searchPath :: rest, met, h => by
    unfold directoryOn at h
    dsimp only at h
    split at h
    · next hregular =>
      split at h
      · cases h
      · obtain rfl := Except.ok.inj h
        exact ⟨descend_ne_empty searchPath package, hregular⟩
    split at h
    · cases h
    · exact isRegular_of_directoryOn h

/-! ## A package's files and modules -/

/-- **A package is found as soon as its directory is, and its files tell their modules**: each adds one
segment for every directory on the way to it and one for itself, unless it is a package file, and two
files have one module only if they are a module and a package of one name side by side. -/
theorem modules_of_found {searchPaths : List String} {t : FileTree} (hordered : t.Ordered)
    (hdirectory : packageDirectory searchPaths t package = .ok directory)
    (hparts : ∀ entries names, t.directory? directory = some entries → Enters entries names →
      ∀ name ∈ names, IsPart name) :
    ∃ entries files, t.directory? directory = some entries ∧
      find searchPaths t package = .ok ⟨package, directory, files⟩ ∧
      (∀ file ∈ files, ∃ directories stem f, Enters entries directories ∧
        entries.get? (directories ++ [stem ++ ending]) = some (.file f) ∧
        file.path = (directories ++ [stem ++ ending]).foldl Path.join directory ∧
        file.module.segments = package.segments ++
          (directories ++ if stem = packageStem then [] else [stem]).map String.toList) ∧
      files.Pairwise fun f g => f.module = g.module → Twins directory f g ∨ Twins directory g f := by
  obtain ⟨hne, hregular⟩ := isRegular_of_directoryOn hdirectory
  obtain ⟨place, entries, hshelf, hentries⟩ := exists_directory_of_isRegular hordered hne hregular
  have hinside : Ordered entries := hordered.of_get? hshelf.entries
  have hnamed : ∀ f ∈ takenIn entries, ∃ file, sourceAt package directory [] f = .ok file ∧
      file.path = f.place.foldl Path.join directory ∧
      file.module.segments = package.segments ++ f.parts.map String.toList := fun f hf => by
    obtain ⟨henters, -, hstem⟩ := (mem_takenIn_iff hinside).1 hf
    exact exists_sourceAt (hparts entries _ hentries henters) hstem
  have hsaid : ∀ {f : Taken} {file : SourceFile}, f ∈ takenIn entries →
      sourceAt package directory [] f = .ok file → file.path = f.place.foldl Path.join directory ∧
        file.module.segments = package.segments ++ f.parts.map String.toList := fun {f file} hf hfile => by
    obtain ⟨named, hok, hsaid⟩ := hnamed f hf
    obtain rfl : file = named := Except.ok.inj (hfile.symm.trans hok)
    exact hsaid
  obtain ⟨files, hfiles⟩ := exists_mapM_iff.2 fun f hf => (hnamed f hf).imp fun _ h => h.1
  refine ⟨entries, files, hentries, ?_, fun file hfile => ?_, ?_⟩
  · simp only [find, hdirectory, hentries, sourcesIn_eq_mapM, hfiles, bind, Except.bind, pure, Except.pure]
  · obtain ⟨f, hf, hsource⟩ := exists_of_mem_mapM hfiles hfile
    obtain ⟨henters, hget, -⟩ := (mem_takenIn_iff hinside).1 hf
    exact ⟨f.directories, f.stem, f.file, henters, hget, hsaid hf hsource⟩
  · refine pairwise_of_mapM hfiles (pairwise_takenIn hinside) ?_
    intro f hf g hg file file' hfile hfile' hlt hmodule
    obtain ⟨hpath, hsegments⟩ := hsaid hf hfile
    obtain ⟨hpath', hsegments'⟩ := hsaid hg hfile'
    have hsame : f.parts = g.parts := by
      rw [hmodule, hsegments'] at hsegments
      exact ((List.map_inj_right fun _ _ => String.toList_inj.1).1
        (List.append_cancel_left hsegments)).symm
    rcases Taken.eq_or_twins_of_parts hsame with hplace | ⟨hstem, hbelow⟩ | ⟨hstem, hbelow⟩
    · rw [hplace] at hlt
      exact absurd hlt (List.lt_irrefl _)
    · refine .inl ⟨f.directories, f.stem, hpath, ?_⟩
      rw [hpath', Taken.place, hbelow, hstem, List.append_assoc]
      rfl
    · refine .inr ⟨g.directories, g.stem, hpath', ?_⟩
      rw [hpath, Taken.place, hbelow, hstem, List.append_assoc]
      rfl

def emptySource : Entry := .file (.ofText "" 1)

/-- A package with a module and a package of one name, and two directories that a walk passes over. -/
def twinEntries : FileTree :=
  [(".git", .directory [("__init__.py", emptySource), ("hook.py", emptySource)]),
    ("__init__.py", emptySource),
    ("a", .directory [("__init__.py", emptySource), ("b.py", emptySource)]),
    ("a.py", emptySource),
    ("data.v1", .directory [("c.py", emptySource)])]

def twinTree : FileTree := [("pkg", .directory twinEntries)]

theorem directory?_twinTree : twinTree.directory? "./pkg" = some twinEntries := by
  have hsteps : Path.steps "./pkg" = [".", "pkg"] := by decide +kernel
  have hshelf : twinTree.Shelf "./pkg" ["pkg"] twinEntries :=
    { ordered := by decide
      relative := by decide +kernel
      walks := hsteps ▸ .dot (.down (by decide) (by decide) ⟨twinEntries, rfl⟩ (.here _))
      entries := rfl }
  exact hshelf.directory? (by decide)

theorem enters_twinEntries {names : List String} (h : Enters twinEntries names) :
    names = [] ∨ names = ["a"] := by
  cases names with
  | nil => exact .inl rfl
  | cons name names =>
    obtain ⟨hhidden, inner, hlookup, hholds, henters⟩ := h
    have hmem := (FileTree.lookup_eq_some_iff (by decide)).1 hlookup
    simp only [twinEntries, emptySource, List.mem_cons, Prod.mk.injEq, Entry.directory.injEq,
      reduceCtorEq, and_false, false_or, or_false, List.not_mem_nil] at hmem
    rcases hmem with ⟨rfl, -⟩ | ⟨rfl, rfl⟩ | ⟨-, rfl⟩
    · exact absurd hhidden (by decide +kernel)
    · cases names with
      | nil => exact .inr rfl
      | cons name names =>
        obtain ⟨-, inner, hlookup, -⟩ := henters
        have hmem := (FileTree.lookup_eq_some_iff (by decide)).1 hlookup
        simp at hmem
    · exact absurd hholds (by decide)

/-- The twins of a package have one module, and no other two files have. -/
theorem modules_of_found_twinTree : ∃ package entries files, package.text = "pkg" ∧ twinTree.Ordered ∧
    packageDirectory [] twinTree package = .ok "./pkg" ∧
    (∀ entries names, twinTree.directory? "./pkg" = some entries → Enters entries names →
      ∀ name ∈ names, IsPart name) ∧
    twinTree.directory? "./pkg" = some entries ∧
      find [] twinTree package = .ok ⟨package, "./pkg", files⟩ ∧
      files.map (fun file => (file.module.text, file.path)) =
        [("pkg", "./pkg/__init__.py"), ("pkg.a", "./pkg/a/__init__.py"), ("pkg.a.b", "./pkg/a/b.py"),
          ("pkg.a", "./pkg/a.py")] ∧
      files.Pairwise fun f g => f.module = g.module → Twins "./pkg" f g ∨ Twins "./pkg" g f := by
  let package : ModuleName := ⟨"pkg", by decide⟩
  have hordered : twinTree.Ordered := by decide
  have hcomputed : (packageDirectory [] twinTree package).toOption = some "./pkg" ∧
      (find [] twinTree package).toOption.map (·.files.map fun file => (file.module.text, file.path)) =
        some [("pkg", "./pkg/__init__.py"), ("pkg.a", "./pkg/a/__init__.py"),
          ("pkg.a.b", "./pkg/a/b.py"), ("pkg.a", "./pkg/a.py")] := by decide +kernel
  have hdirectory := eq_ok_of_toOption hcomputed.1
  have hparts : ∀ entries names, twinTree.directory? "./pkg" = some entries → Enters entries names →
      ∀ name ∈ names, IsPart name := by
    intro entries names hentries henters name hname
    rw [directory?_twinTree, Option.some.injEq] at hentries
    subst hentries
    rcases enters_twinEntries henters with rfl | rfl
    · cases hname
    · obtain rfl := List.mem_singleton.1 hname
      exact ⟨⟨by decide, by decide⟩, by decide⟩
  obtain ⟨entries, files, hentries, hfind, -, hpairwise⟩ := modules_of_found hordered hdirectory hparts
  refine ⟨package, entries, files, rfl, hordered, hdirectory, hparts, hentries, hfind, ?_, hpairwise⟩
  have hlisted := hcomputed.2
  rw [hfind] at hlisted
  exact Option.some.inj hlisted

/-- A directory whose name reads like two, beside what it reads like. -/
def dottedTree : FileTree :=
  [("pkg", .directory
    [("__init__.py", emptySource),
      ("a", .directory [("__init__.py", emptySource), ("b.py", emptySource)]),
      ("a.b", .directory [("__init__.py", emptySource)])])]

/-- A directory whose name reads like none. -/
def unreadableTree : FileTree :=
  [("pkg", .directory
    [("__init__.py", emptySource), ("a..b", .directory [("__init__.py", emptySource)])])]

/-- A directory that is called like a package file. -/
def namelessTree : FileTree :=
  [("pkg", .directory
    [("__init__", .directory [("__init__.py", emptySource), ("a.py", emptySource)]),
      ("__init__.py", emptySource), ("a.py", emptySource)])]

/-- **A package may have two files of one module**: twins, and files in directories whose names are not
parts of a name.  Such a name can also be why a package is not found although its directory is. -/
theorem files_of_one_module : ∃ package : ModuleName, package.text = "pkg" ∧
    (twinTree.Ordered ∧ ((find [] twinTree package).toOption.map fun p => p.modules.map (·.text)) =
      some ["pkg", "pkg.a", "pkg.a.b", "pkg.a"]) ∧
    (dottedTree.Ordered ∧ ((find [] dottedTree package).toOption.map fun p => p.modules.map (·.text)) =
      some ["pkg", "pkg.a", "pkg.a.b", "pkg.a.b"]) ∧
    (namelessTree.Ordered ∧ ((find [] namelessTree package).toOption.map fun p => p.modules.map (·.text)) =
      some ["pkg", "pkg.a", "pkg", "pkg.a"]) ∧
    unreadableTree.Ordered ∧ (packageDirectory [] unreadableTree package).toOption = some "./pkg" ∧
      find [] unreadableTree package = .error (.invalidName "pkg.a..b") := by
  refine ⟨⟨"pkg", by decide⟩, rfl, ?_, ?_, ?_, ?_⟩
  all_goals decide +kernel

end Finder
end ImportAtlas
