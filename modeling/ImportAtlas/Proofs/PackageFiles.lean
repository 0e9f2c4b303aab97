import ImportAtlas.Proofs.SourceNames
/-!
# The files of a package

A file beneath the directory of a package is *importable* if every directory from there down to its own
has an entry for a package file, nothing on the way is hidden and neither is the file, and the file has a
Python ending with the only dot of its name.  This is said of a place alone, with no walk in sight
(`Importable`); a walk prunes on the way down instead, and comes into a directory once every directory
above let it pass (`enters_iff`).

In a tree whose names are names of files (`Named`), joining the names of a place to a directory adds just
these names to the components of the path (`parts_join_place`), and the path leads to the place
(`file?_join_place`).  **So the paths of a package are those of the importable files beneath its directory,
each listed once and in the order of their components** (`importable_of_found`).
-/
namespace ImportAtlas

namespace Path

variable {directory name : String} {place : List String}

/-- Joining a name adds it to the components of a path. -/
theorem parts_join (directory : String) (h : Plain name) :
    parts (join directory name) = parts directory ++ [name] := by
  obtain ⟨front, hjoin, hfront⟩ := steps_join directory h
  have hkept : (front ++ [name]).filter (· ≠ ".") = front.filter (· ≠ ".") ++ [name] := by
    rw [List.filter_append, List.filter_cons_of_pos (by simpa using h.ne_dot), List.filter_nil]
  have hdirectory : parts directory = front.filter (· ≠ ".") := by
    rcases hfront with hfront | hfront
    · rw [parts, hfront]
    · rw [parts, hfront, List.filter_append, List.filter_cons_of_neg (by simp), List.filter_nil,
        List.append_nil]
  rw [parts, hjoin, hkept, hdirectory]

theorem parts_join_place : ∀ {place : List String} (directory : String), (∀ name ∈ place, Plain name) →
    parts (place.foldl join directory) = parts directory ++ place
  | [], _, _ => (List.append_nil _).symm
  | name :: place, directory, h => by
    obtain ⟨hname, hplace⟩ := List.forall_mem_cons.1 h
    rw [List.foldl_cons, parts_join_place _ hplace, parts_join directory hname, List.append_assoc,
      List.singleton_append]

end Path

namespace FileTree

open ImportAtlas.Path (Plain)

mutual

/-- What is beneath the entry has names that a file can have. -/
def NamedBelow : Entry → Prop
  | .file _ => True
  | .directory entries => Named entries
termination_by structural e => e

/-- Every name in the tree is one that a file can have. -/
def Named : FileTree → Prop
  | [] => True
  | (name, e) :: rest => Plain name ∧ NamedBelow e ∧ Named rest
termination_by structural entries => entries

end

instance (name : String) : Decidable (Plain name) :=
  decidable_of_iff (name ≠ "" ∧ '/' ∉ name.toList ∧ name ≠ "." ∧ name ≠ "..")
    ⟨fun ⟨hempty, hslash, hdot, hup⟩ => ⟨hempty, hslash, hdot, hup⟩,
      fun ⟨hempty, hslash, hdot, hup⟩ => ⟨hempty, hslash, hdot, hup⟩⟩

mutual

def decidableNamedBelow : (e : Entry) → Decidable (NamedBelow e)
  | .file _ => .isTrue trivial
  | .directory entries => decidableNamed entries
termination_by structural e => e

def decidableNamed : (t : FileTree) → Decidable (Named t)
  | [] => .isTrue trivial
  | (name, e) :: rest =>
    have := decidableNamedBelow e
    have := decidableNamed rest
    inferInstanceAs (Decidable (Plain name ∧ NamedBelow e ∧ Named rest))
termination_by structural t => t

end

instance (t : FileTree) : Decidable (Named t) := decidableNamed t

variable {t entries inner : FileTree} {directory name : String} {place q : List String} {e : Entry}
variable {f : File}

theorem Named.of_mem (h : Named t) (hmem : (name, e) ∈ t) : Plain name ∧ NamedBelow e := by
  induction t with
  | nil => cases hmem
  | cons entry rest ih =>
    obtain ⟨hname, hbelow, hrest⟩ := h
    rcases List.mem_cons.1 hmem with heq | hmem
    · obtain ⟨rfl, rfl⟩ := Prod.mk.inj heq
      exact ⟨hname, hbelow⟩
    · exact ih hrest hmem

theorem Named.of_lookup (h : Named t) (hlookup : t.lookup name = some e) : Plain name ∧ NamedBelow e := by
  obtain ⟨front, back, rfl, -⟩ := List.lookup_eq_some_iff.1 hlookup
  exact h.of_mem (by simp)

/-- What is found at a place is found by names that a file can have. -/
theorem Named.of_get? (h : Named t) (hget : t.get? place = some e) :
    (∀ name ∈ place, Plain name) ∧ NamedBelow e := by
  induction place generalizing t with
  | nil =>
    obtain rfl := Option.some.inj hget
    exact ⟨fun _ hname => (List.not_mem_nil hname).elim, h⟩
  | cons name place ih =>
    unfold get? at hget
    split at hget
    · next inner hlookup =>
      obtain ⟨hname, hinner⟩ := h.of_lookup hlookup
      obtain ⟨hplace, he⟩ := ih hinner hget
      exact ⟨List.forall_mem_cons.2 ⟨hname, hplace⟩, he⟩
    · next file hlookup =>
      obtain ⟨hname, -⟩ := h.of_lookup hlookup
      split at hget
      · next hnil =>
        obtain rfl := Option.some.inj hget
        exact ⟨by rw [hnil]; simpa using hname, trivial⟩
      · cases hget
    · cases hget

/-! ## Paths to places -/

theorem Walks.down_last (h : Walks t place steps q) (hname : Plain name)
    (hdirectory : IsDirectory t (q ++ [name])) : Walks t place (steps ++ [name]) (q ++ [name]) := by
  induction h with
  | here place => exact .down hname.ne_dot hname.ne_up hdirectory (.here _)
  | dot _ ih => exact .dot (ih hdirectory)
  | up hplace _ ih => exact .up hplace (ih hdirectory)
  | down hdot hup hstep _ ih => exact .down hdot hup hstep (ih hdirectory)

/-- A directory on a shelf is a shelf. -/
theorem Shelf.down (h : Shelf t directory place entries) (hname : Plain name)
    (hlookup : entries.lookup name = some (.directory inner)) :
    Shelf t (Path.join directory name) (place ++ [name]) inner := by
  have hinner : t.get? (place ++ [name]) = some (.directory inner) := by
    rw [get?_concat h.entries, hlookup]
  obtain ⟨front, hsteps, hwalks⟩ := exists_walks_steps directory hname
  exact ⟨h.ordered, by rw [Path.isAbsolute_join hname, h.relative],
    hsteps ▸ (hwalks.1 h.walks).down_last hname ⟨inner, hinner⟩, hinner⟩

/-- The path that is joined from the names of a place leads there. -/
theorem Shelf.file?_join_place : ∀ {place : List String} {directory : String} {entries : FileTree}
    {q : List String}, Shelf t directory q entries → (∀ name ∈ place, Plain name) →
      entries.get? place = some (.file f) → t.file? (place.foldl Path.join directory) = some f
  | [], _, _, _, _, _, hget => by cases hget
  | [name], directory, entries, q, h, hnames, hget => by
    have hname := hnames name (List.mem_singleton_self name)
    rw [get?_singleton] at hget
    rw [List.foldl_cons, List.foldl_nil, file?, h.entryAt? hname, hget]
  | name :: next :: place, directory, entries, q, h, hnames, hget => by
    obtain ⟨hname, hplace⟩ := List.forall_mem_cons.1 hnames
    cases hlookup : entries.lookup name with
    | none => simp [get?, hlookup] at hget
    | some e =>
      cases e with
      | file _ => simp [get?, hlookup] at hget
      | directory inner =>
        rw [get?_cons_of_directory hlookup] at hget
        exact (h.down hname hlookup).file?_join_place hplace hget

end FileTree

namespace Finder

open FileTree (Ordered Named Shelf)

/-- The file of this name in these directories, beneath the directory of a package, can be imported. -/
structure Importable (entries : FileTree) (directories : List String) (name : String) : Prop where
  file : ∃ f, entries.get? (directories ++ [name]) = some (.file f)
  /-- From the package's directory down to the file's own, each has an entry for a package file. -/
  packages : ∀ above, above <+: directories → ∃ inner, entries.get? above = some (.directory inner) ∧
    ∃ e, inner.lookup "__init__.py" = some e
  visible : ∀ n ∈ directories ++ [name], n.toList.head? ≠ some '.'
  oneDot : name.toList.count '.' = 1
  python : ".py".toList <:+ name.toList

variable {package : ModuleName} {entries : FileTree} {directories : List String} {name : String}
variable {t : FileTree} {searchPaths : List String} {p : FoundPackage}

/-! ## Importable files and the walk -/

theorem isHidden_eq_false_iff : isHidden name = false ↔ name.toList.head? ≠ some '.' := by
  rw [isHidden, String.startsWith_string_eq_false_iff]
  cases name.toList with
  | nil => simp
  | cons c cs => simp [List.cons_prefix_cons, eq_comm]

theorem holdsPackageFile_iff : holdsPackageFile entries = true ↔ ∃ e, entries.lookup "__init__.py" = some e :=
  Option.isSome_iff_exists

/-- **A walk comes into a directory once every directory above let it pass.** -/
theorem enters_iff : Enters entries directories ↔ (∀ n ∈ directories, isHidden n = false) ∧
    ∀ above, above ≠ [] → above <+: directories →
      ∃ inner, entries.get? above = some (.directory inner) ∧ holdsPackageFile inner = true := by
  induction directories generalizing entries with
  | nil =>
    refine iff_of_true trivial ⟨fun _ h => (List.not_mem_nil h).elim, fun above hne hprefix => ?_⟩
    exact absurd (List.prefix_nil.1 hprefix) hne
  | cons first directories ih =>
    rw [List.forall_mem_cons]
    constructor
    · rintro ⟨hhidden, inner, hlookup, hholds, henters⟩
      obtain ⟨hvisible, hpackages⟩ := ih.1 henters
      refine ⟨⟨hhidden, hvisible⟩, fun above hne hprefix => ?_⟩
      obtain ⟨n, above, rfl⟩ := List.exists_cons_of_ne_nil hne
      obtain ⟨rfl, hbelow⟩ := List.cons_prefix_cons.1 hprefix
      rw [FileTree.get?_cons_of_directory hlookup]
      by_cases hnil : above = []
      · subst hnil
        exact ⟨inner, rfl, hholds⟩
      · exact hpackages above hnil hbelow
    · rintro ⟨⟨hhidden, hvisible⟩, hpackages⟩
      obtain ⟨inner, hinner, hholds⟩ :=
        hpackages [first] (List.cons_ne_nil _ _) (List.cons_prefix_cons.2 ⟨rfl, List.nil_prefix⟩)
      have hlookup : entries.lookup first = some (.directory inner) := by
        rw [← FileTree.get?_singleton, hinner]
      refine ⟨hhidden, inner, hlookup, hholds, ih.2 ⟨hvisible, fun above _ hprefix => ?_⟩⟩
      rw [← FileTree.get?_cons_of_directory hlookup]
      exact hpackages (first :: above) (List.cons_ne_nil _ _) (List.cons_prefix_cons.2 ⟨rfl, hprefix⟩)

/-- A Python file is one with a Python ending, of which the dot is the only one and not the first
character. -/
theorem exists_stem_iff : (∃ stem, name = stem ++ ending ∧ stem ≠ "" ∧ '.' ∉ stem.toList) ↔
    name.toList.head? ≠ some '.' ∧ name.toList.count '.' = 1 ∧ ".py".toList <:+ name.toList := by
  constructor
  · rintro ⟨stem, rfl, hne, hdot⟩
    rw [String.toList_append]
    obtain ⟨c, cs, hstem⟩ := List.exists_cons_of_ne_nil (mt String.toList_eq_nil_iff.1 hne)
    refine ⟨?_, ?_, List.suffix_append _ _⟩
    · rw [hstem] at hdot ⊢
      intro hhead
      exact hdot (Option.some.inj hhead ▸ List.mem_cons_self)
    · rw [List.count_append, List.count_eq_zero_of_not_mem hdot]
      rfl
  · rintro ⟨hhead, hcount, front, hname⟩
    rw [← hname, List.count_append] at hcount
    have hdot : '.' ∉ front := List.count_eq_zero.1 (by simpa [ending] using hcount)
    refine ⟨.ofList front, ?_, ?_, by rwa [String.toList_ofList]⟩
    · rw [← String.toList_inj, String.toList_append, String.toList_ofList, ← hname]
      rfl
    · rintro hnil
      have : front = [] := by rw [← String.toList_ofList (l := front), hnil]; rfl
      subst this
      rw [← hname] at hhead
      exact hhead rfl

/-- **A walk takes what can be imported.** -/
theorem exists_mem_takenIn_iff (hordered : Ordered entries) (hholds : holdsPackageFile entries = true) :
    (∃ f ∈ takenIn entries, f.place = directories ++ [name]) ↔ Importable entries directories name := by
  constructor
  · rintro ⟨f, hf, hplace⟩
    obtain ⟨rfl, hlast⟩ := List.append_inj' hplace rfl
    obtain ⟨rfl, -⟩ := List.cons.inj hlast
    obtain ⟨henters, hget, hstem⟩ := (mem_takenIn_iff hordered).1 hf
    obtain ⟨hvisible, hpackages⟩ := enters_iff.1 henters
    obtain ⟨hhead, hcount, hending⟩ := exists_stem_iff.1 ⟨f.stem, rfl, hstem⟩
    refine ⟨⟨f.file, hget⟩, fun above hprefix => ?_, fun n hn => ?_, hcount, hending⟩
    · by_cases hnil : above = []
      · subst hnil
        exact ⟨entries, rfl, holdsPackageFile_iff.1 hholds⟩
      · obtain ⟨inner, hinner, hinnerHolds⟩ := hpackages above hnil hprefix
        exact ⟨inner, hinner, holdsPackageFile_iff.1 hinnerHolds⟩
    · rcases List.mem_append.1 hn with hn | hn
      · exact isHidden_eq_false_iff.1 (hvisible n hn)
      · exact List.mem_singleton.1 hn ▸ hhead
  · rintro ⟨⟨file, hget⟩, hpackages, hvisible, hcount, hending⟩
    obtain ⟨hdirectories, hlast⟩ := List.forall_mem_append.1 hvisible
    obtain ⟨stem, rfl, hstem⟩ :=
      exists_stem_iff.2 ⟨hlast _ (List.mem_singleton_self _), hcount, hending⟩
    refine ⟨⟨directories, stem, file⟩, (mem_takenIn_iff hordered).2 ⟨?_, hget, hstem⟩, rfl⟩
    refine enters_iff.2 ⟨fun n hn => isHidden_eq_false_iff.2 (hdirectories n hn), fun above _ hprefix => ?_⟩
    obtain ⟨inner, hinner, hinnerHolds⟩ := hpackages above hprefix
    exact ⟨inner, hinner, holdsPackageFile_iff.2 hinnerHolds⟩

/-! ## The paths of a package -/

/-- What a walk lists of its files are the paths to their places. -/
theorem paths_of_sourcesIn {directory : String} {files : List SourceFile}
    (h : sourcesIn package directory [] entries = .ok files) :
    files.map (·.path) = (takenIn entries).map fun f => f.place.foldl Path.join directory := by
  rw [sourcesIn_eq_mapM] at h
  refine map_of_mapM h fun f file hfile => ?_
  obtain ⟨m, -, hfile⟩ := bind_eq_ok_iff.1 hfile
  exact (Except.ok.inj hfile) ▸ rfl

/-- A package that is found has a directory with a package file, and its files are those of a walk. -/
theorem exists_shelf_of_found (hordered : t.Ordered) (hfound : find searchPaths t package = .ok p) :
    ∃ place entries, t.Shelf p.directory place entries ∧ t.directory? p.directory = some entries ∧
      holdsPackageFile entries = true ∧ sourcesIn package p.directory [] entries = .ok p.files := by
  obtain ⟨directory, hdirectory, hfound⟩ := bind_eq_ok_iff.1 hfound
  obtain ⟨hne, hregular⟩ := isRegular_of_directoryOn hdirectory
  obtain ⟨place, entries, hshelf, hentries⟩ := exists_directory_of_isRegular hordered hne hregular
  rw [hentries] at hfound
  obtain ⟨files, hfiles, hfound⟩ := bind_eq_ok_iff.1 hfound
  obtain rfl := Except.ok.inj hfound
  refine ⟨place, entries, hshelf, hentries, ?_, hfiles⟩
  unfold isRegular FileTree.hasFile FileTree.file? at hregular
  rw [hshelf.entryAt? plain_packageFile] at hregular
  unfold holdsPackageFile
  split at hregular
  · next heq => rw [heq]; rfl
  · cases hregular

/-- **The paths of a package are those of its importable files**, each listed once and in the order of
their components. -/
theorem importable_of_found (hordered : t.Ordered) (hnamed : t.Named)
    (hfound : find searchPaths t package = .ok p) :
    ∃ entries, t.directory? p.directory = some entries ∧
      (∀ path, path ∈ p.files.map (·.path) ↔ ∃ directories name, Importable entries directories name ∧
        path = (directories ++ [name]).foldl Path.join p.directory) ∧
      (∀ path ∈ p.files.map (·.path), t.hasFile path = true) ∧
      (p.files.map (·.path)).Nodup ∧
      (p.files.map (·.path)).Pairwise fun a b => Path.parts a < Path.parts b := by
  obtain ⟨place, entries, hshelf, hentries, hholds, hfiles⟩ := exists_shelf_of_found hordered hfound
  have hinside : Ordered entries := hordered.of_get? hshelf.entries
  have hplain : ∀ f ∈ takenIn entries, ∀ name ∈ f.place, Path.Plain name := fun f hf =>
    ((hnamed.of_get? hshelf.entries).2.of_get? ((mem_takenIn_iff hinside).1 hf).2.1).1
  have hpaths : (p.files.map (·.path)).Pairwise fun a b => Path.parts a < Path.parts b := by
    rw [paths_of_sourcesIn hfiles, List.pairwise_map]
    refine (pairwise_takenIn hinside).imp_of_mem fun {f g} hf hg hlt => ?_
    rw [Path.parts_join_place _ (hplain f hf), Path.parts_join_place _ (hplain g hg)]
    exact List.append_left_lt hlt
  refine ⟨entries, hentries, fun path => ?_, fun path hpath => ?_, ?_, hpaths⟩
  · rw [paths_of_sourcesIn hfiles, List.mem_map]
    constructor
    · rintro ⟨f, hf, rfl⟩
      exact ⟨f.directories, f.stem ++ ending, (exists_mem_takenIn_iff hinside hholds).1 ⟨f, hf, rfl⟩, rfl⟩
    · rintro ⟨directories, name, himportable, rfl⟩
      obtain ⟨f, hf, hplace⟩ := (exists_mem_takenIn_iff hinside hholds).2 himportable
      exact ⟨f, hf, by rw [hplace]⟩
  · rw [paths_of_sourcesIn hfiles] at hpath
    obtain ⟨f, hf, rfl⟩ := List.mem_map.1 hpath
    have hfile := hshelf.file?_join_place (hplain f hf) ((mem_takenIn_iff hinside).1 hf).2.1
    rw [FileTree.hasFile, hfile]
    rfl
  · refine hpaths.imp fun {a b} hlt (heq : a = b) => ?_
    rw [heq] at hlt
    exact List.lt_irrefl _ hlt

/-- A package with a directory whose entry for a package file is a directory, and with files and
directories that are passed over: hidden ones, one without a package file, which may hold packages, and
names with another ending or another dot. -/
def mixedTree : FileTree :=
  [("pkg", .directory
    [(".env.py", emptySource),
      (".git", .directory [("__init__.py", emptySource), ("hook.py", emptySource)]),
      ("__init__.py", emptySource),
      ("a", .directory [("__init__.py", emptySource), ("b.py", emptySource)]),
      ("a.py", emptySource),
      ("data", .directory [("c.py", emptySource), ("deep", .directory [("__init__.py", emptySource)])]),
      ("notes.txt", emptySource),
      ("odd", .directory [("__init__.py", .directory []), ("e.py", emptySource)]),
      ("x.y.py", emptySource)])]

/-- Five of the files can be imported. -/
theorem importable_of_found_mixedTree : ∃ package p, package.text = "pkg" ∧ mixedTree.Ordered ∧
    mixedTree.Named ∧ find [] mixedTree package = .ok p ∧
    p.files.map (·.path) =
      ["./pkg/__init__.py", "./pkg/a/__init__.py", "./pkg/a/b.py", "./pkg/a.py", "./pkg/odd/e.py"] ∧
    ∃ entries, mixedTree.directory? p.directory = some entries ∧
      (∀ path, path ∈ p.files.map (·.path) ↔ ∃ directories name, Importable entries directories name ∧
        path = (directories ++ [name]).foldl Path.join p.directory) ∧
      (∀ path ∈ p.files.map (·.path), mixedTree.hasFile path = true) ∧
      (p.files.map (·.path)).Nodup ∧
      (p.files.map (·.path)).Pairwise fun a b => Path.parts a < Path.parts b := by
  let package : ModuleName := ⟨"pkg", by decide⟩
  have hordered : mixedTree.Ordered := by decide
  have hnamed : mixedTree.Named := by decide
  have hlisted : (find [] mixedTree package).toOption.map (·.files.map (·.path)) =
      some ["./pkg/__init__.py", "./pkg/a/__init__.py", "./pkg/a/b.py", "./pkg/a.py",
        "./pkg/odd/e.py"] := by decide +kernel
  obtain ⟨p, hp, hpaths⟩ := Option.map_eq_some_iff.1 hlisted
  have hfound := eq_ok_of_toOption hp
  exact ⟨package, p, rfl, hordered, hnamed, hfound, hpaths, importable_of_found hordered hnamed hfound⟩

end Finder
end ImportAtlas
