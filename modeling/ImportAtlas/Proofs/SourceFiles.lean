import ImportAtlas.Finder
import ImportAtlas.Proofs.Answer
import ImportAtlas.Proofs.FileTree
/-!
# Which files a walk takes

A walk through a package can be told in two parts: which files it takes, and what is said of each.
`takenIn` is the first part alone, a row of places; the walk is that row with every file named in turn
(`sourcesIn_eq_mapM`), so it fails only where a name is refused.

The walk comes into a directory if no name on the way to it is hidden and every directory on the way
holds a package file (`Enters`).  **It takes the files with a Python ending of the directories that it
comes into, and nothing else** (`mem_takenIn_iff`), **each once and in the order of their places**
(`pairwise_takenIn`).
-/
namespace ImportAtlas
namespace Finder

open FileTree (Ordered)

/-- A source file where a walk finds it: the directories that lead to it, its name without the ending,
and what it is. -/
structure Taken where
  directories : List String
  stem : String
  file : File

namespace Taken

/-- Where the file is. -/
def place (f : Taken) : List String := f.directories ++ [f.stem ++ ending]

/-- The same file, seen from one directory up. -/
def beneath (name : String) (f : Taken) : Taken := { f with directories := name :: f.directories }

theorem place_beneath (name : String) (f : Taken) : (f.beneath name).place = name :: f.place := rfl

end Taken

mutual

/-- The source files of one entry. -/
def takenOf (name : String) : Entry → List Taken
  | .file f => match stem? name with
    | some stem => [⟨[], stem, f⟩]
    | none => []
  | .directory entries =>
    if isHidden name || !holdsPackageFile entries then [] else (takenIn entries).map (Taken.beneath name)
termination_by structural e => e

/-- The source files of the entries of a directory, and of the directories in it. -/
def takenIn : List (String × Entry) → List Taken
  | [] => []
  | (name, e) :: rest => takenOf name e ++ takenIn rest
termination_by structural entries => entries

end

/-- A walk of the entries comes into the directory at these names. -/
def Enters : FileTree → List String → Prop
  | _, [] => True
  | entries, name :: names => isHidden name = false ∧
      ∃ inner, entries.lookup name = some (.directory inner) ∧ holdsPackageFile inner = true ∧
        Enters inner names

/-- What is said of a file that is taken in the directory at `names`. -/
def sourceAt (package : ModuleName) (directory : String) (names : List String) (f : Taken) :
    Except Error SourceFile := do
  let m ← moduleAt package (names ++ f.directories ++ [f.stem])
  return ⟨m, f.place.foldl Path.join directory, timestamp f.file⟩

variable {package : ModuleName} {entries inner : FileTree} {name stem : String} {e : Entry} {f : Taken}

/-! ## The name of a source file -/

theorem stem?_eq_some_iff : stem? name = some stem ↔
    name = stem ++ ending ∧ stem ≠ "" ∧ '.' ∉ stem.toList := by
  unfold stem?
  dsimp only
  constructor
  · intro h
    split at h
    · next hname =>
      obtain rfl := Option.some.inj h
      refine ⟨?_, ?_, ?_⟩
      · rw [← String.toList_inj, String.toList_append, String.toList_ofList, hname.1]
      · rw [Ne, ← String.toList_eq_nil_iff, String.toList_ofList]
        exact hname.2.1
      · rw [String.toList_ofList]
        exact hname.2.2
    · cases h
  · rintro ⟨rfl, hne, hdot⟩
    have hcut : (stem ++ ending).toList.take ((stem ++ ending).length - ending.length) = stem.toList := by
      rw [String.length_append, Nat.add_sub_cancel, String.toList_append, ← String.length_toList,
        List.take_left]
    have hnil : stem.toList ≠ [] := fun hnil => hne (String.toList_eq_nil_iff.1 hnil)
    rw [hcut, if_pos ⟨String.toList_append.symm, hnil, hdot⟩, String.ofList_toList]

/-! ## The walk -/

theorem sourceAt_beneath (directory : String) (names : List String) (f : Taken) :
    sourceAt package directory names (f.beneath name) =
      sourceAt package (Path.join directory name) (names ++ [name]) f := by
  rw [sourceAt, sourceAt, Taken.place_beneath, List.foldl_cons, List.append_assoc names [name]]
  rfl

mutual

theorem sourcesOf_eq_mapM : ∀ (e : Entry) (directory : String) (names : List String) (name : String),
    sourcesOf package directory names name e =
      (takenOf name e).mapM (sourceAt package directory names)
  | .file f, directory, names, name => by
    unfold sourcesOf takenOf
    cases hstem : stem? name with
    | none => rfl
    | some stem =>
      obtain ⟨rfl, -, -⟩ := stem?_eq_some_iff.1 hstem
      dsimp only
      rw [List.mapM_cons, List.mapM_nil, sourceAt, List.append_nil]
      cases moduleAt package (names ++ [stem]) <;> rfl
  | .directory entries, directory, names, name => by
    unfold sourcesOf takenOf
    split
    · rfl
    · have hbeneath : (sourceAt package directory names) ∘ Taken.beneath name =
          sourceAt package (Path.join directory name) (names ++ [name]) :=
        funext (sourceAt_beneath directory names)
      rw [sourcesIn_eq_mapM entries, List.mapM_map, hbeneath]

/-- **A walk takes its files, and says of each what it is.** -/
theorem sourcesIn_eq_mapM : ∀ (entries : List (String × Entry)) (directory : String)
    (names : List String), sourcesIn package directory names entries =
      (takenIn entries).mapM (sourceAt package directory names)
  | [], _, _ => rfl
  | (name, e) :: rest, directory, names => by
    unfold sourcesIn takenIn
    rw [sourcesOf_eq_mapM e, sourcesIn_eq_mapM rest, List.mapM_append]

end

/-! ## Exactly which files -/

theorem mem_takenIn : f ∈ takenIn entries ↔ ∃ name e, (name, e) ∈ entries ∧ f ∈ takenOf name e := by
  induction entries with
  | nil => simp [takenIn]
  | cons entry rest ih =>
    obtain ⟨name, e⟩ := entry
    rw [takenIn, List.mem_append, ih]
    constructor
    · rintro (h | ⟨n, e', hmem, h⟩)
      · exact ⟨name, e, List.mem_cons_self, h⟩
      · exact ⟨n, e', List.mem_cons_of_mem _ hmem, h⟩
    · rintro ⟨n, e', hmem, h⟩
      rcases List.mem_cons.1 hmem with heq | hmem
      · obtain ⟨rfl, rfl⟩ := Prod.mk.inj heq
        exact .inl h
      · exact .inr ⟨n, e', hmem, h⟩

theorem mem_takenOf_file {file : File} : f ∈ takenOf name (.file file) ↔
    stem? name = some f.stem ∧ f.directories = [] ∧ f.file = file := by
  obtain ⟨directories, fstem, ffile⟩ := f
  rw [takenOf]
  cases stem? name with
  | none => simp
  | some stem => simp [eq_comm, and_left_comm]

theorem mem_takenOf_directory : f ∈ takenOf name (.directory inner) ↔
    isHidden name = false ∧ holdsPackageFile inner = true ∧ ∃ g ∈ takenIn inner, f = g.beneath name := by
  rw [takenOf]
  cases isHidden name <;> cases holdsPackageFile inner <;> simp [eq_comm]

/-- What is taken of an entry is at a place that begins with the entry's name. -/
theorem exists_place_of_mem_takenOf (h : f ∈ takenOf name e) : ∃ rest, f.place = name :: rest := by
  cases e with
  | file file =>
    obtain ⟨hstem, hdirectories, -⟩ := mem_takenOf_file.1 h
    obtain ⟨rfl, -, -⟩ := stem?_eq_some_iff.1 hstem
    exact ⟨[], by rw [Taken.place, hdirectories, List.nil_append]⟩
  | directory inner =>
    obtain ⟨-, -, g, -, rfl⟩ := mem_takenOf_directory.1 h
    exact ⟨g.place, rfl⟩

/-- **A walk takes the files with a Python ending, and no other dot, of the directories that it comes
into.** -/
theorem mem_takenIn_iff (h : Ordered entries) : f ∈ takenIn entries ↔
    Enters entries f.directories ∧ entries.get? f.place = some (.file f.file) ∧
      f.stem ≠ "" ∧ '.' ∉ f.stem.toList := by
  obtain ⟨directories, stem, file⟩ := f
  induction directories generalizing entries with
  | nil =>
    obtain ⟨names, -⟩ := h
    rw [mem_takenIn, Taken.place, List.nil_append, FileTree.get?_singleton,
      FileTree.lookup_eq_some_iff names]
    constructor
    · rintro ⟨name, e, hmem, htaken⟩
      cases e with
      | file _ =>
        obtain ⟨hname, -, rfl⟩ := mem_takenOf_file.1 htaken
        obtain ⟨rfl, hstem⟩ := stem?_eq_some_iff.1 hname
        exact ⟨trivial, hmem, hstem⟩
      | directory _ =>
        obtain ⟨-, -, g, -, hf⟩ := mem_takenOf_directory.1 htaken
        cases hf
    · rintro ⟨-, hmem, hstem⟩
      exact ⟨_, _, hmem, mem_takenOf_file.2 ⟨stem?_eq_some_iff.2 ⟨rfl, hstem⟩, rfl, rfl⟩⟩
  | cons name directories ih =>
    obtain ⟨names, below⟩ := h
    rw [mem_takenIn]
    constructor
    · rintro ⟨n, e, hmem, htaken⟩
      cases e with
      | file _ =>
        obtain ⟨-, hnil, -⟩ := mem_takenOf_file.1 htaken
        cases hnil
      | directory inner =>
        obtain ⟨hhidden, hholds, g, hg, hf⟩ := mem_takenOf_directory.1 htaken
        obtain rfl : (⟨directories, stem, file⟩ : Taken) = g := by cases hf; rfl
        obtain rfl : name = n := by cases hf; rfl
        have hlookup := (FileTree.lookup_eq_some_iff names).2 hmem
        obtain ⟨henters, hget, hstem⟩ := (ih (below _ _ hlookup)).1 hg
        refine ⟨⟨hhidden, inner, hlookup, hholds, henters⟩, ?_, hstem⟩
        exact (FileTree.get?_cons_of_directory hlookup _).trans hget
    · rintro ⟨⟨hhidden, inner, hlookup, hholds, henters⟩, hget, hstem⟩
      have hinner := (FileTree.get?_cons_of_directory hlookup _).symm.trans hget
      exact ⟨name, .directory inner, (FileTree.lookup_eq_some_iff names).1 hlookup,
        mem_takenOf_directory.2 ⟨hhidden, hholds, _,
          (ih (below _ _ hlookup)).2 ⟨henters, hinner, hstem⟩, rfl⟩⟩

/-! ## In which order -/

mutual

theorem pairwise_takenOf : ∀ {e : Entry} {name : String}, FileTree.OrderedBelow e →
    (takenOf name e).Pairwise fun f g => f.place < g.place
  | .file file, name, _ => by
    rw [takenOf]
    split
    · exact List.pairwise_singleton _ _
    · exact .nil
  | .directory inner, name, h => by
    rw [takenOf]
    split
    · exact .nil
    · rw [List.pairwise_map]
      exact (pairwise_takenIn h).imp fun hlt => List.cons_lt_cons_iff.2 (.inr ⟨rfl, hlt⟩)

/-- **Files are taken in the order of their places**, component by component. -/
theorem pairwise_takenIn : ∀ {entries : List (String × Entry)}, Ordered entries →
    (takenIn entries).Pairwise fun f g => f.place < g.place
  | [], _ => .nil
  | (name, e) :: rest, h => by
    obtain ⟨names, below⟩ := FileTree.ordered_iff.1 h
    obtain ⟨hname, hnames⟩ := List.pairwise_cons.1 names
    obtain ⟨hbelow, hrest⟩ := List.forall_mem_cons.1 below
    rw [takenIn, List.pairwise_append]
    refine ⟨pairwise_takenOf hbelow, pairwise_takenIn (FileTree.ordered_iff.2 ⟨hnames, hrest⟩), ?_⟩
    -- across entries, the places differ in their first component
    intro f hf g hg
    obtain ⟨n, e', hmem, hg⟩ := mem_takenIn.1 hg
    obtain ⟨place, hplace⟩ := exists_place_of_mem_takenOf hf
    obtain ⟨place', hplace'⟩ := exists_place_of_mem_takenOf hg
    rw [hplace, hplace']
    exact List.cons_lt_cons_iff.2 (.inl (hname _ hmem))

end

end Finder
end ImportAtlas
