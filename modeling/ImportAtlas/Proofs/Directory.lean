import ImportAtlas.FileTree.Disk
import ImportAtlas.Proofs.FileTree
/-!
# Working in one directory

A directory is named by a path, and what is in it by a plain name joined to that path.  `Shelf` says
that the path leads to a directory with certain entries, and each step on the disk has one lemma:
what it does to the entries of a shelf, given that it was not refused.  Making directories comes to a
shelf, and where there is one already it changes nothing.
-/
namespace ImportAtlas

namespace Text

theorem pieces_ne_nil (separator : Char) : ∀ cs : List Char, pieces separator cs ≠ []
  | [] => by simp [pieces]
  | c :: cs => by
    unfold pieces
    split
    · simp
    · split <;> simp

theorem pieces_append (separator : Char) (back : List Char) : ∀ front : List Char,
    pieces separator (front ++ separator :: back) =
      pieces separator front ++ pieces separator back
  | [] => by simp [pieces]
  | c :: front => by
    by_cases hc : c = separator
    · subst hc
      simp only [List.cons_append, pieces, if_pos, pieces_append c back front]
    · obtain ⟨piece, more, hpieces⟩ := List.exists_cons_of_ne_nil (pieces_ne_nil separator front)
      simp only [List.cons_append, pieces, if_neg hc, pieces_append separator back front, hpieces]

theorem pieces_of_notMem {separator : Char} : ∀ {cs : List Char}, separator ∉ cs →
    pieces separator cs = [cs]
  | [], _ => rfl
  | c :: cs, h => by
    have hc : c ≠ separator := fun e => h (by simp [e])
    have hcs : separator ∉ cs := fun hmem => h (List.mem_cons_of_mem _ hmem)
    simp only [pieces, if_neg hc, pieces_of_notMem hcs]

end Text

namespace Path

/-- A name that is a single step, and goes somewhere. -/
structure Plain (name : String) : Prop where
  ne_empty : name ≠ ""
  slash_notMem : '/' ∉ name.toList
  ne_dot : name ≠ "."
  ne_up : name ≠ ".."

variable {directory name : String}

theorem isAbsolute_iff {path : String} : isAbsolute path = true ↔ path.toList.head? = some '/' := by
  rw [isAbsolute, String.startsWith_string_iff]
  cases path.toList with
  | nil => simp
  | cons c cs => simp [List.cons_prefix_cons, eq_comm]

theorem endsWith_slash_iff {path : String} :
    path.endsWith "/" = true ↔ ∃ front, path.toList = front ++ ['/'] := by
  have h : path.toSlice.endsWith "/" = true ↔ "/".toList <:+ path.toSlice.copy.toList :=
    String.Slice.endsWith_string_iff
  rw [String.copy_toSlice] at h
  exact h.trans (exists_congr fun _ => eq_comm)

theorem Plain.startsWith (h : Plain name) : name.startsWith "/" = false := by
  rw [String.startsWith_string_eq_false_iff]
  rintro ⟨rest, hrest⟩
  exact h.slash_notMem (hrest ▸ by simp)

theorem join_empty (h : Plain name) : join "" name = name := by
  simp [join, h.startsWith]

/-- Joining puts one slash between, and takes the one at the end of the directory for it. -/
theorem toList_join (h : Plain name) (hdirectory : directory ≠ "") :
    ∃ front, (join directory name).toList = front ++ '/' :: name.toList ∧
      (directory.toList = front ∨ directory.toList = front ++ ['/']) := by
  unfold join
  rw [h.startsWith, if_neg (by simpa using hdirectory)]
  split
  · next hslash =>
    obtain ⟨front, hfront⟩ := endsWith_slash_iff.1 hslash
    exact ⟨front, by rw [String.toList_append, hfront]; simp, .inr hfront⟩
  · exact ⟨directory.toList, by simp [String.toList_append], .inl rfl⟩

theorem isAbsolute_join (h : Plain name) : isAbsolute (join directory name) = isAbsolute directory := by
  rw [Bool.eq_iff_iff, isAbsolute_iff, isAbsolute_iff]
  by_cases hdirectory : directory = ""
  · subst hdirectory
    have hname : name.toList.head? ≠ some '/' := fun hhead =>
      h.slash_notMem (List.mem_of_head? hhead)
    simpa [join_empty h] using hname
  · obtain ⟨front, hjoin, hfront⟩ := toList_join h hdirectory
    have hne : directory.toList ≠ [] := fun e => hdirectory (String.toList_eq_nil_iff.1 e)
    rw [hjoin]
    cases front with
    | nil => rcases hfront with hfront | hfront <;> simp_all
    | cons c front => rcases hfront with hfront | hfront <;> simp [hfront]

theorem join_ne_empty (h : Plain name) : join directory name ≠ "" := by
  by_cases hdirectory : directory = ""
  · subst hdirectory
    rw [join_empty h]
    exact h.ne_empty
  · obtain ⟨front, hjoin, -⟩ := toList_join h hdirectory
    intro hempty
    rw [hempty] at hjoin
    simp at hjoin

theorem steps_of_toList {path : String} {front : List Char} {back : List Char}
    (h : path.toList = front ++ '/' :: back) :
    steps path = steps (.ofList front) ++ steps (.ofList back) := by
  simp only [steps, h, Text.pieces_append, List.map_append, String.toList_ofList]

theorem steps_plain (h : Plain name) : steps name = [name] := by
  have hne : name.toList ≠ [] := fun e => h.ne_empty (String.toList_eq_nil_iff.1 e)
  simp only [steps, Text.pieces_of_notMem h.slash_notMem, List.map_cons, List.map_nil, if_neg hne,
    String.ofList_toList]

/-- A name joined to a directory is one step more, for a slash at the end of the directory is a step
that stays. -/
theorem steps_join (directory : String) (h : Plain name) :
    ∃ front, steps (join directory name) = front ++ [name] ∧
      (steps directory = front ∨ steps directory = front ++ ["."]) := by
  by_cases hdirectory : directory = ""
  · subst hdirectory
    exact ⟨[], by rw [join_empty h, steps_plain h, List.nil_append], .inr rfl⟩
  · obtain ⟨front, hjoin, hfront⟩ := toList_join h hdirectory
    refine ⟨steps (.ofList front), ?_, ?_⟩
    · rw [steps_of_toList hjoin, String.ofList_toList, steps_plain h]
    · rcases hfront with hfront | hfront
      · exact .inl (by rw [← hfront, String.ofList_toList])
      · exact .inr (steps_of_toList hfront)

theorem join_append (h : Plain name) (ending : String) (hmore : Plain (name ++ ending)) :
    join directory name ++ ending = join directory (name ++ ending) := by
  unfold join
  rw [h.startsWith, hmore.startsWith]
  split
  · rfl
  split <;> rw [String.append_assoc]

end Path

namespace FileTree

open ImportAtlas.Path (Plain)

variable {t t' entries : FileTree} {directory name : String} {place : List String}

/-- The path leads to the directory at `place`, and these are its entries. -/
structure Shelf (t : FileTree) (directory : String) (place : List String) (entries : FileTree) : Prop where
  ordered : Ordered t
  relative : Path.isAbsolute directory = false
  walks : Walks t [] (Path.steps directory) place
  entries : t.get? place = some (.directory entries)

/-- The directory in which a joined name is looked up. -/
theorem exists_walks_steps (directory : String) (h : Plain name) :
    ∃ front, Path.steps (Path.join directory name) = front ++ [name] ∧
      ∀ {t : FileTree} {start q : List String},
        Walks t start (Path.steps directory) q ↔ Walks t start front q := by
  obtain ⟨front, hjoin, hfront⟩ := Path.steps_join directory h
  refine ⟨front, hjoin, fun {t start q} => ?_⟩
  rcases hfront with hfront | hfront
  · rw [hfront]
  · rw [hfront, walks_concat_dot_iff]

theorem locate_of_relative {path : String} (hne : path ≠ "") (h : Path.isAbsolute path = false) :
    t.locate path = follow t [] (.directory t) (Path.steps path) := by
  simp [locate, hne, h]

theorem locate_join (h : Plain name) (hrelative : Path.isAbsolute directory = false) :
    t.locate (Path.join directory name) =
      follow t [] (.directory t) (Path.steps (Path.join directory name)) :=
  locate_of_relative (Path.join_ne_empty h) (by rw [Path.isAbsolute_join h, hrelative])

theorem Shelf.locate (h : Shelf t directory place entries) (hname : Plain name) :
    t.locate (Path.join directory name) = follow t place (.directory entries) [name] := by
  obtain ⟨front, hsteps, hwalks⟩ := exists_walks_steps directory hname
  obtain ⟨inner, hinner, hfollow⟩ := (hwalks.1 h.walks).follow_append [name] t.get?_nil
  rw [h.entries] at hinner
  obtain rfl : entries = inner := by simpa using hinner
  rw [locate_join hname h.relative, hsteps, hfollow]

theorem Shelf.locate_found (h : Shelf t directory place entries) (hname : Plain name) {e : Entry}
    (he : entries.lookup name = some e) :
    t.locate (Path.join directory name) = .found (place ++ [name]) e := by
  rw [h.locate hname, follow, if_neg hname.ne_dot, if_neg hname.ne_up, he]
  rfl

theorem Shelf.locate_vacant (h : Shelf t directory place entries) (hname : Plain name)
    (he : entries.lookup name = none) :
    t.locate (Path.join directory name) = .vacant (place ++ [name]) := by
  rw [h.locate hname, follow, if_neg hname.ne_dot, if_neg hname.ne_up, he]
  rfl

theorem Shelf.entryAt? (h : Shelf t directory place entries) (hname : Plain name) :
    t.entryAt? (Path.join directory name) = entries.lookup name := by
  unfold FileTree.entryAt?
  cases he : entries.lookup name with
  | none => rw [h.locate_vacant hname he]
  | some e => rw [h.locate_found hname he]

theorem Shelf.hasDirectory_eq_false_iff (h : Shelf t directory place entries) (hname : Plain name) :
    t.hasDirectory (Path.join directory name) = false ↔
      ∀ inner, entries.lookup name ≠ some (.directory inner) := by
  rw [hasDirectory, directory?, h.entryAt? hname]
  cases entries.lookup name with
  | none => simp
  | some e => cases e <;> simp

/-- A directory of a plain name is at the place of that name. -/
theorem Shelf.place_of_plain (h : Shelf t directory place entries) (hdirectory : Plain directory) :
    place = [directory] := by
  have hwalks := h.walks
  rw [Path.steps_plain hdirectory] at hwalks
  generalize hrow : [directory] = steps at hwalks
  cases hwalks with
  | here => cases hrow
  | dot _ => exact absurd (List.cons.inj hrow).1 hdirectory.ne_dot
  | up hne _ => exact absurd rfl hne
  | down _ _ _ hrest =>
    obtain ⟨rfl, rfl⟩ := List.cons.inj hrow
    cases hrest
    rfl

theorem Shelf.directory? (h : Shelf t directory place entries) (hne : directory ≠ "") :
    t.directory? directory = some entries := by
  obtain ⟨inner, hinner, hfollow⟩ := h.walks.follow_append [] t.get?_nil
  rw [h.entries] at hinner
  obtain rfl : entries = inner := by simpa using hinner
  rw [List.append_nil, follow] at hfollow
  rw [FileTree.directory?, FileTree.entryAt?, locate_of_relative hne h.relative, hfollow]

/-- A path to a file by a plain name goes through a shelf. -/
theorem exists_shelf_of_locate (hordered : Ordered t) (hname : Plain name) {e : Entry}
    (h : t.locate (Path.join directory name) = .found place e) :
    ∃ q entries, Shelf t directory q entries ∧ entries.lookup name = some e := by
  by_cases hrelative : Path.isAbsolute directory = false
  · obtain ⟨front, hsteps, hwalks⟩ := exists_walks_steps directory hname
    rw [locate_join hname hrelative, hsteps] at h
    obtain ⟨q, entries, hwalk, -, hq, hlookup⟩ :=
      follow_concat_found hname.ne_dot hname.ne_up t.get?_nil h
    exact ⟨q, entries, ⟨hordered, hrelative, hwalks.2 hwalk, hq⟩, hlookup⟩
  · rw [FileTree.locate, Path.isAbsolute_join hname, Bool.of_not_eq_false hrelative] at h
    simp at h

/-! ## Changing one entry -/

/-- The entries differ in what stands under one name. -/
def Replaced (name : String) (e : Option Entry) (entries entries' : FileTree) : Prop :=
  entries'.lookup name = e ∧ ∀ n, n ≠ name → entries'.lookup n = entries.lookup n

theorem Shelf.alter {change : Option Entry → Option Entry} (h : Shelf t directory place entries)
    (hfile : ∀ inner, entries.lookup name ≠ some (.directory inner))
    (hchange : ∀ e inner, change e ≠ some (.directory inner)) :
    ∃ entries', Shelf (alter change (place ++ [name]) t) directory place entries' ∧
      Replaced name (change (entries.lookup name)) entries entries' := by
  have hplace : ¬ IsDirectory t (place ++ [name]) := fun ⟨inner, hinner⟩ =>
    hfile inner (by rw [← get?_concat h.entries, hinner])
  obtain ⟨names, -⟩ := h.ordered.of_get? h.entries
  refine ⟨alterEntry change name entries, ⟨?_, h.relative, ?_, ?_⟩, ?_, fun n hn => ?_⟩
  · exact ordered_alter (fun e inner he => absurd he (hchange e inner)) _ h.ordered
  · exact h.walks.mono fun q hq => isDirectory_alter h.ordered hplace hq
  · exact get?_alter_concat name h.ordered h.entries
  · exact lookup_alterEntry_self names
  · exact lookup_alterEntry_of_ne hn entries

/-- A change of what is no directory, away from the shelf, leaves the shelf. -/
theorem Shelf.elsewhere {change : Option Entry → Option Entry} {other : List String}
    (h : Shelf t directory place entries) (hother : ¬ IsDirectory t other)
    (hdown : ¬ other <+: place) (hup : ¬ place <+: other)
    (hchange : ∀ e inner, change e ≠ some (.directory inner)) :
    Shelf (FileTree.alter change other t) directory place entries where
  ordered := ordered_alter (fun e inner he => absurd he (hchange e inner)) _ h.ordered
  relative := h.relative
  walks := h.walks.mono fun _ hq => isDirectory_alter h.ordered hother hq
  entries := by rw [get?_alter_elsewhere h.ordered hdown hup, h.entries]

end FileTree

namespace Disk

open FileTree (Shelf Replaced Ordered IsDirectory Walks)
open ImportAtlas.Path (Plain)

variable {t t' entries : FileTree} {directory name : String} {place : List String}

/-! ## Files -/

theorem shelf_put (file : File) (hshelf : Shelf t directory place entries)
    (hfile : ∀ inner, entries.lookup name ≠ some (.directory inner)) :
    ∃ entries', Shelf (t.put (place ++ [name]) (.file file)) directory place entries' ∧
      Replaced name (some (.file file)) entries entries' :=
  hshelf.alter hfile (by simp)

theorem write_on_shelf (file : File) (hshelf : Shelf t directory place entries) (hname : Plain name)
    (hfree : ∀ inner, entries.lookup name ≠ some (.directory inner)) :
    (write (Path.join directory name) file).on t =
      (t.put (place ++ [name]) (.file file), .ok ()) := by
  rw [write, Step.on_get_bind]
  cases hentry : entries.lookup name with
  | none =>
    rw [hshelf.locate_vacant hname hentry]
    rfl
  | some e => cases e with
    | file _ =>
      rw [hshelf.locate_found hname hentry]
      rfl
    | directory inner => exact absurd hentry (hfree inner)

theorem shelf_write {file : File} (hshelf : Shelf t directory place entries) (hname : Plain name)
    (h : (write (Path.join directory name) file).on t = (t', .ok ())) :
    ∃ entries', Shelf t' directory place entries' ∧
      Replaced name (some (.file file)) entries entries' := by
  have hfree : ∀ inner, entries.lookup name ≠ some (.directory inner) := by
    intro inner hinner
    rw [write, Step.on_get_bind, hshelf.locate_found hname hinner] at h
    cases h
  rw [write_on_shelf file hshelf hname hfree] at h
  obtain ⟨rfl, -⟩ := Prod.mk.inj h
  exact shelf_put file hshelf hfree

theorem shelf_erase (name : String) (hshelf : Shelf t directory place entries)
    (hfile : ∀ inner, entries.lookup name ≠ some (.directory inner)) :
    ∃ entries', Shelf (t.erase (place ++ [name])) directory place entries' ∧
      Replaced name none entries entries' :=
  hshelf.alter hfile (by simp)

theorem move_on_shelf {target : String} {file : File} (hshelf : Shelf t directory place entries)
    (hname : Plain name) (htarget : Plain target) (hfile : entries.lookup name = some (.file file))
    (hfree : ∀ inner, entries.lookup target ≠ some (.directory inner)) :
    (move (Path.join directory name) (Path.join directory target)).on t =
      ((t.erase (place ++ [name])).put (place ++ [target]) (.file file), .ok ()) := by
  rw [move, Step.on_get_bind, hshelf.locate_found hname hfile]
  cases hentry : entries.lookup target with
  | none =>
    rw [hshelf.locate_vacant htarget hentry]
    rfl
  | some e => cases e with
    | file _ =>
      rw [hshelf.locate_found htarget hentry]
      rfl
    | directory inner => exact absurd hentry (hfree inner)

/-- Moving a file within a directory. -/
theorem shelf_move {target : String} {file : File} (hshelf : Shelf t directory place entries)
    (hname : Plain name) (htarget : Plain target) (hne : target ≠ name)
    (hfile : entries.lookup name = some (.file file))
    (h : (move (Path.join directory name) (Path.join directory target)).on t = (t', .ok ())) :
    ∃ gone entries', Shelf t' directory place entries' ∧ Replaced name none entries gone ∧
      Replaced target (some (.file file)) gone entries' := by
  have hfree : ∀ inner, entries.lookup target ≠ some (.directory inner) := by
    intro inner hinner
    rw [move, Step.on_get_bind, hshelf.locate_found hname hfile, hshelf.locate_found htarget hinner] at h
    cases h
  rw [move_on_shelf hshelf hname htarget hfile hfree] at h
  obtain ⟨rfl, -⟩ := Prod.mk.inj h
  obtain ⟨gone, hgone, herased⟩ := shelf_erase name hshelf (by simp [hfile])
  obtain ⟨entries', hput, hreplaced⟩ := shelf_put file hgone (herased.2 target hne ▸ hfree)
  exact ⟨gone, entries', hput, herased, hreplaced⟩

/-! ## Directories -/

theorem isDirectory_put {step : String} (hordered : Ordered t) (hplace : IsDirectory t place)
    (hnone : t.get? (place ++ [step]) = none) :
    IsDirectory (t.put (place ++ [step]) (.directory [])) (place ++ [step]) ∧
      Ordered (t.put (place ++ [step]) (.directory [])) ∧
      ∀ q, IsDirectory t q → IsDirectory (t.put (place ++ [step]) (.directory [])) q := by
  obtain ⟨entries, hentries⟩ := hplace
  obtain ⟨names, -⟩ := hordered.of_get? hentries
  have hnew : ¬ IsDirectory t (place ++ [step]) := fun ⟨_, h⟩ => by simp [hnone] at h
  refine ⟨⟨[], ?_⟩, ?_, fun q hq => FileTree.isDirectory_alter hordered hnew hq⟩
  · rw [FileTree.put, FileTree.get?_concat (FileTree.get?_alter_concat step hordered hentries),
      FileTree.lookup_alterEntry_self names]
  · refine FileTree.ordered_alter (fun _ inner hinner => ?_) _ hordered
    obtain rfl : [] = inner := by simpa using hinner
    exact .intro .nil (by simp)

/-- Every step that is taken leads into a directory that is there, or is there from then on. -/
theorem walks_makeSteps : ∀ {steps : List String} {place : List String} {t t' : FileTree},
    Ordered t → IsDirectory t place → (makeSteps place steps).on t = (t', .ok ()) →
      Ordered t' ∧ (∀ q, IsDirectory t q → IsDirectory t' q) ∧ ∃ q, Walks t' place steps q := by
  intro steps
  induction steps with
  | nil =>
    intro place t t' hordered _ h
    obtain ⟨rfl, -⟩ := Prod.mk.inj h
    exact ⟨hordered, fun _ hq => hq, place, .here place⟩
  | cons step steps ih =>
    intro place t t' hordered hplace h
    unfold makeSteps at h
    split at h
    · next hdot =>
      obtain ⟨hordered', hkept, q, hwalk⟩ := ih hordered hplace h
      exact ⟨hordered', hkept, q, hdot ▸ .dot hwalk⟩
    split at h
    · next hup =>
      split at h
      · cases h
      · next hne =>
        obtain ⟨hordered', hkept, q, hwalk⟩ := ih hordered (FileTree.isDirectory_dropLast hplace) h
        exact ⟨hordered', hkept, q, hup ▸ .up hne hwalk⟩
    · next hdot hup =>
      rw [Step.on_get_bind] at h
      split at h
      · next below hbelow =>
        obtain ⟨hordered', hkept, q, hwalk⟩ := ih hordered ⟨below, hbelow⟩ h
        exact ⟨hordered', hkept, q, .down hdot hup (hkept _ ⟨below, hbelow⟩) hwalk⟩
      · cases h
      · next hnone =>
        obtain ⟨hmade, hmadeOrdered, hmadeKept⟩ := isDirectory_put hordered hplace hnone
        obtain ⟨hordered', hkept, q, hwalk⟩ := ih hmadeOrdered hmade h
        exact ⟨hordered', fun r hr => hkept r (hmadeKept r hr), q,
          .down hdot hup (hkept _ hmade) hwalk⟩

/-- Where there is a shelf already, no directory is made. -/
theorem makeDirectories_shelf (hshelf : Shelf t directory place entries) :
    (makeDirectories directory).on t = (t, .ok ()) := by
  have hthere : directory = "" ∨ t.hasDirectory directory = true := by
    by_cases hne : directory = ""
    · exact .inl hne
    · exact .inr (by rw [FileTree.hasDirectory, hshelf.directory? hne, Option.isSome_some])
  rw [makeDirectories, Step.on_get_bind, if_pos (by simpa using hthere)]
  rfl

theorem shelf_of_hasDirectory (hordered : Ordered t) (h : t.hasDirectory directory = true) :
    ∃ place entries, Shelf t directory place entries := by
  rw [FileTree.hasDirectory, FileTree.directory?, FileTree.entryAt?, FileTree.locate] at h
  by_cases hout : (directory = "" || Path.isAbsolute directory) = true
  · rw [if_pos hout] at h
    cases h
  · rw [if_neg hout] at h
    obtain ⟨-, hrelative⟩ : directory ≠ "" ∧ Path.isAbsolute directory = false := by simpa using hout
    cases hfollow : FileTree.follow t [] (.directory t) (Path.steps directory) with
    | found place e => cases e with
      | directory entries =>
        obtain ⟨-, hwalk⟩ := FileTree.walks_of_follow t.get?_nil hfollow
        obtain ⟨inner, hinner⟩ := hwalk.isDirectory (FileTree.isDirectory_nil t)
        exact ⟨place, inner, hordered, hrelative, hwalk, hinner⟩
      | file _ => simp [hfollow] at h
    | vacant _ => simp [hfollow] at h
    | absent => simp [hfollow] at h
    | blocked => simp [hfollow] at h

/-- **A directory that could be made is a shelf.** -/
theorem exists_shelf_of_makeDirectories (hordered : Ordered t)
    (h : (makeDirectories directory).on t = (t', .ok ())) :
    ∃ place entries, Shelf t' directory place entries := by
  rw [makeDirectories, Step.on_get_bind] at h
  split at h
  · next hthere =>
    obtain ⟨rfl, -⟩ := Prod.mk.inj h
    by_cases hempty : directory = ""
    · subst hempty
      exact ⟨[], t, hordered, rfl, .dot (.here []), rfl⟩
    · exact shelf_of_hasDirectory hordered (by simpa [hempty] using hthere)
  split at h
  · cases h
  · next hrelative =>
    dsimp only at h
    split at h
    · obtain ⟨u, _, -, hthrow⟩ := Step.exists_on_of_bind h
      cases hthrow
    · obtain ⟨hordered', -, q, hwalk⟩ := walks_makeSteps hordered (FileTree.isDirectory_nil t) h
      have hsteps : Walks t' [] (Path.steps directory) q := FileTree.walks_filter_iff.1 hwalk
      obtain ⟨inner, hinner⟩ := hsteps.isDirectory (FileTree.isDirectory_nil t')
      exact ⟨q, inner, hordered', by simpa using hrelative, hsteps, hinner⟩

end Disk
end ImportAtlas
