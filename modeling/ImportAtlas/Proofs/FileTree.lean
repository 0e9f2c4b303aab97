import ImportAtlas.FileTree
/-!
# Entries, places and paths

In a tree whose directories list their names in order (`Ordered`), changing the entry at a place
changes that entry and nothing else, and order is kept.

Where a path leads depends on nothing but which places are directories (`Walks`): a change that takes
no directory away leaves every path to a directory leading where it led.
-/
namespace ImportAtlas
namespace FileTree

variable {t entries : FileTree} {change : Option Entry → Option Entry}
variable {name n : String} {place p q : List String} {e : Entry}

/-! ## Entries of a directory -/

/-- The names of every directory of the tree are in order. -/
inductive Ordered : FileTree → Prop where
  | intro {t : FileTree} (names : t.Pairwise (·.1 < ·.1))
    (below : ∀ name entries, t.lookup name = some (.directory entries) → Ordered entries) : Ordered t

/-- What a directory holds is in order. -/
def OrderedBelow : Entry → Prop
  | .file _ => True
  | .directory entries => Ordered entries

theorem lookup_cons_of_ne (h : n ≠ name) (e : Entry) (t : FileTree) :
    ((name, e) :: t).lookup n = t.lookup n := by
  have hne : (n == name) = false := by simpa using h
  rw [List.lookup_cons, hne]

theorem lookup_eq_none_of_lt (h : ∀ x ∈ t, name < x.1) : t.lookup name = none := by
  refine List.lookup_eq_none_iff.2 fun x hx => ?_
  have hne : name ≠ x.1 := fun e => String.lt_irrefl name (e ▸ h x hx)
  simpa using hne

/-- In a directory, what is looked up is what is listed. -/
theorem lookup_eq_some_iff (h : t.Pairwise (·.1 < ·.1)) : t.lookup name = some e ↔ (name, e) ∈ t := by
  induction t with
  | nil => simp
  | cons entry rest ih =>
    obtain ⟨m, e'⟩ := entry
    obtain ⟨hm, hrest⟩ := List.pairwise_cons.1 h
    by_cases hname : name = m
    · subst hname
      have hnotMem : (name, e) ∉ rest := fun hmem => String.lt_irrefl name (hm _ hmem)
      simp [List.lookup_cons_self, hnotMem, eq_comm]
    · rw [lookup_cons_of_ne hname, ih hrest, List.mem_cons]
      simp [hname]

/-- Order is a matter of the entries, one by one. -/
theorem ordered_iff : Ordered t ↔ t.Pairwise (·.1 < ·.1) ∧ ∀ x ∈ t, OrderedBelow x.2 := by
  constructor
  · rintro ⟨names, below⟩
    refine ⟨names, fun ⟨name, e⟩ hx => ?_⟩
    cases e with
    | file _ => trivial
    | directory entries => exact below name entries ((lookup_eq_some_iff names).2 hx)
  · rintro ⟨names, below⟩
    exact .intro names fun name entries h => below _ ((lookup_eq_some_iff names).1 h)

mutual

def decidableOrderedBelow : (e : Entry) → Decidable (OrderedBelow e)
  | .file _ => .isTrue trivial
  | .directory entries =>
    have := decidableOrderedIn entries
    decidable_of_iff _ ordered_iff.symm
termination_by structural e => e

def decidableOrderedIn : (entries : List (String × Entry)) → Decidable (∀ x ∈ entries, OrderedBelow x.2)
  | [] => .isTrue fun _ h => (List.not_mem_nil h).elim
  | (name, e) :: rest =>
    have := decidableOrderedBelow e
    have := decidableOrderedIn rest
    decidable_of_iff (OrderedBelow e ∧ ∀ x ∈ rest, OrderedBelow x.2) (by rw [List.forall_mem_cons])
termination_by structural entries => entries

end

instance (t : FileTree) : Decidable (Ordered t) :=
  have := decidableOrderedIn t
  decidable_of_iff _ ordered_iff.symm

theorem lookup_optionRow (name : String) (e : Option Entry) (t : FileTree) :
    ((e.map (name, ·)).toList ++ t).lookup name = e.or (t.lookup name) := by
  cases e with
  | none => rfl
  | some e => exact List.lookup_cons_self

theorem lookup_optionRow_of_ne (h : n ≠ name) (e : Option Entry) (t : FileTree) :
    ((e.map (name, ·)).toList ++ t).lookup n = t.lookup n := by
  cases e with
  | none => rfl
  | some e => exact lookup_cons_of_ne h e t

theorem lookup_alterEntry_of_ne (h : n ≠ name) :
    ∀ t : FileTree, (alterEntry change name t).lookup n = t.lookup n
  | [] => by simpa [alterEntry] using lookup_optionRow_of_ne h (change none) []
  | (m, e) :: t => by
    unfold alterEntry
    split
    · exact lookup_optionRow_of_ne h _ _
    split
    · next hm =>
      rw [lookup_optionRow_of_ne h, lookup_cons_of_ne (hm ▸ h)]
    · by_cases hm : n = m
      · subst hm
        rw [List.lookup_cons_self, List.lookup_cons_self]
      · rw [lookup_cons_of_ne hm, lookup_cons_of_ne hm, lookup_alterEntry_of_ne h t]

theorem lookup_alterEntry_self : ∀ {t : FileTree}, t.Pairwise (·.1 < ·.1) →
    (alterEntry change name t).lookup name = change (t.lookup name)
  | [], _ => by simpa [alterEntry] using lookup_optionRow name (change none) []
  | (m, e) :: t, h => by
    obtain ⟨hm, ht⟩ := List.pairwise_cons.1 h
    unfold alterEntry
    split
    · next hlt =>
      have hnone : ((m, e) :: t).lookup name = none := by
        refine lookup_eq_none_of_lt fun x hx => ?_
        rcases List.mem_cons.1 hx with rfl | hx
        · exact hlt
        · exact String.lt_trans hlt (hm x hx)
      rw [lookup_optionRow, hnone, Option.or_none]
    split
    · next heq =>
      subst heq
      rw [lookup_optionRow, List.lookup_cons_self, lookup_eq_none_of_lt hm, Option.or_none]
    · next hne =>
      rw [lookup_cons_of_ne hne, lookup_cons_of_ne hne, lookup_alterEntry_self ht]

theorem names_alterEntry : ∀ (t : FileTree), ∀ x ∈ alterEntry change name t, x.1 = name ∨ x ∈ t
  | [], x, hx => by
    simp only [alterEntry, Option.mem_toList, Option.map_eq_some_iff] at hx
    obtain ⟨e, -, rfl⟩ := hx
    exact .inl rfl
  | (m, e) :: t, x, hx => by
    unfold alterEntry at hx
    split at hx
    · rcases List.mem_append.1 hx with hx | hx
      · obtain ⟨e, -, rfl⟩ := Option.map_eq_some_iff.1 (Option.mem_toList.1 hx)
        exact .inl rfl
      · exact .inr hx
    split at hx
    · rcases List.mem_append.1 hx with hx | hx
      · obtain ⟨e, -, rfl⟩ := Option.map_eq_some_iff.1 (Option.mem_toList.1 hx)
        exact .inl rfl
      · exact .inr (List.mem_cons_of_mem _ hx)
    · rcases List.mem_cons.1 hx with rfl | hx
      · exact .inr List.mem_cons_self
      · exact (names_alterEntry t x hx).imp_right (List.mem_cons_of_mem _)

theorem pairwise_optionRow {e : Option Entry} (ht : t.Pairwise (·.1 < ·.1))
    (h : ∀ x ∈ t, name < x.1) : ((e.map (name, ·)).toList ++ t).Pairwise (·.1 < ·.1) := by
  cases e with
  | none => exact ht
  | some e => exact List.pairwise_cons.2 ⟨h, ht⟩

theorem pairwise_alterEntry : ∀ {t : FileTree}, t.Pairwise (·.1 < ·.1) →
    (alterEntry change name t).Pairwise (·.1 < ·.1)
  | [], _ => by
    rw [alterEntry, ← List.append_nil (Option.toList _)]
    exact pairwise_optionRow .nil (by simp)
  | (m, e) :: t, h => by
    obtain ⟨hm, ht⟩ := List.pairwise_cons.1 h
    unfold alterEntry
    split
    · next hlt =>
      refine pairwise_optionRow h fun x hx => ?_
      rcases List.mem_cons.1 hx with rfl | hx
      · exact hlt
      · exact String.lt_trans hlt (hm x hx)
    split
    · next heq =>
      subst heq
      exact pairwise_optionRow ht hm
    · next hlt hne =>
      refine List.pairwise_cons.2 ⟨fun x hx => ?_, pairwise_alterEntry ht⟩
      rcases names_alterEntry t x hx with hx | hx
      · rw [hx]
        exact Std.lt_of_le_of_ne (String.not_lt.1 hlt) (Ne.symm hne)
      · exact hm x hx

/-! ## Places -/

theorem get?_nil (t : FileTree) : t.get? [] = some (.directory t) := rfl

/-- There is a directory at the place. -/
def IsDirectory (t : FileTree) (place : List String) : Prop :=
  ∃ entries, t.get? place = some (.directory entries)

def isDirectoryEntry : Entry → Bool
  | .directory _ => true
  | .file _ => false

instance (t : FileTree) (place : List String) : Decidable (IsDirectory t place) :=
  decidable_of_iff ((t.get? place).any isDirectoryEntry = true) <| by
    unfold IsDirectory
    cases t.get? place with
    | none => simp
    | some e => cases e <;> simp [isDirectoryEntry]

theorem isDirectory_nil (t : FileTree) : IsDirectory t [] := ⟨t, t.get?_nil⟩

theorem get?_cons_of_directory (h : t.lookup name = some (.directory entries)) (place : List String) :
    t.get? (name :: place) = get? entries place := by
  rw [get?, h]

/-- A directory is reached through directories. -/
theorem get?_cons_eq_directory : t.get? (name :: place) = some (.directory entries) ↔
    ∃ below, t.lookup name = some (.directory below) ∧
      get? below place = some (.directory entries) := by
  constructor
  · intro h
    unfold get? at h
    split at h
    · next below heq => exact ⟨below, heq, h⟩
    · split at h
      · cases h
      · cases h
    · cases h
  · rintro ⟨below, hlookup, h⟩
    rw [get?_cons_of_directory hlookup, h]

theorem get?_singleton (t : FileTree) (name : String) : t.get? [name] = t.lookup name := by
  unfold get?
  split
  · next heq => rw [heq, get?]
  · next heq => rw [heq, if_pos rfl]
  · next heq => rw [heq]

theorem get?_append (q : List String) : ∀ {t : FileTree} {place : List String} {entries : FileTree},
    t.get? place = some (.directory entries) → t.get? (place ++ q) = get? entries q
  | t, [], entries, h => by
    have : t = entries := by simpa [get?] using h
    rw [this, List.nil_append]
  | t, name :: place, entries, h => by
    obtain ⟨below, hlookup, hget⟩ := get?_cons_eq_directory.1 h
    rw [List.cons_append, get?_cons_of_directory hlookup, get?_append q hget]

theorem get?_concat (h : t.get? place = some (.directory entries)) (name : String) :
    t.get? (place ++ [name]) = entries.lookup name := by
  rw [get?_append [name] h, get?_singleton]

theorem isDirectory_of_append (q : List String) : ∀ {t : FileTree} {place : List String},
    IsDirectory t (place ++ q) → IsDirectory t place
  | t, [], _ => isDirectory_nil t
  | t, name :: place, ⟨entries, h⟩ => by
    obtain ⟨below, hlookup, hget⟩ := get?_cons_eq_directory.1 h
    obtain ⟨inner, hinner⟩ := isDirectory_of_append q ⟨entries, hget⟩
    exact ⟨inner, get?_cons_eq_directory.2 ⟨below, hlookup, hinner⟩⟩

/-- What is beneath a place is in a directory. -/
theorem isDirectory_of_get?_concat : ∀ {place : List String} {t : FileTree},
    t.get? (place ++ [name]) = some e → IsDirectory t place
  | [], t, _ => isDirectory_nil t
  | n :: place, t, h => by
    rw [List.cons_append, get?] at h
    split at h
    · next inner hlookup =>
      obtain ⟨entries, hentries⟩ := isDirectory_of_get?_concat h
      exact ⟨entries, get?_cons_eq_directory.2 ⟨inner, hlookup, hentries⟩⟩
    · simp at h
    · cases h

theorem isDirectory_dropLast (h : IsDirectory t place) : IsDirectory t place.dropLast := by
  by_cases hplace : place = []
  · subst hplace
    exact h
  · rw [← List.dropLast_concat_getLast hplace] at h
    exact isDirectory_of_append _ h

theorem Ordered.of_get? : ∀ {place : List String} {t entries : FileTree}, Ordered t →
    t.get? place = some (.directory entries) → Ordered entries
  | [], t, entries, h, hget => by
    have : t = entries := by simpa [get?] using hget
    exact this ▸ h
  | name :: place, t, entries, .intro _ below, hget => by
    obtain ⟨inner, hlookup, hinner⟩ := get?_cons_eq_directory.1 hget
    exact Ordered.of_get? (below name inner hlookup) hinner

/-! ## Changing the entry at a place -/

/-- Changes the entry at a place beneath a directory, and leaves what is no directory. -/
def within (change : Option Entry → Option Entry) (place : List String) : Option Entry → Option Entry
  | some (.directory entries) => some (.directory (alter change place entries))
  | e => e

theorem alter_cons (hplace : place ≠ []) (name : String) (t : FileTree) :
    alter change (name :: place) t = alterEntry (within change place) name t := by
  obtain ⟨next, place, rfl⟩ := List.exists_cons_of_ne_nil hplace
  rw [alter]
  · rfl
  · exact hplace

theorem ordered_alterEntry (h : Ordered t)
    (hchange : ∀ entries, change (t.lookup name) = some (.directory entries) → Ordered entries) :
    Ordered (alterEntry change name t) := by
  obtain ⟨names, below⟩ := h
  refine .intro (pairwise_alterEntry names) fun n entries hn => ?_
  by_cases hname : n = name
  · subst hname
    rw [lookup_alterEntry_self names] at hn
    exact hchange entries hn
  · rw [lookup_alterEntry_of_ne hname] at hn
    exact below n entries hn

theorem ordered_alter (hchange : ∀ e entries, change e = some (.directory entries) → Ordered entries) :
    ∀ (place : List String) {t : FileTree}, Ordered t → Ordered (alter change place t)
  | [], _, h => h
  | [name], t, h => ordered_alterEntry h (hchange (t.lookup name))
  | name :: next :: place, t, h => by
    rw [alter_cons (by simp)]
    refine ordered_alterEntry h fun entries hentries => ?_
    unfold within at hentries
    split at hentries
    · next below hlookup =>
      obtain rfl : alter change (next :: place) below = entries := by simpa using hentries
      obtain ⟨-, hbelow⟩ := h
      exact ordered_alter hchange (next :: place) (hbelow name below hlookup)
    · obtain ⟨-, hbelow⟩ := h
      exact hbelow name entries hentries

/-- What is changed is an entry of the directory at `place`. -/
theorem get?_alter_concat (name : String) : ∀ {place : List String} {t entries : FileTree},
    Ordered t → t.get? place = some (.directory entries) →
      (alter change (place ++ [name]) t).get? place =
        some (.directory (alterEntry change name entries))
  | [], t, entries, _, h => by
    obtain rfl : t = entries := by simpa [get?] using h
    rfl
  | n :: place, t, entries, .intro names below, h => by
    obtain ⟨inner, hlookup, hinner⟩ := get?_cons_eq_directory.1 h
    have ih := get?_alter_concat name (below n inner hlookup) hinner
    rw [List.cons_append, alter_cons (by simp), get?_cons_eq_directory]
    refine ⟨_, ?_, ih⟩
    rw [lookup_alterEntry_self names, hlookup]
    rfl

/-- No directory goes when what is changed is none. -/
theorem isDirectory_alter : ∀ {place : List String} {t : FileTree}, Ordered t →
    ¬ IsDirectory t place → ∀ {q : List String}, IsDirectory t q → IsDirectory (alter change place t) q
  | [], t, _, hplace, _, _ => absurd (isDirectory_nil t) hplace
  | _, _, _, _, [], _ => isDirectory_nil _
  | [name], t, .intro names below, hplace, n :: q, ⟨entries, h⟩ => by
    obtain ⟨inner, hlookup, hinner⟩ := get?_cons_eq_directory.1 h
    have hn : n ≠ name := by
      rintro rfl
      exact hplace ⟨inner, by rw [get?_singleton, hlookup]⟩
    refine ⟨entries, get?_cons_eq_directory.2 ⟨inner, ?_, hinner⟩⟩
    rw [alter, lookup_alterEntry_of_ne hn, hlookup]
  | name :: next :: place, t, .intro names below, hplace, n :: q, ⟨entries, h⟩ => by
    obtain ⟨inner, hlookup, hinner⟩ := get?_cons_eq_directory.1 h
    rw [alter_cons (by simp)]
    by_cases hn : n = name
    · subst hn
      have hnext : ¬ IsDirectory inner (next :: place) := fun ⟨deep, hdeep⟩ =>
        hplace ⟨deep, get?_cons_eq_directory.2 ⟨inner, hlookup, hdeep⟩⟩
      obtain ⟨changed, hchanged⟩ :=
        isDirectory_alter (below n inner hlookup) hnext ⟨entries, hinner⟩
      refine ⟨changed, get?_cons_eq_directory.2 ⟨_, ?_, hchanged⟩⟩
      rw [lookup_alterEntry_self names, hlookup]
      rfl
    · refine ⟨entries, get?_cons_eq_directory.2 ⟨inner, ?_, hinner⟩⟩
      rw [lookup_alterEntry_of_ne hn, hlookup]

/-- A change leaves every place that is neither above nor beneath it. -/
theorem get?_alter_elsewhere : ∀ {place q : List String} {t : FileTree}, Ordered t →
    ¬ place <+: q → ¬ q <+: place → (alter change place t).get? q = t.get? q
  | [], q, _, _, h, _ => absurd q.nil_prefix h
  | place, [], _, _, _, h => absurd place.nil_prefix h
  | [name], n :: q, t, _, h, _ => by
    have hn : n ≠ name := by
      rintro rfl
      exact h (by simp)
    rw [alter, get?, lookup_alterEntry_of_ne hn, get?]
  | name :: next :: place, n :: q, t, .intro names below, hdown, hup => by
    rw [alter_cons (by simp)]
    by_cases hn : n = name
    · subst hn
      rw [List.cons_prefix_cons] at hdown hup
      rw [get?, lookup_alterEntry_self names, get?]
      cases hlookup : t.lookup n with
      | none => rfl
      | some e => cases e with
        | file f => rfl
        | directory inner =>
          exact get?_alter_elsewhere (below n inner hlookup) (fun h => hdown ⟨rfl, h⟩)
            (fun h => hup ⟨rfl, h⟩)
    · rw [get?, lookup_alterEntry_of_ne hn, get?]

theorem not_isDirectory_of_file {f : File} (h : t.get? place = some (.file f)) :
    ¬ IsDirectory t place := by
  rintro ⟨entries, hentries⟩
  rw [h] at hentries
  cases hentries

/-- Every file stays as it is when something new comes into a directory. -/
theorem get?_put_new {f : File} (hordered : Ordered t) (hplace : IsDirectory t place)
    (hnew : t.get? (place ++ [name]) = none) (h : t.get? q = some (.file f)) :
    (t.put (place ++ [name]) e).get? q = some (.file f) := by
  rw [put, get?_alter_elsewhere hordered, h]
  · rintro ⟨rest, rfl⟩
    rcases rest.eq_nil_or_concat with rfl | ⟨front, last, rfl⟩
    · rw [List.append_nil, hnew] at h
      cases h
    · rw [List.concat_eq_append, ← List.append_assoc] at h
      obtain ⟨entries, hentries⟩ := isDirectory_of_append _ (isDirectory_of_get?_concat h)
      rw [hnew] at hentries
      cases hentries
  · intro hprefix
    rcases List.prefix_concat_iff.1 hprefix with rfl | hprefix
    · rw [hnew] at h
      cases h
    · obtain ⟨rest, rfl⟩ := hprefix
      exact not_isDirectory_of_file h (isDirectory_of_append rest hplace)

/-! ## Following steps -/

/-- Steps lead from one place to another through directories. -/
inductive Walks (t : FileTree) : List String → List String → List String → Prop where
  | here (place : List String) : Walks t place [] place
  | dot {place steps q : List String} (h : Walks t place steps q) : Walks t place ("." :: steps) q
  | up {place steps q : List String} (hplace : place ≠ []) (h : Walks t place.dropLast steps q) :
    Walks t place (".." :: steps) q
  | down {place steps q : List String} {step : String} (hdot : step ≠ ".") (hup : step ≠ "..")
    (hstep : IsDirectory t (place ++ [step])) (h : Walks t (place ++ [step]) steps q) :
    Walks t place (step :: steps) q

/-- A walk stays a walk while directories stay directories. -/
theorem Walks.mono {t t' : FileTree} (hmono : ∀ q, IsDirectory t q → IsDirectory t' q)
    {place steps q : List String} (h : Walks t place steps q) : Walks t' place steps q := by
  induction h with
  | here place => exact .here place
  | dot _ ih => exact .dot ih
  | up hplace _ ih => exact .up hplace ih
  | down hdot hup hstep _ ih => exact .down hdot hup (hmono _ hstep) ih

theorem Walks.isDirectory {steps : List String} (h : Walks t place steps q)
    (hplace : IsDirectory t place) : IsDirectory t q := by
  induction h with
  | here place => exact hplace
  | dot _ ih => exact ih hplace
  | up _ _ ih => exact ih (isDirectory_dropLast hplace)
  | down _ _ hstep _ ih => exact ih hstep

theorem walks_dot_iff {steps : List String} : Walks t place ("." :: steps) q ↔ Walks t place steps q := by
  refine ⟨fun h => ?_, .dot⟩
  generalize hrow : "." :: steps = row at h
  cases h with
  | here => cases hrow
  | dot h =>
    obtain ⟨-, rfl⟩ := List.cons.inj hrow
    exact h
  | up _ _ => exact absurd (List.cons.inj hrow).1 (by decide)
  | down hdot _ _ _ => exact absurd (List.cons.inj hrow).1.symm hdot

/-- Steps that stay where they are count for nothing. -/
theorem walks_filter_iff {steps : List String} :
    ∀ {place : List String}, Walks t place (steps.filter (· ≠ ".")) q ↔ Walks t place steps q := by
  induction steps with
  | nil => exact .rfl
  | cons step steps ih =>
    intro place
    by_cases hdot : step = "."
    · subst hdot
      rw [List.filter_cons_of_neg (by simp), walks_dot_iff, ih]
    · rw [List.filter_cons_of_pos (by simpa using hdot)]
      constructor
      · intro h
        cases h with
        | dot _ => exact absurd rfl hdot
        | up hplace h => exact .up hplace (ih.1 h)
        | down hdot hup hstep h => exact .down hdot hup hstep (ih.1 h)
      · intro h
        cases h with
        | dot _ => exact absurd rfl hdot
        | up hplace h => exact .up hplace (ih.2 h)
        | down hdot hup hstep h => exact .down hdot hup hstep (ih.2 h)

theorem walks_concat_dot_iff {steps : List String} :
    Walks t place (steps ++ ["."]) q ↔ Walks t place steps q := by
  rw [← walks_filter_iff, List.filter_append, List.filter_cons_of_neg (by simp), List.filter_nil,
    List.append_nil, walks_filter_iff]

/-- Following steps along a walk comes to the directory at its end. -/
theorem Walks.follow_append {steps : List String} (h : Walks t place steps q) (more : List String) :
    ∀ {entries}, t.get? place = some (.directory entries) →
      ∃ inner, t.get? q = some (.directory inner) ∧
        follow t place (.directory entries) (steps ++ more) = follow t q (.directory inner) more := by
  induction h with
  | here place => exact fun {entries} hplace => ⟨entries, hplace, rfl⟩
  | dot _ ih =>
    intro entries hplace
    obtain ⟨inner, hinner, hfollow⟩ := ih hplace
    refine ⟨inner, hinner, ?_⟩
    rw [List.cons_append, follow, if_pos rfl, hfollow]
  | @up place steps q hne _ ih =>
    intro entries hplace
    obtain ⟨above, habove⟩ := isDirectory_dropLast ⟨entries, hplace⟩
    obtain ⟨inner, hinner, hfollow⟩ := ih habove
    refine ⟨inner, hinner, ?_⟩
    rw [List.cons_append, follow, if_neg (by decide), if_pos rfl, if_neg hne, habove]
    exact hfollow
  | @down place steps q step hdot hup hstep _ ih =>
    intro entries hplace
    obtain ⟨below, hbelow⟩ := hstep
    obtain ⟨inner, hinner, hfollow⟩ := ih hbelow
    refine ⟨inner, hinner, ?_⟩
    rw [get?_concat hplace] at hbelow
    rw [List.cons_append, follow, if_neg hdot, if_neg hup, hbelow]
    exact hfollow

/-- What one step does that is followed to something. -/
theorem follow_cons_found {step : String} {steps : List String} {f : Entry}
    (h : follow t place e (step :: steps) = .found q f) :
    ∃ entries, e = .directory entries ∧
      ((step = "." ∧ follow t place e steps = .found q f) ∨
        (step = ".." ∧ place ≠ [] ∧ ∃ above, t.get? place.dropLast = some above ∧
          follow t place.dropLast above steps = .found q f) ∨
        (step ≠ "." ∧ step ≠ ".." ∧ ∃ below, entries.lookup step = some below ∧
          follow t (place ++ [step]) below steps = .found q f)) := by
  cases e with
  | file _ => cases h
  | directory entries =>
    refine ⟨entries, rfl, ?_⟩
    rw [follow] at h
    split at h
    · next hdot => exact .inl ⟨hdot, h⟩
    split at h
    · next hup =>
      split at h
      · cases h
      split at h
      · next hplace _ above habove => exact .inr (.inl ⟨hup, hplace, above, habove, h⟩)
      · cases h
    · next hdot hup =>
      split at h
      · next below hbelow => exact .inr (.inr ⟨hdot, hup, below, hbelow, h⟩)
      · split at h <;> cases h

/-- What is followed to a directory is a walk. -/
theorem walks_of_follow {steps : List String} : ∀ {place : List String} {e : Entry},
    t.get? place = some e → follow t place e steps = .found q (.directory entries) →
      IsDirectory t place ∧ Walks t place steps q := by
  induction steps with
  | nil =>
    intro place e hplace h
    obtain ⟨rfl, rfl⟩ := Located.found.inj h
    exact ⟨⟨entries, hplace⟩, .here place⟩
  | cons step steps ih =>
    intro place e hplace h
    obtain ⟨here, rfl, hstep⟩ := follow_cons_found h
    refine ⟨⟨here, hplace⟩, ?_⟩
    rcases hstep with ⟨rfl, h⟩ | ⟨rfl, hne, above, habove, h⟩ | ⟨hdot, hup, below, hbelow, h⟩
    · exact .dot (ih hplace h).2
    · exact .up hne (ih habove h).2
    · obtain ⟨hdirectory, hwalk⟩ := ih (by rw [get?_concat hplace, hbelow]) h
      exact .down hdot hup hdirectory hwalk

/-- A name at the end of steps is looked up in the directory that the others lead to. -/
theorem follow_concat_found {name : String} (hdot : name ≠ ".") (hup : name ≠ "..") {f : Entry}
    {steps : List String} : ∀ {place : List String} {e : Entry}, t.get? place = some e →
      follow t place e (steps ++ [name]) = .found q f →
        ∃ r entries, Walks t place steps r ∧ IsDirectory t place ∧
          t.get? r = some (.directory entries) ∧ entries.lookup name = some f := by
  induction steps with
  | nil =>
    intro place e hplace h
    obtain ⟨entries, rfl, hstep⟩ := follow_cons_found h
    rcases hstep with ⟨hname, -⟩ | ⟨hname, -⟩ | ⟨-, -, below, hbelow, h⟩
    · exact absurd hname hdot
    · exact absurd hname hup
    · obtain ⟨-, rfl⟩ := Located.found.inj h
      exact ⟨place, entries, .here place, ⟨entries, hplace⟩, hplace, hbelow⟩
  | cons step steps ih =>
    intro place e hplace h
    obtain ⟨here, rfl, hstep⟩ := follow_cons_found h
    rcases hstep with ⟨rfl, h⟩ | ⟨rfl, hne, above, habove, h⟩ | ⟨hdot', hup', below, hbelow, h⟩
    · obtain ⟨r, entries, hwalk, -, hr⟩ := ih hplace h
      exact ⟨r, entries, .dot hwalk, ⟨here, hplace⟩, hr⟩
    · obtain ⟨r, entries, hwalk, -, hr⟩ := ih habove h
      exact ⟨r, entries, .up hne hwalk, ⟨here, hplace⟩, hr⟩
    · obtain ⟨r, entries, hwalk, hdirectory, hr⟩ := ih (by rw [get?_concat hplace, hbelow]) h
      exact ⟨r, entries, .down hdot' hup' hdirectory hwalk, ⟨here, hplace⟩, hr⟩

end FileTree
end ImportAtlas
