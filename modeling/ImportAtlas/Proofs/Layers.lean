import ImportAtlas.Layer
import ImportAtlas.Proofs.Answer
import ImportAtlas.Proofs.Name
/-!
# What an architecture forbids

`Forbids` says by positions what the walk over the levels enumerates: a lower layer may not import a
higher one, siblings of an independent layer may not import each other, and nothing may be imported
across a closed layer in between.  **The pairs that are searched are those that are forbidden**
(`mem_illegalPairs_iff`), whatever modules the layers share.

The levels are the layers with their names read (`ReadAs`).  Reading them succeeds if every tail
spells a name, and only then (`exists_levels_iff`).  The search of a pair keeps off its bystanders,
the named modules that have nothing to do with either end (`mem_excluded_iff`).
-/
namespace ImportAtlas

theorem Layer.mem_tails_single {tail own : String} : tail ∈ (Layer.single own).tails ↔ tail = own := by
  rw [single, Std.ExtTreeSet.mem_ofList, List.contains_iff_mem, List.mem_singleton]

/-- The text that a tail stands for within a container, or on its own. -/
def Layer.fullText (container : Option ModuleName) (tail : String) : String :=
  match container with
  | some c => c.text ++ "." ++ tail
  | none => tail

/-- The layer names the module when it is read within the container. -/
def Layer.Names (layer : Layer) (container : Option ModuleName) (m : ModuleName) : Prop :=
  ∃ tail ∈ layer.tails, m.text = Layer.fullText container tail

/-- Every tail spells a name when the layers are read within the container. -/
def Layer.Spelled (layers : List Layer) (container : Option ModuleName) : Prop :=
  ∀ layer ∈ layers, ∀ tail ∈ layer.tails, ∃ m : ModuleName, m.text = Layer.fullText container tail

/-- The importer's layer is below the imported one's, or the two are siblings of an independent
layer, or the importer's is above and a closed layer is in between. -/
def Forbids (layers : List Layer) (container : Option ModuleName) (importer imported : ModuleName) :
    Prop :=
  ∃ (i : Nat) (own : Layer), layers[i]? = some own ∧ own.Names container importer ∧
  ∃ (j : Nat) (other : Layer), layers[j]? = some other ∧ other.Names container imported ∧
    (j < i ∨ (i = j ∧ importer ≠ imported ∧ own.independent = true) ∨
      ∃ (k : Nat) (between : Layer), layers[k]? = some between ∧
        i < k ∧ k < j ∧ between.closed = true)

/-- The layers name the module, and it overlaps neither end of the pair. -/
def Bystander (layers : List Layer) (container : Option ModuleName) (a b m : ModuleName) : Prop :=
  (∃ layer ∈ layers, layer.Names container m) ∧ ¬ m.Overlaps a ∧ ¬ m.Overlaps b

namespace Level

variable {level : Level} {levels lower : List Level} {higher : ModuleName} {i : Import}

theorem exists_getElem?_cons {α : Type} {a : α} {l : List α} {P : Nat → α → Prop} :
    (∃ (j : Nat) (b : α), (a :: l)[j]? = some b ∧ P j b) ↔
      P 0 a ∨ ∃ (j : Nat) (b : α), l[j]? = some b ∧ P (j + 1) b := by
  constructor
  · rintro ⟨j, b, hb, hP⟩
    cases j with
    | zero =>
      obtain rfl : a = b := by simpa using hb
      exact .inl hP
    | succ j => exact .inr ⟨j, b, by simpa using hb, hP⟩
  · rintro (hP | ⟨j, b, hb, hP⟩)
    · exact ⟨0, a, rfl, hP⟩
    · exact ⟨j + 1, b, by simpa using hb, hP⟩

theorem mem_pairsBelow : ∀ {lower : List Level} {bypassed : Bool},
    i ∈ pairsBelow higher bypassed lower ↔ ∃ (j : Nat) (level : Level), lower[j]? = some level ∧
      ((i.importer ∈ level.modules ∧ i.imported = higher) ∨
        (i.importer = higher ∧ i.imported ∈ level.modules ∧ (bypassed = true ∨
          ∃ (k : Nat) (between : Level), lower[k]? = some between ∧
            k < j ∧ between.closed = true)))
  | [], _ => by simp [pairsBelow]
  | level :: lower, bypassed => by
    have hlevel : (i ∈ level.modules.flatMap fun m =>
        ⟨m, higher⟩ :: if bypassed then [⟨higher, m⟩] else []) ↔
        (i.importer ∈ level.modules ∧ i.imported = higher) ∨
          (i.importer = higher ∧ i.imported ∈ level.modules ∧ bypassed = true) := by
      rw [List.mem_flatMap]
      constructor
      · rintro ⟨m, hm, hi⟩
        rcases List.mem_cons.1 hi with rfl | hi
        · exact .inl ⟨hm, rfl⟩
        · cases bypassed with
          | true =>
            obtain rfl := List.mem_singleton.1 hi
            exact .inr ⟨rfl, hm, rfl⟩
          | false => cases hi
      · rintro (⟨hm, rfl⟩ | ⟨rfl, hm, rfl⟩)
        · exact ⟨_, hm, List.mem_cons_self⟩
        · exact ⟨_, hm, by simp⟩
    rw [pairsBelow, List.mem_append, hlevel, mem_pairsBelow, exists_getElem?_cons]
    simp only [exists_getElem?_cons, Nat.not_lt_zero, false_and, and_false, exists_false, or_false,
      Nat.zero_lt_succ, true_and, Nat.add_lt_add_iff_right, Bool.or_eq_true, or_assoc]

theorem mem_siblingPairs : i ∈ level.siblingPairs ↔ i.importer ∈ level.modules ∧
    i.imported ∈ level.modules ∧ i.importer ≠ i.imported ∧ level.independent = true := by
  unfold siblingPairs
  split
  · next h =>
    rw [List.mem_flatMap]
    constructor
    · rintro ⟨m, hm, hi⟩
      obtain ⟨s, hs, rfl⟩ := List.mem_map.1 hi
      obtain ⟨hs, hne⟩ := List.mem_filter.1 hs
      exact ⟨hs, hm, of_decide_eq_true hne, h⟩
    · rintro ⟨hs, hm, hne, -⟩
      exact ⟨_, hm, List.mem_map.2 ⟨_, List.mem_filter.2 ⟨hs, decide_eq_true hne⟩, rfl⟩⟩
  · next h => simp [h]

theorem mem_flatMap_pairsBelow : i ∈ level.modules.flatMap (pairsBelow · false lower) ↔
    ∃ (j : Nat) (other : Level), lower[j]? = some other ∧
      ((i.importer ∈ other.modules ∧ i.imported ∈ level.modules) ∨
        (i.importer ∈ level.modules ∧ i.imported ∈ other.modules ∧
          ∃ (k : Nat) (between : Level), lower[k]? = some between ∧
            k < j ∧ between.closed = true)) := by
  rw [List.mem_flatMap]
  constructor
  · rintro ⟨m, hm, hi⟩
    obtain ⟨j, other, hj, ⟨ha, rfl⟩ | ⟨rfl, hb, h | h⟩⟩ := mem_pairsBelow.1 hi
    · exact ⟨j, other, hj, .inl ⟨ha, hm⟩⟩
    · cases h
    · exact ⟨j, other, hj, .inr ⟨hm, hb, h⟩⟩
  · rintro ⟨j, other, hj, ⟨ha, hm⟩ | ⟨hm, hb, h⟩⟩
    · exact ⟨_, hm, mem_pairsBelow.2 ⟨j, other, hj, .inl ⟨ha, rfl⟩⟩⟩
    · exact ⟨_, hm, mem_pairsBelow.2 ⟨j, other, hj, .inr ⟨rfl, hb, .inr h⟩⟩⟩

/-- **The pairs that are searched**, by the positions of their levels. -/
theorem mem_illegalPairs : ∀ {levels : List Level}, i ∈ illegalPairs levels ↔
    ∃ (a : Nat) (own : Level), levels[a]? = some own ∧ i.importer ∈ own.modules ∧
    ∃ (b : Nat) (other : Level), levels[b]? = some other ∧ i.imported ∈ other.modules ∧
      (b < a ∨ (a = b ∧ i.importer ≠ i.imported ∧ own.independent = true) ∨
        ∃ (k : Nat) (between : Level), levels[k]? = some between ∧
          a < k ∧ k < b ∧ between.closed = true)
  | [] => by simp [illegalPairs]
  | level :: lower => by
    rw [illegalPairs, List.mem_append, List.mem_append, mem_siblingPairs, mem_flatMap_pairsBelow,
      mem_illegalPairs]
    simp only [exists_getElem?_cons, Nat.lt_irrefl, Nat.not_lt_zero, Nat.zero_lt_succ,
      Nat.add_lt_add_iff_right, Nat.add_right_cancel_iff, Nat.zero_ne_add_one, false_and, and_false,
      false_or, exists_false, or_false, true_and, true_or, and_true]
    constructor
    · rintro ((⟨ha, hb, h⟩ | ⟨j, other, hj, ⟨ha, hb⟩ | ⟨ha, hb, h⟩⟩) | ⟨a, own, hown, ha, h⟩)
      · exact .inl ⟨ha, .inl ⟨hb, h⟩⟩
      · exact .inr ⟨j, other, hj, ha, .inl hb⟩
      · exact .inl ⟨ha, .inr ⟨j, other, hj, hb, h⟩⟩
      · exact .inr ⟨a, own, hown, ha, .inr h⟩
    · rintro (⟨ha, ⟨hb, h⟩ | ⟨j, other, hj, hb, h⟩⟩ | ⟨a, own, hown, ha, hb | h⟩)
      · exact .inl (.inl ⟨ha, hb, h⟩)
      · exact .inl (.inr ⟨j, other, hj, .inr ⟨ha, hb, h⟩⟩)
      · exact .inl (.inr ⟨a, own, hown, .inl ⟨ha, hb⟩⟩)
      · exact .inr ⟨a, own, hown, ha, h⟩

end Level

/-! ## Layers read as levels -/

section Reading

variable {layers : List Layer} {levels : List Level} {container : Option ModuleName}
  {layer : Layer} {level : Level} {a b m : ModuleName}

theorem moduleOf_eq_ok_iff {tail : String} :
    Layer.moduleOf container tail = .ok m ↔ m.text = Layer.fullText container tail := by
  cases container <;> exact ModuleName.parse_eq_ok_iff

/-- The level is the layer with its names read. -/
structure ReadAs (container : Option ModuleName) (layer : Layer) (level : Level) : Prop where
  modules : ∀ m, m ∈ level.modules ↔ layer.Names container m
  independent : level.independent = layer.independent
  closed : level.closed = layer.closed

theorem within_eq_ok_iff : layer.within container = .ok level ↔
    ∃ modules, layer.tails.toList.mapM (Layer.moduleOf container) = .ok modules ∧
      ⟨modules, layer.independent, layer.closed⟩ = level := by
  unfold Layer.within
  rw [bind_eq_ok_iff]
  simp [pure, Except.pure]

theorem readAs_of_within (h : layer.within container = .ok level) : ReadAs container layer level := by
  obtain ⟨modules, hok, rfl⟩ := within_eq_ok_iff.1 h
  refine ⟨fun m => ?_, rfl, rfl⟩
  show m ∈ modules ↔ _
  rw [List.mem_iff_getElem?]
  constructor
  · rintro ⟨k, hk⟩
    obtain ⟨tail, ht, hm⟩ := (getElem?_mapM hok).1 hk
    exact ⟨tail, Std.ExtTreeSet.mem_toList.1 (List.mem_of_getElem? ht), moduleOf_eq_ok_iff.1 hm⟩
  · rintro ⟨tail, ht, hm⟩
    obtain ⟨k, hk⟩ := List.mem_iff_getElem?.1 (Std.ExtTreeSet.mem_toList.2 ht)
    exact ⟨k, (getElem?_mapM hok).2 ⟨tail, hk, moduleOf_eq_ok_iff.2 hm⟩⟩

/-- **Layers can be read within a container if every tail spells a name there.** -/
theorem exists_levels_iff : (∃ levels, layers.mapM (·.within container) = .ok levels) ↔
    Layer.Spelled layers container := by
  rw [exists_mapM_iff]
  refine forall_congr' fun layer => forall_congr' fun _ => ?_
  have hspelled : (∃ level, layer.within container = .ok level) ↔
      ∃ modules, layer.tails.toList.mapM (Layer.moduleOf container) = .ok modules := by
    constructor
    · rintro ⟨level, h⟩
      obtain ⟨modules, hok, -⟩ := within_eq_ok_iff.1 h
      exact ⟨modules, hok⟩
    · rintro ⟨modules, hok⟩
      exact ⟨_, within_eq_ok_iff.2 ⟨modules, hok, rfl⟩⟩
  rw [hspelled, exists_mapM_iff]
  simp only [Std.ExtTreeSet.mem_toList, moduleOf_eq_ok_iff]

theorem exists_level (h : layers.mapM (·.within container) = .ok levels) {k : Nat}
    (hk : layers[k]? = some layer) : ∃ level, levels[k]? = some level ∧
      ReadAs container layer level := by
  obtain ⟨level, hok⟩ := exists_mapM_iff.1 ⟨levels, h⟩ layer (List.mem_of_getElem? hk)
  exact ⟨level, (getElem?_mapM h).2 ⟨layer, hk, hok⟩, readAs_of_within hok⟩

theorem exists_layer (h : layers.mapM (·.within container) = .ok levels) {k : Nat}
    (hk : levels[k]? = some level) : ∃ layer, layers[k]? = some layer ∧
      ReadAs container layer level := by
  obtain ⟨layer, hlayer, hok⟩ := (getElem?_mapM h).1 hk
  exact ⟨layer, hlayer, readAs_of_within hok⟩

/-- **The pairs that are searched are those that are forbidden.** -/
theorem mem_illegalPairs_iff (h : layers.mapM (·.within container) = .ok levels) :
    ⟨a, b⟩ ∈ Level.illegalPairs levels ↔ Forbids layers container a b := by
  rw [Level.mem_illegalPairs]
  constructor
  · rintro ⟨i, own, hi, ha, j, other, hj, hb, hcase⟩
    obtain ⟨ownLayer, hi, hown⟩ := exists_layer h hi
    obtain ⟨otherLayer, hj, hother⟩ := exists_layer h hj
    refine ⟨i, ownLayer, hi, (hown.modules a).1 ha, j, otherLayer, hj, (hother.modules b).1 hb, ?_⟩
    rcases hcase with hlt | ⟨hij, hab, hind⟩ | ⟨k, between, hk, hik, hkj, hclosed⟩
    · exact .inl hlt
    · exact .inr (.inl ⟨hij, hab, hown.independent ▸ hind⟩)
    · obtain ⟨betweenLayer, hk, hbetween⟩ := exists_layer h hk
      exact .inr (.inr ⟨k, betweenLayer, hk, hik, hkj, hbetween.closed ▸ hclosed⟩)
  · rintro ⟨i, ownLayer, hi, ha, j, otherLayer, hj, hb, hcase⟩
    obtain ⟨own, hi, hown⟩ := exists_level h hi
    obtain ⟨other, hj, hother⟩ := exists_level h hj
    refine ⟨i, own, hi, (hown.modules a).2 ha, j, other, hj, (hother.modules b).2 hb, ?_⟩
    rcases hcase with hlt | ⟨hij, hab, hind⟩ | ⟨k, betweenLayer, hk, hik, hkj, hclosed⟩
    · exact .inl hlt
    · exact .inr (.inl ⟨hij, hab, hown.independent ▸ hind⟩)
    · obtain ⟨between, hk, hbetween⟩ := exists_level h hk
      exact .inr (.inr ⟨k, between, hk, hik, hkj, hbetween.closed ▸ hclosed⟩)

/-- **A search keeps off the bystanders of its pair.** -/
theorem mem_excluded_iff (h : layers.mapM (·.within container) = .ok levels) :
    m ∈ Level.excluded levels ⟨a, b⟩ ↔ Bystander layers container a b m := by
  rw [Level.excluded, List.mem_filter, List.mem_flatMap, decide_eq_true_eq]
  refine and_congr_left fun _ => ⟨?_, ?_⟩
  · rintro ⟨level, hlevel, hm⟩
    obtain ⟨k, hk⟩ := List.mem_iff_getElem?.1 hlevel
    obtain ⟨layer, hk, hread⟩ := exists_layer h hk
    exact ⟨layer, List.mem_of_getElem? hk, (hread.modules m).1 hm⟩
  · rintro ⟨layer, hlayer, hm⟩
    obtain ⟨k, hk⟩ := List.mem_iff_getElem?.1 hlayer
    obtain ⟨level, hk, hread⟩ := exists_level h hk
    exact ⟨level, List.mem_of_getElem? hk, (hread.modules m).2 hm⟩

end Reading
end ImportAtlas
