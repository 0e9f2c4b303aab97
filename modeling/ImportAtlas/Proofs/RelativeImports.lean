import ImportAtlas.Proofs.Answer
import ImportAtlas.Proofs.Resolution
import ImportAtlas.Proofs.SourceTree
/-!
# Imports from around a module

The dots of `from ..a import b` lead to an *anchor* (`anchor?`): the first to the package that the module
sits in, which is the module itself if it is one, and every further one a level up from there.  What is
imported is named by the anchor, the path behind the dots and the name that is taken, one after the other
(`segments_around`); without an anchor nothing is.

Dots and path may as well be carried as one text.  A path does not begin with a dot, so the dots can be
counted off that text again, and going up by as many parents is keeping all but as many segments
(`absoluteText?_written`).

A scan is made up of what its statements contribute, place by place (`python_eq_contributions`).  **A
relative import that is not left out contributes what its names mean, seen from the anchor, each on the
line of the statement, and nothing if there is no anchor** (`relative_of_parsed`).
-/
namespace ImportAtlas

namespace ModuleName

/-- A name does not begin with a dot. -/
theorem takeWhile_dot_text (m : ModuleName) : m.text.toList.takeWhile (· = '.') = [] := by
  cases htext : m.text.toList with
  | nil => rfl
  | cons c rest =>
    refine List.takeWhile_cons_of_neg fun hdot => m.wellDotted [] ?_ rfl
    rw [htext, of_decide_eq_true hdot, Dotted.split_cons_dot]
    exact List.mem_cons_self

end ModuleName

namespace Resolution

open Python (Node Reference Origin DottedName)

variable {context : ScanContext} {file : SourceFile} {importer object a : ModuleName} {isPackage : Bool}
variable {r : Reference} {above row : Nat} {name : Option DottedName}

/-! ## The anchor -/

/-- The module that one dot and more of them `above` it lead to, if they do not lead above the top. -/
def anchor? (file : SourceFile) (above : Nat) : Option ModuleName :=
  (if file.isPackage then some file.module else file.module.parent?).bind (·.up above)

theorem up_climb (file : SourceFile) (above : Nat) :
    file.module.up (climb file.isPackage (above + 1)) = anchor? file above := by
  rw [anchor?]
  cases file.isPackage <;> rfl

/-- An object seen from an anchor. -/
theorem absolute?_of_dots (hdots : r.dots = above + 1) :
    absolute? file.module file.isPackage r = (anchor? file above).map (·.append r.path) := by
  rw [absolute?, if_neg (by omega), hdots, up_climb]

/-- The object is named by the anchor, the path behind the dots and the name that is taken. -/
theorem segments_around (a object : ModuleName) (above : Nat) (name : Option DottedName) :
    (a.append ((Origin.relative above name).path object)).segments =
      a.segments ++ (name.map (·.name.segments)).getD [] ++ object.segments := by
  cases name with
  | none => simp [Origin.path, ModuleName.segments_append]
  | some m => simp [Origin.path, ModuleName.segments_append]

/-! ## References as texts -/

/-- A reference as one text: its dots and then its path. -/
def written (r : Reference) : List Char := List.replicate r.dots '.' ++ r.path.text.toList

/-- What a reference that is written as one text refers to, as text: the dots before it say how many
segments of the importer are dropped. -/
def absoluteText? (importer : ModuleName) (isPackage : Bool) (text : List Char) : Option (List Char) :=
  let dots := (text.takeWhile (· = '.')).length
  if dots = 0 then some text
  else if importer.depth ≤ climb isPackage dots then none
  else some (Dotted.join (importer.segments.take (importer.depth - climb isPackage dots)) ++
    '.' :: text.drop dots)

theorem dots_written (r : Reference) : ((written r).takeWhile (· = '.')).length = r.dots := by
  rw [written, List.takeWhile_append_of_pos fun c hc => by simpa using List.eq_of_mem_replicate hc,
    ModuleName.takeWhile_dot_text, List.append_nil, List.length_replicate]

theorem path_written (r : Reference) : (written r).drop r.dots = r.path.text.toList := by
  rw [written, List.drop_left' List.length_replicate]

/-- **Dots and path can be read back from one text**, and segments dropped from the importer's are levels
gone up. -/
theorem absoluteText?_written (importer : ModuleName) (isPackage : Bool) (r : Reference) :
    absoluteText? importer isPackage (written r) =
      (absolute? importer isPackage r).map (·.text.toList) := by
  rw [absoluteText?, absolute?, dots_written, path_written]
  split
  · next hdots => rw [written, hdots, List.replicate_zero, List.nil_append, Option.map_some]
  · cases hup : importer.up (climb isPackage r.dots) with
    | none => rw [if_pos (ModuleName.up_eq_none_iff.1 hup), Option.map_none, Option.map_none]
    | some a =>
      have hbelow : ¬ importer.depth ≤ climb isPackage r.dots := by
        rw [← ModuleName.up_eq_none_iff, hup]
        exact Option.some_ne_none a
      have hpath : Dotted.join r.path.segments = r.path.text.toList := Dotted.join_split _
      have htext : (a.append r.path).text.toList = Dotted.join a.segments ++ '.' :: r.path.text.toList := by
        rw [← hpath, ← Dotted.join_append a.segments_ne_nil r.path.segments_ne_nil,
          ← ModuleName.segments_append]
        exact (Dotted.join_split _).symm
      rw [if_neg hbelow, ← ModuleName.segments_of_up hup, Option.map_some, Option.map_some, htext]

/-! ## What an object means -/

/-- What an object of a build comes to. -/
structure Means (context : ScanContext) (object : ModuleName) (meaning : Option ModuleName) : Prop where
  /-- A module of the build stands for itself. -/
  itself : object ∈ context.modules → meaning = some object
  /-- Otherwise the module around it stands for it. -/
  around : object ∉ context.modules → ∀ p, object.parent? = some p → p ∈ context.modules → meaning = some p
  /-- Outside the build it is distilled. -/
  distilled : object ∉ context.modules → (∀ p, object.parent? = some p → p ∉ context.modules) →
    context.includeExternal = true → meaning = distilled? context.packages object
  dropped : object ∉ context.modules → (∀ p, object.parent? = some p → p ∉ context.modules) →
    context.includeExternal = false → meaning = none

/-- **An object means itself, the module around it, what it is distilled to, or nothing**, in that order. -/
theorem means (context : ScanContext) (object : ModuleName) :
    Means context object (meaning? context object) := by
  have houtside (hobject : object ∉ context.modules)
      (hparent : ∀ p, object.parent? = some p → p ∉ context.modules) :
      home? context.modules object = none := by
    rw [home?, if_neg hobject, Option.filter_eq_none_iff]
    exact fun p hp => by simpa using hparent p hp
  refine ⟨fun hobject => ?_, fun hobject p hp hmem => ?_, fun hobject hparent hexternal => ?_,
    fun hobject hparent hinternal => ?_⟩
  · rw [meaning?, home?, if_pos hobject, Option.some_or]
  · rw [meaning?, home?, if_neg hobject, hp, Option.filter_some, if_pos (by simpa using hmem), Option.some_or]
  · rw [meaning?, houtside hobject hparent, Option.none_or, if_pos hexternal]
  · rw [meaning?, houtside hobject hparent, Option.none_or, if_neg (by simp [hinternal])]

/-- What an object comes to that is named by an anchor and the segments of a path behind it. -/
structure MeansFrom (context : ScanContext) (anchor : Option ModuleName) (path : List (List Char))
    (meaning : Option ModuleName) : Prop where
  /-- The dots lead above the top. -/
  astray : anchor = none → meaning = none
  seen : ∀ a, anchor = some a → ∃ o : ModuleName, o.segments = a.segments ++ path ∧ Means context o meaning

theorem meansFrom (context : ScanContext) (file : SourceFile) (above : Nat) (name : Option DottedName)
    (object : ModuleName) : MeansFrom context (anchor? file above)
      ((name.map (·.name.segments)).getD [] ++ object.segments)
      ((anchor? file above).bind fun a =>
        meaning? context (a.append ((Origin.relative above name).path object))) := by
  cases anchor? file above with
  | none => exact ⟨fun _ => rfl, fun a ha => nomatch ha⟩
  | some a =>
    refine ⟨fun h => absurd h (Option.some_ne_none a), fun a' ha => ?_⟩
    obtain rfl := Option.some.inj ha
    exact ⟨_, by rw [segments_around, List.append_assoc], means context _⟩

end Resolution

/-! ## What a statement contributes -/

namespace Scan

open Python (Node Reference Origin DottedName ImportClause Selection referencesAt_of_importing
  references_eq_flatMap)
open Resolution (anchor? meaning? MeansFrom)

variable {context : ScanContext} {file : SourceFile} {source : String} {text : List Char}
variable {nodes : List Node} {tree : Node} {place : List Nat} {r : Reference} {row above : Nat}
variable {name : Option DottedName} {selection : Selection}

/-- The imports that the statement at a place makes, if it is not left out. -/
def contribution (context : ScanContext) (file : SourceFile) (text : List Char) (tree : Node)
    (place : List Nat) : List ImportRecord :=
  if context.excludeTypeChecking = true ∧ tree.GuardedAt place then []
  else (tree.referencesAt place).filterMap (record? context file text)

theorem guarded_of_mem_referencesAt (hplace : place ∈ tree.places) (hr : r ∈ tree.referencesAt place) :
    r.guarded = decide (tree.GuardedAt place) := by
  obtain ⟨row, clause, hat⟩ := Node.mem_places.1 hplace
  rw [referencesAt_of_importing hat] at hr
  obtain ⟨object, -, rfl⟩ := List.mem_map.1 hr
  rfl

/-- The references of a statement are left out all together or not at all. -/
theorem filterMap_counts_referencesAt (hplace : place ∈ tree.places) :
    ((tree.referencesAt place).filter (counts context)).filterMap (record? context file text) =
      contribution context file text tree place := by
  rw [contribution]
  split
  · next hout =>
    have hnone : (tree.referencesAt place).filter (counts context) = [] :=
      List.filter_eq_nil_iff.2 fun r hr => by
        simp [counts, guarded_of_mem_referencesAt hplace hr, hout.1, hout.2]
    rw [hnone, List.filterMap_nil]
  · next hin =>
    have hall : (tree.referencesAt place).filter (counts context) = tree.referencesAt place :=
      List.filter_eq_self.2 fun r hr => by
        simpa [counts, guarded_of_mem_referencesAt hplace hr, imp_iff_not_or] using hin
    rw [hall]

/-- **A scan is what its statements contribute**, place by place, the same record once. -/
theorem python_eq_contributions (hparse : Python.parse source = .ok nodes) :
    python context file source = .ok (((Node.ofSource nodes).places.flatMap
      (contribution context file source.toList (Node.ofSource nodes))).eraseDups) := by
  refine python_eq_ok_iff.2 ⟨nodes, hparse, ?_⟩
  rw [records, references_eq_flatMap, List.filter_flatMap, List.filterMap_flatMap]
  exact congrArg List.eraseDups
    (List.flatMap_congr fun place hplace => filterMap_counts_referencesAt hplace).symm

/-- A reference with dots makes a record of what its path means from the anchor. -/
theorem record?_of_dots (hdots : r.dots = above + 1) : record? context file text r =
    ((anchor? file above).bind fun a => meaning? context (a.append r.path)).map fun imported =>
      ⟨file.module, imported, some (lineNumber r.row), some (Text.lineAt text r.row)⟩ := by
  rw [record?, Resolution.absolute?_of_dots hdots]
  cases anchor? file above with
  | none => rfl
  | some a => cases h : meaning? context (a.append r.path) <;> simp [h]

/-- Name by name, a relative import makes records of what is meant from the anchor. -/
theorem contribution_relative
    (hat : tree.at? place = some (.importing row (.members (.relative above name) selection)))
    (hkept : context.excludeTypeChecking = true → ¬ tree.GuardedAt place) :
    contribution context file text tree place = selection.objects.filterMap fun object =>
      ((anchor? file above).bind fun a =>
        meaning? context (a.append ((Origin.relative above name).path object))).map fun imported =>
          ⟨file.module, imported, some (lineNumber row), some (Text.lineAt text row)⟩ := by
  rw [contribution, if_neg (not_and.2 hkept), referencesAt_of_importing hat, ImportClause.objects,
    List.map_map, List.filterMap_map]
  exact List.filterMap_congr fun object _ => record?_of_dots rfl

/-- **A relative import is resolved from its anchor.**  A statement that is not left out contributes, name
by name, a record from the module of the file to what the name means, with the number and the trimmed text
of the line; and it contributes nothing if the dots lead above the top. -/
theorem relative_of_parsed (hparse : Python.parse source = .ok nodes)
    (hat : (Node.ofSource nodes).at? place =
      some (.importing row (.members (.relative above name) selection)))
    (hkept : context.excludeTypeChecking = true → ¬ (Node.ofSource nodes).GuardedAt place) :
    python context file source = .ok (((Node.ofSource nodes).places.flatMap
      (contribution context file source.toList (Node.ofSource nodes))).eraseDups) ∧
    place ∈ (Node.ofSource nodes).places ∧
    (anchor? file above = none →
      contribution context file source.toList (Node.ofSource nodes) place = []) ∧
    ∃ meaning : ModuleName → Option ModuleName,
      contribution context file source.toList (Node.ofSource nodes) place =
        selection.objects.filterMap (fun object => (meaning object).map fun imported =>
          ⟨file.module, imported, some (lineNumber row), some (Text.lineAt source.toList row)⟩) ∧
      ∀ object, MeansFrom context (anchor? file above)
        ((name.map (·.name.segments)).getD [] ++ object.segments) (meaning object) := by
  have hcontribution : contribution context file source.toList (Node.ofSource nodes) place = _ :=
    contribution_relative hat hkept
  refine ⟨python_eq_contributions hparse, Node.mem_places.2 ⟨row, _, hat⟩, fun hastray => ?_, _,
    hcontribution, Resolution.meansFrom context file above name⟩
  rw [hcontribution, hastray]
  exact List.filterMap_eq_nil_iff.2 fun object _ => rfl

/-! A package in a namespace, and a module of it that imports from around itself. -/

def lampContext : ScanContext where
  packages := [⟨"yard.shed", by decide⟩]
  modules := .ofList [⟨"yard.shed", by decide⟩, ⟨"yard.shed.lamp", by decide⟩]
  includeExternal := true
  excludeTypeChecking := true

def lampFile : SourceFile := ⟨⟨"yard.shed.lamp", by decide⟩, "yard/shed/lamp.py", 1⟩

def lampSource : String :=
  "from . import lamp, chair\nif TYPE_CHECKING:\n  from . import lamp\n" ++
    "from ..garden import rose as r, fern\nfrom ...attic import box\n"

/-- The row and the clause of an import statement. -/
def statement? : Node → Option (Nat × ImportClause)
  | .importing row clause => some (row, clause)
  | _ => none

instance (text : List Char) : Decidable (Python.IsWord text) :=
  decidable_of_iff (text ≠ [] ∧ text.all Text.continuesIdentifier = true) <| by
    rw [List.all_eq_true, Python.IsWord]

def gardenName : DottedName := ⟨⟨"garden", by decide⟩, []⟩

def gardenSelection : Selection :=
  .names [⟨⟨"rose", by decide⟩, []⟩, ⟨⟨"fern", by decide⟩, []⟩]

theorem computed_lampSource : (Python.parse lampSource).toOption.map (fun nodes =>
    (((Node.ofSource nodes).at? [2]).bind statement?, decide ((Node.ofSource nodes).GuardedAt [2]))) =
      some (some (3, .members (.relative 1 (some gardenName)) gardenSelection), false) := by
  decide +kernel

theorem parsed_lampSource : ∃ nodes, Python.parse lampSource = .ok nodes ∧
    (Node.ofSource nodes).at? [2] =
      some (.importing 3 (.members (.relative 1 (some gardenName)) gardenSelection)) ∧
    ¬ (Node.ofSource nodes).GuardedAt [2] := by
  obtain ⟨nodes, hnodes, hcomputed⟩ := Option.map_eq_some_iff.1 computed_lampSource
  obtain ⟨hstatement, hguarded⟩ := Prod.mk.inj hcomputed
  obtain ⟨node, hat, hnode⟩ := Option.bind_eq_some_iff.1 hstatement
  refine ⟨nodes, eq_ok_of_toOption hnodes, hat.trans ?_, of_decide_eq_false hguarded⟩
  cases node with
  | importing row clause =>
    obtain ⟨rfl, rfl⟩ := Prod.mk.inj (Option.some.inj hnode)
    rfl
  | plain => cases hnode
  | compound construct condition children => cases hnode

/-- From beside the package, two names come to one module. -/
theorem relative_of_parsed_lampSource : ∃ nodes, Python.parse lampSource = .ok nodes ∧
    (Node.ofSource nodes).at? [2] =
      some (.importing 3 (.members (.relative 1 (some gardenName)) gardenSelection)) ∧
    (lampContext.excludeTypeChecking = true → ¬ (Node.ofSource nodes).GuardedAt [2]) ∧
    python lampContext lampFile lampSource = .ok (((Node.ofSource nodes).places.flatMap
      (contribution lampContext lampFile lampSource.toList (Node.ofSource nodes))).eraseDups) ∧
    [2] ∈ (Node.ofSource nodes).places ∧
    (anchor? lampFile 1 = none →
      contribution lampContext lampFile lampSource.toList (Node.ofSource nodes) [2] = []) ∧
    ∃ meaning : ModuleName → Option ModuleName,
      contribution lampContext lampFile lampSource.toList (Node.ofSource nodes) [2] =
        gardenSelection.objects.filterMap (fun object => (meaning object).map fun imported =>
          ⟨lampFile.module, imported, some (lineNumber 3), some (Text.lineAt lampSource.toList 3)⟩) ∧
      ∀ object, MeansFrom lampContext (anchor? lampFile 1)
        (gardenName.name.segments ++ object.segments) (meaning object) := by
  obtain ⟨nodes, hparse, hat, hguarded⟩ := parsed_lampSource
  exact ⟨nodes, hparse, hat, fun _ => hguarded, relative_of_parsed hparse hat fun _ => hguarded⟩

/-- What all of its statements come to: the module itself and the package, what is beside the package, and
nothing above the top. -/
example : ((python lampContext lampFile lampSource).toOption.map fun records =>
    records.map fun record => (record.imported.text, record.line)) =
      some [("yard.shed.lamp", some 1), ("yard.shed", some 1), ("yard.garden", some 4)] := by
  decide +kernel

end Scan
end ImportAtlas
