import ImportAtlas.Proofs.Answer
import ImportAtlas.Proofs.Resolution
/-!
# Importing everything

`from m import *` refers to everything in `m` by a name that no module has: `m` and a star for a last
segment.  What is written in a source is made of words, so there is no other way to such a name
(`exists_of_references`), and the step from an object to the module around it takes the star off again
whenever `m` is a module of the build.

Outside the build it is distillation that has to take it off, and distillation does so wherever some
front of `m` is clear of the packages.  Where `m` is only a namespace around a package, nothing short of
the whole object is, and the name with the star is what is left (`means_everything`).  **So a star comes
through for the namespaces of the packages and for nothing else** (`starred_of_scanned`).
-/
namespace ImportAtlas

namespace ModuleName

variable {a m p : ModuleName}

/-- There is a star among the segments. -/
def Starred (m : ModuleName) : Prop := ['*'] ∈ m.segments

instance (m : ModuleName) : Decidable m.Starred := inferInstanceAs (Decidable (['*'] ∈ m.segments))

theorem starred_append_iff : (m.append p).Starred ↔ m.Starred ∨ p.Starred := by
  rw [Starred, segments_append, List.mem_append]
  rfl

theorem not_starred_of_front (hm : ¬ m.Starred) (h : a.segments <+: m.segments) : ¬ a.Starred :=
  fun ha => hm (h.subset ha)

end ModuleName

open ModuleName (Starred)

/-! ## What a source can refer to -/

namespace Python

variable {r : Reference}

theorem segments_star : star.segments = [['*']] := ModuleName.segments_ofSegments _ _

theorem starred_star : star.Starred := by
  rw [Starred, segments_star]
  exact List.mem_singleton_self _

/-- A star is no word. -/
theorem not_starred_name (m : DottedName) : ¬ m.name.Starred := by
  rw [Starred, DottedName.name, ModuleName.segments_ofSegments]
  intro h
  obtain ⟨w, -, hw⟩ := List.mem_map.1 h
  exact absurd (w.isWord.2 '*' (by rw [hw]; exact List.mem_singleton_self _)) (by decide)

/-- The reference is to a name without a star, or to everything in some module; nothing stands before the
star if it is the module that the dots lead to. -/
def Reference.Plain (r : Reference) : Prop :=
  ¬ r.path.Starred ∨ (∃ m : ModuleName, ¬ m.Starred ∧ r.path = m.append star) ∨
    (r.path = star ∧ r.dots ≠ 0)

theorem plain_of_objects {clause : ImportClause} (h : (r.dots, r.path) ∈ clause.objects) : r.Plain := by
  cases clause with
  | modules names =>
    obtain ⟨m, -, hm⟩ := List.mem_map.1 h
    obtain ⟨-, hpath⟩ := Prod.mk.inj hm
    exact .inl (hpath ▸ not_starred_name m)
  | members source selection =>
    obtain ⟨object, hobject, hpair⟩ := List.mem_map.1 h
    obtain ⟨hdots, hpath⟩ := Prod.mk.inj hpair
    cases selection with
    | everything =>
      obtain rfl := List.mem_singleton.1 hobject
      cases source with
      | absolute m => exact .inr (.inl ⟨m.name, not_starred_name m, hpath.symm⟩)
      | relative above name =>
        cases name with
        | none => exact .inr (.inr ⟨hpath.symm, hdots ▸ Nat.succ_ne_zero above⟩)
        | some m => exact .inr (.inl ⟨m.name, not_starred_name m, hpath.symm⟩)
    | names objects =>
      obtain ⟨n, -, rfl⟩ := List.mem_map.1 hobject
      have hin (m : DottedName) : ¬ (m.name.append n.name).Starred := by
        rw [ModuleName.starred_append_iff]
        exact fun h => h.elim (not_starred_name m) (not_starred_name n)
      refine .inl (hpath ▸ ?_)
      cases source with
      | absolute m => exact hin m
      | relative above name =>
        cases name with
        | none => exact not_starred_name n
        | some m => exact hin m

mutual

theorem plain_of_node : ∀ {node : Node} {guarded : Bool}, r ∈ node.references guarded → r.Plain
  | .importing row clause, guarded, h => by
    obtain ⟨object, hobject, rfl⟩ := List.mem_map.1 h
    exact plain_of_objects hobject
  | .plain, guarded, h => (List.not_mem_nil h).elim
  | .compound construct condition children, guarded, h => by
    rw [Node.references] at h
    exact plain_of_references h

/-- Whatever the tree, its references are plain. -/
theorem plain_of_references : ∀ {nodes : List Node} {guarded : Bool},
    r ∈ references guarded nodes → r.Plain
  | [], guarded, h => (List.not_mem_nil h).elim
  | node :: nodes, guarded, h => by
    rw [references] at h
    rcases List.mem_append.1 h with h | h
    · exact plain_of_node h
    · exact plain_of_references h

end
end Python

/-! ## What everything in a module means -/

namespace Resolution

open Python (Node Reference star references segments_star starred_star)

variable {context : ScanContext} {packages : List ModuleName} {importer object a m n : ModuleName}

/-- An object is a name without a star or everything in a module. -/
theorem exists_of_references {nodes : List Node} {guarded isPackage : Bool} {r : Reference}
    (himporter : ¬ importer.Starred) (hr : r ∈ references guarded nodes)
    (h : absolute? importer isPackage r = some object) :
    ¬ object.Starred ∨ ∃ m : ModuleName, ¬ m.Starred ∧ object = m.append star := by
  have hplain := Python.plain_of_references hr
  unfold absolute? at h
  split at h
  · next hdots =>
    obtain rfl := Option.some.inj h
    rcases hplain with hpath | hpath | ⟨-, hne⟩
    · exact .inl hpath
    · exact .inr hpath
    · exact absurd hdots hne
  · obtain ⟨above, habove, rfl⟩ := Option.map_eq_some_iff.1 h
    have hunstarred := ModuleName.not_starred_of_front himporter (ModuleName.front_of_up habove)
    rcases hplain with hpath | ⟨m, hm, hpath⟩ | ⟨hpath, -⟩
    · exact .inl fun h => (ModuleName.starred_append_iff.1 h).elim hunstarred hpath
    · refine .inr ⟨above.append m, fun h => (ModuleName.starred_append_iff.1 h).elim hunstarred hm, ?_⟩
      refine ModuleName.segments_injective ?_
      simp only [hpath, ModuleName.segments_append, List.append_assoc]
    · exact .inr ⟨above, hunstarred, by rw [hpath]⟩

theorem segments_everything (m : ModuleName) : (m.append star).segments = m.segments ++ [['*']] := by
  rw [ModuleName.segments_append, segments_star]

theorem starred_everything (m : ModuleName) : (m.append star).Starred :=
  ModuleName.starred_append_iff.2 (.inr starred_star)

theorem parent?_everything (m : ModuleName) : (m.append star).parent? = some m := by
  have hdrop : (m.append star).segments.dropLast = m.segments := by
    rw [segments_everything, List.dropLast_concat]
  cases h : (m.append star).parent? with
  | none => exact absurd (hdrop ▸ ModuleName.parent?_eq_none_iff.1 h) m.segments_ne_nil
  | some p =>
    rw [ModuleName.segments_injective ((ModuleName.segments_of_parent? h).trans hdrop)]

/-- Inside the build, everything in a module means the module. -/
theorem home?_everything (hmodules : ∀ n ∈ context.modules, ¬ n.Starred) (m : ModuleName) :
    home? context.modules (m.append star) = if m ∈ context.modules then some m else none := by
  rw [home?, if_neg fun h => hmodules _ h (starred_everything m), parent?_everything, Option.filter_some]
  simp

/-- The fronts of everything in a module are those of the module, and itself. -/
theorem front_everything_iff :
    a.segments <+: (m.append star).segments ↔ a.segments <+: m.segments ∨ a = m.append star := by
  rw [segments_everything, List.prefix_concat_iff, ← segments_everything, or_comm]
  exact or_congr_right ⟨ModuleName.segments_injective, congrArg _⟩

theorem overlaps_everything_iff {p : ModuleName} (hp : ¬ p.Starred) :
    (m.append star).Overlaps p ↔ p = m ∨ m.IsBeneath p := by
  rw [ModuleName.overlaps_iff_front, front_everything_iff, ModuleName.prefix_segments_iff]
  constructor
  · rintro ((h | rfl) | h)
    · exact h.imp_left Eq.symm
    · exact absurd (starred_everything m) hp
    · exact absurd (h.subset (starred_everything m)) hp
  · exact fun h => .inl (.inl (h.imp_left Eq.symm))

/-- The shallowest clear front of a module is that of everything in it. -/
theorem ShallowestVacant.everything (hm : ShallowestVacant packages m n) :
    ShallowestVacant packages (m.append star) n := by
  refine ⟨front_everything_iff.2 (.inl hm.front), hm.vacant, fun a ha hvacant => ?_⟩
  rcases front_everything_iff.1 ha with ha | rfl
  · exact hm.least a ha hvacant
  · exact (hm.front.trans (front_everything_iff.2 (.inl List.prefix_rfl))).length_le

/-- With a package beneath the module, only the star is clear of the packages. -/
theorem shallowestVacant_star (hpackages : ∀ p ∈ packages, ¬ p.Starred)
    (h : ∃ p ∈ packages, p.IsBeneath m) : ShallowestVacant packages (m.append star) (m.append star) := by
  refine ⟨List.prefix_rfl, vacant_iff_segments.2 fun p hp hfront => ?_, fun a ha hvacant => ?_⟩
  · exact hpackages p hp (hfront.subset (starred_everything m))
  · rcases front_everything_iff.1 ha with ha | rfl
    · obtain ⟨p, hp, hbeneath⟩ := h
      have hfront := ha.trans (ModuleName.prefix_segments_iff.2 (.inr hbeneath))
      exact absurd hfront (vacant_iff_segments.1 hvacant p hp)
    · exact Nat.le_refl _

/-- A name around packages of a build that takes in what is external, and neither in the build itself nor
in a package. -/
structure IsNamespace (context : ScanContext) (m : ModuleName) : Prop where
  external : context.includeExternal = true
  unknown : m ∉ context.modules
  outside : ∀ p ∈ context.packages, ¬ (p = m ∨ m.IsBeneath p)
  around : ∃ p ∈ context.packages, p.IsBeneath m

/-- What everything in `m` comes to. -/
structure MeansEverything (context : ScanContext) (m : ModuleName) (meaning : Option ModuleName) :
    Prop where
  /-- A module of the build stands for what is in it. -/
  internal : m ∈ context.modules → meaning = some m
  dropped : m ∉ context.modules → (context.includeExternal = false ∨
    ∃ p ∈ context.packages, p = m ∨ m.IsBeneath p) → meaning = none
  /-- Apart from the packages, it is what the module is distilled to, a front of the module. -/
  distilled : m ∉ context.modules → context.includeExternal = true →
    (∀ p ∈ context.packages, ¬ m.Overlaps p) →
      meaning = distilled? context.packages m ∧ ∃ n, meaning = some n ∧ n.segments <+: m.segments
  /-- Of a namespace, it stays what it is. -/
  starred : IsNamespace context m → meaning = some (m.append star)

theorem distilled?_everything (hpackages : ∀ p ∈ packages, ¬ p.Starred)
    (hapart : ∀ p ∈ packages, ¬ m.Overlaps p) : ∃ n, distilled? packages m = some n ∧
      distilled? packages (m.append star) = some n ∧ n.segments <+: m.segments := by
  cases h : distilled? packages m with
  | none =>
    obtain ⟨p, hp, hover⟩ := distilled?_eq_none_iff.1 h
    exact absurd hover (hapart p hp)
  | some n =>
    obtain ⟨-, hshallowest⟩ := distilled?_eq_some_iff.1 h
    refine ⟨n, rfl, distilled?_eq_some_iff.2 ⟨fun p hp hover => ?_, hshallowest.everything⟩,
      hshallowest.front⟩
    rw [overlaps_everything_iff (hpackages p hp)] at hover
    exact hapart p hp (hover.imp Eq.symm .inl)

/-- **Everything in a module means the module, or a front of it, or nothing, unless the module is a
namespace of packages.** -/
theorem means_everything (hpackages : ∀ p ∈ context.packages, ¬ p.Starred)
    (hmodules : ∀ n ∈ context.modules, ¬ n.Starred) (m : ModuleName) :
    MeansEverything context m (meaning? context (m.append star)) := by
  have houtside (hm : m ∉ context.modules) : meaning? context (m.append star) =
      if context.includeExternal then distilled? context.packages (m.append star) else none := by
    rw [meaning?, home?_everything hmodules, if_neg hm, Option.none_or]
  refine ⟨fun hm => ?_, fun hm hdropped => ?_, fun hm hexternal hapart => ?_, fun hm => ?_⟩
  · rw [meaning?, home?_everything hmodules, if_pos hm, Option.some_or]
  · rw [houtside hm]
    rcases hdropped with hexternal | ⟨p, hp, hover⟩
    · rw [hexternal]
      rfl
    · rw [distilled?_eq_none_iff.2 ⟨p, hp, (overlaps_everything_iff (hpackages p hp)).2 hover⟩, ite_self]
  · obtain ⟨n, hn, hstar, hfront⟩ := distilled?_everything hpackages hapart
    rw [houtside hm, hexternal, if_pos rfl, hstar]
    exact ⟨hn.symm, n, rfl, hfront⟩
  · rw [houtside hm.unknown, hm.external, if_pos rfl, distilled?_eq_some_iff]
    refine ⟨fun p hp hover => ?_, shallowestVacant_star hpackages hm.around⟩
    exact hm.outside p hp ((overlaps_everything_iff (hpackages p hp)).1 hover)

theorem starred_of_meaning? (hmodules : ∀ n ∈ context.modules, ¬ n.Starred)
    (h : meaning? context object = some n) (hn : n.Starred) : object.Starred := by
  rcases meaning?_eq_some_iff.1 h with hhome | ⟨-, -, hdistilled⟩
  · exact absurd hn (hmodules n (mem_of_home? hhome))
  · exact (distilled?_eq_some_iff.1 hdistilled).2.front.subset hn

/-- A name with a star is what is left of everything in a namespace. -/
theorem isNamespace_of_starred (hpackages : ∀ p ∈ context.packages, ¬ p.Starred)
    (hmodules : ∀ n ∈ context.modules, ¬ n.Starred) (hm : ¬ m.Starred)
    (h : meaning? context (m.append star) = some n) (hn : n.Starred) :
    IsNamespace context m ∧ n = m.append star := by
  have hmeans := means_everything hpackages hmodules m
  rw [h] at hmeans
  have hunknown : m ∉ context.modules := fun hmem => by
    obtain rfl := Option.some.inj (hmeans.internal hmem)
    exact hm hn
  have hexternal : context.includeExternal = true := Bool.of_not_eq_false fun hinternal => by
    cases hmeans.dropped hunknown (.inl hinternal)
  have houtside : ∀ p ∈ context.packages, ¬ (p = m ∨ m.IsBeneath p) := fun p hp hover => by
    cases hmeans.dropped hunknown (.inr ⟨p, hp, hover⟩)
  have haround : ∃ p ∈ context.packages, p.IsBeneath m := Decidable.byContradiction fun hnone => by
    have hapart : ∀ p ∈ context.packages, ¬ m.Overlaps p := by
      rintro p hp (e | h | h)
      · exact houtside p hp (.inl e.symm)
      · exact houtside p hp (.inr h)
      · exact hnone ⟨p, hp, h⟩
    obtain ⟨-, n', hn', hfront⟩ := hmeans.distilled hunknown hexternal hapart
    obtain rfl := Option.some.inj hn'
    exact ModuleName.not_starred_of_front hm hfront hn
  have hnamespace : IsNamespace context m := ⟨hexternal, hunknown, houtside, haround⟩
  exact ⟨hnamespace, Option.some.inj (hmeans.starred hnamespace)⟩

/-- **A star in what a scan finds is that of a namespace of packages**: as long as no package or module
has one for a segment, every object of a source is a name without a star, and means one, or everything in
a module, and means the module, a front of it, or nothing, unless the module is such a namespace. -/
theorem starred_of_scanned {file : SourceFile} {source : String} {records : List ImportRecord}
    (hpackages : ∀ p ∈ context.packages, ¬ p.Starred) (hmodules : ∀ n ∈ context.modules, ¬ n.Starred)
    (hfile : ¬ file.module.Starred) (hscan : Scan.python context file source = .ok records) :
    (∀ r ∈ records, r.imported.Starred → ∃ m, IsNamespace context m ∧ r.imported = m.append star) ∧
    ∃ nodes, Python.parse source = .ok nodes ∧
      records = Scan.records context file source.toList nodes ∧
      ∀ r ∈ references false nodes, ∀ object, absolute? file.module file.isPackage r = some object →
        (¬ object.Starred ∧ ∀ n, meaning? context object = some n → ¬ n.Starred) ∨
          ∃ m, ¬ m.Starred ∧ object = m.append star ∧
            MeansEverything context m (meaning? context object) := by
  obtain ⟨nodes, hparse, rfl⟩ := Scan.python_eq_ok_iff.1 hscan
  refine ⟨fun record hrecord hstarred => ?_, nodes, hparse, rfl, fun r hr object hobject => ?_⟩
  · obtain ⟨r, hr, -, object, imported, hobject, hmeaning, rfl⟩ := Scan.mem_records_iff.1 hrecord
    rcases exists_of_references hfile hr hobject with hplain | ⟨m, hm, rfl⟩
    · exact absurd (starred_of_meaning? hmodules hmeaning hstarred) hplain
    · exact ⟨m, isNamespace_of_starred hpackages hmodules hm hmeaning hstarred⟩
  · rcases exists_of_references hfile hr hobject with hplain | ⟨m, hm, rfl⟩
    · exact .inl ⟨hplain, fun n hn hstarred => hplain (starred_of_meaning? hmodules hn hstarred)⟩
    · exact .inr ⟨m, hm, rfl, means_everything hpackages hmodules m⟩

/-- A module, and beside it a package that has a namespace around it. -/
def starContext : ScanContext where
  packages := [⟨"desk", by decide⟩, ⟨"foo.chair", by decide⟩]
  modules := .ofList [⟨"desk", by decide⟩, ⟨"foo.chair", by decide⟩]
  includeExternal := true
  excludeTypeChecking := false

def starFile : SourceFile := ⟨⟨"desk", by decide⟩, "desk.py", 1⟩

theorem not_starred_starContext : (∀ p ∈ starContext.packages, ¬ p.Starred) ∧
    (∀ n ∈ starContext.modules, ¬ n.Starred) ∧ ¬ starFile.module.Starred := by
  refine ⟨by decide +kernel, fun n hn => ?_, by decide +kernel⟩
  revert n
  simp only [starContext, NameSet.mem_ofList]
  decide +kernel

def starSource : String :=
  "from foo.chair import *\nfrom foo.lamp.bulb import *\nfrom json.decoder import *\nfrom foo import *\n"

def starRecord (imported : ModuleName) (line : UInt32) (text : String) : ImportRecord :=
  ⟨starFile.module, imported, some line, some text⟩

def starRecords : List ImportRecord :=
  [starRecord ⟨"foo.chair", by decide⟩ 1 "from foo.chair import *",
    starRecord ⟨"foo.lamp", by decide⟩ 2 "from foo.lamp.bulb import *",
    starRecord ⟨"json", by decide⟩ 3 "from json.decoder import *",
    starRecord ⟨"foo.*", by decide⟩ 4 "from foo import *"]

theorem python_starSource : Scan.python starContext starFile starSource = .ok starRecords :=
  eq_ok_of_toOption (by decide +kernel)

/-- Of four star imports, the one of the namespace keeps its star. -/
theorem starred_of_scanned_starSource :
    (∀ p ∈ starContext.packages, ¬ p.Starred) ∧ (∀ n ∈ starContext.modules, ¬ n.Starred) ∧
    ¬ starFile.module.Starred ∧ Scan.python starContext starFile starSource = .ok starRecords ∧
    (∀ r ∈ starRecords, r.imported.Starred →
      ∃ m, IsNamespace starContext m ∧ r.imported = m.append star) ∧
    ∃ nodes, Python.parse starSource = .ok nodes ∧
      starRecords = Scan.records starContext starFile starSource.toList nodes ∧
      ∀ r ∈ references false nodes, ∀ object,
        absolute? starFile.module starFile.isPackage r = some object →
          (¬ object.Starred ∧ ∀ n, meaning? starContext object = some n → ¬ n.Starred) ∨
            ∃ m, ¬ m.Starred ∧ object = m.append star ∧
              MeansEverything starContext m (meaning? starContext object) := by
  obtain ⟨hpackages, hmodules, hfile⟩ := not_starred_starContext
  exact ⟨hpackages, hmodules, hfile, python_starSource,
    starred_of_scanned hpackages hmodules hfile python_starSource⟩

/-- **A star comes through**: everything in the namespace around a package is taken for a module called
`foo.*`. -/
theorem starred_of_namespace : (∀ p ∈ starContext.packages, ¬ p.Starred) ∧
    (∀ n ∈ starContext.modules, ¬ n.Starred) ∧ ¬ starFile.module.Starred ∧
    ∃ marked : ModuleName, marked.text = "foo.*" ∧ marked.Starred ∧
      Scan.python starContext starFile "from foo import *\n" =
        .ok [starRecord marked 1 "from foo import *"] := by
  obtain ⟨hpackages, hmodules, hfile⟩ := not_starred_starContext
  exact ⟨hpackages, hmodules, hfile, ⟨"foo.*", by decide⟩, rfl, by decide +kernel,
    eq_ok_of_toOption (by decide +kernel)⟩

end Resolution
end ImportAtlas
