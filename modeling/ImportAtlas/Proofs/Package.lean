import ImportAtlas.Graph.Hierarchy
import ImportAtlas.Proofs.Name
/-!
# Packages as sets of modules

What `closure` and `extent` hold, and the one fact about them that every question about two packages
rests on: **packages of which neither contains the other have no module in common**
(`notMem_closure_of_not_overlaps`).  It holds of every graph, squashed modules or not, because it is
a fact about names.
-/
namespace ImportAtlas
namespace Graph

variable {g : Graph} {a b m n p : ModuleName} {name : String}

theorem present_eq_ok_iff : g.present name = .ok m ↔ m.text = name ∧ m ∈ g.modules := by
  rw [← ModuleName.ofString?_eq_some_iff, present]
  cases h : ModuleName.ofString? name with
  | none => simp
  | some a =>
    by_cases ha : a ∈ g.modules
    · simp only [if_pos ha, Except.ok.injEq, Option.some.injEq]
      exact ⟨fun e => ⟨e, e ▸ ha⟩, fun e => e.1⟩
    · simp only [if_neg ha, reduceCtorEq, Option.some.injEq, false_iff, not_and]
      exact fun e hm => ha (e ▸ hm)

theorem present_text (hm : m ∈ g.modules) : g.present m.text = .ok m :=
  present_eq_ok_iff.2 ⟨rfl, hm⟩

theorem contains_iff : g.contains name = true ↔ ∃ m ∈ g.modules, m.text = name := by
  unfold contains
  cases h : g.present name with
  | ok m =>
    obtain ⟨hname, hm⟩ := present_eq_ok_iff.1 h
    exact ⟨fun _ => ⟨m, hm, hname⟩, fun _ => rfl⟩
  | error e =>
    refine ⟨fun hc => by simp at hc, ?_⟩
    rintro ⟨m, hm, rfl⟩
    rw [present_text hm] at h
    cases h

theorem mem_beneath : m ∈ g.beneath p ↔ m ∈ g.modules ∧ m.IsBeneath p := by
  simp [beneath, mem_moduleList]

theorem mem_childrenOf : a ∈ g.childrenOf p ↔
    a ∈ g.modules ∧ a.IsBeneath p ∧ a.depth = p.depth + 1 := by
  simp [childrenOf, beneath, mem_moduleList, and_comm]

theorem descendants_text (hm : m ∈ g.modules) (hopen : g.isSquashed m = false) :
    g.descendants m.text = .ok (.ofList (g.beneath m)) := by
  unfold descendants
  rw [present_text hm]
  exact if_neg (by rw [hopen]; exact Bool.false_ne_true)

theorem children_text (hm : m ∈ g.modules) (hopen : g.isSquashed m = false) :
    g.children m.text = .ok (g.childrenOf m) := by
  unfold children
  rw [present_text hm]
  exact if_neg (by rw [hopen]; exact Bool.false_ne_true)

theorem eq_or_isBeneath_of_mem_closure (h : n ∈ g.closure m) : n = m ∨ n.IsBeneath m := by
  unfold closure at h
  split at h
  · exact .inl (List.mem_singleton.1 (NameSet.mem_ofList.1 h))
  · have := (List.mem_filter.1 (NameSet.mem_ofList.1 h)).2
    simpa using this

theorem mem_closure_self (hm : m ∈ g.modules) : m ∈ g.closure m := by
  unfold closure
  split
  · exact NameSet.mem_ofList.2 (List.mem_singleton.2 rfl)
  · exact NameSet.mem_ofList.2 (List.mem_filter.2 ⟨mem_moduleList.2 hm, by simp⟩)

/-- **Packages of which neither contains the other have no module in common.** -/
theorem notMem_closure_of_not_overlaps (h : ¬ a.Overlaps b) (ha : n ∈ g.closure a) :
    n ∉ g.closure b := by
  intro hb
  rcases eq_or_isBeneath_of_mem_closure ha with rfl | ha
  · rcases eq_or_isBeneath_of_mem_closure hb with e | hb
    · exact h (.inl e)
    · exact h (.inr (.inl hb))
  · rcases eq_or_isBeneath_of_mem_closure hb with rfl | hb
    · exact h (.inr (.inr ha))
    · exact h (ModuleName.comparable_of_isBeneath ha hb)

/-- The two ends of a question about chains, as packages or as single modules, may be asked about
together. -/
def Apart (asPackages : Bool) (a b : ModuleName) : Prop :=
  if asPackages then ¬ a.Overlaps b else a ≠ b

theorem notMem_extent_of_apart {asPackages : Bool} (h : Apart asPackages a b)
    (ha : n ∈ g.extent asPackages a) : n ∉ g.extent asPackages b := by
  cases asPackages with
  | true => exact notMem_closure_of_not_overlaps h ha
  | false =>
    intro hb
    have ha : a = n := by simpa [extent] using ha
    have hb : b = n := by simpa [extent] using hb
    exact h (ha.trans hb.symm)

theorem closure_congr {h : Graph} (e : g.modules = h.modules) (m : ModuleName) :
    g.closure m = h.closure m := by
  unfold closure isSquashed moduleList
  rw [e]

end Graph
end ImportAtlas
