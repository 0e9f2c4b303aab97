import ImportAtlas.Graph.Reach
import ImportAtlas.Proofs.Change
/-!
# Squashed modules stay collapsed

A squashed module stands for its whole subtree, so the graph has no module beneath it
(`collapsed_of_reachable`).  Modules come in by several ways and a module may be squashed before or
after others are known, but of the moves that a call is made of only two could do harm, and both look
before: bringing a module in asks for a squashed one above it and, if it is to be squashed itself,
for any beneath it, and squashing takes everything beneath away.

That is what makes the refusal of overlapping packages exact.  `disjoint` compares names only, while
closures know of squashed modules, for which a name beneath counts for nothing; since there are no
such names, **two packages have a module in common if and only if one of them contains the other**.
-/
namespace ImportAtlas
namespace Graph

/-- No module of the graph sits beneath a squashed one. -/
def Collapsed (g : Graph) : Prop :=
  ∀ m, g.isSquashed m = true → ∀ n ∈ g.modules, ¬ n.IsBeneath m

section Moves

variable {g h : Graph} {m n p : ModuleName}

theorem isSquashed_iff : g.isSquashed m = true ↔ g.modules[m]? = some true := beq_iff_eq

theorem mem_of_isSquashed (h : g.isSquashed m = true) : m ∈ g.modules :=
  Std.ExtTreeMap.mem_iff_isSome_getElem?.2 (by rw [isSquashed_iff.1 h]; rfl)

theorem isSquashed_insert {flag : Bool} :
    { g with modules := g.modules.insert m flag }.isSquashed n = true ↔
      if m = n then flag = true else g.isSquashed n = true := by
  rw [isSquashed_iff, isSquashed_iff]
  simp only [Std.ExtTreeMap.getElem?_insert, Std.compare_eq_iff_eq]
  split <;> simp

theorem isSquashed_of_without (h : (g.without m).isSquashed n = true) : g.isSquashed n = true := by
  rw [isSquashed_iff] at h ⊢
  have herase : (g.modules.erase m)[n]? = some true := h
  rw [Std.ExtTreeMap.getElem?_erase] at herase
  split at herase
  · cases herase
  · exact herase

theorem isSquashed_of_squashed (h : (g.squashed p).isSquashed n = true) (hn : n ≠ p) :
    g.isSquashed n = true := by
  rw [isSquashed_iff, getElem?_modules_squashed, if_neg hn] at h
  split at h
  · cases h
  · exact isSquashed_iff.2 h

/-- What a module that nothing refuses may rely on. -/
theorem of_refusal?_eq_none {flag : Bool} (h : g.refusal? m flag = none) :
    (∀ a, g.isSquashed a = true → ¬ m.IsBeneath a) ∧
      (g.modules[m]? = some flag ∨
        m ∉ g.modules ∧ (flag = true → ∀ n ∈ g.modules, ¬ n.IsBeneath m)) := by
  unfold refusal? at h
  cases habove : g.squashedAbove? m with
  | some a => rw [habove] at h; cases h
  | none =>
    rw [habove] at h
    refine ⟨fun a ha hbeneath => ?_, ?_⟩
    · have hnone := List.find?_eq_none.1 habove a ((ModuleName.mem_ancestors_iff m).2 hbeneath)
      exact hnone ha
    · cases hlookup : g.modules[m]? with
      | some old =>
        simp only [hlookup] at h
        split at h
        · next hflag => exact .inl (by rw [hflag])
        · cases h
      | none =>
        simp only [hlookup] at h
        split at h
        · cases h
        · next hquiet =>
          have hm : m ∉ g.modules := fun hm => by
            rw [Std.ExtTreeMap.mem_iff_isSome_getElem?, hlookup] at hm
            cases hm
          refine .inr ⟨hm, fun hflag n hn hbeneath => ?_⟩
          have hmem : n ∈ g.beneath m := mem_beneath.2 ⟨hn, hbeneath⟩
          exact hquiet (by simp [hflag, List.ne_nil_of_mem hmem])

theorem refusal?_eq_none {flag : Bool} (habove : ∀ a, g.isSquashed a = true → ¬ m.IsBeneath a)
    (hbelow : g.modules[m]? = some flag ∨
      m ∉ g.modules ∧ (flag = true → ∀ n ∈ g.modules, ¬ n.IsBeneath m)) :
    g.refusal? m flag = none := by
  have hnone : g.squashedAbove? m = none := List.find?_eq_none.2 fun a ha hsquashed =>
    habove a hsquashed ((ModuleName.mem_ancestors_iff m).1 ha)
  unfold refusal?
  rw [hnone]
  rcases hbelow with hsame | ⟨hm, hquiet⟩
  · rw [hsame]
    exact if_pos rfl
  · rw [Std.ExtTreeMap.getElem?_eq_none hm]
    refine if_neg fun hrefused => ?_
    obtain ⟨hflag, hbeneath⟩ := Bool.and_eq_true_iff.1 hrefused
    have hempty : g.beneath m = [] := List.filter_eq_nil_iff.2 fun n hn => by
      simpa using hquiet hflag n (mem_moduleList.1 hn)
    rw [hempty] at hbeneath
    cases hbeneath

theorem Collapsed.bring {flag : Bool} (hg : Collapsed g) (h : g.refusal? m flag = none) :
    Collapsed { g with modules := g.modules.insert m flag } := by
  obtain ⟨habove, hbelow⟩ := of_refusal?_eq_none h
  intro a ha n hn hbeneath
  rw [isSquashed_insert] at ha
  rw [Std.ExtTreeMap.mem_insert, Std.compare_eq_iff_eq] at hn
  by_cases hma : m = a
  · subst hma
    rw [if_pos rfl] at ha
    have hn : n ∈ g.modules := hn.resolve_left fun e => n.not_isBeneath_self (e ▸ hbeneath)
    rcases hbelow with hsame | ⟨-, hnone⟩
    · rw [ha] at hsame
      exact hg m (isSquashed_iff.2 hsame) n hn hbeneath
    · exact hnone ha n hn hbeneath
  · rw [if_neg hma] at ha
    rcases hn with rfl | hn
    · exact habove a ha hbeneath
    · exact hg a ha n hn hbeneath

theorem Collapsed.move (hg : Collapsed g) (hmove : Move g h) : Collapsed h := by
  cases hmove with
  | bring hfree => exact hg.bring hfree
  | cite s _ _ => exact hg
  | without _ =>
    intro a ha n hn
    exact hg a (isSquashed_of_without ha) n (mem_modules_without.1 hn).2
  | cut i => exact hg
  | @squash p hp _ =>
    intro a ha n hn hbeneath
    by_cases hap : a = p
    · subst hap
      rcases mem_modules_squashed.1 hn with rfl | ⟨-, hfree⟩
      · exact n.not_isBeneath_self hbeneath
      · exact hfree hbeneath
    · have hmem := mem_modules_squashed.1 hn
      have hn : n ∈ g.modules := hmem.elim (fun e => e ▸ hp) (·.1)
      exact hg a (isSquashed_of_squashed ha hap) n hn hbeneath

/-- **Squashed subtrees stay collapsed**, at any point of any run. -/
theorem collapsed_of_reachable (hg : Reachable g) : Collapsed g := by
  refine hg.of_moves (fun m hm => ?_) Collapsed.move
  exact (Std.ExtTreeMap.not_mem_empty (mem_of_isSquashed hm)).elim

end Moves

/-! ## Packages that overlap -/

/-- The question is refused for packages that have modules in common. -/
def RefusedAsShared {α : Type} (answer : Except Error α) : Prop :=
  ∃ importer imported, answer = .error (.sharedDescendants importer imported)

/-- The two packages have a module in common. -/
def Meet (g : Graph) (a b : ModuleName) : Prop := ∃ n, n ∈ g.closure a ∧ n ∈ g.closure b

section Packages

variable {g : Graph} {a b : ModuleName}

theorem overlaps_iff_ancestors : a.Overlaps b ↔ a = b ∨ b ∈ a.ancestors ∨ a ∈ b.ancestors := by
  rw [ModuleName.mem_ancestors_iff, ModuleName.mem_ancestors_iff, ModuleName.Overlaps]

theorem mem_closure_of_isBeneath (hg : Collapsed g) (ha : a ∈ g.modules) (hbeneath : a.IsBeneath b) :
    a ∈ g.closure b := by
  have hopen : ¬ g.isSquashed b = true := fun hb => hg b hb a ha hbeneath
  rw [closure, if_neg hopen, NameSet.mem_ofList, List.mem_filter]
  exact ⟨mem_moduleList.2 ha, by simp [hbeneath]⟩

/-- **Two packages meet if and only if one of them contains the other.** -/
theorem meet_iff_overlaps (hg : Collapsed g) (ha : a ∈ g.modules) (hb : b ∈ g.modules) :
    Meet g a b ↔ a.Overlaps b := by
  constructor
  · rintro ⟨n, hna, hnb⟩
    exact Classical.byContradiction fun h => notMem_closure_of_not_overlaps h hna hnb
  · rintro (rfl | hbeneath | hbeneath)
    · exact ⟨a, mem_closure_self ha, mem_closure_self ha⟩
    · exact ⟨a, mem_closure_self ha, mem_closure_of_isBeneath hg ha hbeneath⟩
    · exact ⟨b, mem_closure_of_isBeneath hg hb hbeneath, mem_closure_self hb⟩

theorem disjoint_bind {α : Type} (next : Unit → Except Error α) :
    (disjoint a b >>= next) =
      if a.Overlaps b then .error (.sharedDescendants a.text b.text) else next () := by
  unfold disjoint
  split <;> rfl

/-- A question that is answered whenever the packages may be asked about together. -/
theorem refusedAsShared_iff {α : Type} {answer : Except Error α} {a b : ModuleName}
    (h : ∃ found, answer = if a.Overlaps b then .error (.sharedDescendants a.text b.text) else .ok found) :
    RefusedAsShared answer ↔ a.Overlaps b := by
  obtain ⟨found, rfl⟩ := h
  by_cases h : a.Overlaps b
  · rw [if_pos h]
    exact ⟨fun _ => h, fun _ => ⟨_, _, rfl⟩⟩
  · rw [if_neg h]
    refine ⟨?_, fun h' => (h h').elim⟩
    rintro ⟨_, _, e⟩
    cases e

theorem shortestChain_packages (ha : a ∈ g.modules) (hb : b ∈ g.modules) :
    g.shortestChain a.text b.text true =
      if a.Overlaps b then .error (.sharedDescendants a.text b.text)
      else .ok (leastChain? g.importList (g.closure a) (g.closure b)) := by
  unfold shortestChain
  rw [present_text ha, present_text hb]
  exact disjoint_bind _

theorem chainExists_packages (ha : a ∈ g.modules) (hb : b ∈ g.modules) :
    g.chainExists a.text b.text true =
      if a.Overlaps b then .error (.sharedDescendants a.text b.text)
      else .ok (leastChain? g.importList (g.closure a) (g.closure b)).isSome := by
  unfold chainExists
  rw [shortestChain_packages ha hb]
  split <;> rfl

theorem directImportExists_packages (ha : a ∈ g.modules) (hb : b ∈ g.modules) :
    g.directImportExists a.text b.text true =
      if a.Overlaps b then .error (.sharedDescendants a.text b.text)
      else .ok (g.importList.any fun i =>
        (g.closure a).contains i.importer && (g.closure b).contains i.imported) := by
  unfold directImportExists
  rw [present_text ha, present_text hb]
  exact disjoint_bind _

theorem packageClosure_text (ha : a ∈ g.modules) : g.packageClosure a.text = .ok (g.closure a) := by
  unfold packageClosure
  rw [present_text ha]
  rfl

/-- **Nothing sits beneath a squashed module, so overlap is a matter of names**: two packages have a
module in common if and only if one contains the other, and exactly then the questions about chains
and direct imports between them are refused. -/
theorem squashed_stay_collapsed (hg : Reachable g) :
    (∀ m, g.isSquashed m = true → ∀ n ∈ g.modules, m ∉ n.ancestors) ∧
    ∀ a ∈ g.modules, ∀ b ∈ g.modules,
      (g.packageClosure a.text = .ok (g.closure a) ∧ g.packageClosure b.text = .ok (g.closure b)) ∧
      (Meet g a b ↔ a = b ∨ b ∈ a.ancestors ∨ a ∈ b.ancestors) ∧
      (RefusedAsShared (g.shortestChain a.text b.text true) ↔ Meet g a b) ∧
      (RefusedAsShared (g.chainExists a.text b.text true) ↔ Meet g a b) ∧
      (RefusedAsShared (g.directImportExists a.text b.text true) ↔ Meet g a b) := by
  have hcollapsed := collapsed_of_reachable hg
  refine ⟨fun m hm n hn hancestor => ?_, fun a ha b hb => ?_⟩
  · exact hcollapsed m hm n hn ((ModuleName.mem_ancestors_iff n).1 hancestor)
  · have hmeet := meet_iff_overlaps hcollapsed ha hb
    refine ⟨⟨packageClosure_text ha, packageClosure_text hb⟩, ?_, ?_, ?_, ?_⟩
    · rw [hmeet, overlaps_iff_ancestors]
    · rw [hmeet]
      exact refusedAsShared_iff ⟨_, shortestChain_packages ha hb⟩
    · rw [hmeet]
      exact refusedAsShared_iff ⟨_, chainExists_packages ha hb⟩
    · rw [hmeet]
      exact refusedAsShared_iff ⟨_, directImportExists_packages ha hb⟩

/-- A squashed module that somebody tried to add beneath, and a package with levels missing. -/
def guarded : Graph :=
  ofEdits [.addModule "x" true, .addModule "x.y.z" false, .addModule "p" false,
    .addImport "p.a.b" "x", .addImport "q" "x.y"]

theorem squashed_stay_collapsed_guarded : ∃ p deep x : ModuleName,
    Reachable guarded ∧ p.text = "p" ∧ deep.text = "p.a.b" ∧ x.text = "x" ∧
      p ∈ guarded.modules ∧ deep ∈ guarded.modules ∧ x ∈ guarded.modules ∧
      guarded.isSquashed x = true ∧ (∀ n ∈ guarded.modules, x ∉ n.ancestors) ∧
      RefusedAsShared (guarded.chainExists "p" "p.a.b" true) ∧
      ¬ RefusedAsShared (guarded.chainExists "p" "x" true) := by
  let p : ModuleName := ⟨"p", by decide⟩
  let deep : ModuleName := ⟨"p.a.b", by decide⟩
  let x : ModuleName := ⟨"x", by decide⟩
  have hreachable : Reachable guarded := ⟨_, rfl⟩
  have hp : p ∈ guarded.modules := by decide +kernel
  have hdeep : deep ∈ guarded.modules := by decide +kernel
  have hx : x ∈ guarded.modules := by decide +kernel
  have hsquashed : guarded.isSquashed x = true := by decide +kernel
  obtain ⟨hcollapsed, hrefused⟩ := squashed_stay_collapsed hreachable
  obtain ⟨-, hmeet, -, hchain, -⟩ := hrefused p hp deep hdeep
  obtain ⟨-, hapart, -, hchain', -⟩ := hrefused p hp x hx
  refine ⟨p, deep, x, hreachable, rfl, rfl, rfl, hp, hdeep, hx, hsquashed, hcollapsed x hsquashed,
    hchain.2 (hmeet.2 (by decide +kernel)), fun h => ?_⟩
  exact absurd (hapart.1 (hchain'.1 h)) (by decide +kernel)

end Packages

end Graph
end ImportAtlas
