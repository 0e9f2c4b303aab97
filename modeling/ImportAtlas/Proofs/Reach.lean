import ImportAtlas.Proofs.Answer
import ImportAtlas.Proofs.Rings
import ImportAtlas.Proofs.Squashed
/-!
# Reach and chains agree

There are three ways to ask whether one module depends on another: whether it is among all that import
the other, whether the other is among all that it imports, and whether there is a chain between them.
Each is answered by a search of its own, the second over imports read against their direction and the
third with a goal in mind.  They agree since each comes down to the same thing, that **a walk of one or
more imports leads from the one to the other** (`Reaches`); and a walk read from its end is a walk along
the flipped imports (`Walk.flip`).

About packages there is one more thing to see.  A walk may pass through other members of the package
it leads into, so the answer about a package is more than its members' answers put together without
the members: what counts is only where the walk starts.
-/
namespace ImportAtlas

/-- A walk of one or more imports leads from the one to the other. -/
def Reaches (imports : List Import) (a b : ModuleName) : Prop :=
  ∃ c, Walk imports a b c ∧ 2 ≤ c.length

section Walks

variable {imports : List Import} {sources goals : NameSet} {a b m t : ModuleName} {c : Chain}

theorem Walk.concat (h : Walk imports a b c) (hi : ⟨b, t⟩ ∈ imports) :
    Walk imports a t (c ++ [t]) := by
  induction h with
  | here => exact .step hi (.here t)
  | step hj _ ih => exact .step hj (ih hi)

/-- **A walk read from its end** is a walk along the flipped imports. -/
theorem Walk.flip (h : Walk imports a b c) : Walk (imports.map (·.flip)) b a c.reverse := by
  induction h with
  | here a => exact .here a
  | step hi _ ih =>
    rw [List.reverse_cons]
    exact ih.concat (List.mem_map.2 ⟨_, hi, rfl⟩)

theorem Reaches.flip (h : Reaches imports a b) : Reaches (imports.map (·.flip)) b a := by
  obtain ⟨c, hw, hlen⟩ := h
  exact ⟨c.reverse, hw.flip, by rwa [List.length_reverse]⟩

theorem reaches_flip_iff : Reaches (imports.map (·.flip)) a b ↔ Reaches imports b a := by
  have htwice : (imports.map (·.flip)).map (·.flip) = imports := by
    rw [List.map_map]
    exact List.map_id imports
  constructor
  · intro h
    have hback := h.flip
    rwa [htwice] at hback
  · exact Reaches.flip

theorem Reaches.exists_import (h : Reaches imports a b) : ∃ n, ⟨a, n⟩ ∈ imports := by
  obtain ⟨c, hw, hlen⟩ := h
  cases hw with
  | here => simp at hlen
  | step hi _ => exact ⟨_, hi⟩

theorem exists_joins_iff :
    (∃ c, Joins imports sources goals c) ↔ ∃ s ∈ sources, ∃ t ∈ goals, Reaches imports s t := by
  constructor
  · rintro ⟨c, s, hs, t, ht, hw⟩
    exact ⟨s, hs, t, ht, c, hw⟩
  · rintro ⟨s, hs, t, ht, c, hw⟩
    exact ⟨c, s, hs, t, ht, hw⟩

/-- The search back from the goals finds what reaches one of them. -/
theorem mem_reaching_iff_reaches :
    m ∈ reaching imports goals ↔ m ∉ goals ∧ ∃ t ∈ goals, Reaches imports m t := by
  rw [mem_reaching]
  refine and_congr_right fun hm => ⟨?_, ?_⟩
  · rintro ⟨k, t, ht, c, hw, -⟩
    have hne : m ≠ t := fun e => hm (e ▸ ht)
    exact ⟨t, ht, c, hw, hw.two_le_length hne⟩
  · rintro ⟨t, ht, c, hw, hlen⟩
    exact ⟨c.length - 1, t, ht, c, hw, by omega⟩

/-- The search for a chain ends without one only if no source reaches a goal. -/
theorem isSome_leastChain?_iff : (leastChain? imports sources goals).isSome = true ↔
    ∃ s ∈ sources, ∃ t ∈ goals, Reaches imports s t := by
  rw [Option.isSome_iff_ne_none, Ne, leastChain?_eq_none_iff, Classical.not_forall_not,
    exists_joins_iff]

end Walks

namespace Graph

variable {g : Graph} {a b m n x y : ModuleName} {asPackages : Bool}

theorem allImportersOf_text (hm : m ∈ g.modules) (asPackage : Bool) :
    g.allImportersOf m.text asPackage = .ok (reaching g.importList (g.extent asPackage m)) := by
  unfold allImportersOf
  rw [present_text hm]
  rfl

theorem allImportedBy_text (hm : m ∈ g.modules) (asPackage : Bool) :
    g.allImportedBy m.text asPackage =
      .ok (reaching (g.importList.map (·.flip)) (g.extent asPackage m)) := by
  unfold allImportedBy
  rw [present_text hm]
  rfl

theorem shortestChain_modules (ha : a ∈ g.modules) (hb : b ∈ g.modules) :
    g.shortestChain a.text b.text false =
      .ok (leastChain? g.importList (.ofList [a]) (.ofList [b])) := by
  unfold shortestChain
  rw [present_text ha, present_text hb]
  rfl

theorem chainExists_modules (ha : a ∈ g.modules) (hb : b ∈ g.modules) :
    g.chainExists a.text b.text false =
      .ok (leastChain? g.importList (.ofList [a]) (.ofList [b])).isSome := by
  unfold chainExists
  rw [shortestChain_modules ha hb]
  rfl

theorem shortestChain_text (ha : a ∈ g.modules) (hb : b ∈ g.modules)
    (hapart : asPackages = true → ¬ a.Overlaps b) : g.shortestChain a.text b.text asPackages =
      .ok (leastChain? g.importList (g.extent asPackages a) (g.extent asPackages b)) := by
  cases asPackages with
  | false => exact shortestChain_modules ha hb
  | true =>
    rw [shortestChain_packages ha hb, if_neg (hapart rfl)]
    rfl

theorem chainExists_text (ha : a ∈ g.modules) (hb : b ∈ g.modules)
    (hapart : asPackages = true → ¬ a.Overlaps b) : g.chainExists a.text b.text asPackages =
      .ok (leastChain? g.importList (g.extent asPackages a) (g.extent asPackages b)).isSome := by
  unfold chainExists
  rw [shortestChain_text ha hb hapart]
  rfl

/-- What has a walk to another module is a module of the graph. -/
theorem EndsPresent.mem_of_reaches (hg : EndsPresent g) (h : Reaches g.importList a b) :
    a ∈ g.modules ∧ b ∈ g.modules := by
  obtain ⟨n, hn⟩ := h.exists_import
  obtain ⟨p, hp⟩ := h.flip.exists_import
  obtain ⟨i, hi, hflip⟩ := List.mem_map.1 hp
  have himported : i.imported = b := congrArg Import.importer hflip
  exact ⟨(hg _ (mem_importList.1 hn)).1, himported ▸ (hg i (mem_importList.1 hi)).2⟩

theorem EndsPresent.mem_reaching (hg : EndsPresent g) {goals : NameSet} :
    n ∈ reaching g.importList goals ↔
      n ∈ g.modules ∧ n ∉ goals ∧ ∃ t ∈ goals, Reaches g.importList n t := by
  rw [mem_reaching_iff_reaches]
  refine ⟨fun ⟨hn, t, ht, hreaches⟩ => ?_, And.right⟩
  exact ⟨(hg.mem_of_reaches hreaches).1, hn, t, ht, hreaches⟩

theorem EndsPresent.mem_reaching_flip (hg : EndsPresent g) {goals : NameSet} :
    n ∈ reaching (g.importList.map (·.flip)) goals ↔
      n ∈ g.modules ∧ n ∉ goals ∧ ∃ t ∈ goals, Reaches g.importList t n := by
  rw [mem_reaching_iff_reaches]
  simp only [reaches_flip_iff]
  refine ⟨fun ⟨hn, t, ht, hreaches⟩ => ?_, And.right⟩
  exact ⟨(hg.mem_of_reaches hreaches).2, hn, t, ht, hreaches⟩

/-- Some member of the one is among all that import the other exactly if there is a chain. -/
theorem exists_importer_iff_chain (g : Graph) (hapart : Apart asPackages x y) :
    (∃ n ∈ g.extent asPackages x, n ∈ reaching g.importList (g.extent asPackages y)) ↔
      (leastChain? g.importList (g.extent asPackages x) (g.extent asPackages y)).isSome = true := by
  rw [isSome_leastChain?_iff]
  simp only [mem_reaching_iff_reaches]
  constructor
  · rintro ⟨n, hn, -, t, ht, hreaches⟩
    exact ⟨n, hn, t, ht, hreaches⟩
  · rintro ⟨s, hs, t, ht, hreaches⟩
    exact ⟨s, hs, notMem_extent_of_apart hapart hs, t, ht, hreaches⟩

/-- Some member of the other is among all that the one imports exactly if there is a chain. -/
theorem exists_imported_iff_chain (g : Graph) (hapart : Apart asPackages x y) :
    (∃ n ∈ g.extent asPackages y, n ∈ reaching (g.importList.map (·.flip)) (g.extent asPackages x)) ↔
      (leastChain? g.importList (g.extent asPackages x) (g.extent asPackages y)).isSome = true := by
  rw [isSome_leastChain?_iff]
  simp only [mem_reaching_iff_reaches, reaches_flip_iff]
  constructor
  · rintro ⟨n, hn, -, s, hs, hreaches⟩
    exact ⟨s, hs, n, hn, hreaches⟩
  · rintro ⟨s, hs, t, ht, hreaches⟩
    exact ⟨t, ht, fun hsource => notMem_extent_of_apart hapart hsource ht, s, hs, hreaches⟩

/-- **Reach is walks, and all who ask about it get the same answer.**  What imports a module or a
package, directly or through others, are the modules outside it from which a walk of one or more
imports leads into it, and what it imports are those outside it to which such a walk leads from it.
So of two different modules, or of two packages that do not overlap, the one reaches the other by the
first question exactly if it does by the second, and exactly if there is a chain. -/
theorem reach_agrees (hg : Reachable g) :
    (∀ m ∈ g.modules, ∀ asPackage, ∃ importers imported,
      g.allImportersOf m.text asPackage = .ok importers ∧
      g.allImportedBy m.text asPackage = .ok imported ∧
      (∀ n, n ∈ importers ↔ n ∈ g.modules ∧ n ∉ g.extent asPackage m ∧
        ∃ t ∈ g.extent asPackage m, Reaches g.importList n t) ∧
      (∀ n, n ∈ imported ↔ n ∈ g.modules ∧ n ∉ g.extent asPackage m ∧
        ∃ s ∈ g.extent asPackage m, Reaches g.importList s n)) ∧
    ∀ x ∈ g.modules, ∀ y ∈ g.modules,
      (x ≠ y → ∃ importers imported joined,
        g.allImportersOf y.text false = .ok importers ∧
        g.allImportedBy x.text false = .ok imported ∧
        g.chainExists x.text y.text false = .ok joined ∧
        (x ∈ importers ↔ joined = true) ∧ (y ∈ imported ↔ joined = true)) ∧
      (¬ x.Overlaps y → ∃ importers imported joined,
        g.allImportersOf y.text true = .ok importers ∧
        g.allImportedBy x.text true = .ok imported ∧
        g.chainExists x.text y.text true = .ok joined ∧
        ((∃ n ∈ g.closure x, n ∈ importers) ↔ joined = true) ∧
        ((∃ n ∈ g.closure y, n ∈ imported) ↔ joined = true)) := by
  have hends := endsPresent_of_reachable hg
  refine ⟨fun m hm asPackage => ?_, fun x hx y hy => ⟨fun hne => ?_, fun hapart => ?_⟩⟩
  · exact ⟨_, _, allImportersOf_text hm asPackage, allImportedBy_text hm asPackage,
      fun n => hends.mem_reaching, fun n => hends.mem_reaching_flip⟩
  · have hapart : Apart false x y := hne
    have himporters := exists_importer_iff_chain g hapart
    have himported := exists_imported_iff_chain g hapart
    have halone : ∀ (m : ModuleName) (answer : NameSet),
        (∃ n ∈ g.extent false m, n ∈ answer) ↔ m ∈ answer := fun m answer => by
      simp only [extent, Bool.false_eq_true, if_false, NameSet.mem_singleton, exists_eq_left]
    rw [halone] at himporters himported
    exact ⟨_, _, _, allImportersOf_text hy false, allImportedBy_text hx false,
      chainExists_text hx hy (fun h => by cases h), himporters, himported⟩
  · have hpackages : Apart true x y := hapart
    have himporters := exists_importer_iff_chain g hpackages
    have himported := exists_imported_iff_chain g hpackages
    exact ⟨_, _, _, allImportersOf_text hy true, allImportedBy_text hx true,
      chainExists_text hx hy (fun _ => hapart), himporters, himported⟩

/-- A circle through two packages.  The only way from `m` to `p.b` leads through `p.a`. -/
def circled : Graph :=
  ofEdits [.addModule "p" false, .addModule "q" false, .addImport "m" "p.a", .addImport "p.a" "n",
    .addImport "n" "p.b", .addImport "p.b" "q.c", .addImport "q.c" "m", .addImport "p.b" "k"]

theorem reach_agrees_circled : ∃ (p q m b : ModuleName) (importers imported importers' : NameSet),
    Reachable circled ∧ p.text = "p" ∧ q.text = "q" ∧ m.text = "m" ∧ b.text = "p.b" ∧
      p ∈ circled.modules ∧ q ∈ circled.modules ∧ m ∈ circled.modules ∧ b ∈ circled.modules ∧
      circled.allImportersOf "p" true = .ok importers ∧ m ∈ importers ∧ b ∉ importers ∧
      (∃ t ∈ circled.closure p, Reaches circled.importList m t) ∧
      ¬ p.Overlaps q ∧ circled.chainExists "p" "q" true = .ok true ∧
      circled.allImportedBy "p" true = .ok imported ∧ (∃ n ∈ circled.closure q, n ∈ imported) ∧
      m ≠ b ∧ circled.chainExists "m" "p.b" false = .ok true ∧
      circled.allImportersOf "p.b" false = .ok importers' ∧ m ∈ importers' := by
  let p : ModuleName := ⟨"p", by decide⟩
  let q : ModuleName := ⟨"q", by decide⟩
  let m : ModuleName := ⟨"m", by decide⟩
  let b : ModuleName := ⟨"p.b", by decide⟩
  have hreachable : Reachable circled := ⟨_, rfl⟩
  have hp : p ∈ circled.modules := by decide +kernel
  have hq : q ∈ circled.modules := by decide +kernel
  have hm : m ∈ circled.modules := by decide +kernel
  have hb : b ∈ circled.modules := by decide +kernel
  have hapart : ¬ p.Overlaps q := by decide
  have hne : m ≠ b := by decide
  obtain ⟨hsets, hpairs⟩ := reach_agrees hreachable
  obtain ⟨importers, -, himporters, -, hmem, -⟩ := hsets p hp true
  obtain ⟨-, imported, joined, -, himported, hjoined, -, hmeets⟩ := (hpairs p hp q hq).2 hapart
  obtain ⟨importers', -, joined', himporters', -, hjoined', hmember, -⟩ := (hpairs m hm b hb).1 hne
  have hfound : (circled.allImportersOf "p" true).toOption.map (·.contains m) = some true := by
    decide +kernel
  have hchain : circled.chainExists "p" "q" true = .ok true :=
    eq_ok_of_toOption (by decide +kernel)
  have hchain' : circled.chainExists "m" "p.b" false = .ok true :=
    eq_ok_of_toOption (by decide +kernel)
  have himporters : circled.allImportersOf "p" true = .ok importers := himporters
  rw [himporters] at hfound
  have hmImporters : m ∈ importers := Std.ExtTreeSet.contains_iff_mem.1 (Option.some.inj hfound)
  have hbMember : b ∈ circled.closure p := by decide +kernel
  have htrue : joined = true := Except.ok.inj (hjoined.symm.trans hchain)
  have htrue' : joined' = true := Except.ok.inj (hjoined'.symm.trans hchain')
  exact ⟨p, q, m, b, importers, imported, importers', hreachable, rfl, rfl, rfl, rfl, hp, hq, hm, hb,
    himporters, hmImporters, fun h => ((hmem b).1 h).2.1 hbMember, ((hmem m).1 hmImporters).2.2,
    hapart, hchain, himported, hmeets.2 htrue, hne, hchain', himporters', hmember.2 htrue'⟩

end Graph
end ImportAtlas
