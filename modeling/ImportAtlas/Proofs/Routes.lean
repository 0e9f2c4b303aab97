import ImportAtlas.Proofs.Package
import ImportAtlas.Proofs.Popping
/-!
# The routes of a dependency

The search for longer routes pops middles round by round until no chain is left.  What this ends with
is a `Cut`: each middle is that of a chain, and **every chain has an import of one of the routes**,
either because it was popped itself or because it went out of sight with an earlier one (`Cut.pop`).

More is hidden than a route reports: the graph need not have an import from every head to the
middle.  What the graph does have is reported all the same (`mem_routeThrough`), so what is known of
the middles is known of the routes.  A dependency is reported where there is a chain `Around` what
is to be avoided, and each such chain has an import among those of the routes
(`around_meets_routes`); where there is none, nothing is (`exists_around`).  A dependency is always put
together from all there is to find: the search never stops early (`rounds_of_search`).
-/
namespace ImportAtlas

open ImportAtlas.Graph (middleOf crossings importsTouching searchMiddles)

section Middles

variable {g : Graph} {heads tails : NameSet} {middle : Chain} {first last : ModuleName} {i : Import}

/-- **The route through a middle** has all heads that import its first module and all tails that its
last module imports. -/
theorem exists_routeThrough (g : Graph) (heads tails : NameSet)
    (hfirst : middle.head? = some first) (hlast : middle.getLast? = some last) :
    ∃ r, g.routeThrough heads tails middle = some r ∧ r.middle = middle ∧
      (∀ m, m ∈ r.heads ↔ m ∈ heads ∧ ⟨m, first⟩ ∈ g.imports) ∧
      ∀ m, m ∈ r.tails ↔ m ∈ tails ∧ ⟨last, m⟩ ∈ g.imports := by
  refine ⟨_, by rw [Graph.routeThrough, hfirst, hlast], rfl, fun m => ?_, fun m => ?_⟩
  · rw [List.mem_filter, Std.ExtTreeSet.mem_toList, List.contains_iff_mem, Graph.mem_predecessors]
  · rw [List.mem_filter, Std.ExtTreeSet.mem_toList, List.contains_iff_mem, Graph.mem_successors]

/-- Of the imports that a round hides, the route reports those that the graph has. -/
theorem mem_routeThrough (h : middle ≠ []) (hi : i ∈ (widest heads tails middle).imports)
    (hg : i ∈ g.imports) :
    ∃ r, g.routeThrough heads tails middle = some r ∧ i ∈ r.imports := by
  obtain ⟨first, last, hfirst, hlast⟩ := exists_ends h
  obtain ⟨r, hr, hmiddle, hheads, htails⟩ := exists_routeThrough g heads tails hfirst hlast
  refine ⟨r, hr, ?_⟩
  rw [Route.mem_imports (hmiddle ▸ hfirst) (hmiddle ▸ hlast), hmiddle]
  rcases (Route.mem_imports hfirst hlast).1 hi with ⟨hhead, rfl⟩ | hhop | ⟨rfl, htail⟩
  · exact .inl ⟨(hheads _).2 ⟨Std.ExtTreeSet.mem_toList.1 hhead, hg⟩, rfl⟩
  · exact .inr (.inl hhop)
  · exact .inr (.inr ⟨rfl, (htails _).2 ⟨Std.ExtTreeSet.mem_toList.1 htail, hg⟩⟩)

end Middles

/-! ## Popping middles -/

/-- The middles are those of chains in sight, and every chain in sight has an import that was hidden
for one of them. -/
structure Cut (sight : List Import) (heads tails : NameSet) (middles : List Chain) : Prop where
  real : ∀ middle ∈ middles, middle ≠ [] ∧ ∃ c, Joins sight heads tails c ∧ middleOf c = middle
  complete : ∀ c, Joins sight heads tails c →
    ∃ middle ∈ middles, ∃ i ∈ hops c, i ∈ (widest heads tails middle).imports

section Popping

variable {g : Graph} {heads tails : NameSet} {hidden sight sight' : List Import}
  {middles chains : List Chain} {c : Chain} {v last : Veil}

theorem cut_nil (h : ∀ c, ¬ Joins sight heads tails c) : Cut sight heads tails [] :=
  ⟨fun _ hm => (List.not_mem_nil hm).elim, fun c hc => (h c hc).elim⟩

/-- **A middle popped before a cut of what is left makes a cut.** -/
theorem Cut.pop (hc : Joins sight heads tails c) (hmiddle : middleOf c ≠ [])
    (hleft : ∀ i, i ∈ sight' ↔ i ∈ sight ∧ i ∉ (widest heads tails (middleOf c)).imports)
    (h : Cut sight' heads tails middles) : Cut sight heads tails (middleOf c :: middles) where
  real middle hm := by
    rcases List.mem_cons.1 hm with rfl | hm
    · exact ⟨hmiddle, c, hc, rfl⟩
    · obtain ⟨hne, d, hd, hdm⟩ := h.real middle hm
      exact ⟨hne, d, hd.of_hops fun i hi => ((hleft i).1 (hd.hops_subset i hi)).1, hdm⟩
  complete d hd := by
    by_cases hpop : ∃ i ∈ hops d, i ∈ (widest heads tails (middleOf c)).imports
    · exact ⟨middleOf c, List.mem_cons_self, hpop⟩
    · have hd' : Joins sight' heads tails d := hd.of_hops fun i hi =>
        (hleft i).2 ⟨hd.hops_subset i hi, fun hi' => hpop ⟨i, hi, hi'⟩⟩
      obtain ⟨middle, hm, hmeets⟩ := h.complete d hd'
      exact ⟨middle, List.mem_cons_of_mem _ hm, hmeets⟩

/-- Middles of least chains, each popped from what the ones before it left in sight, until no chain is
left. -/
inductive Popped (heads tails : NameSet) : List Import → List Chain → Prop where
  | done {sight : List Import} (h : ∀ c, ¬ Joins sight heads tails c) : Popped heads tails sight []
  | pop {sight sight' : List Import} {c : Chain} {middles : List Chain}
    (hleast : leastChain? sight heads tails = some c) (hmiddle : middleOf c ≠ [])
    (hleft : ∀ i, i ∈ sight' ↔ i ∈ sight ∧ i ∉ (widest heads tails (middleOf c)).imports)
    (hrest : Popped heads tails sight' middles) : Popped heads tails sight (middleOf c :: middles)

/-- **Middles popped until no chain is left make a cut.** -/
theorem Popped.cut (h : Popped heads tails sight middles) : Cut sight heads tails middles := by
  induction h with
  | done h => exact cut_nil h
  | pop hleast hmiddle hleft _ ih => exact ih.pop (joins_of_leastChain? hleast) hmiddle hleft

/-- **Rounds after which no chain is left pop middles until no chain is left.** -/
theorem Rounds.popped (h : Rounds heads tails v chains last) (hv : Uncrossed heads tails v)
    (hlast : leastChain? last.visible.importList heads tails = .none) :
    Popped heads tails v.visible.importList (chains.map middleOf) := by
  induction h with
  | none v => exact .done (leastChain?_eq_none_iff.1 hlast)
  | more found _ ih =>
    refine .pop found (hv.middleOf_ne_nil (joins_of_leastChain? found)) (fun i => ?_) (ih (hv.pop _) hlast)
    rw [Graph.mem_importList, mem_visible_pop, Graph.mem_importList]

theorem Rounds.exists_drawn (h : Rounds heads tails (.drawn g hidden) chains last) :
    ∃ hidden', last = .drawn g hidden' := by
  generalize hv : Veil.drawn g hidden = v at h
  induction h generalizing hidden with
  | none v => exact ⟨hidden, hv.symm⟩
  | more _ _ ih =>
    subst hv
    exact ih (Veil.hide_drawn g _ hidden).symm

/-- What the search for middles starts with: the imports that neither lead from the one package into
the other nor touch an avoided member. -/
def Graph.remaining (g : Graph) (heads tails : NameSet) (members : List ModuleName) : List Import :=
  g.inSight (crossings g.importList heads tails ++ members.flatMap (importsTouching g.importList))

theorem mem_remaining {members : List ModuleName} {i : Import} :
    i ∈ g.remaining heads tails members ↔ i ∈ g.imports ∧
      ¬ (i.importer ∈ heads ∧ i.imported ∈ tails) ∧ ∀ m ∈ members, ¬ i.Touches m := by
  rw [Graph.remaining, Graph.mem_inSight, List.mem_append, not_or, Graph.mem_crossings,
    List.mem_flatMap]
  refine and_congr_right fun hi => ?_
  have hlist := Graph.mem_importList.2 hi
  simp [Graph.mem_importsTouching, hlist]

theorem opening_eq_drawn (g : Graph) (heads tails : NameSet) (members : List ModuleName) :
    g.opening heads tails members =
      .drawn g (crossings g.importList heads tails ++ members.flatMap (importsTouching g.importList)) := by
  unfold Graph.opening
  rw [← Veil.drawn_nil, Veil.hide_drawn, List.nil_append]

theorem ensures_searchMiddles (g : Graph) (heads tails : NameSet) (members : List ModuleName) :
    Veiled.Ensures g [] (searchMiddles heads tails members) fun middles _ =>
      Popped heads tails (g.remaining heads tails members) middles := by
  obtain ⟨chains, last, hrounds, hnone, hrun⟩ := g.exists_rounds_search heads tails members
  have hpopped := hrounds.popped (g.uncrossed_opening heads tails members) hnone
  rw [opening_eq_drawn] at hrounds hpopped
  obtain ⟨hidden, hlast⟩ := hrounds.exists_drawn
  refine ⟨hidden, ?_, ?_⟩
  · rw [Veil.drawn_nil, hrun, hlast]
  · rw [Veil.drawn_nil, hrun]
    rwa [Veil.importList_drawn] at hpopped

end Popping

/-! ## One dependency -/

namespace Graph

/-- The chain makes one or more imports from the one package into the other and meets the package of
no module of the graph that is to be avoided. -/
def Around (g : Graph) (avoid : ModuleName → Prop) (a b : ModuleName) (c : Chain) : Prop :=
  Joins g.importList (g.closure a) (g.closure b) c ∧
    ∀ e ∈ g.modules, avoid e → ∀ m ∈ c, m ∉ g.closure e

/-- The routes that are reported for middles found between two packages. -/
def routesOf (g : Graph) (heads tails : NameSet) (middles : List Chain) : Std.ExtTreeSet Route :=
  .ofList ((crossings g.importList heads tails).map Route.direct ++
    middles.filterMap (g.routeThrough heads tails))

/-- The dependency that is reported for them, if there is a route at all. -/
def dependencyOf (g : Graph) (i : Import) (middles : List Chain) : Option Dependency :=
  let routes := g.routesOf (g.closure i.importer) (g.closure i.imported) middles
  if routes.isEmpty then none else some ⟨i.importer, i.imported, routes.toList⟩

/-- The middles are those that are popped when a dependency is searched for. -/
def PopsOff (g : Graph) (a b : ModuleName) (avoided : List ModuleName) (middles : List Chain) :
    Prop :=
  Popped (g.closure a) (g.closure b)
    (g.remaining (g.closure a) (g.closure b) (g.avoidedMembers avoided)) middles

variable {g : Graph} {i j : Import} {avoided : List ModuleName} {heads tails : NameSet}
  {middles : List Chain} {c : Chain} {r : Route} {d : Dependency} {m : ModuleName}

theorem mem_routesOf : r ∈ g.routesOf heads tails middles ↔
    (∃ j ∈ g.imports, (j.importer ∈ heads ∧ j.imported ∈ tails) ∧ Route.direct j = r) ∨
      ∃ middle ∈ middles, g.routeThrough heads tails middle = some r := by
  simp only [routesOf, Std.ExtTreeSet.mem_ofList, List.contains_iff_mem, List.mem_append,
    List.mem_map, List.mem_filterMap, mem_crossings, mem_importList, and_assoc]

theorem exists_dependencyOf
    (hr : r ∈ g.routesOf (g.closure i.importer) (g.closure i.imported) middles) :
    ∃ d, g.dependencyOf i middles = some d ∧ d.importer = i.importer ∧ d.imported = i.imported ∧
      r ∈ d.routes := by
  rw [dependencyOf, if_neg fun hempty => ?_]
  · exact ⟨_, rfl, rfl, rfl, Std.ExtTreeSet.mem_toList.2 hr⟩
  · rw [Std.ExtTreeSet.isEmpty_iff.1 hempty] at hr
    exact Std.ExtTreeSet.not_mem_empty hr

theorem of_dependencyOf (h : g.dependencyOf i middles = some d) :
    d.importer = i.importer ∧ d.imported = i.imported ∧
      ∃ r, r ∈ g.routesOf (g.closure i.importer) (g.closure i.imported) middles := by
  rw [dependencyOf] at h
  split at h
  · cases h
  · next hne =>
    cases h
    rw [← Std.ExtTreeSet.isEmpty_toList, List.isEmpty_iff] at hne
    obtain ⟨r, hr⟩ := List.exists_mem_of_ne_nil _ hne
    exact ⟨rfl, rfl, r, Std.ExtTreeSet.mem_toList.1 hr⟩

/-- **The search for a dependency**, by what the search for middles answers.  The heads and tails are read
off a graph that is the one before. -/
theorem dependencyAfter_of_search (g : Graph) (i : Import) (avoided : List ModuleName) :
    g.dependencyAfter i avoided = (g.dependencyOf i (g.veiled (searchMiddles (g.closure i.importer)
      (g.closure i.imported) (g.avoidedMembers avoided))).1, g) := by
  have hafter := (ensures_searchMiddles g (g.closure i.importer) (g.closure i.imported)
    (g.avoidedMembers avoided)).restores
  unfold avoidedMembers at hafter ⊢
  unfold dependencyAfter dependencyOf routesOf
  simp only [hafter]
  split <;> rfl

/-- What is answered are middles that are popped. -/
theorem dependencyAfter_eq (g : Graph) (i : Import) (avoided : List ModuleName) :
    ∃ middles, g.PopsOff i.importer i.imported avoided middles ∧
      g.dependencyAfter i avoided = (g.dependencyOf i middles, g) :=
  ⟨_, (ensures_searchMiddles g _ _ _).answer, dependencyAfter_of_search g i avoided⟩

/-- The veil that a search for the dependency begins its rounds with. -/
def openingFor (g : Graph) (i : Import) (avoided : List ModuleName) : Veil :=
  g.opening (g.closure i.importer) (g.closure i.imported) (g.avoidedMembers avoided)

/-- **The search always ends, and only when no chain is left.**  Whatever rounds it has made, a chain that
it finds next has three modules or more, and popping it takes two imports or more out of sight; so there
are never more than half as many rounds as imports.  The dependency is put together from the middles of
rounds after which there is nothing more to find. -/
theorem rounds_of_search (g : Graph) (i : Import) (avoided : List ModuleName) :
    (∀ chains v, Rounds (g.closure i.importer) (g.closure i.imported) (g.openingFor i avoided) chains v →
      2 * chains.length ≤ g.importCount ∧
      ∀ c, leastChain? v.visible.importList (g.closure i.importer) (g.closure i.imported) = some c →
        3 ≤ c.length ∧
        (v.pop (g.closure i.importer) (g.closure i.imported) c).visible.importCount + 2 ≤
          v.visible.importCount) ∧
    ∃ chains last,
      Rounds (g.closure i.importer) (g.closure i.imported) (g.openingFor i avoided) chains last ∧
      leastChain? last.visible.importList (g.closure i.importer) (g.closure i.imported) = none ∧
      g.dependencyAfter i avoided = (g.dependencyOf i (chains.map middleOf), g) := by
  have hopening : Uncrossed (g.closure i.importer) (g.closure i.imported) (g.openingFor i avoided) :=
    g.uncrossed_opening _ _ _
  refine ⟨fun chains v hrounds => ⟨?_, fun c hleast => ?_⟩, ?_⟩
  · have hrun := hrounds.two_mul_length_le hopening
    have hstart : (g.openingFor i avoided).visible.importCount ≤ g.importCount :=
      g.importCount_opening_le _ _ _
    omega
  · have hv := hrounds.uncrossed hopening
    have hc := joins_of_leastChain? hleast
    exact ⟨three_le_length (hv.middleOf_ne_nil hc), hv.importCount_pop hc⟩
  · obtain ⟨chains, last, hrounds, hnone, hrun⟩ := g.exists_rounds_search (g.closure i.importer)
      (g.closure i.imported) (g.avoidedMembers avoided)
    refine ⟨chains, last, hrounds, hnone, (dependencyAfter_of_search g i avoided).trans ?_⟩
    unfold veiled
    rw [hrun]

theorem dependencyAfter_snd : (g.dependencyAfter i avoided).2 = g := by
  obtain ⟨middles, -, heq⟩ := dependencyAfter_eq g i avoided
  rw [heq]

/-- A chain around what is to be avoided is in sight, unless it goes straight from the one package
into the other somewhere. -/
theorem Around.joins_remaining {a b : ModuleName} (hc : g.Around (· ∈ avoided) a b c)
    (hcross : ∀ j ∈ hops c, ¬ (j.importer ∈ g.closure a ∧ j.imported ∈ g.closure b)) :
    Joins (g.remaining (g.closure a) (g.closure b) (g.avoidedMembers avoided))
      (g.closure a) (g.closure b) c := by
  obtain ⟨hjoins, haround⟩ := hc
  refine hjoins.of_hops fun j hj => mem_remaining.2 ⟨?_, hcross j hj, fun m hm htouch => ?_⟩
  · exact mem_importList.1 (hjoins.hops_subset j hj)
  · obtain ⟨e, he, hmod, hme⟩ := mem_avoidedMembers.1 hm
    have hmc : m ∈ c := htouch.elim (fun h => h ▸ (mem_chain_of_mem_hops hj).1)
      fun h => h ▸ (mem_chain_of_mem_hops hj).2
    exact haround e hmod he m hmc hme

theorem around_of_joins_remaining {a b : ModuleName}
    (hc : Joins (g.remaining (g.closure a) (g.closure b) (g.avoidedMembers avoided))
      (g.closure a) (g.closure b) c) : g.Around (· ∈ avoided) a b c := by
  refine ⟨hc.of_hops fun j hj => ?_, fun e hmod he m hm hme => ?_⟩
  · exact mem_importList.2 (mem_remaining.1 (hc.hops_subset j hj)).1
  · obtain ⟨s, hs, t, ht, hw, hlen⟩ := hc
    obtain ⟨j, hj, htouch⟩ := exists_hop_of_mem hlen hm
    have hfree := (mem_remaining.1 (hw.hops_subset j hj)).2.2
    exact hfree m (mem_avoidedMembers.2 ⟨e, he, hmod, hme⟩) htouch

/-- An import from the one package into the other is a chain by itself, around whatever overlaps
neither. -/
theorem around_of_crossing {a b : ModuleName} (hj : j ∈ g.imports) (ha : j.importer ∈ g.closure a)
    (hb : j.imported ∈ g.closure b) {avoid : ModuleName → Prop}
    (havoid : ∀ e, avoid e → ¬ e.Overlaps a ∧ ¬ e.Overlaps b) :
    g.Around avoid a b [j.importer, j.imported] := by
  have hw : Walk g.importList j.importer j.imported [j.importer, j.imported] :=
    .step (mem_importList.2 hj) (.here _)
  refine ⟨⟨_, ha, _, hb, hw, Nat.le_refl 2⟩, fun e _ he m hm hme => ?_⟩
  rcases List.mem_cons.1 hm with rfl | hm
  · exact notMem_closure_of_not_overlaps (havoid e he).1 hme ha
  · rw [List.mem_singleton.1 hm] at hme
    exact notMem_closure_of_not_overlaps (havoid e he).2 hme hb

/-- **Every chain around what is to be avoided has an import among those of the routes.** -/
theorem around_meets_routes (hc : g.Around (· ∈ avoided) i.importer i.imported c) :
    ∃ d, (g.dependencyAfter i avoided).1 = some d ∧ d.importer = i.importer ∧
      d.imported = i.imported ∧ ∃ r ∈ d.routes, ∃ j ∈ hops c, j ∈ r.imports := by
  obtain ⟨middles, hpops, heq⟩ := dependencyAfter_eq g i avoided
  have hcut := hpops.cut
  obtain ⟨r, hr, hmeets⟩ : ∃ r ∈ g.routesOf (g.closure i.importer) (g.closure i.imported) middles,
      ∃ j ∈ hops c, j ∈ r.imports := by
    by_cases hcross : ∃ j ∈ hops c,
        j.importer ∈ g.closure i.importer ∧ j.imported ∈ g.closure i.imported
    · obtain ⟨j, hj, hends⟩ := hcross
      have hg := mem_importList.1 (hc.1.hops_subset j hj)
      exact ⟨.direct j, mem_routesOf.2 (.inl ⟨j, hg, hends, rfl⟩), j, hj,
        Route.mem_imports_direct.2 rfl⟩
    · have hjoins := hc.joins_remaining fun j hj hends => hcross ⟨j, hj, hends⟩
      obtain ⟨middle, hm, j, hj, hwidest⟩ := hcut.complete c hjoins
      obtain ⟨r, hr, hjr⟩ := mem_routeThrough (hcut.real middle hm).1 hwidest
        (mem_importList.1 (hc.1.hops_subset j hj))
      exact ⟨r, mem_routesOf.2 (.inr ⟨middle, hm, hr⟩), j, hj, hjr⟩
  obtain ⟨d, hd, himporter, himported, hrd⟩ := exists_dependencyOf hr
  exact ⟨d, (congrArg Prod.fst heq).trans hd, himporter, himported, r, hrd, hmeets⟩

/-- **A dependency is reported only where there is a chain around what is to be avoided.** -/
theorem exists_around (h : (g.dependencyAfter i avoided).1 = some d)
    (havoided : ∀ e ∈ avoided, ¬ e.Overlaps i.importer ∧ ¬ e.Overlaps i.imported) :
    d.importer = i.importer ∧ d.imported = i.imported ∧
      ∃ c, g.Around (· ∈ avoided) i.importer i.imported c := by
  obtain ⟨middles, hpops, heq⟩ := dependencyAfter_eq g i avoided
  rw [heq] at h
  obtain ⟨himporter, himported, r, hr⟩ := of_dependencyOf h
  refine ⟨himporter, himported, ?_⟩
  rcases mem_routesOf.1 hr with ⟨j, hj, ⟨hhead, htail⟩, -⟩ | ⟨middle, hm, -⟩
  · exact ⟨_, around_of_crossing hj hhead htail havoided⟩
  · obtain ⟨-, c, hc, -⟩ := hpops.cut.real middle hm
    exact ⟨c, around_of_joins_remaining hc⟩

end Graph
end ImportAtlas
