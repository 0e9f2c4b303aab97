import Mathlib.Data.List.Pairwise
import ImportAtlas.Proofs.Architecture
/-!
# What the routes report

Each route of a dependency is in the graph, hop by hop, and its heads and tails are all that the graph
has for its middle (`Carries`).  Middles are read off chains that are shortest among what is still in
sight, which is why they keep off both packages (`Popped.outside`).

**No import is in two routes of a dependency.**  When a middle is popped, all that could belong to its
route goes out of sight, with any head and any tail.  The chain of a later middle is made of what is
left, and as neither middle meets the packages, an import into a middle, along it or out of it can
only be of the same kind in the other route; there it would have been hidden (`separate_of_clear`).
The imports straight from one package into the other are of none of these kinds.
-/
namespace ImportAtlas

open ImportAtlas.Graph (middleOf)

/-- No module of the middle is in either package. -/
def Outside (heads tails : NameSet) (middle : Chain) : Prop :=
  ∀ m ∈ middle, m ∉ heads ∧ m ∉ tails

/-- The routes through the two middles have no import in common, with any heads and tails. -/
def Separate (heads tails : NameSet) (middle middle' : Chain) : Prop :=
  (widest heads tails middle).imports.Disjoint (widest heads tails middle').imports

instance (heads tails : NameSet) : Std.Symm (Separate heads tails) := ⟨fun _ _ h => List.disjoint_symm h⟩

section Disjoint

variable {heads tails : NameSet} {sight : List Import} {middle : Chain} {middles : List Chain}
  {c : Chain} {i : Import}

/-- What leads from the one package into the other is no part of a route through a middle outside
both. -/
theorem not_mem_widest_of_crossing (hne : middle ≠ []) (hout : Outside heads tails middle)
    (himporter : i.importer ∈ heads) (himported : i.imported ∈ tails) :
    i ∉ (widest heads tails middle).imports := by
  obtain ⟨first, last, hfirst, hlast⟩ := exists_ends hne
  intro hi
  rcases (Route.mem_imports hfirst hlast).1 hi with ⟨-, rfl⟩ | hhop | ⟨rfl, -⟩
  · exact (hout _ (List.mem_of_mem_head? hfirst)).2 himported
  · exact (hout _ (mem_chain_of_mem_hops hhop).1).1 himporter
  · exact (hout _ (List.mem_of_getLast? hlast)).1 himporter

/-- **A chain that has nothing of a middle's route in sight has a middle whose route is disjoint from
it.** -/
theorem separate_of_clear (hne : middle ≠ []) (hout : Outside heads tails middle)
    (hc : Joins sight heads tails c) (hne' : middleOf c ≠ [])
    (hclear : ∀ i ∈ sight, i ∉ (widest heads tails middle).imports) :
    Separate heads tails middle (middleOf c) := by
  obtain ⟨first, last, hfirst, hlast⟩ := exists_ends hne
  obtain ⟨first', last', hfirst', hlast'⟩ := exists_ends hne'
  obtain ⟨s, hs, t, ht, hinto, halong, hout_of⟩ := hops_around_middle hc hfirst' hlast'
  have hmem := fun i => @Route.mem_imports (widest heads tails middle) first last i hfirst hlast
  intro i hi hi'
  rcases (Route.mem_imports hfirst' hlast').1 hi' with ⟨hhead, rfl⟩ | hhop | ⟨rfl, htail⟩
  · have hhead := Std.ExtTreeSet.mem_toList.1 hhead
    rcases (hmem i).1 hi with ⟨-, hsame⟩ | hhop | ⟨hsame, -⟩
    · -- both go on to the same module, which the chain then enters by a hidden import
      exact hclear _ hinto ((hmem _).2 (.inl ⟨Std.ExtTreeSet.mem_toList.2 hs, hsame⟩))
    · exact (hout _ (mem_chain_of_mem_hops hhop).1).1 hhead
    · exact (hout _ (hsame ▸ List.mem_of_getLast? hlast)).1 hhead
  · exact hclear i (halong i hhop) hi
  · have htail := Std.ExtTreeSet.mem_toList.1 htail
    rcases (hmem i).1 hi with ⟨-, hsame⟩ | hhop | ⟨hsame, -⟩
    · exact (hout _ (hsame ▸ List.mem_of_mem_head? hfirst)).2 htail
    · exact (hout _ (mem_chain_of_mem_hops hhop).2).2 htail
    · exact hclear _ hout_of ((hmem _).2 (.inr (.inr ⟨hsame, Std.ExtTreeSet.mem_toList.2 ht⟩)))

/-- **The middles are outside both packages**, since each is the interior of a shortest chain. -/
theorem Popped.outside (h : Popped heads tails sight middles) :
    ∀ middle ∈ middles, Outside heads tails middle := by
  induction h with
  | done _ => exact fun _ hm => (List.not_mem_nil hm).elim
  | pop hleast _ _ _ ih =>
    refine List.forall_mem_cons.2 ⟨fun m hm => ?_, ih⟩
    exact (joins_of_leastChain? hleast).notMem_interior (fun d => length_le_of_leastChain? hleast) hm

/-- **Routes through different middles have no import in common.** -/
theorem Popped.pairwise (h : Popped heads tails sight middles) :
    middles.Pairwise (Separate heads tails) := by
  induction h with
  | done _ => exact .nil
  | pop hleast hmiddle hleft hrest ih =>
    have hout := (Popped.pop hleast hmiddle hleft hrest).outside _ List.mem_cons_self
    refine .cons (fun later hlater => ?_) ih
    obtain ⟨hne, d, hd, rfl⟩ := hrest.cut.real later hlater
    exact separate_of_clear hmiddle hout hd hne fun i hi => ((hleft i).1 hi).2

end Disjoint

namespace Graph

variable {g : Graph} {i : Import} {a b m : ModuleName} {avoided : List ModuleName}
  {heads tails : NameSet} {middle : Chain} {middles : List Chain} {r r' : Route} {d : Dependency}
  {layers : List Layer} {names : List String} {found : Std.ExtTreeSet Dependency}

/-- **The route is in the graph.**  It leads from the package of `a` into that of `b`.  If it has no
middle, it is an import from the one into the other.  If it has one, the modules of the middle import
each other in turn, they are in neither package nor in that of anything to be avoided, and the heads
and tails are all that the graph has. -/
structure Carries (g : Graph) (avoid : ModuleName → Prop) (a b : ModuleName) (r : Route) : Prop where
  heads_ne_nil : r.heads ≠ []
  heads_subset : ∀ m ∈ r.heads, m ∈ g.closure a
  tails_ne_nil : r.tails ≠ []
  tails_subset : ∀ m ∈ r.tails, m ∈ g.closure b
  direct : r.middle = [] → ∃ i ∈ g.imports, r = .direct i
  linked : ∀ i ∈ hops r.middle, i ∈ g.imports
  outside : ∀ m ∈ r.middle, m ∉ g.closure a ∧ m ∉ g.closure b ∧
    ∀ e ∈ g.modules, avoid e → m ∉ g.closure e
  heads_iff : ∀ first ∈ r.middle.head?, ∀ m, m ∈ r.heads ↔ m ∈ g.closure a ∧ ⟨m, first⟩ ∈ g.imports
  tails_iff : ∀ last ∈ r.middle.getLast?, ∀ m, m ∈ r.tails ↔ m ∈ g.closure b ∧ ⟨last, m⟩ ∈ g.imports

/-! ## The routes one by one -/

theorem carries_direct {avoid : ModuleName → Prop} (hi : i ∈ g.imports)
    (ha : i.importer ∈ g.closure a) (hb : i.imported ∈ g.closure b) :
    g.Carries avoid a b (.direct i) where
  heads_ne_nil := List.cons_ne_nil _ _
  heads_subset _ hm := List.mem_singleton.1 hm ▸ ha
  tails_ne_nil := List.cons_ne_nil _ _
  tails_subset _ hm := List.mem_singleton.1 hm ▸ hb
  direct _ := ⟨i, hi, rfl⟩
  linked _ h := (List.not_mem_nil h).elim
  outside _ h := (List.not_mem_nil h).elim
  heads_iff _ h := nomatch h
  tails_iff _ h := nomatch h

/-- The route through a middle that was popped. -/
theorem carries_routeThrough (h : g.PopsOff a b avoided middles) (hm : middle ∈ middles)
    (hr : g.routeThrough (g.closure a) (g.closure b) middle = some r) :
    g.Carries (· ∈ avoided) a b r := by
  obtain ⟨hne, c, hc, rfl⟩ := h.cut.real middle hm
  have hout := h.outside _ hm
  obtain ⟨first, last, hfirst, hlast⟩ := exists_ends hne
  obtain ⟨s, hs, t, ht, hinto, halong, hout_of⟩ := hops_around_middle hc hfirst hlast
  obtain ⟨r', hr', hmiddle, hheads, htails⟩ :=
    exists_routeThrough g (g.closure a) (g.closure b) hfirst hlast
  obtain rfl := Option.some.inj (hr'.symm.trans hr)
  have hgraph : ∀ i ∈ g.remaining (g.closure a) (g.closure b) (g.avoidedMembers avoided),
      i ∈ g.imports := fun i hi => (mem_remaining.1 hi).1
  have haround := (around_of_joins_remaining hc).2
  refine ⟨List.ne_nil_of_mem ((hheads s).2 ⟨hs, hgraph _ hinto⟩), fun m hm => ((hheads m).1 hm).1,
    List.ne_nil_of_mem ((htails t).2 ⟨ht, hgraph _ hout_of⟩), fun m hm => ((htails m).1 hm).1,
    fun hnil => absurd (hmiddle.symm.trans hnil) hne, ?_, ?_, ?_, ?_⟩
  · rw [hmiddle]
    exact fun i hi => hgraph i (halong i hi)
  · rw [hmiddle]
    refine fun m hm => ⟨(hout m hm).1, (hout m hm).2, fun e he havoid => haround e he havoid m ?_⟩
    exact List.mem_of_mem_tail (List.dropLast_subset _ hm)
  · rw [hmiddle, hfirst]
    exact fun _ hsame => Option.some.inj hsame ▸ hheads
  · rw [hmiddle, hlast]
    exact fun _ hsame => Option.some.inj hsame ▸ htails

theorem mem_widest_of_routeThrough (hr : g.routeThrough heads tails middle = some r)
    (hi : i ∈ r.imports) : i ∈ (widest heads tails middle).imports := by
  have hne : middle ≠ [] := by
    rintro rfl
    cases hr
  obtain ⟨first, last, hfirst, hlast⟩ := exists_ends hne
  obtain ⟨r', hr', hmiddle, hheads, htails⟩ := exists_routeThrough g heads tails hfirst hlast
  obtain rfl := Option.some.inj (hr'.symm.trans hr)
  rw [Route.mem_imports (hmiddle ▸ hfirst) (hmiddle ▸ hlast), hmiddle] at hi
  rw [Route.mem_imports hfirst hlast]
  rcases hi with ⟨hhead, hto⟩ | hhop | ⟨hfrom, htail⟩
  · exact .inl ⟨Std.ExtTreeSet.mem_toList.2 ((hheads _).1 hhead).1, hto⟩
  · exact .inr (.inl hhop)
  · exact .inr (.inr ⟨hfrom, Std.ExtTreeSet.mem_toList.2 ((htails _).1 htail).1⟩)

/-! ## The routes together -/

theorem carries_of_mem_routesOf (h : g.PopsOff a b avoided middles)
    (hr : r ∈ g.routesOf (g.closure a) (g.closure b) middles) : g.Carries (· ∈ avoided) a b r := by
  rcases mem_routesOf.1 hr with ⟨i, hi, ⟨ha, hb⟩, rfl⟩ | ⟨middle, hm, hr⟩
  · exact carries_direct hi ha hb
  · exact carries_routeThrough h hm hr

/-- **Two of the routes that are reported have no import in common.** -/
theorem disjoint_of_mem_routesOf (h : g.PopsOff a b avoided middles)
    (hr : r ∈ g.routesOf (g.closure a) (g.closure b) middles)
    (hr' : r' ∈ g.routesOf (g.closure a) (g.closure b) middles) (hne : r ≠ r') :
    r.imports.Disjoint r'.imports := by
  have hcrossing : ∀ middle ∈ middles, ∀ r, g.routeThrough (g.closure a) (g.closure b) middle = some r →
      ∀ j : Import, j.importer ∈ g.closure a → j.imported ∈ g.closure b →
        (Route.direct j).imports.Disjoint r.imports := by
    intro middle hm r hr j ha hb i hi hi'
    obtain rfl := Route.mem_imports_direct.1 hi
    exact not_mem_widest_of_crossing (h.cut.real _ hm).1 (h.outside _ hm) ha hb
      (mem_widest_of_routeThrough hr hi')
  rcases mem_routesOf.1 hr with ⟨j, -, ⟨ha, hb⟩, rfl⟩ | ⟨middle, hm, hr⟩
  · rcases mem_routesOf.1 hr' with ⟨j', -, -, rfl⟩ | ⟨middle', hm', hr'⟩
    · intro i hi hi'
      exact hne (congrArg Route.direct
        ((Route.mem_imports_direct.1 hi).symm.trans (Route.mem_imports_direct.1 hi')))
    · exact hcrossing middle' hm' r' hr' j ha hb
  · rcases mem_routesOf.1 hr' with ⟨j, -, ⟨ha, hb⟩, rfl⟩ | ⟨middle', hm', hr'⟩
    · exact List.disjoint_symm (hcrossing middle hm r hr j ha hb)
    · have hmiddles : middle ≠ middle' := by
        rintro rfl
        exact hne (Option.some.inj (hr.symm.trans hr'))
      intro i hi hi'
      exact h.pairwise.forall hm hm' hmiddles (mem_widest_of_routeThrough hr hi)
        (mem_widest_of_routeThrough hr' hi')

theorem mem_routes_of_dependencyOf (h : g.dependencyOf i middles = some d) :
    r ∈ d.routes ↔ r ∈ g.routesOf (g.closure i.importer) (g.closure i.imported) middles := by
  rw [dependencyOf] at h
  split at h
  · cases h
  · cases h
    exact Std.ExtTreeSet.mem_toList (t := g.routesOf (g.closure i.importer) (g.closure i.imported) middles)

/-- **What is reported of a dependency.**  Some reading of the layers forbids it and there are routes
to report.  Each of them is in the graph and keeps off the packages of the bystanders of that reading;
every import from the one package straight into the other is one of them; and no two of them have
imports in common. -/
theorem routes_of_reported (hfound : g.illegalDependencies layers names = .ok found) (hd : d ∈ found) :
    ∃ reading, Reads names reading ∧ Forbids layers reading d.importer d.imported ∧
      d.routes ≠ [] ∧
      (∀ r ∈ d.routes,
        g.Carries (Bystander layers reading d.importer d.imported) d.importer d.imported r) ∧
      (∀ i ∈ g.imports, i.importer ∈ g.closure d.importer → i.imported ∈ g.closure d.imported →
        Route.direct i ∈ d.routes) ∧
      ∀ r ∈ d.routes, ∀ r' ∈ d.routes, r ≠ r' → r.imports.Disjoint r'.imports := by
  obtain ⟨reading, hreading, levels, hlevels, i, hi, -, hsearch⟩ :=
    (mem_illegalDependencies hfound).1 hd
  obtain ⟨middles, hpops, heq⟩ := dependencyAfter_eq g i (Level.excluded levels i)
  have hdependency : g.dependencyOf i middles = some d := by
    rw [← hsearch, heq]
  have hroutes := fun r => @mem_routes_of_dependencyOf g i middles r d hdependency
  obtain ⟨himporter, himported, r, hr⟩ := of_dependencyOf hdependency
  have havoid : (· ∈ Level.excluded levels i) = Bystander layers reading i.importer i.imported :=
    funext fun m => propext (mem_excluded_iff hlevels)
  rw [himporter, himported]
  refine ⟨reading, hreading, (mem_illegalPairs_iff hlevels).1 hi, List.ne_nil_of_mem ((hroutes r).2 hr),
    fun r hr => ?_, fun j hj ha hb => ?_, fun r hr r' hr' hne => ?_⟩
  · rw [← havoid]
    exact carries_of_mem_routesOf hpops ((hroutes r).1 hr)
  · exact (hroutes _).2 (mem_routesOf.2 (.inl ⟨j, hj, ⟨ha, hb⟩, rfl⟩))
  · exact disjoint_of_mem_routesOf hpops ((hroutes r).1 hr) ((hroutes r').1 hr') hne

/-- Two members of the lower module reach the higher one straight, by way of `m` and by way of `n`. -/
def fanned : Graph :=
  ofEdits [.addModule "p" false, .addImport "p.low" "m", .addImport "p.low.x" "m", .addImport "m" "n",
    .addImport "m" "p.high.y", .addImport "p.low.x" "n", .addImport "n" "p.high",
    .addImport "p.low" "p.high"]

/-- A route by its names. -/
def routeNames (r : Route) : List String × List String × List String :=
  (r.heads.map (·.text), r.middle.map (·.text), r.tails.map (·.text))

/-- Both members import `m` and are heads of its route; the chain on from `m` to `n` went out of sight
with it. -/
theorem routes_of_reported_fanned : ∃ (found : Std.ExtTreeSet Dependency compare) (d : Dependency),
    fanned.illegalDependencies twoStoreys ["p"] = .ok found ∧ d ∈ found ∧
      d.routes.map routeNames = [(["p.low"], [], ["p.high"]), (["p.low", "p.low.x"], ["m"], ["p.high.y"]),
        (["p.low.x"], ["n"], ["p.high"])] ∧
      (∀ r ∈ d.routes, ∀ i ∈ hops r.middle, i ∈ fanned.imports) ∧
      ∀ r ∈ d.routes, ∀ r' ∈ d.routes, r ≠ r' → r.imports.Disjoint r'.imports := by
  have hp : ∀ name ∈ ["p"], fanned.contains name = true := by decide +kernel
  obtain ⟨found, hfound⟩ := exists_illegalDependencies_iff.2 ⟨hp, spelled_twoStoreys⟩
  have hnames : ((fanned.illegalDependencies twoStoreys ["p"]).toOption.map fun found =>
      found.toList.map fun d => d.routes.map routeNames) = some [[(["p.low"], [], ["p.high"]),
        (["p.low", "p.low.x"], ["m"], ["p.high.y"]), (["p.low.x"], ["n"], ["p.high"])]] := by
    decide +kernel
  rw [hfound] at hnames
  obtain ⟨d, hd, hroutes⟩ := List.map_eq_singleton_iff.1 (Option.some.inj hnames)
  have hmem : d ∈ found := by
    rw [← Std.ExtTreeSet.mem_toList, hd]
    exact List.mem_singleton.2 rfl
  obtain ⟨reading, -, -, -, hcarries, -, hdisjoint⟩ := routes_of_reported hfound hmem
  exact ⟨found, d, hfound, hmem, hroutes, fun r hr => (hcarries r hr).linked, hdisjoint⟩

end Graph
end ImportAtlas
