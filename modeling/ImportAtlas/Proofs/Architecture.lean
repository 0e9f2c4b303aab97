import ImportAtlas.Proofs.Change
import ImportAtlas.Proofs.Layers
import ImportAtlas.Proofs.Routes
import ImportAtlas.Proofs.ShortestChains
/-!
# What is reported about an architecture

The layers are read once for each container, the forbidden pairs of each reading are searched one
after the other, and since no search changes the graph, each of them is about the graph the question
was asked of.  So what is found is a matter of the readings and their pairs alone
(`mem_illegalDependencies`), and with what is known of a single search: **a pair is reported if and
only if some reading forbids it and a chain gets around its bystanders**
(`exists_illegalDependency_iff`).

Every such chain has an import among those of the routes.  Take those imports away, and no chain is
left in any reading, since a smaller graph with the same modules has no chain that the larger one
does not have (`illegalDependencies_after_removal`).

The graph afterwards is the graph before, and the same goes for the question about all shortest
chains, the only other one that hides imports (`unchanged_after_questions`).
-/
namespace ImportAtlas

open ImportAtlas.Graph (dependenciesAfter searchReadings readings)

/-- A reading of the layers that a list of containers asks for. -/
def Reads (names : List String) : Option ModuleName → Prop
  | none => names = []
  | some container => container.text ∈ names

namespace Graph

variable {g : Graph} {layers : List Layer} {levels : List Level} {names : List String}
  {found : Std.ExtTreeSet Dependency} {d : Dependency} {i : Import} {a b : ModuleName} {c : Chain}

/-! ## The containers -/

theorem exists_containers_iff : ∀ {names : List String},
    (∃ containers, g.containers names = .ok containers) ↔
      ∀ name ∈ names, g.contains name = true
  | [] => ⟨fun _ _ h => (List.not_mem_nil h).elim, fun _ => ⟨∅, rfl⟩⟩
  | name :: names => by
    rw [List.forall_mem_cons, ← exists_containers_iff, containers, contains]
    cases g.present name with
    | error e => simp
    | ok m => cases g.containers names <;> simp [bind, Except.bind, pure, Except.pure]

theorem mem_containers : ∀ {names : List String} {containers : NameSet} {m : ModuleName},
    g.containers names = .ok containers → (m ∈ containers ↔ m.text ∈ names)
  | [], containers, m, h => by
    obtain rfl : ∅ = containers := Except.ok.inj h
    simp
  | name :: names, containers, m, h => by
    rw [Graph.containers] at h
    cases hname : g.present name with
    | error e =>
      rw [hname] at h
      cases h
    | ok first =>
      rw [hname] at h
      obtain ⟨rest, hrest, h⟩ := bind_eq_ok_iff.1 h
      obtain rfl := Except.ok.inj h
      obtain ⟨rfl, -⟩ := present_eq_ok_iff.1 hname
      rw [Std.ExtTreeSet.mem_insert, Std.compare_eq_iff_eq, mem_containers hrest, List.mem_cons]
      exact or_congr_left ⟨fun e => e ▸ rfl, fun e => ModuleName.ext_text e.symm⟩

theorem mem_readings {containers : NameSet} (h : g.containers names = .ok containers)
    {reading : Option ModuleName} : reading ∈ readings containers ↔ Reads names reading := by
  have hall := exists_containers_iff.1 ⟨containers, h⟩
  have hnames : containers.isEmpty = true ↔ names = [] := by
    rw [Std.ExtTreeSet.isEmpty_iff]
    constructor
    · rintro rfl
      refine List.eq_nil_iff_forall_not_mem.2 fun name hn => ?_
      obtain ⟨m, -, rfl⟩ := contains_iff.1 (hall name hn)
      exact Std.ExtTreeSet.not_mem_empty ((mem_containers h).2 hn)
    · rintro rfl
      exact (Except.ok.inj h).symm
  unfold readings
  split
  · next hempty =>
    have hnil := hnames.1 hempty
    cases reading <;> simp [Reads, hnil]
  · next hempty =>
    have hcons : names ≠ [] := fun e => hempty (hnames.2 e)
    cases reading with
    | none => simp [Reads, hcons]
    | some m => simp [Reads, Std.ExtTreeSet.mem_toList, mem_containers h]

/-! ## The searches one after the other -/

/-- Searching the pair among the levels finds the dependency. -/
def Finds (g : Graph) (levels : List Level) (i : Import) (d : Dependency) : Prop :=
  (i.importer ∈ g.modules ∧ i.imported ∈ g.modules) ∧
    (g.dependencyAfter i (Level.excluded levels i)).1 = some d

theorem dependenciesAfter_snd : ∀ pairs : List Import, (dependenciesAfter levels pairs g).2 = g
  | [] => rfl
  | i :: pairs => by
    rw [dependenciesAfter]
    split
    · show (dependenciesAfter levels pairs (g.dependencyAfter i _).2).2 = g
      rw [dependencyAfter_snd]
      exact dependenciesAfter_snd pairs
    · exact dependenciesAfter_snd pairs

theorem mem_dependenciesAfter : ∀ pairs : List Import,
    d ∈ (dependenciesAfter levels pairs g).1 ↔ ∃ i ∈ pairs, Finds g levels i d
  | [] => by simp [dependenciesAfter]
  | i :: pairs => by
    simp only [List.mem_cons, exists_eq_or_imp, ← mem_dependenciesAfter pairs]
    rw [dependenciesAfter]
    split
    · next h =>
      show d ∈ (g.dependencyAfter i _).1.toList ++
        (dependenciesAfter levels pairs (g.dependencyAfter i _).2).1 ↔ _
      rw [dependencyAfter_snd, List.mem_append, Option.mem_toList, Finds, and_iff_right h]
    · next h => exact (or_iff_right fun hf => h hf.1).symm

theorem searchReadings_cons (reading : Option ModuleName) (rest : List (Option ModuleName)) :
    searchReadings layers (reading :: rest) g =
      match layers.mapM (·.within reading) with
      | .error e => (.error e, g)
      | .ok levels =>
        ((searchReadings layers rest g).1.map
          ((dependenciesAfter levels (Level.illegalPairs levels) g).1 ++ ·),
            (searchReadings layers rest g).2) := by
  rw [searchReadings]
  cases layers.mapM (·.within reading) with
  | error e => rfl
  | ok levels =>
    have hsnd := @dependenciesAfter_snd g levels (Level.illegalPairs levels)
    simp only [hsnd]

theorem searchReadings_snd : ∀ rs : List (Option ModuleName), (searchReadings layers rs g).2 = g
  | [] => rfl
  | reading :: rest => by
    rw [searchReadings_cons]
    split
    · rfl
    · exact searchReadings_snd rest

theorem exists_searchReadings_iff : ∀ {rs : List (Option ModuleName)},
    (∃ ds, (searchReadings layers rs g).1 = .ok ds) ↔
      ∀ reading ∈ rs, Layer.Spelled layers reading
  | [] => ⟨fun _ _ h => (List.not_mem_nil h).elim, fun _ => ⟨[], rfl⟩⟩
  | reading :: rest => by
    rw [List.forall_mem_cons, ← exists_searchReadings_iff, ← exists_levels_iff,
      searchReadings_cons]
    cases layers.mapM (·.within reading) with
    | error e => simp
    | ok levels => cases (searchReadings layers rest g).1 <;> simp [Except.map]

/-- The readings together find what the pairs of each of them find. -/
theorem mem_searchReadings : ∀ {rs : List (Option ModuleName)} {ds : List Dependency},
    (searchReadings layers rs g).1 = .ok ds →
      (d ∈ ds ↔ ∃ reading ∈ rs, ∃ levels, layers.mapM (·.within reading) = .ok levels ∧
        ∃ i ∈ Level.illegalPairs levels, Finds g levels i d)
  | [], ds, h => by
    obtain rfl : [] = ds := Except.ok.inj h
    simp
  | reading :: rest, ds, h => by
    rw [searchReadings_cons] at h
    cases hlevels : layers.mapM (·.within reading) with
    | error e =>
      rw [hlevels] at h
      cases h
    | ok levels =>
      rw [hlevels] at h
      obtain ⟨more, hrest, rfl⟩ := map_eq_ok_iff.1 h
      rw [List.mem_append, mem_dependenciesAfter, mem_searchReadings hrest]
      simp only [List.mem_cons, exists_eq_or_imp, hlevels, Except.ok.injEq, exists_eq_left']

/-! ## The answer -/

theorem illegalDependenciesAfter_of_containers {containers : NameSet}
    (h : g.containers names = .ok containers) : g.illegalDependenciesAfter layers names =
      ((searchReadings layers (readings containers) g).1.map (Std.ExtTreeSet.ofList ·),
        (searchReadings layers (readings containers) g).2) := by
  rw [illegalDependenciesAfter, h]

/-- **The question is answered** if the containers are there and their readings can be made, and
only then. -/
theorem exists_illegalDependencies_iff :
    (∃ found, g.illegalDependencies layers names = .ok found) ↔
      (∀ name ∈ names, g.contains name = true) ∧
        ∀ reading, Reads names reading → Layer.Spelled layers reading := by
  rw [← exists_containers_iff, illegalDependencies]
  cases h : g.containers names with
  | error e => simp [illegalDependenciesAfter, h]
  | ok containers =>
    have hsearch := @exists_searchReadings_iff g layers (readings containers)
    simp only [mem_readings h] at hsearch
    rw [illegalDependenciesAfter_of_containers h, ← hsearch]
    cases (searchReadings layers (readings containers) g).1 <;> simp [Except.map]

/-- **The answer holds what the searches find** for the pairs of all readings. -/
theorem mem_illegalDependencies (hfound : g.illegalDependencies layers names = .ok found) :
    d ∈ found ↔ ∃ reading, Reads names reading ∧
      ∃ levels, layers.mapM (·.within reading) = .ok levels ∧
        ∃ i ∈ Level.illegalPairs levels, Finds g levels i d := by
  obtain ⟨containers, h⟩ :=
    exists_containers_iff.2 (exists_illegalDependencies_iff.1 ⟨found, hfound⟩).1
  rw [illegalDependencies, illegalDependenciesAfter_of_containers h] at hfound
  obtain ⟨ds, hsearch, rfl⟩ := map_eq_ok_iff.1 hfound
  rw [Std.ExtTreeSet.mem_ofList, List.contains_iff_mem, mem_searchReadings hsearch]
  simp only [mem_readings h]

theorem around_excluded_iff {reading : Option ModuleName}
    (hlevels : layers.mapM (·.within reading) = .ok levels) :
    g.Around (· ∈ Level.excluded levels ⟨a, b⟩) a b c ↔
      g.Around (Bystander layers reading a b) a b c := by
  simp only [Around, mem_excluded_iff hlevels]

/-- **A forbidden chain is reported**, with an import of it among those of the routes. -/
theorem reported_of_around (hfound : g.illegalDependencies layers names = .ok found)
    {reading : Option ModuleName} (hreading : Reads names reading)
    (hforbids : Forbids layers reading a b) (ha : a ∈ g.modules) (hb : b ∈ g.modules)
    (hc : g.Around (Bystander layers reading a b) a b c) :
    ∃ d ∈ found, d.importer = a ∧ d.imported = b ∧
      ∃ r ∈ d.routes, ∃ j ∈ hops c, j ∈ r.imports := by
  have hspelled := (exists_illegalDependencies_iff.1 ⟨found, hfound⟩).2
  obtain ⟨levels, hlevels⟩ := exists_levels_iff.2 (hspelled reading hreading)
  obtain ⟨d, hd, himporter, himported, hmeets⟩ :=
    around_meets_routes (i := ⟨a, b⟩) ((around_excluded_iff hlevels).2 hc)
  exact ⟨d, (mem_illegalDependencies hfound).2 ⟨reading, hreading, levels, hlevels, ⟨a, b⟩,
    (mem_illegalPairs_iff hlevels).2 hforbids, ⟨ha, hb⟩, hd⟩, himporter, himported, hmeets⟩

/-- **What is reported is a forbidden chain.** -/
theorem around_of_reported (hfound : g.illegalDependencies layers names = .ok found)
    (hd : d ∈ found) : ∃ reading, Reads names reading ∧
      Forbids layers reading d.importer d.imported ∧
      d.importer ∈ g.modules ∧ d.imported ∈ g.modules ∧
      ∃ c, g.Around (Bystander layers reading d.importer d.imported) d.importer d.imported c := by
  obtain ⟨reading, hreading, levels, hlevels, ⟨a, b⟩, hi, ⟨ha, hb⟩, hsearch⟩ :=
    (mem_illegalDependencies hfound).1 hd
  obtain ⟨rfl, rfl, c, hc⟩ := exists_around hsearch fun e he => ((mem_excluded_iff hlevels).1 he).2
  exact ⟨reading, hreading, (mem_illegalPairs_iff hlevels).1 hi, ha, hb, c,
    (around_excluded_iff hlevels).1 hc⟩

/-- **Which layers import what they may not.**  If the containers are in the graph and the names of
the layers can be read within them, a dependency of one module on another is reported if and only if
some reading forbids it, both are in the graph, and a chain leads from the package of the one into
that of the other around the packages of the bystanders. -/
theorem exists_illegalDependency_iff (g : Graph) (layers : List Layer) (names : List String)
    (hcontainers : ∀ name ∈ names, g.contains name = true)
    (hspelled : ∀ reading, Reads names reading → Layer.Spelled layers reading) :
    ∃ found, g.illegalDependencies layers names = .ok found ∧ ∀ a b,
      (∃ d ∈ found, d.importer = a ∧ d.imported = b) ↔
        ∃ reading, Reads names reading ∧ Forbids layers reading a b ∧
          a ∈ g.modules ∧ b ∈ g.modules ∧
          ∃ c, g.Around (Bystander layers reading a b) a b c := by
  obtain ⟨found, hfound⟩ := exists_illegalDependencies_iff.2 ⟨hcontainers, hspelled⟩
  refine ⟨found, hfound, fun a b => ⟨?_, ?_⟩⟩
  · rintro ⟨d, hd, rfl, rfl⟩
    exact around_of_reported hfound hd
  · rintro ⟨reading, hreading, hforbids, ha, hb, c, hc⟩
    obtain ⟨d, hd, himporter, himported, -⟩ :=
      reported_of_around hfound hreading hforbids ha hb hc
    exact ⟨d, hd, himporter, himported⟩

/-- The lower of two modules reaches the higher one through a module outside the layers. -/
def climbing : Graph :=
  ofEdits [.addModule "p" false, .addImport "p.low" "m", .addImport "m" "p.high"]

/-- One module above another. -/
def twoStoreys : List Layer := [.single "high", .single "low"]

theorem exists_of_reads {name : String} {reading : Option ModuleName} (h : Reads [name] reading) :
    ∃ container : ModuleName, container.text = name ∧ reading = some container := by
  cases reading with
  | none => cases h
  | some container => exact ⟨container, List.mem_singleton.1 h, rfl⟩

theorem names_twoStoreys {reading : Option ModuleName} {e : ModuleName}
    (hreading : Reads ["p"] reading) :
    (∃ layer ∈ twoStoreys, layer.Names reading e) ↔ e.text = "p.high" ∨ e.text = "p.low" := by
  obtain ⟨p, hp, rfl⟩ := exists_of_reads hreading
  simp [twoStoreys, Layer.Names, Layer.mem_tails_single, Layer.fullText, hp]

theorem spelled_twoStoreys (reading : Option ModuleName) (hreading : Reads ["p"] reading) :
    Layer.Spelled twoStoreys reading := by
  obtain ⟨p, hp, rfl⟩ := exists_of_reads hreading
  intro layer hlayer tail htail
  rw [Layer.fullText, hp]
  have htails : tail = "high" ∨ tail = "low" := by
    rcases List.mem_cons.1 hlayer with rfl | hlayer
    · exact .inl (Layer.mem_tails_single.1 htail)
    · obtain rfl := List.mem_singleton.1 hlayer
      exact .inr (Layer.mem_tails_single.1 htail)
  rcases htails with rfl | rfl
  · exact ⟨⟨"p.high", by decide⟩, by decide⟩
  · exact ⟨⟨"p.low", by decide⟩, by decide⟩

/-- The dependency is reported although no import leads from the one module to the other. -/
theorem exists_illegalDependency_climbing : ∃ low high : ModuleName,
    low.text = "p.low" ∧ high.text = "p.high" ∧
      (∀ name ∈ ["p"], climbing.contains name = true) ∧
      (∀ reading, Reads ["p"] reading → Layer.Spelled twoStoreys reading) ∧
      ∃ found, climbing.illegalDependencies twoStoreys ["p"] = .ok found ∧
        ∃ d ∈ found, d.importer = low ∧ d.imported = high := by
  let low : ModuleName := ⟨"p.low", by decide⟩
  let m : ModuleName := ⟨"m", by decide⟩
  let high : ModuleName := ⟨"p.high", by decide⟩
  have hp : ∀ name ∈ ["p"], climbing.contains name = true := by decide +kernel
  have hlow : low ∈ climbing.modules := by decide +kernel
  have hhigh : high ∈ climbing.modules := by decide +kernel
  have hreading : Reads ["p"] (some ⟨"p", by decide⟩) := List.mem_singleton.2 rfl
  have hforbids : Forbids twoStoreys (some ⟨"p", by decide⟩) low high :=
    ⟨1, _, rfl, ⟨"low", by decide +kernel, by decide⟩, 0, _, rfl,
      ⟨"high", by decide +kernel, by decide⟩, .inl Nat.one_pos⟩
  have hw : Walk climbing.importList low high [low, m, high] :=
    .step (by decide +kernel) (.step (by decide +kernel) (.here high))
  obtain ⟨found, hfound, hreported⟩ :=
    exists_illegalDependency_iff climbing twoStoreys ["p"] hp spelled_twoStoreys
  refine ⟨low, high, rfl, rfl, hp, spelled_twoStoreys, found, hfound,
    (hreported low high).2 ⟨_, hreading, hforbids, hlow, hhigh, [low, m, high],
      ⟨low, mem_closure_self hlow, high, mem_closure_self hhigh, hw, by decide⟩, ?_⟩⟩
  -- the layers name nothing but the two modules themselves
  rintro e - ⟨hnamed, hnotLow, hnotHigh⟩
  rcases (names_twoStoreys hreading).1 hnamed with h | h
  · exact (hnotHigh (.inl (ModuleName.ext_text h))).elim
  · exact (hnotLow (.inl (ModuleName.ext_text h))).elim

/-! ## Taking the routes away -/

theorem Around.mono {h : Graph} {avoid : ModuleName → Prop} (hmodules : h.modules = g.modules)
    (himports : ∀ i ∈ h.imports, i ∈ g.imports) (hc : h.Around avoid a b c) :
    g.Around avoid a b c := by
  obtain ⟨hjoins, haround⟩ := hc
  simp only [closure_congr hmodules, hmodules] at hjoins haround
  refine ⟨hjoins.of_hops fun i hi => ?_, haround⟩
  exact mem_importList.2 (himports i (mem_importList.1 (hjoins.hops_subset i hi)))

/-- **Taking away the imports of all routes takes away every dependency.** -/
theorem illegalDependencies_after_removal (hg : Reachable g)
    (hfound : g.illegalDependencies layers names = .ok found) (removed : List Import)
    (hremoved : ∀ i, i ∈ removed ↔ ∃ d ∈ found, ∃ r ∈ d.routes, i ∈ r.imports) :
    ((removed.map removal).foldl edit g).illegalDependencies layers names = .ok ∅ := by
  obtain ⟨hmodules, himports⟩ := foldl_removal removed g (endsPresent_of_reachable hg)
  generalize (removed.map removal).foldl edit g = h at hmodules himports
  obtain ⟨hcontainers, hspelled⟩ := exists_illegalDependencies_iff.1 ⟨found, hfound⟩
  obtain ⟨left, hleft⟩ : ∃ left, h.illegalDependencies layers names = .ok left := by
    refine exists_illegalDependencies_iff.2 ⟨fun name hn => ?_, hspelled⟩
    rw [contains_iff, hmodules]
    exact contains_iff.1 (hcontainers name hn)
  rw [hleft]
  refine congrArg _ (Std.ExtTreeSet.ext_mem fun d => ⟨fun hd => ?_, fun hd => ?_⟩)
  · -- whatever is still reported has a chain, which was one before and lost an import
    obtain ⟨reading, hreading, hforbids, ha, hb, c, hc⟩ := around_of_reported hleft hd
    rw [hmodules] at ha hb
    obtain ⟨d', hd', -, -, r, hr, j, hj, hjr⟩ := reported_of_around hfound hreading hforbids ha hb
      (hc.mono hmodules fun i hi => ((himports i).1 hi).1)
    have hgone := ((himports j).1 (mem_importList.1 (hc.1.hops_subset j hj))).2
    exact (hgone ((hremoved j).2 ⟨d', hd', r, hr, hjr⟩)).elim
  · exact (Std.ExtTreeSet.not_mem_empty hd).elim

/-- The imports of the routes, one after the other, are such a list. -/
theorem illegalDependencies_after_removal_climbing :
    ∃ (found : Std.ExtTreeSet Dependency compare) (removed : List Import), Reachable climbing ∧
      climbing.illegalDependencies twoStoreys ["p"] = .ok found ∧
      (∀ i, i ∈ removed ↔ ∃ d ∈ found, ∃ r ∈ d.routes, i ∈ r.imports) ∧ found.isEmpty = false ∧
      ((removed.map removal).foldl edit climbing).illegalDependencies twoStoreys ["p"] = .ok ∅ := by
  have hp : ∀ name ∈ ["p"], climbing.contains name = true := by decide +kernel
  obtain ⟨found, hfound⟩ := exists_illegalDependencies_iff.2 ⟨hp, spelled_twoStoreys⟩
  have hremoved : ∀ i,
      i ∈ (found.toList.flatMap fun d : Dependency => d.routes.flatMap Route.imports) ↔
        ∃ d ∈ found, ∃ r ∈ d.routes, i ∈ r.imports := by
    simp only [List.mem_flatMap, Std.ExtTreeSet.mem_toList, implies_true]
  have hsome :
      (climbing.illegalDependencies twoStoreys ["p"]).toOption.all (·.isEmpty) = false := by
    decide +kernel
  have hreachable : Reachable climbing := ⟨_, rfl⟩
  rw [hfound] at hsome
  exact ⟨found, _, hreachable, hfound, hremoved, hsome,
    illegalDependencies_after_removal hreachable hfound _ hremoved⟩

/-! ## The graph afterwards -/

theorem illegalDependenciesAfter_snd :
    (g.illegalDependenciesAfter layers names).2 = g := by
  cases h : g.containers names with
  | error e => rw [illegalDependenciesAfter, h]
  | ok containers =>
    rw [illegalDependenciesAfter_of_containers h]
    exact searchReadings_snd _

/-- **The questions that hide imports leave the graph as it was**, answered or refused, with every
module, flag, import and site in its place. -/
theorem unchanged_after_questions (g : Graph) :
    (∀ importer imported asPackages,
      (g.shortestChainsAfter importer imported asPackages).2 = g) ∧
    ∀ layers names, (g.illegalDependenciesAfter layers names).2 = g := by
  refine ⟨fun importer imported asPackages => ?_, fun layers names => illegalDependenciesAfter_snd⟩
  rcases shortestChainsAfter_cases g importer imported asPackages with
    ⟨a, b, ha, hb, hapart⟩ | ⟨e, he⟩
  · rw [shortestChainsAfter_of_apart ha hb hapart]
    exact (ensures_searchChains fun m => notMem_extent_of_apart hapart).restores
  · rw [he]

end Graph
end ImportAtlas
