import ImportAtlas.Graph.Veil
/-!
# What a veil hides

`Veil.drawn g hidden` is the graph `g` with the imports of a list out of sight.  Hiding more puts
more on the list, revealing takes some off it, and lifting gives `g` back whatever the list
(`hide_drawn`, `reveal_drawn`, `lift_drawn`).  What is hidden twice, is not in the graph, or is
revealed without having been hidden makes no difference, since only membership counts.

So a search can be followed by the list alone.  `Ensures` says what a search that starts behind
such a list answers, and that it ends behind one again; there is one rule for each step a search can
make.  **Every search that has such a statement leaves the graph as it was**
(`Veiled.Ensures.restores`).
-/
namespace ImportAtlas

/-- The graph with the imports of a list hidden, as far as it has them. -/
def Veil.drawn (g : Graph) (hidden : List Import) : Veil where
  visible := { g with imports := g.imports.filter fun i _ => decide (i ∉ hidden) }
  hidden := g.imports.filter fun i _ => decide (i ∈ hidden)

/-- The imports that are not on the list. -/
def Graph.inSight (g : Graph) (hidden : List Import) : List Import :=
  g.importList.filter fun i => decide (i ∉ hidden)

theorem Graph.mem_inSight {g : Graph} {hidden : List Import} {i : Import} :
    i ∈ g.inSight hidden ↔ i ∈ g.imports ∧ i ∉ hidden := by
  simp [Graph.inSight, Graph.mem_importList]

theorem Graph.inSight_nil (g : Graph) : g.inSight [] = g.importList :=
  List.filter_eq_self.2 fun _ _ => by simp

theorem mem_stillHidden {hidden moved : List Import} {i : Import} :
    i ∈ hidden.filter (fun i => decide (i ∉ moved)) ↔ i ∈ hidden ∧ i ∉ moved := by
  simp

theorem notMem_stillHidden {hidden moved : List Import} {i : Import} :
    i ∉ hidden.filter (fun i => decide (i ∉ moved)) ↔ i ∉ hidden ∨ i ∈ moved := by
  rw [mem_stillHidden, Decidable.not_and_iff_or_not, Decidable.not_not]

namespace Veil

variable {g : Graph} {v : Veil} {hidden imports : List Import} {i j : Import}

theorem ext_lookup {v w : Veil} (hm : v.visible.modules = w.visible.modules)
    (hv : ∀ i : Import, v.visible.imports[i]? = w.visible.imports[i]?)
    (hh : ∀ i : Import, v.hidden[i]? = w.hidden[i]?) : v = w := by
  obtain ⟨⟨vm, vi⟩, vh⟩ := v
  obtain ⟨⟨wm, wi⟩, wh⟩ := w
  obtain rfl : vm = wm := hm
  obtain rfl : vi = wi := Std.ExtTreeMap.ext_getElem? hv
  obtain rfl : vh = wh := Std.ExtTreeMap.ext_getElem? hh
  rfl

/-! ## One import moved -/

theorem modules_hideOne : (v.hideOne i).visible.modules = v.visible.modules := by
  unfold hideOne
  split <;> rfl

theorem visible_hideOne : (v.hideOne i).visible.imports[j]? =
    if j = i then none else v.visible.imports[j]? := by
  unfold hideOne
  split
  · next h =>
    by_cases hj : j = i
    · rw [if_pos hj, hj, h]
    · rw [if_neg hj]
  · rw [Std.ExtTreeMap.getElem?_erase]
    by_cases hj : j = i
    · simp [hj]
    · rw [if_neg fun e => hj (Import.eq_of_compare_eq e).symm, if_neg hj]

theorem hidden_hideOne : (v.hideOne i).hidden[j]? =
    if j = i then v.visible.imports[i]?.or v.hidden[i]? else v.hidden[j]? := by
  unfold hideOne
  split
  · next h =>
    by_cases hj : j = i
    · rw [if_pos hj, hj, h, Option.none_or]
    · rw [if_neg hj]
  · next sites h =>
    rw [Std.ExtTreeMap.getElem?_insert]
    by_cases hj : j = i
    · simp [hj, h]
    · rw [if_neg fun e => hj (Import.eq_of_compare_eq e).symm, if_neg hj]

theorem modules_revealOne : (v.revealOne i).visible.modules = v.visible.modules := by
  unfold revealOne
  split <;> rfl

theorem visible_revealOne : (v.revealOne i).visible.imports[j]? =
    if j = i then v.hidden[i]?.or v.visible.imports[i]? else v.visible.imports[j]? := by
  unfold revealOne
  split
  · next h =>
    by_cases hj : j = i
    · rw [if_pos hj, hj, h, Option.none_or]
    · rw [if_neg hj]
  · next sites h =>
    rw [Std.ExtTreeMap.getElem?_insert]
    by_cases hj : j = i
    · simp [hj, h]
    · rw [if_neg fun e => hj (Import.eq_of_compare_eq e).symm, if_neg hj]

theorem hidden_revealOne : (v.revealOne i).hidden[j]? =
    if j = i then none else v.hidden[j]? := by
  unfold revealOne
  split
  · next h =>
    by_cases hj : j = i
    · rw [if_pos hj, hj, h]
    · rw [if_neg hj]
  · rw [Std.ExtTreeMap.getElem?_erase]
    by_cases hj : j = i
    · simp [hj]
    · rw [if_neg fun e => hj (Import.eq_of_compare_eq e).symm, if_neg hj]

theorem mem_visible_hideOne : j ∈ (v.hideOne i).visible.imports ↔ j ∈ v.visible.imports ∧ j ≠ i := by
  rw [Std.ExtTreeMap.mem_iff_isSome_getElem?, visible_hideOne, Std.ExtTreeMap.mem_iff_isSome_getElem?]
  by_cases h : j = i <;> simp [h]

theorem mem_hidden_hideOne :
    j ∈ (v.hideOne i).hidden ↔ j ∈ v.hidden ∨ (j = i ∧ i ∈ v.visible.imports) := by
  simp only [Std.ExtTreeMap.mem_iff_isSome_getElem?]
  rw [hidden_hideOne]
  by_cases h : j = i
  · simp [h, or_comm]
  · simp [h]

theorem mem_visible_revealOne :
    j ∈ (v.revealOne i).visible.imports ↔ j ∈ v.visible.imports ∨ (j = i ∧ i ∈ v.hidden) := by
  simp only [Std.ExtTreeMap.mem_iff_isSome_getElem?]
  rw [visible_revealOne]
  by_cases h : j = i
  · simp [h, or_comm]
  · simp [h]

theorem mem_hidden_revealOne : j ∈ (v.revealOne i).hidden ↔ j ∈ v.hidden ∧ j ≠ i := by
  rw [Std.ExtTreeMap.mem_iff_isSome_getElem?, hidden_revealOne, Std.ExtTreeMap.mem_iff_isSome_getElem?]
  by_cases h : j = i <;> simp [h]

/-- Hiding a list takes out of sight what is on it. -/
theorem mem_visible_hide : j ∈ (v.hide imports).visible.imports ↔ j ∈ v.visible.imports ∧ j ∉ imports := by
  unfold hide
  induction imports generalizing v with
  | nil => simp
  | cons i imports ih =>
    rw [List.foldl_cons, ih, mem_visible_hideOne, List.mem_cons, not_or, and_assoc]

/-! ## The list of what is hidden -/

theorem visible_drawn (g : Graph) (hidden : List Import) (i : Import) :
    (drawn g hidden).visible.imports[i]? = if i ∈ hidden then none else g.imports[i]? := by
  rw [drawn, Std.ExtTreeMap.getElem?_filter']
  by_cases h : i ∈ hidden
  · simp [h]
  · cases g.imports[i]? <;> simp [h]

theorem hidden_drawn (g : Graph) (hidden : List Import) (i : Import) :
    (drawn g hidden).hidden[i]? = if i ∈ hidden then g.imports[i]? else none := by
  rw [drawn, Std.ExtTreeMap.getElem?_filter']
  by_cases h : i ∈ hidden
  · cases g.imports[i]? <;> simp [h]
  · simp [h]

theorem mem_visible_drawn : i ∈ (drawn g hidden).visible.imports ↔ i ∈ g.imports ∧ i ∉ hidden := by
  rw [Std.ExtTreeMap.mem_iff_isSome_getElem?, visible_drawn, Std.ExtTreeMap.mem_iff_isSome_getElem?]
  by_cases h : i ∈ hidden <;> simp [h]

theorem mem_hidden_drawn : i ∈ (drawn g hidden).hidden ↔ i ∈ g.imports ∧ i ∈ hidden := by
  rw [Std.ExtTreeMap.mem_iff_isSome_getElem?, hidden_drawn, Std.ExtTreeMap.mem_iff_isSome_getElem?]
  by_cases h : i ∈ hidden <;> simp [h]

theorem importList_drawn (g : Graph) (hidden : List Import) :
    (drawn g hidden).visible.importList = g.inSight hidden :=
  Std.ExtTreeMap.keys_filter_key

theorem drawn_nil (g : Graph) : drawn g [] = { visible := g } := by
  refine ext_lookup rfl (fun i => ?_) fun i => ?_
  · simp [visible_drawn]
  · simp [hidden_drawn]

theorem hideOne_drawn : (drawn g hidden).hideOne i = drawn g (hidden ++ [i]) := by
  refine ext_lookup modules_hideOne (fun j => ?_) fun j => ?_
  · rw [visible_hideOne, visible_drawn, visible_drawn]
    by_cases hj : j = i <;> simp [hj]
  · rw [hidden_hideOne, visible_drawn, hidden_drawn, hidden_drawn, hidden_drawn]
    by_cases hj : j = i <;> by_cases hi : i ∈ hidden <;> simp [hj, hi]

theorem revealOne_drawn :
    (drawn g hidden).revealOne i = drawn g (hidden.filter fun j => decide (j ≠ i)) := by
  refine ext_lookup modules_revealOne (fun j => ?_) fun j => ?_
  · rw [visible_revealOne, visible_drawn, visible_drawn, hidden_drawn, visible_drawn]
    by_cases hj : j = i <;> by_cases hi : i ∈ hidden <;> simp [hj, hi]
  · rw [hidden_revealOne, hidden_drawn, hidden_drawn]
    by_cases hj : j = i <;> simp [hj]

theorem hide_drawn (g : Graph) (imports : List Import) : ∀ hidden,
    (drawn g hidden).hide imports = drawn g (hidden ++ imports) := by
  induction imports with
  | nil => intro hidden; simp [hide]
  | cons i imports ih =>
    intro hidden
    rw [hide, List.foldl_cons, hideOne_drawn]
    exact (ih _).trans (by rw [List.append_assoc, List.singleton_append])

theorem reveal_drawn (g : Graph) (imports : List Import) : ∀ hidden,
    (drawn g hidden).reveal imports = drawn g (hidden.filter fun j => decide (j ∉ imports)) := by
  induction imports with
  | nil =>
    intro hidden
    rw [reveal, List.foldl_nil]
    exact congrArg _ (List.filter_eq_self.2 fun _ _ => by simp).symm
  | cons i imports ih =>
    intro hidden
    rw [reveal, List.foldl_cons, revealOne_drawn]
    refine (ih _).trans (congrArg _ ?_)
    rw [List.filter_filter]
    exact List.filter_congr fun j _ => by simp [Bool.and_comm]

/-- **Lifting the veil gives the graph back**, whatever was hidden. -/
theorem lift_drawn (g : Graph) (hidden : List Import) : (drawn g hidden).lift = g := by
  refine Graph.ext_lookup (fun _ => rfl) fun i => ?_
  rw [lift, Std.ExtTreeMap.getElem?_union, visible_drawn, hidden_drawn]
  by_cases h : i ∈ hidden <;> simp [h]

end Veil

/-! ## Searches behind a veil -/

namespace Veiled

/-- Run on `g` with the list hidden, the search answers something and leaves a list hidden, and `Q`
holds of the two. -/
def Ensures {α : Type} (g : Graph) (hidden : List Import) (search : Veiled α)
    (Q : α → List Import → Prop) : Prop :=
  ∃ hidden', (search.run (.drawn g hidden)).2 = .drawn g hidden' ∧
    Q (search.run (.drawn g hidden)).1 hidden'

namespace Ensures

variable {α β : Type} {g : Graph} {hidden moved : List Import}

/-- **A search that ends behind a veil restores the graph.** -/
theorem restores {search : Veiled α} {Q : α → List Import → Prop} (h : Ensures g [] search Q) :
    (g.veiled search).2 = g := by
  obtain ⟨hidden, hrun, -⟩ := h
  rw [Veil.drawn_nil] at hrun
  show (search.run { visible := g }).2.lift = g
  rw [hrun, Veil.lift_drawn]

/-- What a search ensures of its answer, it ensures of the answer about the whole graph. -/
theorem answer {search : Veiled α} {Q : α → Prop} (h : Ensures g [] search fun a _ => Q a) :
    Q (g.veiled search).1 := by
  obtain ⟨hidden, -, hQ⟩ := h
  rwa [Veil.drawn_nil] at hQ

theorem mono {search : Veiled α} {Q Q' : α → List Import → Prop} (h : Ensures g hidden search Q)
    (hQ : ∀ a hidden, Q a hidden → Q' a hidden) : Ensures g hidden search Q' := by
  obtain ⟨hidden', hrun, hend⟩ := h
  exact ⟨hidden', hrun, hQ _ _ hend⟩

theorem pure {a : α} {Q : α → List Import → Prop} (h : Q a hidden) :
    Ensures g hidden (pure a) Q :=
  ⟨hidden, rfl, h⟩

theorem bind {search : Veiled α} {next : α → Veiled β} {Q : β → List Import → Prop}
    (h : Ensures g hidden search fun a hidden' => Ensures g hidden' (next a) Q) :
    Ensures g hidden (search >>= next) Q := by
  obtain ⟨hidden', hrun, hidden'', hrun', hQ⟩ := h
  rw [← hrun] at hrun' hQ
  exact ⟨hidden'', hrun', hQ⟩

theorem hide {Q : Unit → List Import → Prop} (h : Q () (hidden ++ moved)) :
    Ensures g hidden (hide moved) Q :=
  ⟨_, Veil.hide_drawn g moved hidden, h⟩

theorem reveal {Q : Unit → List Import → Prop}
    (h : Q () (hidden.filter fun i => decide (i ∉ moved))) : Ensures g hidden (reveal moved) Q :=
  ⟨_, Veil.reveal_drawn g moved hidden, h⟩

theorem imports {Q : List Import → List Import → Prop} (h : Q (g.inSight hidden) hidden) :
    Ensures g hidden imports Q := by
  refine ⟨hidden, rfl, ?_⟩
  show Q (Veil.drawn g hidden).visible.importList hidden
  rwa [Veil.importList_drawn]

/-- One search for each element of a list, with an invariant `I` before and after every one. -/
theorem mapM {search : α → Veiled β} {I : List Import → Prop} {R : α → β → Prop} :
    ∀ {l : List α} {hidden : List Import},
    (∀ a ∈ l, ∀ hidden, I hidden →
      Ensures g hidden (search a) fun b hidden' => R a b ∧ I hidden') → I hidden →
    Ensures g hidden (l.mapM search) fun bs hidden' =>
      ((∀ b ∈ bs, ∃ a ∈ l, R a b) ∧ ∀ a ∈ l, ∃ b ∈ bs, R a b) ∧ I hidden'
  | [], _, _, hI => pure ⟨⟨by simp, by simp⟩, hI⟩
  | a :: l, hidden, h, hI => by
    rw [List.mapM_cons]
    refine bind ((h a List.mem_cons_self hidden hI).mono fun b _ hb => ?_)
    refine bind ((mapM (fun a' ha' => h a' (List.mem_cons_of_mem a ha')) hb.2).mono fun bs _ hbs => ?_)
    refine pure ⟨⟨fun b' hb' => ?_, fun a' ha' => ?_⟩, hbs.2⟩
    · rcases List.mem_cons.1 hb' with rfl | hb'
      · exact ⟨a, List.mem_cons_self, hb.1⟩
      · obtain ⟨a', ha', hR⟩ := hbs.1.1 b' hb'
        exact ⟨a', List.mem_cons_of_mem a ha', hR⟩
    · rcases List.mem_cons.1 ha' with rfl | ha'
      · exact ⟨b, List.mem_cons_self, hb.1⟩
      · obtain ⟨b', hb', hR⟩ := hbs.1.2 a' ha'
        exact ⟨b', List.mem_cons_of_mem b hb', hR⟩

theorem mapM_flatten {search : α → Veiled (List β)} {I : List Import → Prop} {F : α → β → Prop}
    {l : List α} (h : ∀ a ∈ l, ∀ hidden, I hidden →
      Ensures g hidden (search a) fun bs hidden' => (∀ b, b ∈ bs ↔ F a b) ∧ I hidden')
    (hI : I hidden) : Ensures g hidden (l.mapM search) fun bss hidden' =>
      (∀ b, b ∈ bss.flatten ↔ ∃ a ∈ l, F a b) ∧ I hidden' := by
  refine (mapM h hI).mono fun bss _ hbss => ⟨fun b => ?_, hbss.2⟩
  rw [List.mem_flatten]
  constructor
  · rintro ⟨bs, hbs, hb⟩
    obtain ⟨a, ha, hF⟩ := hbss.1.1 bs hbs
    exact ⟨a, ha, (hF b).1 hb⟩
  · rintro ⟨a, ha, hF⟩
    obtain ⟨bs, hbs, hall⟩ := hbss.1.2 a ha
    exact ⟨bs, hbs, (hall b).2 hF⟩

/-- A loop that only hides puts everything it hides on the list. -/
theorem hideEach {touching : α → List Import} {Q : PUnit → List Import → Prop} :
    ∀ {l : List α} {hidden : List Import}, Q ⟨⟩ (hidden ++ l.flatMap touching) →
    Ensures g hidden (forIn l PUnit.unit fun a _ => do
      Veiled.hide (touching a)
      Pure.pure (ForInStep.yield PUnit.unit)) Q
  | [], _, h => pure (by simpa using h)
  | a :: l, hidden, h => by
    rw [List.forIn_cons, bind_assoc]
    refine bind (hide ?_)
    rw [pure_bind]
    exact hideEach (by simpa using h)

end Ensures
end Veiled
end ImportAtlas
