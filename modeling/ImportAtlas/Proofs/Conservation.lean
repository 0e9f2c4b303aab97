import Mathlib.Data.List.Induction
import ImportAtlas.Proofs.Veil
/-!
# Nothing gets lost behind a veil

A search hides and reveals whatever lists it likes, with repetitions, with imports that the graph
does not have, that are out of sight already or that nobody hid.  After any number of calls what is
out of sight are the imports of the graph that some call hides and no later one reveals
(`Veil.LastHides`, `Veil.exists_drawn`); all others are in sight, and nothing else is on either
side.

A veil is made of maps, which could not hold an import twice if they tried.  So the calls are
followed a second time on a `Row`, where an import that is put back once too often stands there
twice.  The row goes along with the veil, call by call (`Row.Follows.call`), and never holds
anything twice.
-/
namespace ImportAtlas

namespace Veil

/-- What a search may do to a veil. -/
inductive Call where
  | hide (imports : List Import)
  | reveal (imports : List Import)

def call (v : Veil) : Call → Veil
  | .hide imports => v.hide imports
  | .reveal imports => v.reveal imports

/-- A graph behind a veil, after any number of calls. -/
def after (g : Graph) (calls : List Call) : Veil := calls.foldl call { visible := g }

/-- Some call hides the import and no later one reveals it. -/
def LastHides (calls : List Call) (i : Import) : Prop :=
  ∃ before imports later, calls = before ++ .hide imports :: later ∧ i ∈ imports ∧
    ∀ shown, .reveal shown ∈ later → i ∉ shown

/-- Between them, the two sides hold the graph, each import on one of them. -/
structure Conserves (g : Graph) (v : Veil) : Prop where
  apart : ∀ i ∈ v.visible.imports, i ∉ v.hidden
  together : ∀ i, i ∈ g.imports ↔ i ∈ v.visible.imports ∨ i ∈ v.hidden
  sites : ∀ i : Import, ∀ s, g.imports[i]? = some s ↔ v.visible.imports[i]? = some s ∨ v.hidden[i]? = some s
  modules : v.visible.modules = g.modules
  lifted : v.lift = g

end Veil

/-- Imports one after the other, where one may stand twice, and the set of those that were taken out. -/
structure Row where
  standing : List Import
  taken : Std.ExtTreeSet Import := ∅

namespace Row

def takeOne (r : Row) (i : Import) : Row :=
  if i ∈ r.standing then { standing := r.standing.erase i, taken := r.taken.insert i } else r

def returnOne (r : Row) (i : Import) : Row :=
  if i ∈ r.taken then { standing := r.standing ++ [i], taken := r.taken.erase i } else r

def call (r : Row) : Veil.Call → Row
  | .hide imports => imports.foldl takeOne r
  | .reveal imports => imports.foldl returnOne r

/-- The imports of a graph in a row, after any number of calls. -/
def after (g : Graph) (calls : List Veil.Call) : Row := calls.foldl call { standing := g.importList }

/-- The row with all that was taken out of it put back at its end. -/
def whole (r : Row) : List Import := r.standing ++ r.taken.toList

/-- The row holds what is in sight, each import once, and what is hidden was taken out of it. -/
structure Follows (r : Row) (v : Veil) : Prop where
  nodup : r.standing.Nodup
  standing : ∀ i, i ∈ r.standing ↔ i ∈ v.visible.imports
  taken : ∀ i, i ∈ r.taken ↔ i ∈ v.hidden
  apart : ∀ i ∈ v.visible.imports, i ∉ v.hidden

end Row

namespace Veil

variable {g : Graph} {v : Veil} {calls : List Call} {c : Call} {hidden imports : List Import} {i : Import}

/-! ## The last call -/

theorem not_lastHides_nil : ¬ LastHides [] i := by
  intro h
  obtain ⟨before, imports, later, hcalls, -⟩ := h
  simp at hcalls

theorem lastHides_concat : LastHides (calls ++ [c]) i ↔
    (∃ imports, c = .hide imports ∧ i ∈ imports) ∨
      (LastHides calls i ∧ ∀ shown, c = .reveal shown → i ∉ shown) := by
  constructor
  · intro h
    obtain ⟨before, imports, later, hcalls, hi, hlater⟩ := h
    rcases List.eq_nil_or_concat later with hnil | ⟨front, last, hlast⟩
    · subst hnil
      have hc := (List.append_inj' hcalls rfl).2
      exact .inl ⟨imports, (List.cons.inj hc).1, hi⟩
    · rw [List.concat_eq_append] at hlast
      subst hlast
      have hsplit : calls ++ [c] = (before ++ .hide imports :: front) ++ [last] := by simp [hcalls]
      obtain ⟨hfront, hc⟩ := List.append_inj' hsplit rfl
      have hc := (List.cons.inj hc).1
      refine .inr ⟨⟨before, imports, front, hfront, hi, fun shown hs => ?_⟩, fun shown hs => ?_⟩
      · exact hlater shown (List.mem_append_left _ hs)
      · exact hlater shown (by simp [← hc, hs])
  · intro h
    rcases h with ⟨imports, hc, hi⟩ | ⟨⟨before, imports, later, hcalls, hi, hlater⟩, hc⟩
    · exact ⟨calls, imports, [], by rw [hc], hi, by simp⟩
    · refine ⟨before, imports, later ++ [c], by simp [hcalls], hi, fun shown hs => ?_⟩
      rcases List.mem_append.1 hs with hs | hs
      · exact hlater shown hs
      · exact hc shown (List.mem_singleton.1 hs).symm

theorem lastHides_concat_hide :
    LastHides (calls ++ [.hide imports]) i ↔ LastHides calls i ∨ i ∈ imports := by
  rw [lastHides_concat]
  simp [or_comm]

theorem lastHides_concat_reveal :
    LastHides (calls ++ [.reveal imports]) i ↔ LastHides calls i ∧ i ∉ imports := by
  rw [lastHides_concat]
  simp

/-- **What the calls leave is the graph behind a list**, and on the list is what the last call hides. -/
theorem exists_drawn (g : Graph) (calls : List Call) :
    ∃ hidden, after g calls = drawn g hidden ∧ ∀ i, i ∈ hidden ↔ LastHides calls i := by
  induction calls using List.reverseRecOn with
  | nil => exact ⟨[], (drawn_nil g).symm, fun i => iff_of_false List.not_mem_nil not_lastHides_nil⟩
  | append_singleton calls c ih =>
    obtain ⟨hidden, hafter, hmem⟩ := ih
    have hstep : after g (calls ++ [c]) = (drawn g hidden).call c := by
      unfold after at hafter ⊢
      rw [List.foldl_append, hafter]
      rfl
    cases c with
    | hide imports =>
      refine ⟨hidden ++ imports, hstep.trans (hide_drawn g imports hidden), fun i => ?_⟩
      rw [List.mem_append, hmem, lastHides_concat_hide]
    | reveal imports =>
      refine ⟨_, hstep.trans (reveal_drawn g imports hidden), fun i => ?_⟩
      rw [mem_stillHidden, hmem, lastHides_concat_reveal]

theorem conserves_drawn (g : Graph) (hidden : List Import) : Conserves g (drawn g hidden) where
  apart i hi hh := (mem_visible_drawn.1 hi).2 (mem_hidden_drawn.1 hh).2
  together i := by
    rw [mem_visible_drawn, mem_hidden_drawn, ← and_or_left]
    exact (and_iff_left (Decidable.em _).symm).symm
  sites i s := by
    rw [visible_drawn, hidden_drawn]
    by_cases h : i ∈ hidden <;> simp [h]
  modules := rfl
  lifted := lift_drawn g hidden

end Veil

/-! ## The same calls on a row -/

namespace Row

variable {g : Graph} {r : Row} {v : Veil} {i : Import}

theorem Follows.takeOne (h : r.Follows v) (i : Import) : (r.takeOne i).Follows (v.hideOne i) := by
  unfold Row.takeOne
  split
  · next hi =>
    have hsight := (h.standing i).1 hi
    refine ⟨h.nodup.erase i, fun j => ?_, fun j => ?_, fun j hj hh => ?_⟩
    · rw [h.nodup.mem_erase_iff, h.standing, Veil.mem_visible_hideOne, and_comm]
    · rw [Std.ExtTreeSet.mem_insert, Std.compare_eq_iff_eq, h.taken, Veil.mem_hidden_hideOne]
      simp [hsight, or_comm, eq_comm]
    · rw [Veil.mem_visible_hideOne] at hj
      rw [Veil.mem_hidden_hideOne] at hh
      exact hh.elim (h.apart j hj.1) fun e => hj.2 e.1
  · next hi =>
    -- nothing is there to be taken, and the veil finds nothing either
    have hout : i ∉ v.visible.imports := fun hv => hi ((h.standing i).2 hv)
    have hsame : v.hideOne i = v := by
      unfold Veil.hideOne
      rw [Std.ExtTreeMap.getElem?_eq_none hout]
    rwa [hsame]

theorem Follows.returnOne (h : r.Follows v) (i : Import) : (r.returnOne i).Follows (v.revealOne i) := by
  unfold Row.returnOne
  split
  · next hi =>
    have hhidden := (h.taken i).1 hi
    have hout : i ∉ r.standing := fun hs => h.apart i ((h.standing i).1 hs) hhidden
    refine ⟨?_, fun j => ?_, fun j => ?_, fun j hj hh => ?_⟩
    · rw [(List.perm_append_singleton i r.standing).nodup_iff]
      exact List.nodup_cons.2 ⟨hout, h.nodup⟩
    · rw [List.mem_append, List.mem_singleton, h.standing, Veil.mem_visible_revealOne]
      simp [hhidden]
    · rw [Std.ExtTreeSet.mem_erase, Std.compare_ne_eq_iff_ne, h.taken, Veil.mem_hidden_revealOne]
      simp [and_comm, eq_comm]
    · rw [Veil.mem_visible_revealOne] at hj
      rw [Veil.mem_hidden_revealOne] at hh
      exact hj.elim (fun hj => h.apart j hj hh.1) fun e => hh.2 e.1
  · next hi =>
    have hout : i ∉ v.hidden := fun hv => hi ((h.taken i).2 hv)
    have hsame : v.revealOne i = v := by
      unfold Veil.revealOne
      rw [Std.ExtTreeMap.getElem?_eq_none hout]
    rwa [hsame]

/-- **One call**: the row goes along with the veil. -/
theorem Follows.call (h : r.Follows v) (c : Veil.Call) : (r.call c).Follows (v.call c) := by
  cases c with
  | hide imports => exact List.foldl_rel h fun i _ _ _ h => h.takeOne i
  | reveal imports => exact List.foldl_rel h fun i _ _ _ h => h.returnOne i

theorem follows_after (g : Graph) (calls : List Veil.Call) : (after g calls).Follows (Veil.after g calls) := by
  refine List.foldl_rel ⟨g.nodup_importList, fun i => ?_, fun i => ?_, fun i _ => ?_⟩
    fun c _ _ _ h => h.call c
  · exact Graph.mem_importList
  · simp
  · simp

theorem Follows.perm (h : r.Follows v) : r.standing.Perm v.visible.importList :=
  (List.perm_ext_iff_of_nodup h.nodup v.visible.nodup_importList).2 fun i =>
    (h.standing i).trans Graph.mem_importList.symm

/-- **Put back, the row is the graph's again**, in some order. -/
theorem Follows.whole_perm (h : r.Follows v) (hv : v.Conserves g) : r.whole.Perm g.importList := by
  have htaken : r.taken.toList.Nodup := r.taken.distinct_toList.imp fun hne e => hne (Std.compare_eq_iff_eq.2 e)
  have hnodup : r.whole.Nodup := by
    refine List.nodup_append.2 ⟨h.nodup, htaken, fun i hi j hj e => ?_⟩
    have hhidden := (h.taken j).1 (Std.ExtTreeSet.mem_toList.1 hj)
    exact h.apart i ((h.standing i).1 hi) (e ▸ hhidden)
  refine (List.perm_ext_iff_of_nodup hnodup g.nodup_importList).2 fun i => ?_
  rw [whole, List.mem_append, h.standing, Std.ExtTreeSet.mem_toList, h.taken, Graph.mem_importList, hv.together]

end Row

/-- **Whatever is hidden and revealed, the imports are conserved.**  After any calls every import of
the graph is on one side of the veil, with its sites, and lifting the veil gives the graph back.
Out of sight is what the last call that moves it hides.  Followed in a row, nothing in sight ever
stands there twice, and the row put back is the graph's. -/
theorem Veil.conserves_after (g : Graph) (calls : List Call) :
    Conserves g (after g calls) ∧
    (∀ i, i ∈ (after g calls).hidden ↔ i ∈ g.imports ∧ LastHides calls i) ∧
    (Row.after g calls).standing.Nodup ∧
    (Row.after g calls).standing.Perm (after g calls).visible.importList ∧
    (∀ i, i ∈ (Row.after g calls).taken ↔ i ∈ (after g calls).hidden) ∧
    (Row.after g calls).whole.Perm g.importList := by
  obtain ⟨hidden, hafter, hmem⟩ := exists_drawn g calls
  have hfollows := Row.follows_after g calls
  rw [hafter] at hfollows ⊢
  have hconserves := conserves_drawn g hidden
  refine ⟨hconserves, fun i => ?_, hfollows.nodup, hfollows.perm, hfollows.taken, hfollows.whole_perm hconserves⟩
  rw [mem_hidden_drawn, hmem]

end ImportAtlas
