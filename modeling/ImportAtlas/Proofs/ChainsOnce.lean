import Mathlib.Data.List.Nodup
import ImportAtlas.Graph
import ImportAtlas.Proofs.Rings
/-!
# Each shortest chain, once

The walk inward goes on by every import into the next ring, so two ways of going on differ in the
module they come to, and their chains differ with it: where no import is listed twice, no chain is
(`nodup_descents`).  Each of these steps comes nearer to the goals by one (`Inwards`).  A graph may
be full of cycles, but **there is no going inward without end** (`wellFounded_inwards`), and every
chain that is listed is a row of such steps.
-/
namespace ImportAtlas

open Rings

/-- `m` imports `n`, which is nearer to the goals by one import. -/
def Inwards (imports : List Import) (goals : NameSet) (n m : ModuleName) : Prop :=
  ⟨m, n⟩ ∈ imports ∧ ∃ k, AtDistance imports goals k n ∧ AtDistance imports goals (k + 1) m

section Steps

variable {imports : List Import} {goals : NameSet} {inward : List NameSet} {m n : ModuleName} {k : Nat} {c : Chain}

theorem acc_of_atDistance (h : AtDistance imports goals k m) : Acc (Inwards imports goals) m := by
  induction k generalizing m with
  | zero =>
    refine ⟨m, fun n hn => ?_⟩
    obtain ⟨-, j, -, hm⟩ := hn
    have := h.unique hm
    omega
  | succ k ih =>
    refine ⟨m, fun n hn => ?_⟩
    obtain ⟨-, j, hj, hm⟩ := hn
    have hjk : j = k := Nat.succ.inj (hm.unique h)
    exact ih (hjk ▸ hj)

/-- **There is no going inward without end**, around whatever cycles. -/
theorem wellFounded_inwards (imports : List Import) (goals : NameSet) :
    WellFounded (Inwards imports goals) := by
  refine ⟨fun m => ⟨m, fun n hn => ?_⟩⟩
  obtain ⟨-, k, hk, -⟩ := hn
  exact acc_of_atDistance hk

theorem exists_cons_of_mem_descents (h : c ∈ descents imports m inward) : ∃ rest, c = m :: rest := by
  cases inward with
  | nil => exact ⟨[], List.mem_singleton.1 h⟩
  | cons ring inward =>
    obtain ⟨n, -, -, d, -, hc⟩ := mem_descents_cons.1 h
    exact ⟨d, hc⟩

/-- Each step of a descent comes nearer by one. -/
theorem isChain_of_mem_descents (hin : Inward imports goals inward)
    (hm : AtDistance imports goals inward.length m) (hc : c ∈ descents imports m inward) :
    c.IsChain fun m n => Inwards imports goals n m := by
  induction inward generalizing m c with
  | nil =>
    rw [List.mem_singleton.1 hc]
    exact .singleton m
  | cons ring inward ih =>
    obtain ⟨hring, hin⟩ := hin
    obtain ⟨n, hi, hn, d, hd, rfl⟩ := mem_descents_cons.1 hc
    have hdist := (hring n).1 hn
    have hrest := ih hin hdist hd
    obtain ⟨rest, rfl⟩ := exists_cons_of_mem_descents hd
    exact List.isChain_cons_cons.2 ⟨⟨hi, _, hdist, hm⟩, hrest⟩

/-- **No chain is listed twice** where no import is. -/
theorem nodup_descents (himports : imports.Nodup) (m : ModuleName) (inward : List NameSet) :
    (descents imports m inward).Nodup := by
  induction inward generalizing m with
  | nil => exact List.nodup_singleton _
  | cons ring inward ih =>
    rw [descents, List.nodup_flatMap]
    refine ⟨fun i _ => (ih i.imported).map List.cons_injective, ?_⟩
    refine (himports.filter _).pairwise_of_forall_ne fun i hi j hj hne => ?_
    intro c hci hcj
    obtain ⟨d, hd, rfl⟩ := List.mem_map.1 hci
    obtain ⟨d', hd', heq⟩ := List.mem_map.1 hcj
    have hsame : d' = d := (List.cons.inj heq).2
    subst hsame
    -- both go on to the module that the rest begins with, so they are one import
    obtain ⟨rest, hrow⟩ := exists_cons_of_mem_descents hd
    obtain ⟨rest', hrow'⟩ := exists_cons_of_mem_descents hd'
    have himported : i.imported = j.imported := (List.cons.inj (hrow.symm.trans hrow')).1
    have himporter : i.importer = j.importer := by
      have hi := (List.mem_filter.1 hi).2
      have hj := (List.mem_filter.1 hj).2
      simp only [decide_eq_true_eq] at hi hj
      rw [hi.1, hj.1]
    exact hne (by cases i; cases j; simp_all)

end Steps

section Between

variable {imports : List Import} {source goal : ModuleName} {c : Chain}

theorem mem_shortestChainsBetween_iff : c ∈ shortestChainsBetween imports source goal ↔
    source ≠ goal ∧ Walk imports source goal c ∧ ∀ d, Walk imports source goal d → c.length ≤ d.length := by
  by_cases hne : source = goal
  · rw [shortestChainsBetween, if_pos hne]
    simp [hne]
  · rw [mem_shortestChainsBetween hne]
    simp [hne]

theorem shortestChainsBetween_eq_nil_iff : shortestChainsBetween imports source goal = [] ↔
    source = goal ∨ ∀ c, ¬ Walk imports source goal c := by
  rw [List.eq_nil_iff_forall_not_mem]
  simp only [mem_shortestChainsBetween_iff]
  constructor
  · intro h
    by_cases hne : source = goal
    · exact .inl hne
    · refine .inr fun c hc => ?_
      obtain ⟨d, hd, hshort⟩ := hc.exists_shortest
      exact h d ⟨hne, hd, hshort⟩
  · intro h c hc
    obtain ⟨hne, hw, -⟩ := hc
    exact h.elim hne fun hno => hno c hw

theorem nodup_shortestChainsBetween (h : imports.Nodup) (source goal : ModuleName) :
    (shortestChainsBetween imports source goal).Nodup := by
  unfold shortestChainsBetween
  split
  · exact List.nodup_nil
  · split
    · exact nodup_descents h source _
    · exact List.nodup_nil

theorem isChain_of_mem_shortestChainsBetween (hc : c ∈ shortestChainsBetween imports source goal) :
    c.IsChain fun m n => Inwards imports (.ofList [goal]) n m := by
  have hspec := inwardOf?_spec (m := source) _ [] (onward_around imports (.ofList [goal])) trivial
  unfold shortestChainsBetween at hc
  split at hc
  · cases hc
  · cases hres : inwardOf? source (around imports (.ofList [goal])) [] with
    | none =>
      rw [hres] at hc
      cases hc
    | some inward =>
      rw [hres] at hspec hc
      exact isChain_of_mem_descents hspec.1 hspec.2 hc

end Between

/-- **Each shortest chain, once.**  The list has no repetition and holds the walks from the one
module to the other that make the fewest imports.  It is empty if there is none, or if the two are
the same module.  On every graph the steps that chains are put together from come to an end. -/
theorem Graph.shortestChainsBetween_once (g : Graph) (source goal : ModuleName) :
    (shortestChainsBetween g.importList source goal).Nodup ∧
    (∀ c, c ∈ shortestChainsBetween g.importList source goal ↔
      source ≠ goal ∧ Walk g.importList source goal c ∧
        ∀ d, Walk g.importList source goal d → c.length ≤ d.length) ∧
    (shortestChainsBetween g.importList source goal = [] ↔
      source = goal ∨ ∀ c, ¬ Walk g.importList source goal c) ∧
    WellFounded (Inwards g.importList (.ofList [goal])) ∧
    ∀ c ∈ shortestChainsBetween g.importList source goal,
      c.IsChain fun m n => Inwards g.importList (.ofList [goal]) n m := by
  refine ⟨?_, ?_, ?_, ?_, ?_⟩
  · exact nodup_shortestChainsBetween g.nodup_importList source goal
  · intro c
    exact mem_shortestChainsBetween_iff
  · exact shortestChainsBetween_eq_nil_iff
  · exact wellFounded_inwards _ _
  · intro c hc
    exact isChain_of_mem_shortestChainsBetween hc

end ImportAtlas
