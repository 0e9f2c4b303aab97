import ImportAtlas.Error
/-!
# Steps that may be refused

A step changes a state and either goes through with an answer or is refused with an `Error`.  In both
cases there is a state afterwards: what was done before a refusal stays done.  That is why a step is
not a function to `Except`.  Graphs are changed by such steps, and so are file trees.

`on` runs a step.  Of steps put together it is known from the parts (`on_bind`, `on_tryCatch`), and **a
row of steps goes through if each of them does** (`exists_on_forM`).
-/
namespace ImportAtlas

/-- A step that changes a state; a refusal hands on the state reached so far. -/
abbrev Step (σ : Type) := EStateM Error σ

namespace Step

variable {σ α β : Type} {s t : σ}

/-- Runs a step on a state: the state afterwards and what was answered. -/
def on (step : Step σ α) (s : σ) : σ × Except Error α :=
  match step.run s with
  | .ok a t => (t, .ok a)
  | .error e t => (t, .error e)

theorem on_get (s : σ) : (get : Step σ σ).on s = (s, .ok s) := rfl

theorem on_modify (f : σ → σ) (s : σ) : (modify f : Step σ Unit).on s = (f s, .ok ()) := rfl

theorem on_ofExcept (answer : Except Error α) (s : σ) :
    (ofExcept answer : Step σ α).on s = (s, answer) := by
  cases answer <;> rfl

theorem on_bind (step : Step σ α) (next : α → Step σ β) (s : σ) :
    (step >>= next).on s = match step.on s with
      | (t, .ok a) => (next a).on t
      | (t, .error e) => (t, .error e) := by
  show on (EStateM.bind step next) s = _
  unfold on EStateM.run EStateM.bind
  cases step s <;> rfl

theorem on_get_bind (next : σ → Step σ β) (s : σ) : (get >>= next).on s = (next s).on s := rfl

theorem on_bind_ok {step : Step σ α} {next : α → Step σ β} {a : α} (h : step.on s = (t, .ok a)) :
    (step >>= next).on s = (next a).on t := by
  rw [on_bind, h]

theorem on_bind_error {step : Step σ α} {next : α → Step σ β} {e : Error}
    (h : step.on s = (t, .error e)) : (step >>= next).on s = (t, .error e) := by
  rw [on_bind, h]

/-- What goes through as a whole goes through step by step. -/
theorem exists_on_of_bind {step : Step σ α} {next : α → Step σ β} {b : β}
    (h : (step >>= next).on s = (t, .ok b)) :
    ∃ u a, step.on s = (u, .ok a) ∧ (next a).on u = (t, .ok b) := by
  cases hstep : step.on s with
  | mk u answer =>
    cases answer with
    | ok a => exact ⟨u, a, rfl, by rw [← h, on_bind_ok hstep]⟩
    | error e =>
      rw [on_bind_error hstep] at h
      cases h

/-- A handler goes on from the state that the refusal left. -/
theorem on_tryCatch (step : Step σ α) (handler : Error → Step σ α) (s : σ) :
    (tryCatch step handler).on s = match step.on s with
      | (t, .ok a) => (t, .ok a)
      | (t, .error e) => (handler e).on t := by
  show on (EStateM.tryCatch step handler) s = _
  unfold on EStateM.run EStateM.tryCatch
  cases step s <;> rfl

theorem on_tryCatch_ok {step : Step σ α} {handler : Error → Step σ α} {a : α}
    (h : step.on s = (t, .ok a)) : (tryCatch step handler).on s = (t, .ok a) := by
  rw [on_tryCatch, h]

/-- Where no handler goes through, the step did. -/
theorem on_of_tryCatch {step : Step σ α} {handler : Error → Step σ α} {a : α}
    (h : (tryCatch step handler).on s = (t, .ok a))
    (hhandler : ∀ e u, (handler e).on u ≠ (t, .ok a)) : step.on s = (t, .ok a) := by
  rw [on_tryCatch] at h
  cases hstep : step.on s with
  | mk u answer =>
    rw [hstep] at h
    cases answer with
    | ok b => exact h
    | error e => exact absurd h (hhandler e u)

/-- **A row of steps goes through if each of them does**, where `P` says what is done so far. -/
theorem exists_on_forM {step : α → Step σ Unit} {P : List α → σ → Prop} :
    ∀ {as done : List α} {s : σ},
      (∀ done s, ∀ a ∈ as, P done s → ∃ t, (step a).on s = (t, .ok ()) ∧ P (done ++ [a]) t) →
      P done s → ∃ t, (as.forM step).on s = (t, .ok ()) ∧ P (done ++ as) t
  | [], done, s, _, hs => ⟨s, rfl, by rwa [List.append_nil]⟩
  | a :: as, done, s, hstep, hs => by
    obtain ⟨u, hon, hu⟩ := hstep done s a List.mem_cons_self hs
    obtain ⟨t, hrest, ht⟩ := exists_on_forM
      (fun done s b hb => hstep done s b (List.mem_cons_of_mem _ hb)) hu
    refine ⟨t, ?_, by rwa [List.append_assoc, List.singleton_append] at ht⟩
    show (step a >>= fun _ => as.forM step).on s = _
    rw [on_bind, hon]
    exact hrest

end Step
end ImportAtlas
