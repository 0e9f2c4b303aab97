import Mathlib.Data.List.Perm.Basic
import ImportAtlas.Error
/-!
# Answers one after the other

A step that goes on from an answer is refused if there is none, so a row of steps goes through exactly
if each of them does, and answers what they answer one by one (`mapM_eq_ok_iff`).  What is known of the
row then is known of its steps: which answer stands where (`getElem?_mapM`), that the steps may be taken
in any other order (`exists_mapM_of_perm`), and whose refusal a refusal is (`exists_error_of_mapM`).
-/
namespace ImportAtlas

variable {α β γ : Type} {f : α → Except Error β} {as as' : List α} {bs : List β} {a : α} {b : β}

theorem eq_ok_of_toOption {ε : Type} {answer : Except ε α} (h : answer.toOption = some a) :
    answer = .ok a := by
  cases answer with
  | error _ => cases h
  | ok b => exact congrArg Except.ok (Option.some.inj h)

theorem bind_eq_ok_iff {answer : Except Error α} {next : α → Except Error β} :
    answer >>= next = .ok b ↔ ∃ a, answer = .ok a ∧ next a = .ok b := by
  constructor
  · intro h
    cases answer with
    | error e => cases h
    | ok a => exact ⟨a, rfl, h⟩
  · rintro ⟨a, rfl, h⟩
    exact h

theorem map_eq_ok_iff {answer : Except Error α} {change : α → β} :
    answer.map change = .ok b ↔ ∃ a, answer = .ok a ∧ change a = b := by
  constructor
  · intro h
    cases answer with
    | error e => cases h
    | ok a => exact ⟨a, rfl, Except.ok.inj h⟩
  · rintro ⟨a, rfl, rfl⟩
    rfl

/-! ## A row of steps -/

/-- **A row goes through if and only if all of its steps do.** -/
theorem mapM_eq_ok_iff : ∀ {as : List α} {bs : List β}, as.mapM f = .ok bs ↔ as.map f = bs.map .ok
  | [], bs => by
    rw [List.map_nil, eq_comm (a := []), List.map_eq_nil_iff]
    exact ⟨fun h => (Except.ok.inj h).symm, fun h => h ▸ rfl⟩
  | a :: as, bs => by
    rw [List.mapM_cons, bind_eq_ok_iff]
    constructor
    · rintro ⟨b, ha, h⟩
      obtain ⟨rest, has, h⟩ := bind_eq_ok_iff.1 h
      obtain rfl := Except.ok.inj h
      rw [List.map_cons, List.map_cons, ha, mapM_eq_ok_iff.1 has]
    · intro h
      cases bs with
      | nil => cases h
      | cons b rest =>
        obtain ⟨ha, has⟩ := List.cons.inj h
        exact ⟨b, ha, by rw [mapM_eq_ok_iff.2 has]; rfl⟩

theorem mapM_eq_ok_map {row : α → β} (h : ∀ a ∈ as, f a = .ok (row a)) : as.mapM f = .ok (as.map row) := by
  rw [mapM_eq_ok_iff, List.map_map]
  exact List.map_congr_left h

theorem exists_of_mapM_eq_ok (h : as.mapM f = .ok bs) : ∀ a ∈ as, ∃ b, f a = .ok b := by
  intro a ha
  have hfa : f a ∈ as.map f := List.mem_map_of_mem ha
  rw [mapM_eq_ok_iff.1 h] at hfa
  obtain ⟨b, -, hb⟩ := List.mem_map.1 hfa
  exact ⟨b, hb.symm⟩

theorem exists_of_mem_mapM (h : as.mapM f = .ok bs) (hb : b ∈ bs) : ∃ a ∈ as, f a = .ok b := by
  have hanswer : Except.ok b ∈ bs.map (Except.ok (ε := Error)) := List.mem_map_of_mem hb
  rw [← mapM_eq_ok_iff.1 h] at hanswer
  exact List.mem_map.1 hanswer

theorem exists_mapM_iff : ∀ {as : List α}, (∃ bs, as.mapM f = .ok bs) ↔ ∀ a ∈ as, ∃ b, f a = .ok b
  | [] => ⟨fun _ _ h => (List.not_mem_nil h).elim, fun _ => ⟨[], rfl⟩⟩
  | a :: as => by
    rw [List.forall_mem_cons, ← exists_mapM_iff, List.mapM_cons]
    cases f a with
    | error e => simp [bind, Except.bind]
    | ok b =>
      cases as.mapM f with
      | error e => simp [bind, Except.bind]
      | ok bs => simp [bind, Except.bind, pure, Except.pure]

theorem getElem?_mapM {k : Nat} (h : as.mapM f = .ok bs) :
    bs[k]? = some b ↔ ∃ a, as[k]? = some a ∧ f a = .ok b := by
  have hk : (as.map f)[k]? = (bs.map Except.ok)[k]? := by rw [mapM_eq_ok_iff.1 h]
  rw [List.getElem?_map, List.getElem?_map] at hk
  rw [← Option.map_eq_some_iff, hk, Option.map_eq_some_iff]
  simp

/-- What each answer shows of its step, the answers show of the steps in a row. -/
theorem map_of_mapM {change : β → γ} {shown : α → γ} (h : as.mapM f = .ok bs)
    (hstep : ∀ a b, f a = .ok b → change b = shown a) : bs.map change = as.map shown := by
  refine List.ext_getElem? fun k => Option.ext fun c => ?_
  simp only [List.getElem?_map, Option.map_eq_some_iff, getElem?_mapM h]
  constructor
  · rintro ⟨b, ⟨a, ha, hb⟩, rfl⟩
    exact ⟨a, ha, (hstep a b hb).symm⟩
  · rintro ⟨a, ha, rfl⟩
    obtain ⟨b, hb⟩ := exists_of_mapM_eq_ok h a (List.mem_of_getElem? ha)
    exact ⟨b, ⟨a, ha, hb⟩, hstep a b hb⟩

/-- What holds between any two steps in order holds between their answers. -/
theorem pairwise_of_mapM {R : α → α → Prop} {S : β → β → Prop} (h : as.mapM f = .ok bs)
    (hpairwise : as.Pairwise R)
    (hstep : ∀ a ∈ as, ∀ a' ∈ as, ∀ b b', f a = .ok b → f a' = .ok b' → R a a' → S b b') :
    bs.Pairwise S := by
  rw [List.pairwise_iff_getElem] at hpairwise ⊢
  intro i j hi hj hlt
  obtain ⟨a, ha, hb⟩ := (getElem?_mapM h).1 (List.getElem?_eq_getElem hi)
  obtain ⟨a', ha', hb'⟩ := (getElem?_mapM h).1 (List.getElem?_eq_getElem hj)
  obtain ⟨hi', rfl⟩ := List.getElem?_eq_some_iff.1 ha
  obtain ⟨hj', rfl⟩ := List.getElem?_eq_some_iff.1 ha'
  exact hstep _ (List.getElem_mem hi') _ (List.getElem_mem hj') _ _ hb hb' (hpairwise i j hi' hj' hlt)

/-- **Steps that go through in one order do in any other**, and answer the same. -/
theorem exists_mapM_of_perm (hperm : as.Perm as') (h : as.mapM f = .ok bs) :
    ∃ bs', as'.mapM f = .ok bs' ∧ bs.Perm bs' := by
  obtain ⟨bs', h'⟩ : ∃ bs', as'.mapM f = .ok bs' :=
    exists_mapM_iff.2 fun a ha => exists_of_mapM_eq_ok h a (hperm.mem_iff.2 ha)
  refine ⟨bs', h', ?_⟩
  have hmapped : (bs.map Except.ok).Perm (bs'.map (Except.ok (ε := Error))) := by
    rw [← mapM_eq_ok_iff.1 h, ← mapM_eq_ok_iff.1 h']
    exact hperm.map f
  exact (List.map_perm_map_iff fun _ _ => Except.ok.inj).1 hmapped

/-! ## Refusals -/

theorem exists_error_of_mapM : ∀ {as : List α} {e : Error}, as.mapM f = .error e →
    ∃ a ∈ as, f a = .error e
  | [], _, h => by cases h
  | a :: as, e, h => by
    rw [List.mapM_cons] at h
    cases ha : f a with
    | error e' =>
      rw [ha] at h
      obtain rfl : e' = e := Except.error.inj h
      exact ⟨a, List.mem_cons_self, ha⟩
    | ok b =>
      rw [ha] at h
      cases hrest : as.mapM f with
      | error e' =>
        rw [hrest] at h
        obtain rfl : e' = e := Except.error.inj h
        obtain ⟨c, hc, hfc⟩ := exists_error_of_mapM hrest
        exact ⟨c, List.mem_cons_of_mem _ hc, hfc⟩
      | ok more =>
        rw [hrest] at h
        cases h

/-- Leaving out what cannot be refused leaves the refusal. -/
theorem mapM_filter_error {p : α → Bool} {e : Error} : ∀ {as : List α},
    (∀ a ∈ as, p a = false → ∃ b, f a = .ok b) →
      (as.filter p).mapM f = .error e → as.mapM f = .error e
  | [], _, h => h
  | a :: as, hknown, h => by
    have ih := mapM_filter_error (e := e) fun b hb => hknown b (List.mem_cons_of_mem _ hb)
    rw [List.mapM_cons]
    by_cases hp : p a = true
    · rw [List.filter_cons_of_pos hp, List.mapM_cons] at h
      cases ha : f a with
      | error e' =>
        rw [ha] at h
        exact h
      | ok b =>
        rw [ha] at h
        cases hrest : (as.filter p).mapM f with
        | error e' =>
          rw [hrest] at h
          rw [ih (hrest.trans h)]
          rfl
        | ok bs =>
          rw [hrest] at h
          cases h
    · rw [List.filter_cons_of_neg hp] at h
      obtain ⟨b, hb⟩ := hknown a List.mem_cons_self (by simpa using hp)
      rw [hb, ih h]
      rfl

end ImportAtlas
