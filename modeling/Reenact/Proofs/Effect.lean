import Mathlib

/-!
Computations that read and change a state and may fail, what was done before an error staying done.
The run of a composed computation that succeeds comes apart into runs of its steps.
-/

namespace Reenact.Effect

variable {σ ε α β : Type}

theorem bind_of_ok {x : ExceptT ε (StateM σ) α} {f : α → ExceptT ε (StateM σ) β} {s t : σ} {a : α}
    (h : x s = (.ok a, t)) : (x >>= f) s = f a t := by
  change ExceptT.bindCont f (x s).1 (x s).2 = _
  rw [h]
  rfl

theorem bind_of_error {x : ExceptT ε (StateM σ) α} {f : α → ExceptT ε (StateM σ) β} {s t : σ} {e : ε}
    (h : x s = (.error e, t)) : (x >>= f) s = (.error e, t) := by
  change ExceptT.bindCont f (x s).1 (x s).2 = _
  rw [h]
  rfl

theorem bind_ok {x : ExceptT ε (StateM σ) α} {f : α → ExceptT ε (StateM σ) β} {s u : σ} {b : β} :
    (x >>= f) s = (.ok b, u) ↔ ∃ a t, x s = (.ok a, t) ∧ f a t = (.ok b, u) := by
  constructor
  · intro h
    cases hx : x s with
    | mk r t =>
      cases r with
      | ok a => exact ⟨a, t, rfl, (bind_of_ok hx).symm.trans h⟩
      | error e => cases (bind_of_error hx).symm.trans h
  · rintro ⟨a, t, hx, hf⟩
    exact (bind_of_ok hx).trans hf

@[simp]
theorem pure_apply (a : α) (s : σ) : (pure a : ExceptT ε (StateM σ) α) s = (.ok a, s) := rfl

@[simp]
theorem get_apply (s : σ) : (get : ExceptT ε (StateM σ) σ) s = (.ok s, s) := rfl

@[simp]
theorem modify_apply (f : σ → σ) (s : σ) :
    (modify f : ExceptT ε (StateM σ) PUnit) s = (.ok ⟨⟩, f s) := rfl

theorem ok_of_toOption {r : Except ε α × σ} {a : α} (h : r.1.toOption = some a) :
    r = (.ok a, r.2) := by
  obtain ⟨r, s⟩ := r
  cases r with
  | ok b => cases h; rfl
  | error e => cases h

theorem map_of_ok {x : ExceptT ε (StateM σ) α} {f : α → β} {s t : σ} {a : α}
    (h : x s = (.ok a, t)) : (f <$> x) s = (.ok (f a), t) := by
  rw [map_eq_pure_bind, bind_of_ok h, pure_apply]

theorem map_ok {x : ExceptT ε (StateM σ) α} {f : α → β} {s t : σ} {b : β} :
    (f <$> x) s = (.ok b, t) ↔ ∃ a, x s = (.ok a, t) ∧ f a = b := by
  rw [map_eq_pure_bind, bind_ok]
  constructor
  · rintro ⟨a, u, hx, hpure⟩
    cases hpure
    exact ⟨a, hx, rfl⟩
  · rintro ⟨a, hx, rfl⟩
    exact ⟨a, t, hx, rfl⟩

/-- A loop whose rounds only undo what made the items. -/
theorem mapM_map {f : β → ExceptT ε (StateM σ) α} {make : α → β} {s : σ}
    (h : ∀ a, f (make a) s = (.ok a, s)) (as : List α) : (as.map make).mapM f s = (.ok as, s) := by
  induction as with
  | nil => rfl
  | cons a as ih =>
    rw [List.map_cons, List.mapM_cons, bind_of_ok (h a), bind_of_ok ih]
    rfl

/-- Each result of a loop that succeeds is that of one of its rounds. -/
theorem forall₂_of_mapM {f : α → ExceptT ε (StateM σ) β} {as : List α} {bs : List β} {s t : σ}
    (h : as.mapM f s = (.ok bs, t)) :
    List.Forall₂ (fun a b => ∃ u v, f a u = (.ok b, v)) as bs := by
  induction as generalizing bs s with
  | nil =>
    cases h
    exact .nil
  | cons a as ih =>
    rw [List.mapM_cons] at h
    obtain ⟨b, u, hb, hrest⟩ := bind_ok.1 h
    obtain ⟨bs', v, hbs, hpure⟩ := bind_ok.1 hrest
    cases hpure
    exact .cons ⟨s, u, hb⟩ (ih hbs)

end Reenact.Effect
