import Mathlib.Data.List.Forall2

/-!
# Computations that may fail

When a sequence succeeds and when it fails, in terms of its parts, for the computations in `Except`
that the lookups and the writers are made of.
-/

namespace Forwarder

section Except

variable {ε δ α β : Type} {x : Except ε α} {f : α → Except ε β} {a : α} {b : β}

/-- A sequence succeeds exactly when both of its parts do. -/
theorem except_bind_eq_ok : (x >>= f) = .ok b ↔ ∃ a, x = .ok a ∧ f a = .ok b := by
  cases x <;> simp [bind, Except.bind]

/-- Another name for errors does not change where a computation succeeds. -/
theorem mapError_eq_ok {g : ε → δ} : x.mapError g = .ok a ↔ x = .ok a := by
  cases x <;> simp [Except.mapError]

/-- The errors of a computation under another name are its errors, renamed. -/
theorem mapError_eq_error {g : ε → δ} {d : δ} :
    x.mapError g = .error d ↔ ∃ e, x = .error e ∧ g e = d := by
  cases x <;> simp [Except.mapError]

/-- A sequence fails exactly when one of its parts does. -/
theorem except_bind_eq_error {e : ε} :
    (x >>= f) = .error e ↔ x = .error e ∨ ∃ a, x = .ok a ∧ f a = .error e := by
  cases x <;> simp [bind, Except.bind]

/-- What is made of a result succeeds exactly if there is a result. -/
theorem except_map_eq_ok {g : α → β} : x.map g = .ok b ↔ ∃ a, x = .ok a ∧ g a = b := by
  cases x <;> simp [Except.map]

theorem except_map_eq_error {g : α → β} {e : ε} : x.map g = .error e ↔ x = .error e := by
  cases x <;> simp [Except.map]

/-- A list is mapped when every one of its elements is, in order. -/
theorem forall₂_of_mapM {l : List α} {bs : List β} (h : l.mapM f = .ok bs) :
    List.Forall₂ (fun a b => f a = .ok b) l bs := by
  induction l generalizing bs with
  | nil =>
    cases h
    exact .nil
  | cons a l ih =>
    rw [List.mapM_cons] at h
    obtain ⟨b, hb, h⟩ := except_bind_eq_ok.1 h
    obtain ⟨tail, htail, h⟩ := except_bind_eq_ok.1 h
    cases h
    exact .cons hb (ih htail)

/-- A list whose elements are all mapped is mapped. -/
theorem mapM_eq_ok_of_forall₂ {l : List α} {bs : List β}
    (h : List.Forall₂ (fun a b => f a = .ok b) l bs) : l.mapM f = .ok bs := by
  induction h with
  | nil => rfl
  | cons ha _ ih =>
    rw [List.mapM_cons, ha]
    refine except_bind_eq_ok.2 ⟨_, rfl, ?_⟩
    exact except_bind_eq_ok.2 ⟨_, ih, rfl⟩

/-- A list of views is mapped where each view is. -/
theorem mapM_map_eq_ok {γ : Type} {view : γ → α} {g : γ → β} {l : List γ}
    (h : ∀ c ∈ l, f (view c) = .ok (g c)) : (l.map view).mapM f = .ok (l.map g) := by
  refine mapM_eq_ok_of_forall₂ ?_
  rw [List.forall₂_map_left_iff, List.forall₂_map_right_iff, List.forall₂_same]
  exact h

end Except

end Forwarder
