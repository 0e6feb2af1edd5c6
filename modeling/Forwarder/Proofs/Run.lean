import Forwarder.Assembler.Code

/-!
# Successful runs of writers

A writer has a state and may fail: `Runs m s a s'` says that it succeeds in a state with a result
and leaves a state. `runs_bind_iff` takes a sequence apart, and there is one lemma for each step
that a sequence is made of.
-/

namespace Forwarder

section Runs

variable {ε σ α β : Type} {m : ExceptT ε (StateM σ) α} {f : α → ExceptT ε (StateM σ) β}
  {s s' : σ} {a a' : α} {b : β}

/-- A writer succeeds in a state with a result and leaves a state. -/
def Runs (m : ExceptT ε (StateM σ) α) (s : σ) (a : α) (s' : σ) : Prop :=
  m.run.run s = (.ok a, s')

/-- A sequence succeeds exactly when both of its parts do, the second in the state that the first
leaves. -/
theorem runs_bind_iff : Runs (m >>= f) s b s' ↔ ∃ a s₁, Runs m s a s₁ ∧ Runs (f a) s₁ b s' := by
  unfold Runs
  rw [ExceptT.run_bind, StateT.run_bind]
  rcases m.run.run s with ⟨e | a, s₁⟩
  · constructor
    · intro h
      cases h
    · rintro ⟨a, s₁, h, -⟩
      cases h
  · constructor
    · intro h
      exact ⟨a, s₁, rfl, h⟩
    · rintro ⟨_, _, h, h'⟩
      cases h
      exact h'

/-- A run and the one behind it make a run of both. -/
theorem Runs.bind {s₁ : σ} (h : Runs m s a s₁) (h' : Runs (f a) s₁ b s') :
    Runs (m >>= f) s b s' :=
  runs_bind_iff.2 ⟨a, s₁, h, h'⟩

theorem runs_pure_iff : Runs (pure a : ExceptT ε (StateM σ) α) s a' s' ↔ a = a' ∧ s = s' := by
  show (Except.ok a, s) = (Except.ok a', s') ↔ _
  simp

theorem runs_ofExcept_iff {e : Except ε α} :
    Runs (ofExcept e : ExceptT ε (StateM σ) α) s a s' ↔ e = .ok a ∧ s = s' := by
  cases e with
  | error e =>
    show (Except.error e, s) = (Except.ok a, s') ↔ _
    simp
  | ok x =>
    show (Except.ok x, s) = (Except.ok a, s') ↔ _
    simp

theorem runs_lift_iff {m : StateM σ α} :
    Runs (liftM m : ExceptT ε (StateM σ) α) s a s' ↔ (m s).1 = a ∧ (m s).2 = s' := by
  show (Except.ok (m s).1, (m s).2) = (Except.ok a, s') ↔ _
  rw [Prod.mk.injEq, Except.ok.injEq]

theorem runs_get_iff {t : σ} : Runs (get : ExceptT ε (StateM σ) σ) s t s' ↔ s = t ∧ s = s' := by
  show (Except.ok s, s) = (Except.ok t, s') ↔ _
  simp

end Runs

namespace CodeBuilder

variable {α : Type} {e e' : Emission} {u : Unit}

theorem runs_change_iff {f : CodeBuilder → CodeBuilder} :
    Runs (change f) e u e' ↔ e' = ⟨e.pool, f e.code⟩ := by
  show (Except.ok (), Emission.mk e.pool (f e.code)) = (Except.ok u, e') ↔ _
  simp [eq_comm]

/-- A line is put behind the others with the offset at which it is asked for. -/
theorem runs_line_iff {number : Int} :
    Runs (Call.line number).perform e u e' ↔
      e' = ⟨e.pool, { e.code with lines := e.code.lines.push ⟨e.code.position, number⟩ }⟩ := by
  rw [Call.perform, runs_change_iff]

theorem runs_pooling_iff {m : Pooling α} {a : α} :
    Runs (pooling m) e a e' ↔ (m e.pool).1 = a ∧ e' = ⟨(m e.pool).2, e.code⟩ := by
  show (Except.ok (m e.pool).1, Emission.mk (m e.pool).2 e.code) = (Except.ok a, e') ↔ _
  simp [eq_comm]

/-- An addition to the pool leaves the code as it is. -/
theorem runs_pooling {m : Pooling α} {p p' : PoolBuilder} {a : α} (code : CodeBuilder)
    (h : m p = (a, p')) : Runs (pooling m) ⟨p, code⟩ a ⟨p', code⟩ :=
  runs_pooling_iff.2 ⟨congrArg Prod.fst h, by rw [h]⟩

end CodeBuilder

end Forwarder
