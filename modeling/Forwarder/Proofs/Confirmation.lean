import Forwarder.Confirmation
import Forwarder.ClassFile

/-!
# Which keys are confirmed

`ClassFile.Forwards` says what confirms a key: the class has a synthetic method of it and every such
method forwards. The examinations of a class stop looking at a key once one of its methods has
failed and never look at keys that are not pending; `mem_confirmed` says that for pending keys this
makes no difference. `mem_examinations_failed` and `mem_examinations_passed` are the invariants of
the loop over the methods, `failed` being the keys that have failed already.
-/

namespace Forwarder

/-- A synthetic method of a key. -/
def Method.IsBodyOf (m : Method) (key : MethodKey) : Prop := m.isSynthetic = true ∧ m.key = key

/-- The class has a synthetic method of a key, and all of them forward. -/
structure ClassFile.Forwards (cls : ClassFile) (key : MethodKey) : Prop where
  exists_body : ∃ m ∈ cls.methods, m.IsBodyOf key
  forall_forwards : ∀ m ∈ cls.methods, m.IsBodyOf key → Body.forwards cls.pool m = true

namespace Confirmation

variable {pool : ConstantPool} {pending failed : List MethodKey} {m : Method} {ms : List Method}
  {key : MethodKey}

/-- A body forwards exactly if its examination finds nothing to reject. -/
theorem forwards_eq_true_iff : Body.forwards pool m = true ↔ Body.examine pool m = none := by
  unfold Body.forwards
  cases Body.examine pool m <;> simp

section Step

/-- A method that is no body of a pending key is not examined, nor one of a key that has failed. -/
theorem examinations_skip
    (h : ¬ (m.isSynthetic = true ∧ m.key ∈ pending ∧ m.key ∉ failed)) :
    examinations pool pending failed (m :: ms) = examinations pool pending failed ms := by
  rw [examinations, if_neg]
  simpa [and_assoc] using h

/-- A body that passes its examination leaves its key pending. -/
theorem examinations_pass (h : m.isSynthetic = true ∧ m.key ∈ pending ∧ m.key ∉ failed)
    (hpass : Body.examine pool m = none) :
    examinations pool pending failed (m :: ms) =
      ⟨m.key, none⟩ :: examinations pool pending failed ms := by
  rw [examinations, if_pos (by simpa [and_assoc] using h), hpass]

/-- A body that fails its examination takes its key out of those that are examined further. -/
theorem examinations_fail (h : m.isSynthetic = true ∧ m.key ∈ pending ∧ m.key ∉ failed)
    {rejection : Body.Rejection} (hfail : Body.examine pool m = some rejection) :
    examinations pool pending failed (m :: ms) =
      ⟨m.key, some rejection⟩ :: examinations pool pending (m.key :: failed) ms := by
  rw [examinations, if_pos (by simpa [and_assoc] using h), hfail]

end Step

/-- Only methods of pending keys are examined. -/
theorem pending_of_mem_examinations {e : Examination}
    (h : e ∈ examinations pool pending failed ms) : e.key ∈ pending := by
  induction ms generalizing failed with
  | nil => cases h
  | cons m ms ih =>
    by_cases hc : m.isSynthetic = true ∧ m.key ∈ pending ∧ m.key ∉ failed
    · cases he : Body.examine pool m with
      | none =>
        rw [examinations_pass hc he] at h
        rcases List.mem_cons.1 h with rfl | h
        · exact hc.2.1
        · exact ih h
      | some rejection =>
        rw [examinations_fail hc he] at h
        rcases List.mem_cons.1 h with rfl | h
        · exact hc.2.1
        · exact ih h
    · rw [examinations_skip hc] at h
      exact ih h

/-- A key has failed by the end of the examinations exactly if it is pending, had not failed before
and one of its methods does not forward. -/
theorem mem_examinations_failed :
    (∃ rejection, ⟨key, some rejection⟩ ∈ examinations pool pending failed ms) ↔
      key ∈ pending ∧ key ∉ failed ∧
        ∃ m ∈ ms, m.IsBodyOf key ∧ Body.examine pool m ≠ none := by
  induction ms generalizing failed with
  | nil => simp [examinations]
  | cons m ms ih =>
    by_cases h : m.isSynthetic = true ∧ m.key ∈ pending ∧ m.key ∉ failed
    · cases he : Body.examine pool m with
      | none =>
        rw [examinations_pass h he]
        simp [ih, he]
      | some rejection =>
        rw [examinations_fail h he]
        by_cases hk : m.key = key
        · subst hk
          simp only [List.mem_cons, Examination.mk.injEq, true_and, h, not_false_eq_true]
          exact ⟨fun _ => ⟨m, .inl rfl, ⟨h.1, rfl⟩, by simp [he]⟩,
            fun _ => ⟨rejection, .inl rfl⟩⟩
        · have hne : key ≠ m.key := fun h => hk h.symm
          simp [ih, hne, Method.IsBodyOf, hk]
    · rw [examinations_skip h, ih]
      simp only [List.mem_cons, exists_eq_or_imp]
      constructor
      · rintro ⟨hp, hf, hm⟩
        exact ⟨hp, hf, .inr hm⟩
      · rintro ⟨hp, hf, ⟨⟨hs, rfl⟩, -⟩ | hm⟩
        · exact absurd ⟨hs, hp, hf⟩ h
        · exact ⟨hp, hf, hm⟩

/-- A key all of whose methods forward has passed by the end of the examinations exactly if it is
pending and has a method. -/
theorem mem_examinations_passed (hf : key ∉ failed)
    (hall : ∀ m ∈ ms, m.IsBodyOf key → Body.examine pool m = none) :
    ⟨key, none⟩ ∈ examinations pool pending failed ms ↔
      key ∈ pending ∧ ∃ m ∈ ms, m.IsBodyOf key := by
  induction ms generalizing failed with
  | nil => simp [examinations]
  | cons m ms ih =>
    have hall' : ∀ m ∈ ms, m.IsBodyOf key → Body.examine pool m = none :=
      fun m' hm' => hall m' (List.mem_cons_of_mem _ hm')
    by_cases h : m.isSynthetic = true ∧ m.key ∈ pending ∧ m.key ∉ failed
    · by_cases hk : m.key = key
      · have he := hall m List.mem_cons_self ⟨h.1, hk⟩
        subst hk
        rw [examinations_pass h he]
        simp only [List.mem_cons, true_or, true_iff]
        exact ⟨h.2.1, m, .inl rfl, h.1, rfl⟩
      · have hne : key ≠ m.key := fun h => hk h.symm
        cases he : Body.examine pool m with
        | none =>
          rw [examinations_pass h he]
          simp [ih hf hall', hne, Method.IsBodyOf, hk]
        | some rejection =>
          rw [examinations_fail h he]
          simp [ih (List.not_mem_cons_of_ne_of_not_mem hne hf) hall', hne, Method.IsBodyOf, hk]
    · rw [examinations_skip h, ih hf hall']
      simp only [List.mem_cons, exists_eq_or_imp]
      constructor
      · rintro ⟨hp, hm⟩
        exact ⟨hp, .inr hm⟩
      · rintro ⟨hp, ⟨hs, rfl⟩ | hm⟩
        · exact absurd ⟨hs, hp, hf⟩ h
        · exact ⟨hp, hm⟩

/-- A key is confirmed exactly if one of its bodies passes and none fails. -/
theorem mem_confirmed_iff {exams : List Examination} :
    key ∈ confirmed exams ↔
      ⟨key, none⟩ ∈ exams ∧ ¬ ∃ rejection, ⟨key, some rejection⟩ ∈ exams := by
  simp only [confirmed, List.mem_eraseDups, List.mem_filter, List.mem_map, Bool.not_eq_true',
    List.contains_eq_mem, decide_eq_false_iff_not]
  constructor
  · rintro ⟨⟨⟨_, _⟩, ⟨hmem, hnone⟩, rfl⟩, hfailed⟩
    rw [Option.isNone_iff_eq_none] at hnone
    subst hnone
    exact ⟨hmem, fun ⟨rejection, hr⟩ => hfailed ⟨_, ⟨hr, rfl⟩, rfl⟩⟩
  · rintro ⟨hpassed, hfailed⟩
    refine ⟨⟨_, ⟨hpassed, rfl⟩, rfl⟩, ?_⟩
    rintro ⟨⟨_, _ | rejection⟩, ⟨hmem, hsome⟩, rfl⟩
    · cases hsome
    · exact hfailed ⟨rejection, hmem⟩

/-- A key is confirmed exactly if it is pending and the class forwards it. -/
theorem mem_confirmed {cls : ClassFile} :
    key ∈ confirmed (examinations cls.pool pending [] cls.methods) ↔
      key ∈ pending ∧ cls.Forwards key := by
  rw [mem_confirmed_iff, mem_examinations_failed]
  constructor
  · rintro ⟨hpassed, hfailed⟩
    have hp : key ∈ pending := pending_of_mem_examinations hpassed
    have hall : ∀ m ∈ cls.methods, m.IsBodyOf key → Body.examine cls.pool m = none := by
      intro m hm hbody
      by_cases he : Body.examine cls.pool m = none
      · exact he
      · exact absurd ⟨hp, List.not_mem_nil, m, hm, hbody, he⟩ hfailed
    obtain ⟨-, hex⟩ := (mem_examinations_passed List.not_mem_nil hall).1 hpassed
    exact ⟨hp, hex, fun m hm hbody => forwards_eq_true_iff.2 (hall m hm hbody)⟩
  · rintro ⟨hp, hex, hall⟩
    have hall' : ∀ m ∈ cls.methods, m.IsBodyOf key → Body.examine cls.pool m = none :=
      fun m hm hbody => forwards_eq_true_iff.1 (hall m hm hbody)
    refine ⟨(mem_examinations_passed List.not_mem_nil hall').2 ⟨hp, hex⟩, ?_⟩
    rintro ⟨-, -, m, hm, hbody, he⟩
    exact he (hall' m hm hbody)

end Confirmation

end Forwarder
