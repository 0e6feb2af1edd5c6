import Forwarder.Proofs.Report.Candidates

/-!
# The bodies of lambdas do not interfere with each other

`Method.SameButBody` relates the methods of two classes that differ in the code of the bodies of one
key. `visit_of_sameButBody`: visits of such classes find the same candidates, report the same call
sites of other targets in the same order, and of that target all call sites or none
(`ClassFile.VisitedAlikeBut`). Code that cannot be decoded ends the walk over a class only in a method
that is not synthetic.
-/

namespace Forwarder

/-- A method of another class is the same, unless it is a body of a key: then its code may differ,
which is one of its attributes, too. -/
def Method.SameButBody (key : MethodKey) (m m' : Method) : Prop :=
  m' = m ∨ m.IsBodyOf key ∧ ∃ attributes code, m' = { m with attributes, code }

/-- A visit reports the candidates of a target together. -/
def ClassFile.ReportsAllOrNone (minMajor : Int) (key : MethodKey) (cls : ClassFile) : Prop :=
  ((cls.reported minMajor).filter fun s => s.target = key) = [] ∨
    ((cls.reported minMajor).filter fun s => s.target = key) =
      (cls.candidates minMajor).filter fun s => s.target = key

/-- Visits of two classes differ at most in whether they report the candidates of one target. -/
structure ClassFile.VisitedAlikeBut (cls : ClassFile) (minMajor : Int) (key : MethodKey)
    (cls' : ClassFile) : Prop where
  named : ∀ {name}, cls.name = some name →
    (cls.visit minMajor).result =
        .ok ((cls.reported minMajor).map (·.diagnostic name cls.sourceFile)) ∧
      (cls'.visit minMajor).result =
        .ok ((cls'.reported minMajor).map (·.diagnostic name cls.sourceFile))
  unnamed : cls.name = none → (cls'.visit minMajor).result = (cls.visit minMajor).result
  surveyed : ∀ table, cls'.Surveyed minMajor table ↔ cls.Surveyed minMajor table
  candidates : cls'.candidates minMajor = cls.candidates minMajor
  others : ((cls'.reported minMajor).filter fun s => s.target ≠ key) =
    (cls.reported minMajor).filter fun s => s.target ≠ key
  allOrNone : cls.ReportsAllOrNone minMajor key
  allOrNone' : cls'.ReportsAllOrNone minMajor key

section Report

variable (minMajor : Int) (cls : ClassFile)

/-- The class either forwards a target or it does not, for all of its call sites. -/
theorem reportsAllOrNone (key : MethodKey) : cls.ReportsAllOrNone minMajor key := by
  unfold ClassFile.ReportsAllOrNone ClassFile.reported
  rw [(regroups_groupedBy CallSite.target _).filter_eq key, List.filter_filter]
  by_cases hforwards : cls.Forwards key
  · refine .inr (List.filter_congr fun s _ => ?_)
    by_cases hs : s.target = key <;> simp [hs, hforwards]
  · refine .inl (List.filter_eq_nil_iff.2 fun s _ => ?_)
    by_cases hs : s.target = key <;> simp [hs, hforwards]

end Report

section SameButBody

variable {cls : ClassFile} {ms : List Method} {key : MethodKey}

/-- A test that no body of the key passes tells nothing about the code of these. -/
theorem filter_of_sameButBody {p : Method → Bool} (hp : ∀ m, m.IsBodyOf key → p m = false)
    {l l' : List Method} (h : List.Forall₂ (Method.SameButBody key) l l') :
    l'.filter p = l.filter p := by
  induction h with
  | nil => rfl
  | @cons m _ l l' hm _ ih =>
    rcases hm with rfl | ⟨hbody, attributes, code, rfl⟩
    · rw [List.filter_cons, List.filter_cons, ih]
    · have hold := hp _ hbody
      have hnew : p { m with attributes, code } = false := hp _ hbody
      rw [List.filter_cons, List.filter_cons, hold, hnew, ih]
      rfl

variable (h : List.Forall₂ (Method.SameButBody key) cls.methods ms)

include h

/-- The walk over the class passes over all bodies. -/
theorem scan_of_sameButBody (table : BootstrapTable) :
    CallSite.scan (cls.withMethods ms) table = CallSite.scan cls table :=
  scan_of_filter_eq (filter_of_sameButBody (fun m hbody => by simp [hbody.1]) h) table

/-- Whether a class is surveyed does not depend on the code of bodies. -/
theorem surveyed_of_sameButBody (minMajor : Int) (table : BootstrapTable) :
    (cls.withMethods ms).Surveyed minMajor table ↔ cls.Surveyed minMajor table :=
  surveyed_withMethods_iff (by rw [scan_of_sameButBody h])

/-- The bodies of another key are the same. -/
theorem forwards_of_sameButBody {k : MethodKey} (hk : k ≠ key) :
    (cls.withMethods ms).Forwards k ↔ cls.Forwards k := by
  have hfilter := filter_of_sameButBody (p := fun m => m.isSynthetic && m.key = k)
    (fun m hbody => by simp [hbody.2, hk.symm]) h
  refine forwards_of_mem_iff fun m => ?_
  have hmem : m ∈ ms.filter (fun m => m.isSynthetic && m.key = k) ↔
      m ∈ cls.methods.filter fun m => m.isSynthetic && m.key = k := by rw [hfilter]
  simpa only [List.mem_filter, Bool.and_eq_true, decide_eq_true_eq, Method.IsBodyOf] using hmem

/-- The call sites of other targets are those of the same candidates, forwarded or not as before. -/
theorem others_of_sameButBody (minMajor : Int) :
    (((cls.withMethods ms).reported minMajor).filter fun s => s.target ≠ key) =
      (cls.reported minMajor).filter fun s => s.target ≠ key := by
  unfold ClassFile.reported
  rw [filter_groupedBy CallSite.target fun k => decide (k ≠ key),
    filter_groupedBy CallSite.target fun k => decide (k ≠ key), List.filter_filter, List.filter_filter,
    candidates_of_scan_eq (scan_of_sameButBody h)]
  refine congrArg (groupedBy CallSite.target) (List.filter_congr fun s _ => ?_)
  by_cases hs : s.target = key
  · simp [hs]
  · simp [hs, forwards_of_sameButBody h hs]

/-- **The bodies of lambdas do not interfere with each other.** Take two classes that differ only in
the code of the bodies of one key. Visits of them walk to the end in one class exactly if they do in
the other, whatever code these bodies have, if any. They report the same call sites of other targets
in the same order, and the call sites of that key in each class together or not at all. -/
theorem visit_of_sameButBody (minMajor : Int) :
    cls.VisitedAlikeBut minMajor key (cls.withMethods ms) where
  named hname := ⟨result_visit_eq_reported minMajor hname, result_visit_withMethods hname⟩
  unnamed hname := result_visit_of_quiet_iff hname fun table => by rw [scan_of_sameButBody h]
  surveyed := surveyed_of_sameButBody h minMajor
  candidates := candidates_of_scan_eq (scan_of_sameButBody h)
  others := others_of_sameButBody h minMajor
  allOrNone := reportsAllOrNone minMajor cls key
  allOrNone' := reportsAllOrNone minMajor (cls.withMethods ms) key

end SameButBody

/-- In the class with one lambda the dynamic call of the lambda is not reported any more if the body
of the lambda cannot be decoded; the visit walks to its end all the same. -/
theorem visit_of_sameButBody_lambda :
    let broken : Method := { Lambda.body with code := some ⟨0, 0, [0xFF], []⟩ }
    Lambda.cls.VisitedAlikeBut 52 Lambda.body.key
        (Lambda.cls.withMethods [Lambda.caller, broken]) ∧
      (Decoded.ofBytes [0xFF]).fault ≠ none ∧
      (Lambda.cls.reported 52).map CallSite.target = [Lambda.body.key] ∧
      (Lambda.cls.withMethods [Lambda.caller, broken]).reported 52 = [] := by
  intro broken
  have hbody : Lambda.body.SameButBody Lambda.body.key broken :=
    .inr ⟨⟨by decide, rfl⟩, Lambda.body.attributes, _, rfl⟩
  refine ⟨visit_of_sameButBody (.cons (.inl rfl) (.cons hbody .nil)) 52, ?_, ?_, ?_⟩
  · decide +kernel
  · decide +kernel
  · decide +kernel

end Forwarder
