import Forwarder.Proofs.Report.Candidates

/-!
# The order of methods does not matter

`visit_of_perm`: a visit of a class whose methods stand in another order reports the same diagnostics,
in the same order if the methods that are not synthetic keep theirs. Each phase of a visit goes by
the methods in their order; but the walk for call sites fails in one order exactly if it fails in
every other (`quiet_scan_of_perm`, `candidates_perm`), and whether a key is forwarded is decided by
all of its methods (`forwards_of_perm`).
-/

namespace Forwarder

section Order

variable {cls : ClassFile} {ms : List Method} (h : ms.Perm cls.methods)

include h

/-- Whether a key is forwarded does not depend on the order of the methods. -/
theorem forwards_of_perm (key : MethodKey) :
    (cls.withMethods ms).Forwards key ↔ cls.Forwards key :=
  forwards_of_mem_iff fun _ => and_congr_left fun _ => h.mem_iff

/-- What holds of the walk over every method holds in one order if it does in the other. -/
theorem forall_scanMethod_of_perm (P : CallSite.Scan → Prop) (table : BootstrapTable) :
    (∀ s ∈ ms.map (CallSite.scanMethod (cls.withMethods ms) table), P s) ↔
      ∀ s ∈ cls.methods.map (CallSite.scanMethod cls table), P s := by
  rw [List.forall_mem_map, List.forall_mem_map]
  exact forall_congr' fun m => imp_congr_left h.mem_iff

/-- Whether the walk for call sites fails does not depend on the order of the methods. -/
theorem scan_fault_of_perm (table : BootstrapTable) :
    (CallSite.scan (cls.withMethods ms) table).fault = none ↔
      (CallSite.scan cls table).fault = none := by
  rw [CallSite.scan, CallSite.scan, CallSite.Scan.fault_concat_eq_none,
    CallSite.Scan.fault_concat_eq_none]
  exact forall_scanMethod_of_perm h (fun s => s.fault = none) table

/-- Whether the walk is quiet does not depend on the order of the methods. -/
theorem quiet_scan_of_perm (table : BootstrapTable) :
    (CallSite.scan (cls.withMethods ms) table).Quiet ↔ (CallSite.scan cls table).Quiet := by
  rw [CallSite.scan, CallSite.scan, CallSite.Scan.quiet_concat, CallSite.Scan.quiet_concat]
  exact forall_scanMethod_of_perm h CallSite.Scan.Quiet table

/-- Where no walk fails each method contributes its call sites, in whatever order. -/
theorem candidates_perm (minMajor : Int) :
    ((cls.withMethods ms).candidates minMajor).Perm (cls.candidates minMajor) := by
  have hiff : ∀ table, (cls.withMethods ms).Surveyed minMajor table ↔ cls.Surveyed minMajor table :=
    fun table => surveyed_withMethods_iff (scan_fault_of_perm h table)
  rcases Classical.em (∃ table, cls.Surveyed minMajor table) with ⟨table, hsurveyed⟩ | hnone
  · have hsurveyed' := (hiff table).2 hsurveyed
    obtain ⟨-, -, hfault⟩ := surveyed_iff.1 hsurveyed
    obtain ⟨-, -, hfault'⟩ := surveyed_iff.1 hsurveyed'
    rw [candidates_of_surveyed minMajor hsurveyed, candidates_of_surveyed minMajor hsurveyed',
      CallSite.scan, CallSite.scan,
      CallSite.Scan.sites_concat (CallSite.Scan.fault_concat_eq_none.1 hfault),
      CallSite.Scan.sites_concat (CallSite.Scan.fault_concat_eq_none.1 hfault')]
    exact (h.map _).flatMap fun s _ => .refl _
  · rw [candidates_of_not_surveyed minMajor fun table hsurveyed => hnone ⟨table, hsurveyed⟩,
      candidates_of_not_surveyed minMajor fun table hsurveyed =>
        hnone ⟨table, (hiff table).1 hsurveyed⟩]

/-- In another order the same call sites are reported. -/
theorem reported_perm (minMajor : Int) :
    ((cls.withMethods ms).reported minMajor).Perm (cls.reported minMajor) := by
  have hperm := (candidates_perm h minMajor).filter fun s => decide (cls.Forwards s.target)
  unfold ClassFile.reported
  simp only [forwards_of_perm h]
  exact (groupedBy_perm _ _).trans (hperm.trans (groupedBy_perm _ _).symm)

/-- The candidates stand in the order of the methods that are not synthetic. -/
theorem reported_of_filter_eq (minMajor : Int)
    (hfilter : (ms.filter fun m => !m.isSynthetic) = cls.methods.filter fun m => !m.isSynthetic) :
    (cls.withMethods ms).reported minMajor = cls.reported minMajor := by
  unfold ClassFile.reported
  simp only [forwards_of_perm h, candidates_of_scan_eq (scan_of_filter_eq hfilter)]

end Order

/-- **The order of the methods of a class does not matter.** If they stand in another order, a visit
fails as before, or it reports as many diagnostics as before, and the same ones. If the methods that
are not synthetic stand in the same order, the visit reports the same list. -/
theorem visit_of_perm {cls : ClassFile} {ms : List Method} (minMajor : Int)
    (h : ms.Perm cls.methods) :
    (((cls.visit minMajor).result = .error .unnamed ∧
          ((cls.withMethods ms).visit minMajor).result = .error .unnamed) ∨
        ∃ ds ds', (cls.visit minMajor).result = .ok ds ∧
          ((cls.withMethods ms).visit minMajor).result = .ok ds' ∧
          ds'.Perm ds ∧ ds'.length = ds.length) ∧
      ((ms.filter fun m => !m.isSynthetic) = (cls.methods.filter fun m => !m.isSynthetic) →
        ((cls.withMethods ms).visit minMajor).result =
          (cls.visit minMajor).result) := by
  cases hname : cls.name with
  | none =>
    -- a class without a name has no candidates, and either order has something to be remarked
    have hresult := @result_visit_of_quiet_iff cls ms minMajor hname (quiet_scan_of_perm h)
    refine ⟨?_, fun _ => hresult⟩
    rw [hresult]
    cases (cls.visit minMajor).result with
    | error e => exact .inl ⟨rfl, rfl⟩
    | ok ds => exact .inr ⟨ds, ds, rfl, rfl, .refl ds, rfl⟩
  | some name =>
    have hresult := result_visit_eq_reported minMajor hname
    have hresult' := @result_visit_withMethods cls ms minMajor name hname
    have hperm := (reported_perm h minMajor).map (·.diagnostic name cls.sourceFile)
    refine ⟨.inr ⟨_, _, hresult, hresult', hperm, hperm.length_eq⟩, fun hfilter => ?_⟩
    rw [hresult, hresult', reported_of_filter_eq h minMajor hfilter]

namespace Lambda

/-- Another method with the dynamic call of the lambda. -/
def other : Method := { caller with name := "n" }

/-- The class with two calls of the lambda. -/
def twice : ClassFile := cls.withMethods [caller, other, body]

/-- What is reported of a method with the dynamic call. -/
def diagnosticOf (m : Method) : Diagnostic :=
  ⟨.normal, "A", m.name, "()V", 0, some 7, some "A.java", some "lambda$m$0"⟩

/-- Both calls are reported. -/
theorem result_visit_twice :
    (twice.visit 52).result = .ok [diagnosticOf caller, diagnosticOf other] := by
  decide +kernel

end Lambda

/-- Both calls of the lambda are reported in their order if its body stands in front of them, and if
its body stands between them and the calls the other way round, both are reported in some order. -/
theorem visit_of_perm_lambda :
    ((Lambda.twice.withMethods [Lambda.body, Lambda.caller, Lambda.other]).visit 52).result =
        .ok [Lambda.diagnosticOf Lambda.caller, Lambda.diagnosticOf Lambda.other] ∧
      ∃ ds, ((Lambda.twice.withMethods [Lambda.other, Lambda.body, Lambda.caller]).visit 52).result =
          .ok ds ∧
        ds.Perm [Lambda.diagnosticOf Lambda.caller, Lambda.diagnosticOf Lambda.other] := by
  have hfront : [Lambda.body, Lambda.caller, Lambda.other].Perm Lambda.twice.methods := by decide
  have hback : [Lambda.other, Lambda.body, Lambda.caller].Perm Lambda.twice.methods := by decide
  constructor
  · exact ((visit_of_perm 52 hfront).2 (by decide)).trans Lambda.result_visit_twice
  · rcases (visit_of_perm 52 hback).1 with ⟨hunnamed, -⟩ | ⟨ds, ds', hresult, hresult', hperm, -⟩
    · cases Lambda.result_visit_twice.symm.trans hunnamed
    · cases Lambda.result_visit_twice.symm.trans hresult
      exact ⟨ds', hresult', hperm⟩

end Forwarder
