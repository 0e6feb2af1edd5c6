import Forwarder.Proofs.Report

/-!
# What a visit reads of the methods of a class

A visit reads the methods of a class twice. The walk for call sites passes over synthetic methods
(`CallSite.scan_eq`), and the examination of a target comes down to whether the class forwards it
(`regroup_confirmed`). So what a visit of a named class reports are the `ClassFile.candidates` of the
walk whose targets the class forwards, grouped by target (`result_visit_eq_reported`); and a class
without a name differs from one with other methods only where the walks differ
(`result_visit_of_quiet_iff`).
-/

namespace Forwarder

namespace ClassFile

/-- The bootstrap table that a visit walks with, if the class is recent enough and has one. -/
def table? (minMajor : Int) (cls : ClassFile) : Option BootstrapTable :=
  if cls.major < minMajor then none
  else (cls.attributes.find? BootstrapTable.attributeName).bind fun data =>
    (BootstrapTable.decode data).toOption

/-- The call sites whose targets a visit examines: those of a walk that ends without a fault. -/
def candidates (minMajor : Int) (cls : ClassFile) : List CallSite :=
  match cls.table? minMajor with
  | none => []
  | some table =>
    if (CallSite.scan cls table).fault = none then (CallSite.scan cls table).sites else []

/-- The candidates whose targets the class forwards, grouped by target. -/
def reported (minMajor : Int) (cls : ClassFile) : List CallSite :=
  groupedBy CallSite.target ((cls.candidates minMajor).filter fun s => cls.Forwards s.target)

end ClassFile

section Reported

variable {cls : ClassFile} (minMajor : Int)

/-- The call sites of confirmed targets are those of the targets that the class forwards. -/
theorem regroup_confirmed (cls : ClassFile) (sites : List CallSite) :
    CallSite.regroup (Confirmation.confirmed (cls.examine (sites.map CallSite.target))) sites =
      groupedBy CallSite.target (sites.filter fun s => cls.Forwards s.target) := by
  rw [CallSite.regroup_eq]
  exact congrArg (groupedBy CallSite.target) (List.filter_congr fun _ hs => contains_confirmed hs)

/-- A class has a table to go by exactly if it is recent enough and its attribute is decoded as one.
-/
theorem table?_eq_some_iff {table : BootstrapTable} :
    cls.table? minMajor = some table ↔
      minMajor ≤ cls.major ∧ ∃ data, cls.attributes.find? BootstrapTable.attributeName = some data ∧
        BootstrapTable.decode data = .ok table := by
  unfold ClassFile.table?
  split
  · simp only [reduceCtorEq, false_iff, not_and]
    omega
  · have hrecent : minMajor ≤ cls.major := by omega
    rw [Option.bind_eq_some_iff, and_iff_right hrecent]
    refine exists_congr fun data => and_congr_right fun _ => ?_
    cases BootstrapTable.decode data with
    | error e => simp [Except.toOption]
    | ok table => simp [Except.toOption]

/-- The candidates of a class that is surveyed are the call sites of its walk. -/
theorem candidates_of_surveyed {table : BootstrapTable} (h : cls.Surveyed minMajor table) :
    cls.candidates minMajor = (CallSite.scan cls table).sites := by
  obtain ⟨hrecent, htable, hfault⟩ := surveyed_iff.1 h
  simp only [ClassFile.candidates, (table?_eq_some_iff minMajor).2 ⟨hrecent, htable⟩, if_pos hfault]

/-- A class that is not surveyed has no candidates. -/
theorem candidates_of_not_surveyed (h : ∀ table, ¬ cls.Surveyed minMajor table) :
    cls.candidates minMajor = [] := by
  unfold ClassFile.candidates
  cases htable : cls.table? minMajor with
  | none => rfl
  | some table =>
    obtain ⟨hrecent, hdata⟩ := (table?_eq_some_iff minMajor).1 htable
    exact if_neg fun hfault => h table (surveyed_iff.2 ⟨hrecent, hdata, hfault⟩)

/-- The diagnostics of a visit are those of the reported call sites. -/
theorem diagnostics_visit {name : String} (hname : cls.name = some name) :
    (cls.visit minMajor).diagnostics =
      (cls.reported minMajor).map (·.diagnostic name cls.sourceFile) := by
  unfold ClassFile.reported
  rcases Classical.em (∃ table, cls.Surveyed minMajor table) with ⟨table, hsurveyed⟩ | hnone
  · obtain ⟨hrecent, ⟨data, hdata, htable⟩, hfault⟩ := surveyed_iff.1 hsurveyed
    rw [visit_of_scan hrecent hdata htable hfault, candidates_of_surveyed minMajor hsurveyed]
    simp only [ClassFile.report, hname, regroup_confirmed]
  · have hnot : ∀ table, ¬ cls.Surveyed minMajor table := fun table h => hnone ⟨table, h⟩
    rw [diagnostics_of_not_surveyed hnot, candidates_of_not_surveyed minMajor hnot]
    rfl

/-- The visit of a named class gives the diagnostics of the reported call sites. -/
theorem result_visit_eq_reported {name : String} (hname : cls.name = some name) :
    (cls.visit minMajor).result =
      .ok ((cls.reported minMajor).map (·.diagnostic name cls.sourceFile)) := by
  rw [result_visit_eq minMajor hname, diagnostics_visit minMajor hname]

end Reported

/-! ## Classes that differ in their methods -/

/-- The walk over a class passes over its synthetic methods. -/
theorem CallSite.scan_eq (cls : ClassFile) (table : BootstrapTable) :
    scan cls table =
      .concat ((cls.methods.filter fun m => !m.isSynthetic).map (scanMethod cls table)) := by
  unfold scan
  induction cls.methods with
  | nil => rfl
  | cons m ms ih =>
    cases hsyn : m.isSynthetic with
    | false => simp [hsyn, ih]
    | true =>
      have hempty : scanMethod cls table m = .empty := by
        cases hcode : m.code <;> simp [scanMethod, hcode, hsyn]
      rw [List.map_cons, Scan.concat_cons, hempty, List.filter_cons_of_neg (by simp [hsyn]), ← ih]
      rfl

/-- The class with other methods. -/
def ClassFile.withMethods (cls : ClassFile) (ms : List Method) : ClassFile :=
  { cls with methods := ms }

section WithMethods

variable {cls : ClassFile} {ms : List Method} {minMajor : Int}

@[simp] theorem methods_withMethods : (cls.withMethods ms).methods = ms := rfl

/-- Methods are walked over one by one, whatever others the class has. -/
theorem scanMethod_withMethods (table : BootstrapTable) :
    CallSite.scanMethod (cls.withMethods ms) table = CallSite.scanMethod cls table := rfl

theorem table?_withMethods : (cls.withMethods ms).table? minMajor = cls.table? minMajor := rfl

/-- Whatever synthetic methods a class has, and wherever, the walk over it is the same. -/
theorem scan_of_filter_eq
    (h : (ms.filter fun m => !m.isSynthetic) = cls.methods.filter fun m => !m.isSynthetic)
    (table : BootstrapTable) :
    CallSite.scan (cls.withMethods ms) table = CallSite.scan cls table := by
  rw [CallSite.scan_eq, CallSite.scan_eq, methods_withMethods, h, scanMethod_withMethods]

/-- Methods that are walked over alike have the same candidates. -/
theorem candidates_of_scan_eq
    (h : ∀ table, CallSite.scan (cls.withMethods ms) table = CallSite.scan cls table) :
    (cls.withMethods ms).candidates minMajor = cls.candidates minMajor := by
  unfold ClassFile.candidates
  simp only [table?_withMethods, h]

/-- Other methods make a difference to whether a visit walks to its end only where they make one to
the walk. -/
theorem surveyed_withMethods_iff {table : BootstrapTable}
    (h : (CallSite.scan (cls.withMethods ms) table).fault = none ↔
      (CallSite.scan cls table).fault = none) :
    (cls.withMethods ms).Surveyed minMajor table ↔ cls.Surveyed minMajor table := by
  rw [surveyed_iff, surveyed_iff, h]
  rfl

/-- Whether a class forwards a key rests on the bodies of that key. -/
theorem forwards_of_mem_iff {key : MethodKey}
    (h : ∀ m, m ∈ ms ∧ m.IsBodyOf key ↔ m ∈ cls.methods ∧ m.IsBodyOf key) :
    (cls.withMethods ms).Forwards key ↔ cls.Forwards key := by
  constructor
  · rintro ⟨⟨m, hm⟩, hall⟩
    exact ⟨⟨m, (h m).1 hm⟩, fun m hm hbody => hall m ((h m).2 ⟨hm, hbody⟩).1 hbody⟩
  · rintro ⟨⟨m, hm⟩, hall⟩
    exact ⟨⟨m, (h m).2 hm⟩, fun m hm hbody => hall m ((h m).1 ⟨hm, hbody⟩).1 hbody⟩

/-- A class of other methods reports the call sites of these. -/
theorem result_visit_withMethods {name : String} (hname : cls.name = some name) :
    ((cls.withMethods ms).visit minMajor).result =
      .ok (((cls.withMethods ms).reported minMajor).map (·.diagnostic name cls.sourceFile)) :=
  @result_visit_eq_reported (cls.withMethods ms) minMajor name hname

/-- The visit of a class without a name rests on what the walk has to remark. -/
theorem result_visit_of_quiet_iff (hname : cls.name = none)
    (h : ∀ table, (CallSite.scan (cls.withMethods ms) table).Quiet ↔
      (CallSite.scan cls table).Quiet) :
    ((cls.withMethods ms).visit minMajor).result = (cls.visit minMajor).result := by
  have hiff : (cls.withMethods ms).Unreportable minMajor ↔ cls.Unreportable minMajor := by
    simp only [CallSite.quiet_scan_iff, not_iff_not] at h
    simp only [ClassFile.Unreportable, h]
    rfl
  rcases @result_visit_of_unnamed (cls.withMethods ms) minMajor hname with ⟨h', hun'⟩ | ⟨h', hun'⟩
  · rcases result_visit_of_unnamed minMajor hname with ⟨h, -⟩ | ⟨-, hun⟩
    · rw [h, h']
    · exact absurd (hiff.1 hun') hun
  · rcases result_visit_of_unnamed minMajor hname with ⟨-, hun⟩ | ⟨h, -⟩
    · exact absurd (hiff.2 hun) hun'
    · rw [h, h']

end WithMethods

end Forwarder
