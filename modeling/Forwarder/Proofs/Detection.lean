import Forwarder.Proofs.CallSite.Regroup
import Forwarder.Proofs.CallSite.Walk
import Forwarder.Proofs.Confirmation
import Mathlib.Data.List.Perm.Basic

/-!
# What a visit reports

A visit of a class has three phases: the walk for call sites, the examination of their targets and
the report. `visit_reports_forwarders` says what comes out when none of them is cut short: one
diagnostic for each dynamic call that is linked to a candidate which the class forwards, and nothing
else. The walk contributes `scan_sites`, the examination `Confirmation.mem_confirmed` and the report
`exists_regroup_eq`.
-/

namespace Forwarder

section Visit

variable {cls : ClassFile} {table : BootstrapTable} {minMajor : Int}

/-- A named class has every remark recorded. -/
theorem resultOf_of_named {α : Type} (name : String) (remarks : List Remark) (a : α) :
    resultOf (some name) remarks a = .ok a := by
  unfold resultOf
  rw [if_pos]
  simp [Remark.record?]

/-- A visit whose walk meets no fault examines the targets of the call sites and reports them. -/
theorem visit_of_scan {data : Bytes} (hmajor : minMajor ≤ cls.major)
    (hattr : cls.attributes.find? BootstrapTable.attributeName = some data)
    (htable : BootstrapTable.decode data = .ok table)
    (hfault : (CallSite.scan cls table).fault = none) :
    cls.visit minMajor =
      let scan := CallSite.scan cls table
      let exams := cls.examine (scan.sites.map CallSite.target)
      { className := cls.name
        remarks := scan.unresolved.map Remark.unresolvedSite ++ exams.flatMap (·.remarks)
        diagnostics := cls.report scan.sites (Confirmation.confirmed exams) } := by
  unfold ClassFile.visit
  rw [if_neg (by omega)]
  simp only [hattr, htable, hfault]

/-- The dynamic calls of a class that are linked to candidates, each with its candidate. -/
def ClassFile.linked (cls : ClassFile) (table : BootstrapTable) : List (Occurrence × MethodKey) :=
  cls.occurrences.filterMap fun o => (o.target? cls table).map (Prod.mk o)

/-- A dynamic call is linked to a key exactly if that is its target. -/
theorem mem_linked {o : Occurrence} {key : MethodKey} :
    (o, key) ∈ cls.linked table ↔ o.In cls ∧ o.target? cls table = some key := by
  simp only [ClassFile.linked, List.mem_filterMap, Option.map_eq_some_iff, Prod.mk.injEq,
    mem_occurrences]
  constructor
  · rintro ⟨o', ho', key', hkey', rfl, rfl⟩
    exact ⟨ho', hkey'⟩
  · rintro ⟨ho, hkey⟩
    exact ⟨o, ho, key, hkey, rfl, rfl⟩

/-- The call sites of a walk are those of the linked dynamic calls. -/
theorem map_site_linked :
    (cls.linked table).map (fun r => r.1.site r.2) =
      cls.occurrences.filterMap fun o => (o.target? cls table).map o.site := by
  rw [ClassFile.linked, List.map_filterMap]
  refine List.filterMap_congr fun o _ => ?_
  cases o.target? cls table <;> rfl

/-- The linked dynamic calls are listed in the order of methods and offsets. -/
theorem pairwise_linked : (cls.linked table).Pairwise fun r s => r.1.Before s.1 := by
  rw [ClassFile.linked, List.pairwise_filterMap]
  refine (pairwise_before cls).imp fun {a b} hbefore r hr s hs => ?_
  obtain ⟨_, -, rfl⟩ := Option.map_eq_some_iff.1 hr
  obtain ⟨_, -, rfl⟩ := Option.map_eq_some_iff.1 hs
  exact hbefore

/-- The linked dynamic calls of confirmed targets, grouped by target. -/
def ClassFile.linkedBy (cls : ClassFile) (table : BootstrapTable) (confirmed : List MethodKey) :
    List (Occurrence × MethodKey) :=
  groupedBy Prod.snd ((cls.linked table).filter fun r => confirmed.contains r.2)

/-- The regrouped call sites of confirmed targets are those of the linked dynamic calls. -/
theorem map_site_linkedBy (cls : ClassFile) (table : BootstrapTable) (confirmed : List MethodKey) :
    CallSite.regroup confirmed ((cls.linked table).map fun r => r.1.site r.2) =
      (cls.linkedBy table confirmed).map fun r => r.1.site r.2 := by
  rw [CallSite.regroup_eq, List.filter_map]
  exact (map_groupedBy CallSite.target (fun r : Occurrence × MethodKey => r.1.site r.2) _).symm

/-- The regrouped call sites of confirmed targets come from the linked dynamic calls of confirmed
targets, each from one of them. -/
theorem exists_regroup_eq (cls : ClassFile) (table : BootstrapTable) (confirmed : List MethodKey) :
    ∃ reported : List (Occurrence × MethodKey),
      CallSite.regroup confirmed ((cls.linked table).map fun r => r.1.site r.2) =
          reported.map (fun r => r.1.site r.2) ∧
        reported.Perm ((cls.linked table).filter fun r => confirmed.contains r.2) :=
  ⟨cls.linkedBy table confirmed, map_site_linkedBy cls table confirmed, groupedBy_perm Prod.snd _⟩

/-- **A visit reports exactly the dynamic calls whose lambda only forwards.** Take a class with a
name that is not too old and has a bootstrap table, all of whose methods that are not synthetic can
be decoded and none of whose dynamic calls goes beyond the table. The visit reports each dynamic
call exactly once that is linked to a static method of the class which returns something, if the
class has a synthetic method of that key and all of these forward; it reports nothing else. -/
theorem visit_reports_forwarders {name : String} {data : Bytes} (hname : cls.name = some name)
    (hmajor : minMajor ≤ cls.major)
    (hattr : cls.attributes.find? BootstrapTable.attributeName = some data)
    (htable : BootstrapTable.decode data = .ok table)
    (hdecoded : ∀ m ∈ cls.methods, ∀ code, m.code = some code → m.isSynthetic = false →
      (Decoded.ofBytes code.bytes).fault = none)
    (hindex : ∀ o : Occurrence, o.In cls → ∀ index call, o.instruction.constantIndex = .ok index →
      cls.pool.dynamicCall index = .ok call →
        0 ≤ call.bootstrapIndex ∧ call.bootstrapIndex < table.size) :
    ∃ reported : List (Occurrence × MethodKey),
      (cls.visit minMajor).result = .ok (reported.map fun (o, key) =>
        { priority := .normal
          className := name
          methodName := o.method.name
          methodDescriptor := o.method.descriptor
          pc := o.instruction.pc
          line := lineOf o.code.lines o.instruction.pc
          sourceFile := cls.sourceFile
          target := some key.name }) ∧
      (reported.map fun r => (r.1.place, r.1.instruction.pc)).Nodup ∧
      ∀ o key, (o, key) ∈ reported ↔
        o.In cls ∧
          (∃ index, o.instruction.constantIndex = .ok index ∧
            CallSite.LinkedTo cls table index key) ∧
          cls.Forwards key := by
  have hlink : ∀ o : Occurrence, o.In cls → ∀ index e, o.instruction.constantIndex = .ok index →
      CallSite.link cls table index ≠ .error (.table e) := by
    intro o ho index e hi he
    obtain ⟨call, hcall, hentry⟩ := CallSite.link_eq_table_error.1 he
    exact (BootstrapTable.entry_eq_error_iff.1 hentry).1 (hindex o ho index call hi hcall)
  obtain ⟨hfault, hsites⟩ := CallSite.scan_sites hdecoded hlink
  rw [← map_site_linked] at hsites
  obtain ⟨reported, hreported, hperm⟩ := exists_regroup_eq cls table
    (Confirmation.confirmed (cls.examine ((CallSite.scan cls table).sites.map CallSite.target)))
  refine ⟨reported, ?_, ?_, fun o key => ?_⟩
  · rw [visit_of_scan hmajor hattr htable hfault, Visit.result]
    simp only [hname, resultOf_of_named, ClassFile.report, Except.ok.injEq]
    rw [← hsites] at hreported
    rw [hreported, List.map_map]
    rfl
  · have hnodup : ((cls.linked table).map fun r => (r.1.place, r.1.instruction.pc)).Nodup := by
      rw [List.nodup_iff_pairwise_ne, List.pairwise_map]
      refine pairwise_linked.imp fun {r s} hbefore heq => ?_
      obtain ⟨hplace, hpc⟩ := Prod.mk.inj heq
      rcases hbefore with hlt | ⟨-, hlt⟩ <;> omega
    exact (hperm.map _).nodup_iff.2 (hnodup.sublist (List.filter_sublist.map _))
  · rw [hperm.mem_iff, List.mem_filter, mem_linked, List.contains_iff_mem, ClassFile.examine,
      Confirmation.mem_confirmed, Occurrence.target?_eq_some_iff]
    constructor
    · rintro ⟨⟨ho, hlinked⟩, -, hforwards⟩
      exact ⟨ho, hlinked, hforwards⟩
    · rintro ⟨ho, hlinked, hforwards⟩
      refine ⟨⟨ho, hlinked⟩, ?_, hforwards⟩
      rw [hsites, List.map_map]
      exact List.mem_map.2 ⟨(o, key),
        mem_linked.2 ⟨ho, Occurrence.target?_eq_some_iff.2 hlinked⟩, rfl⟩

end Visit

/-! ## A class with one lambda -/

namespace Lambda

/-- The constants of a class `A` with a method `m` that makes a function of `s -> s.length()`. -/
def pool : ConstantPool where
  slots := #[none, some (.utf8 "A"), some (.classRef 1), some (.utf8 "lambda$m$0"),
    some (.utf8 "(LString;)I"), some (.nameAndType 3 4), some (.member .method 2 5),
    some (.methodHandle 6 6), some (.utf8 "String"), some (.classRef 8), some (.utf8 "length"),
    some (.utf8 "()I"), some (.nameAndType 10 11), some (.member .method 9 12),
    some (.utf8 "applyAsInt"), some (.utf8 "()LFunction;"), some (.nameAndType 14 15),
    some (.invokeDynamic 0 16)]

/-- The code of `m`: the dynamic call, and a return. -/
def callerCode : Code := ⟨1, 1, [0xBA, 0, 17, 0, 0, 0x57, 0xB1], [⟨0, 7⟩]⟩

/-- The method `m`. -/
def caller : Method := ⟨0x0001, "m", "()V", .empty, some callerCode⟩

/-- The body of the lambda, which loads its parameter, calls `length` and returns. -/
def body : Method :=
  ⟨0x100A, "lambda$m$0", "(LString;)I", .empty, some ⟨1, 1, [0x2A, 0xB6, 0, 13, 0xAC], []⟩⟩

/-- The bootstrap table, whose one entry has the handle of the body as its argument. -/
def table : BootstrapTable := ⟨#[⟨7, [7]⟩]⟩

/-- The class `A`. -/
def cls : ClassFile where
  major := 52
  minor := 0
  accessFlags := 0x0021
  name := some "A"
  superName := some "java/lang/Object"
  interfaces := []
  methods := [caller, body]
  pool := pool
  attributes := ⟨[(BootstrapTable.attributeName, table.encode)]⟩
  sourceFile := some "A.java"

/-- The dynamic call in `m`. -/
def call : Occurrence := ⟨0, caller, callerCode, ⟨0, .invokedynamic, [0, 17, 0, 0]⟩⟩

/-- The code of `m` consists of the call, a byte that drops its result, and a return. -/
theorem decoded : Decoded.ofBytes callerCode.bytes =
    ⟨[⟨0, .invokedynamic, [0, 17, 0, 0]⟩, ⟨5, .pop, []⟩, ⟨6, .vreturn, []⟩], none⟩ := by
  decide +kernel

/-- The class has no other dynamic call. -/
theorem occurrences : cls.occurrences = [call] := by
  have hcaller : caller.occurrences 0 = [call] := by
    simp only [Method.occurrences, caller, decoded]
    rfl
  have hbody : body.occurrences 1 = [] := rfl
  show caller.occurrences 0 ++ (body.occurrences 1 ++ []) = [call]
  rw [hcaller, hbody]
  rfl

/-- The call is linked to the body. -/
theorem linkedTo : CallSite.LinkedTo cls table 17 body.key := by
  refine ⟨⟨0, "applyAsInt", "()LFunction;"⟩, ⟨7, [7]⟩,
    ⟨.invokeStatic, ⟨.method, "A", "lambda$m$0", "(LString;)I"⟩⟩, by decide, by decide,
    ⟨[], 7, [], rfl, by simp, by decide⟩, rfl, rfl, ?_, rfl⟩
  exact ⟨⟨[.object "String".toList], some (.base .int)⟩, by simp [MethodDescriptor.WellFormed,
    FieldType.WellFormed, FieldType.isNameChar], by decide, rfl⟩

/-- The body is forwarded. -/
theorem forwards : cls.Forwards body.key := by
  refine ⟨⟨body, by simp [cls], by decide, rfl⟩, fun m hm hbody => ?_⟩
  have hcaller : caller.isSynthetic = false := by decide
  rcases List.mem_cons.1 hm with rfl | hm
  · exact absurd hbody.1 (by simp [hcaller])
  · rw [List.mem_singleton.1 hm]
    decide +kernel

end Lambda

/-- The visit of the class with one lambda reports the dynamic call of that lambda. -/
theorem visit_reports_forwarders_lambda :
    ∃ ds, (Lambda.cls.visit 52).result = .ok ds ∧
      (⟨.normal, "A", "m", "()V", 0, some 7, some "A.java", some "lambda$m$0"⟩ : Diagnostic) ∈
        ds := by
  have hcode : ∀ m ∈ Lambda.cls.methods, ∀ code, m.code = some code → m.isSynthetic = false →
      (Decoded.ofBytes code.bytes).fault = none := by
    intro m hm code hcode hsyn
    rcases List.mem_cons.1 hm with rfl | hm
    · cases hcode
      rw [Lambda.decoded]
    · rw [List.mem_singleton.1 hm] at hsyn
      exact absurd hsyn (by decide)
  have hcall : ∀ o : Occurrence, o.In Lambda.cls → o = Lambda.call := by
    intro o ho
    have := mem_occurrences.2 ho
    rw [Lambda.occurrences] at this
    exact List.mem_singleton.1 this
  obtain ⟨reported, hresult, -, hmem⟩ := @visit_reports_forwarders Lambda.cls Lambda.table 52
    "A" Lambda.table.encode rfl (by decide) rfl (by decide) hcode (by
      intro o ho index call hindex hdynamic
      rw [hcall o ho] at hindex
      cases hindex
      cases hdynamic
      decide)
  refine ⟨_, hresult, List.mem_map.2 ⟨(Lambda.call, Lambda.body.key), (hmem _ _).2 ?_, rfl⟩⟩
  refine ⟨?_, ⟨17, rfl, Lambda.linkedTo⟩, Lambda.forwards⟩
  exact mem_occurrences.1 (by rw [Lambda.occurrences]; exact List.mem_singleton_self _)

end Forwarder
