import Forwarder.Proofs.Report
import Mathlib

/-!
# The calls that are reported

A reported call is linked to a static method of its class whose descriptor returns something. The
descriptor of the call itself is never looked at, so what the call captures makes no difference:
`visit_of_redescribes` gives the dynamic calls of a class other names and descriptors and leaves its
visit as it is. Neither is the number of parameters of the lambda looked at. `capture_reported` is a
call that captures a value, of a lambda with two parameters.
-/

namespace Forwarder

namespace ConstantPool

/-- A pool differs from another one at most in the names and descriptors of dynamic calls. -/
def Redescribes (pool pool' : ConstantPool) : Prop :=
  ∀ index, pool'.entry index = pool.entry index ∨
    ∃ bootstrap n n', pool.entry index = .ok (.invokeDynamic bootstrap n) ∧
      pool'.entry index = .ok (.invokeDynamic bootstrap n') ∧
      (∃ texts, pool.nameAndType n = .ok texts) ∧ ∃ texts', pool'.nameAndType n' = .ok texts'

section Redescribes

variable {pool pool' : ConstantPool}

/-- What does not look at the operands of dynamic calls finds the same in both pools. -/
theorem Redescribes.entry_bind {α : Type} {f : Constant → Except ResolutionError α}
    (h : pool.Redescribes pool')
    (hf : ∀ bootstrap n n', f (.invokeDynamic bootstrap n) = f (.invokeDynamic bootstrap n'))
    (index : Int) : (pool'.entry index >>= f) = (pool.entry index >>= f) := by
  rcases h index with heq | ⟨bootstrap, n, n', heq, heq', -⟩
  · rw [heq]
  · rw [heq, heq']
    exact hf bootstrap n' n

/-- Both pools have the same texts, and so whatever is made of texts. -/
theorem Redescribes.utf8_eq (h : pool.Redescribes pool') (index : Int) :
    pool'.utf8 index = pool.utf8 index :=
  h.entry_bind (fun _ _ _ => rfl) index

theorem Redescribes.className_eq (h : pool.Redescribes pool') (index : Int) :
    pool'.className index = pool.className index := by
  unfold className
  simp only [h.utf8_eq]
  exact h.entry_bind (fun _ _ _ => rfl) index

theorem Redescribes.nameAndType_eq (h : pool.Redescribes pool') (index : Int) :
    pool'.nameAndType index = pool.nameAndType index := by
  unfold nameAndType
  simp only [h.utf8_eq]
  exact h.entry_bind (fun _ _ _ => rfl) index

theorem Redescribes.member_eq (h : pool.Redescribes pool') (index : Int) :
    pool'.member index = pool.member index := by
  unfold member
  simp only [h.nameAndType_eq, h.className_eq]
  exact h.entry_bind (fun _ _ _ => rfl) index

theorem Redescribes.methodHandle_eq (h : pool.Redescribes pool') (index : Int) :
    pool'.methodHandle index = pool.methodHandle index := by
  unfold methodHandle
  simp only [h.member_eq]
  exact h.entry_bind (fun _ _ _ => rfl) index

/-- The dynamic calls of both pools are linked by the same bootstrap entries. -/
theorem Redescribes.bootstrapIndex_eq (h : pool.Redescribes pool') (index : Int) :
    (pool'.dynamicCall index).map DynamicCall.bootstrapIndex =
      (pool.dynamicCall index).map DynamicCall.bootstrapIndex := by
  unfold dynamicCall
  rcases h index with heq | ⟨bootstrap, n, n', heq, heq', ⟨texts, htexts⟩, texts', htexts'⟩
  · simp only [heq, h.nameAndType_eq]
  · rw [heq, heq']
    show Except.map _ (pool'.nameAndType n' >>= _) = Except.map _ (pool.nameAndType n >>= _)
    rw [htexts, htexts']
    rfl

/-- The first method handle among some arguments is the same in both pools. -/
theorem Redescribes.firstHandle_eq (h : pool.Redescribes pool') (args : List Nat) :
    BootstrapEntry.firstHandle pool' args = BootstrapEntry.firstHandle pool args := by
  induction args with
  | nil => rfl
  | cons arg args ih =>
    rcases h arg with heq | ⟨bootstrap, n, n', heq, heq', -⟩
    · simp only [BootstrapEntry.firstHandle, heq, h.methodHandle_eq, ih]
    · rw [BootstrapEntry.firstHandle_cons_other heq (by simp),
        BootstrapEntry.firstHandle_cons_other heq' (by simp), ih]

end Redescribes

end ConstantPool

section Visit

variable {cls : ClassFile} {pool' : ConstantPool}

/-- A dynamic call is linked to the same body, whatever its name and its descriptor are. -/
theorem link_of_redescribes (h : cls.pool.Redescribes pool') (table : BootstrapTable)
    (index : Nat) :
    CallSite.link { cls with pool := pool' } table index = CallSite.link cls table index := by
  have hcall := h.bootstrapIndex_eq index
  have hhandle : ∀ e : BootstrapEntry, e.handle pool' = e.handle cls.pool :=
    fun e => h.firstHandle_eq e.arguments
  unfold CallSite.link
  simp only [hhandle]
  cases hold : cls.pool.dynamicCall index with
  | error e =>
    cases hnew : pool'.dynamicCall index with
    | error e' =>
      rw [hold, hnew] at hcall
      cases hcall
      rfl
    | ok call' =>
      rw [hold, hnew] at hcall
      cases hcall
  | ok call =>
    cases hnew : pool'.dynamicCall index with
    | error e' =>
      rw [hold, hnew] at hcall
      cases hcall
    | ok call' =>
      rw [hold, hnew] at hcall
      have hbootstrap : call'.bootstrapIndex = call.bootstrapIndex := Except.ok.inj hcall
      simp only [Except.mapError, bind, Except.bind, hbootstrap]

/-- The walk for call sites does not look at the descriptors of dynamic calls. -/
theorem scan_of_redescribes (h : cls.pool.Redescribes pool') (table : BootstrapTable) :
    CallSite.scan { cls with pool := pool' } table = CallSite.scan cls table := by
  unfold CallSite.scan CallSite.scanMethod CallSite.scanCode CallSite.scanInstruction
  simp only [link_of_redescribes h]

/-- A body is followed in the same way, since the methods that it calls are the same. -/
theorem follow_of_redescribes {pool : ConstantPool} (h : pool.Redescribes pool')
    (state : Body.State) (instrs : List Instruction) (fault : Option Instruction.DecodeFault) :
    Body.follow pool' state instrs fault = Body.follow pool state instrs fault := by
  have hstep : ∀ state ins, Body.step pool' state ins = Body.step pool state ins := by
    intro state ins
    simp only [Body.step, Body.invokesWithoutArguments, h.member_eq]
  induction instrs generalizing state with
  | nil => cases fault <;> rfl
  | cons ins instrs ih => simp only [Body.follow, hstep, ih]

/-- The examinations of bodies do not look at the descriptors of dynamic calls. -/
theorem examinations_of_redescribes {pool : ConstantPool} (h : pool.Redescribes pool')
    (pending failed : List MethodKey) (ms : List Method) :
    Confirmation.examinations pool' pending failed ms =
      Confirmation.examinations pool pending failed ms := by
  have hexamine : ∀ m, Body.examine pool' m = Body.examine pool m := by
    intro m
    simp only [Body.examine, follow_of_redescribes h]
  induction ms generalizing failed with
  | nil => rfl
  | cons m ms ih => simp only [Confirmation.examinations, hexamine, ih]

/-- **A visit does not look at the names and descriptors of dynamic calls**, and so not at what they
capture. -/
theorem visit_of_redescribes (h : cls.pool.Redescribes pool') (minMajor : Int) :
    ClassFile.visit minMajor { cls with pool := pool' } = cls.visit minMajor := by
  have hexamine : ∀ pending, ClassFile.examine { cls with pool := pool' } pending =
      cls.examine pending := fun pending => examinations_of_redescribes h pending [] cls.methods
  unfold ClassFile.visit
  simp only [scan_of_redescribes h, hexamine]
  rfl

end Visit

/-- The dynamic call of an occurrence captures nothing: its descriptor has no parameters. -/
def Occurrence.CapturesNothing (o : Occurrence) (pool : ConstantPool) : Prop :=
  ∃ index call, o.instruction.constantIndex = .ok index ∧ pool.dynamicCall index = .ok call ∧
    ∃ d : MethodDescriptor, d.WellFormed ∧ call.descriptor = d.toString ∧ d.parameters = []

/-- The descriptor of a key has one parameter. -/
def MethodKey.HasOneParameter (key : MethodKey) : Prop :=
  ∃ d : MethodDescriptor, d.WellFormed ∧ key.descriptor = d.toString ∧ d.arity = 1

/-- **What is reported depends on the linked body, not on what the call captures.** The diagnostics
of a class file are those of the dynamic calls whose bootstrap entry has a handle of a static method
of the class, the descriptor of which returns something, if the class forwards its key. Other names
and descriptors of the dynamic calls leave the diagnostics as they are. -/
theorem reported_calls_linked {minMajor : Int} {source : Source} {ds : List Diagnostic}
    (h : (source.analyse minMajor).result = .ok (some ds)) :
    ∃ cls, ClassFile.decode source.data = .ok cls ∧
      (∀ d, d ∈ ds ↔ ∃ (name : String) (o : Occurrence) (key : MethodKey), cls.name = some name ∧
        d = (o.site key).diagnostic name cls.sourceFile ∧ o.In cls ∧ cls.Forwards key ∧
        ∃ table index call entry handle, cls.Surveyed minMajor table ∧
          o.instruction.constantIndex = .ok index ∧ cls.pool.dynamicCall index = .ok call ∧
          table.entry call.bootstrapIndex = .ok entry ∧ entry.FirstHandle cls.pool handle ∧
          handle.PointsAt (some name) key) ∧
      ∀ pool', cls.pool.Redescribes pool' →
        (ClassFile.visit minMajor { cls with pool := pool' }).result = .ok ds := by
  obtain ⟨cls, hcls, hresult⟩ := visit_of_analyse h
  refine ⟨cls, hcls, fun d => ?_, ?_⟩
  · rw [mem_result_iff hresult]
    constructor
    · rintro ⟨name, o, key, hname, ⟨ho, ⟨table, index, hsurveyed, hindex, call, entry, handle,
        hcall, hentry, hhandle, hpoints⟩, hforwards⟩, rfl⟩
      exact ⟨name, o, key, hname, rfl, ho, hforwards, table, index, call, entry, handle, hsurveyed,
        hindex, hcall, hentry, hhandle, hname ▸ hpoints⟩
    · rintro ⟨name, o, key, hname, rfl, ho, hforwards, table, index, call, entry, handle,
        hsurveyed, hindex, hcall, hentry, hhandle, hpoints⟩
      exact ⟨name, o, key, hname, ⟨ho, ⟨table, index, hsurveyed, hindex, call, entry, handle,
        hcall, hentry, hhandle, hname ▸ hpoints⟩, hforwards⟩, rfl⟩
  · intro pool' hredescribes
    rw [visit_of_redescribes hredescribes, hresult]

/-! ## A lambda that captures a value and has two parameters -/

namespace Capture

/-- The class file of `class A` with a method `m` that turns its parameter `s` into a function of
the lambda `l`, which is `t -> s.length()`. -/
def source : Source where
  origin := "A.class"
  data := [0xCA, 0xFE, 0xBA, 0xBE, 0x00, 0x00, 0x00, 0x34, 0x00, 0x18, 0x01, 0x00, 0x01, 0x41, 0x07,
    0x00, 0x01, 0x01, 0x00, 0x01, 0x6C, 0x01, 0x00, 0x09, 0x28, 0x4C, 0x53, 0x3B, 0x4C, 0x54,
    0x3B, 0x29, 0x49, 0x0C, 0x00, 0x03, 0x00, 0x04, 0x0A, 0x00, 0x02, 0x00, 0x05, 0x0F, 0x06,
    0x00, 0x06, 0x01, 0x00, 0x01, 0x53, 0x07, 0x00, 0x08, 0x01, 0x00, 0x06, 0x6C, 0x65, 0x6E,
    0x67, 0x74, 0x68, 0x01, 0x00, 0x03, 0x28, 0x29, 0x49, 0x0C, 0x00, 0x0A, 0x00, 0x0B, 0x0A,
    0x00, 0x09, 0x00, 0x0C, 0x01, 0x00, 0x01, 0x66, 0x01, 0x00, 0x08, 0x28, 0x4C, 0x53, 0x3B,
    0x29, 0x4C, 0x46, 0x3B, 0x0C, 0x00, 0x0E, 0x00, 0x0F, 0x12, 0x00, 0x00, 0x00, 0x10, 0x01,
    0x00, 0x04, 0x43, 0x6F, 0x64, 0x65, 0x01, 0x00, 0x01, 0x6D, 0x01, 0x00, 0x06, 0x28, 0x4C,
    0x53, 0x3B, 0x29, 0x56, 0x01, 0x00, 0x10, 0x42, 0x6F, 0x6F, 0x74, 0x73, 0x74, 0x72, 0x61,
    0x70, 0x4D, 0x65, 0x74, 0x68, 0x6F, 0x64, 0x73, 0x01, 0x00, 0x10, 0x6A, 0x61, 0x76, 0x61,
    0x2F, 0x6C, 0x61, 0x6E, 0x67, 0x2F, 0x4F, 0x62, 0x6A, 0x65, 0x63, 0x74, 0x07, 0x00, 0x16,
    0x00, 0x21, 0x00, 0x02, 0x00, 0x17, 0x00, 0x00, 0x00, 0x00, 0x00, 0x02, 0x00, 0x09, 0x00,
    0x13, 0x00, 0x14, 0x00, 0x01, 0x00, 0x12, 0x00, 0x00, 0x00, 0x14, 0x00, 0x01, 0x00, 0x01,
    0x00, 0x00, 0x00, 0x08, 0x2A, 0xBA, 0x00, 0x11, 0x00, 0x00, 0x57, 0xB1, 0x00, 0x00, 0x00,
    0x00, 0x10, 0x0A, 0x00, 0x03, 0x00, 0x04, 0x00, 0x01, 0x00, 0x12, 0x00, 0x00, 0x00, 0x11,
    0x00, 0x01, 0x00, 0x02, 0x00, 0x00, 0x00, 0x05, 0x2A, 0xB6, 0x00, 0x0D, 0xAC, 0x00, 0x00,
    0x00, 0x00, 0x00, 0x01, 0x00, 0x15, 0x00, 0x00, 0x00, 0x08, 0x00, 0x01, 0x00, 0x07, 0x00,
    0x01, 0x00, 0x07]

/-- The lambda `l`, whose first parameter is the captured value. -/
def body : Method where
  accessFlags := 0x100A
  name := "l"
  descriptor := "(LS;LT;)I"
  attributes := ⟨[("Code", [0, 1, 0, 2, 0, 0, 0, 5, 0x2A, 0xB6, 0, 13, 0xAC, 0, 0, 0, 0])]⟩
  code := some ⟨1, 2, [0x2A, 0xB6, 0, 13, 0xAC], []⟩

/-- The code of `m`, which puts `s` on the stack in front of the dynamic call. -/
def callerCode : Code := ⟨1, 1, [0x2A, 0xBA, 0, 17, 0, 0, 0x57, 0xB1], []⟩

/-- The method `m`. -/
def caller : Method where
  accessFlags := 9
  name := "m"
  descriptor := "(LS;)V"
  attributes :=
    ⟨[("Code", [0, 1, 0, 1, 0, 0, 0, 8, 0x2A, 0xBA, 0, 17, 0, 0, 0x57, 0xB1, 0, 0, 0, 0])]⟩
  code := some callerCode

/-- The class `A`. -/
def cls : ClassFile where
  major := 52
  minor := 0
  accessFlags := 0x0021
  name := some "A"
  superName := some "java/lang/Object"
  interfaces := []
  methods := [caller, body]
  pool := ⟨#[none, some (.utf8 "A"), some (.classRef 1), some (.utf8 "l"),
    some (.utf8 "(LS;LT;)I"), some (.nameAndType 3 4), some (.member .method 2 5),
    some (.methodHandle 6 6), some (.utf8 "S"), some (.classRef 8), some (.utf8 "length"),
    some (.utf8 "()I"), some (.nameAndType 10 11), some (.member .method 9 12), some (.utf8 "f"),
    some (.utf8 "(LS;)LF;"), some (.nameAndType 14 15), some (.invokeDynamic 0 16),
    some (.utf8 "Code"), some (.utf8 "m"), some (.utf8 "(LS;)V"), some (.utf8 "BootstrapMethods"),
    some (.utf8 "java/lang/Object"), some (.classRef 22)]⟩
  attributes := ⟨[("BootstrapMethods", [0, 1, 0, 7, 0, 1, 0, 7])]⟩
  sourceFile := none

theorem decode_source : ClassFile.decode source.data = .ok cls := by decide +kernel

/-- The call that captures a value is reported. -/
theorem result_visit :
    (cls.visit 52).result = .ok [⟨.normal, "A", "m", "(LS;)V", 1, none, none, some "l"⟩] := by
  cbv

/-- The analysis of its bytes reports the same. -/
theorem result_analyse : (source.analyse 52).result =
    .ok (some [⟨.normal, "A", "m", "(LS;)V", 1, none, none, some "l"⟩]) := by
  simp only [Source.analyse, decode_source, result_visit]
  rfl

theorem decoded_callerCode : (Decoded.ofBytes callerCode.bytes).instructions =
    [⟨0, .aload0, []⟩, ⟨1, .invokedynamic, [0, 17, 0, 0]⟩, ⟨6, .pop, []⟩, ⟨7, .vreturn, []⟩] := by
  cbv

/-- The class has one dynamic call, the second instruction of `m`. -/
theorem instruction_eq {o : Occurrence} (ho : o.In cls) :
    o.instruction = ⟨1, .invokedynamic, [0, 17, 0, 0]⟩ := by
  have hcaller : o.method = caller := by
    rcases List.mem_cons.1 (List.mem_of_getElem? ho.method_eq) with h | h
    · exact h
    · have hsyn : body.isSynthetic = true := by decide
      rw [← List.mem_singleton.1 h, ho.not_synthetic] at hsyn
      cases hsyn
  have hcode : o.code = callerCode := by
    have h := ho.code_eq
    rw [hcaller] at h
    exact (Option.some.inj h).symm
  have hmem := ho.decoded
  have hdynamic := ho.dynamic
  rw [hcode, decoded_callerCode] at hmem
  simp only [List.mem_cons, List.not_mem_nil, or_false] at hmem
  rcases hmem with h | h | h | h
  · rw [h] at hdynamic
    cases hdynamic
  · exact h
  · rw [h] at hdynamic
    cases hdynamic
  · rw [h] at hdynamic
    cases hdynamic

/-- The dynamic call captures `s`. -/
theorem not_capturesNothing {o : Occurrence} (ho : o.In cls) : ¬ o.CapturesNothing cls.pool := by
  rintro ⟨index, call, hindex, hcall, d, hwf, hdescriptor, hnone⟩
  rw [instruction_eq ho] at hindex
  cases hindex
  cases hcall
  have hparse := MethodDescriptor.parse_eq_ok.2 ⟨hwf, hdescriptor⟩
  have hone : MethodDescriptor.parse "(LS;)LF;" =
      .ok ⟨[.object ['S']], some (.object ['F'])⟩ := by cbv
  cases hparse.symm.trans hone
  cases hnone

/-- The lambda `l` has two parameters, and no other lambda is forwarded. -/
theorem not_hasOneParameter {key : MethodKey} (hforwards : cls.Forwards key) :
    ¬ key.HasOneParameter := by
  obtain ⟨m, hm, hsyn, rfl⟩ := hforwards.exists_body
  have hbody : m = body := by
    rcases List.mem_cons.1 hm with rfl | hm
    · have hcaller : caller.isSynthetic = false := by decide
      exact absurd hsyn (by simp [hcaller])
    · exact List.mem_singleton.1 hm
  rintro ⟨d, hwf, hdescriptor, hone⟩
  rw [hbody] at hdescriptor
  have hparse := MethodDescriptor.parse_eq_ok.2 ⟨hwf, hdescriptor⟩
  have htwo : MethodDescriptor.parse "(LS;LT;)I" =
      .ok ⟨[.object ['S'], .object ['T']], some (.base .int)⟩ := by cbv
  cases hparse.symm.trans htwo
  cases hone

end Capture

/-- The call of the lambda that captures a value is reported, and is linked to the lambda. -/
theorem reported_calls_linked_capture :
    ∃ (o : Occurrence) (key : MethodKey), o.In Capture.cls ∧ o.instruction.pc = 1 ∧
      Capture.cls.Forwards key ∧ ¬ o.CapturesNothing Capture.cls.pool ∧ ¬ key.HasOneParameter := by
  obtain ⟨cls, hcls, hds, -⟩ := reported_calls_linked Capture.result_analyse
  cases Capture.decode_source.symm.trans hcls
  obtain ⟨name, o, key, -, -, ho, hforwards, -⟩ := (hds _).1 (List.mem_singleton_self _)
  exact ⟨o, key, ho, congrArg Instruction.pc (Capture.instruction_eq ho), hforwards,
    Capture.not_capturesNothing ho, Capture.not_hasOneParameter hforwards⟩

/-- **A reported call may capture values, and its lambda may have several parameters.** Not every
reported call captures nothing, and not every lambda of a reported call has one parameter. -/
theorem capture_reported :
    ¬ (EveryReported fun cls o _ => o.CapturesNothing cls.pool) ∧
      ¬ EveryReported fun _ _ key => key.HasOneParameter := by
  constructor
  · intro hclaim
    obtain ⟨o, key, hreports, hnothing⟩ := hclaim.exists_of_mem Capture.decode_source
      Capture.result_visit (List.mem_singleton_self _)
    exact Capture.not_capturesNothing hreports.occurs hnothing
  · intro hclaim
    obtain ⟨o, key, hreports, hone⟩ := hclaim.exists_of_mem Capture.decode_source
      Capture.result_visit (List.mem_singleton_self _)
    exact Capture.not_hasOneParameter hreports.forwards hone

end Forwarder
