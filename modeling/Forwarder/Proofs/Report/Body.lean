import Forwarder.Proofs.Body
import Forwarder.Proofs.Report
import Mathlib

/-!
# The bodies of reported lambdas

Every synthetic method that a reported call may be linked to begins with the three instructions of a
forwarder, and this is all that is asked of it (`reported_bodies_begin`). What follows the return
may be anything (`Body.Begins.of_append`), code that an exception handler runs included:
`handler_reported` is a lambda with such a handler. A body is nothing but the forwarder exactly if
its code has no more bytes than the three instructions.
-/

namespace Forwarder

open Instruction (bytesOf)

/-- What begins with the three instructions still does so with other bytes behind them. -/
theorem Body.Begins.of_append {pool : ConstantPool} {load invoke ret : Instruction}
    {rest : List Instruction} {code : Bytes} (h : Begins pool load invoke ret rest code)
    (behind : Bytes) :
    ∃ rest', Begins pool load invoke ret rest' (bytesOf [load, invoke, ret] ++ behind) := by
  obtain ⟨hwf, hlaid⟩ := h.wellFormed_laidOut
  obtain ⟨rest', hrest'⟩ := Decoded.exists_instructions_append hwf hlaid behind
  exact ⟨rest', hrest', h.loads, h.invokes, h.returns⟩

/-- **The bodies of reported lambdas begin as forwarders, and nothing else is asked of them.** The
diagnostics of a class file are those of the dynamic calls that are linked to a candidate of which
the class has a synthetic method, provided that every such method begins with a load of the first
local variable, a call of a method without parameters and a return. Such a method is nothing but
these three instructions exactly if its code is their bytes; with any other bytes behind them it
still begins so. -/
theorem reported_bodies_begin {minMajor : Int} {source : Source} {ds : List Diagnostic}
    (h : (source.analyse minMajor).result = .ok (some ds)) :
    ∃ cls, ClassFile.decode source.data = .ok cls ∧
      (∀ d, d ∈ ds ↔ ∃ (name : String) (o : Occurrence) (key : MethodKey), cls.name = some name ∧
        d = (o.site key).diagnostic name cls.sourceFile ∧ o.In cls ∧
        (∃ table index, cls.Surveyed minMajor table ∧ o.instruction.constantIndex = .ok index ∧
          CallSite.LinkedTo cls table index key) ∧
        (∃ m ∈ cls.methods, m.IsBodyOf key) ∧
        ∀ m ∈ cls.methods, m.IsBodyOf key → ∃ code load invoke ret rest, m.code = some code ∧
          Body.Begins cls.pool load invoke ret rest code.bytes) ∧
      ∀ load invoke ret rest code, Body.Begins cls.pool load invoke ret rest code →
        (rest = [] ∧ (Decoded.ofBytes code).fault = none ↔ code = bytesOf [load, invoke, ret]) ∧
        ∀ behind, ∃ rest',
          Body.Begins cls.pool load invoke ret rest' (bytesOf [load, invoke, ret] ++ behind) := by
  obtain ⟨cls, hcls, hresult⟩ := visit_of_analyse h
  refine ⟨cls, hcls, fun d => ?_, ?_⟩
  · rw [mem_result_iff hresult]
    constructor
    · rintro ⟨name, o, key, hname, ⟨ho, hlinked, hbody, hall⟩, rfl⟩
      exact ⟨name, o, key, hname, rfl, ho, hlinked, hbody,
        fun m hm hkey => Body.forwards_iff_begins.1 (hall m hm hkey)⟩
    · rintro ⟨name, o, key, hname, rfl, ho, hlinked, hbody, hall⟩
      exact ⟨name, o, key, hname,
        ⟨ho, hlinked, hbody, fun m hm hkey => Body.forwards_iff_begins.2 (hall m hm hkey)⟩, rfl⟩
  · intro load invoke ret rest code hbegins
    exact ⟨hbegins.nothing_follows_iff, hbegins.of_append⟩

/-! ## A lambda with an exception handler -/

namespace Handler

/-- The class file of `class A` with a method `m` that makes a function of the lambda `l`, which is
`s -> try s.length() catch 0`. -/
def source : Source where
  origin := "A.class"
  data := [0xCA, 0xFE, 0xBA, 0xBE, 0x00, 0x00, 0x00, 0x34, 0x00, 0x18, 0x01, 0x00, 0x01, 0x41, 0x07,
    0x00, 0x01, 0x01, 0x00, 0x01, 0x6C, 0x01, 0x00, 0x06, 0x28, 0x4C, 0x53, 0x3B, 0x29, 0x49,
    0x0C, 0x00, 0x03, 0x00, 0x04, 0x0A, 0x00, 0x02, 0x00, 0x05, 0x0F, 0x06, 0x00, 0x06, 0x01,
    0x00, 0x01, 0x53, 0x07, 0x00, 0x08, 0x01, 0x00, 0x06, 0x6C, 0x65, 0x6E, 0x67, 0x74, 0x68,
    0x01, 0x00, 0x03, 0x28, 0x29, 0x49, 0x0C, 0x00, 0x0A, 0x00, 0x0B, 0x0A, 0x00, 0x09, 0x00,
    0x0C, 0x01, 0x00, 0x01, 0x66, 0x01, 0x00, 0x05, 0x28, 0x29, 0x4C, 0x46, 0x3B, 0x0C, 0x00,
    0x0E, 0x00, 0x0F, 0x12, 0x00, 0x00, 0x00, 0x10, 0x01, 0x00, 0x04, 0x43, 0x6F, 0x64, 0x65,
    0x01, 0x00, 0x01, 0x6D, 0x01, 0x00, 0x03, 0x28, 0x29, 0x56, 0x01, 0x00, 0x10, 0x42, 0x6F,
    0x6F, 0x74, 0x73, 0x74, 0x72, 0x61, 0x70, 0x4D, 0x65, 0x74, 0x68, 0x6F, 0x64, 0x73, 0x01,
    0x00, 0x10, 0x6A, 0x61, 0x76, 0x61, 0x2F, 0x6C, 0x61, 0x6E, 0x67, 0x2F, 0x4F, 0x62, 0x6A,
    0x65, 0x63, 0x74, 0x07, 0x00, 0x16, 0x00, 0x21, 0x00, 0x02, 0x00, 0x17, 0x00, 0x00, 0x00,
    0x00, 0x00, 0x02, 0x00, 0x09, 0x00, 0x13, 0x00, 0x14, 0x00, 0x01, 0x00, 0x12, 0x00, 0x00,
    0x00, 0x13, 0x00, 0x01, 0x00, 0x00, 0x00, 0x00, 0x00, 0x07, 0xBA, 0x00, 0x11, 0x00, 0x00,
    0x57, 0xB1, 0x00, 0x00, 0x00, 0x00, 0x10, 0x0A, 0x00, 0x03, 0x00, 0x04, 0x00, 0x01, 0x00,
    0x12, 0x00, 0x00, 0x00, 0x1C, 0x00, 0x01, 0x00, 0x02, 0x00, 0x00, 0x00, 0x08, 0x2A, 0xB6,
    0x00, 0x0D, 0xAC, 0x4C, 0x03, 0xAC, 0x00, 0x01, 0x00, 0x00, 0x00, 0x04, 0x00, 0x05, 0x00,
    0x00, 0x00, 0x00, 0x00, 0x01, 0x00, 0x15, 0x00, 0x00, 0x00, 0x08, 0x00, 0x01, 0x00, 0x07,
    0x00, 0x01, 0x00, 0x07]

/-- The code of `l`: the three instructions of a forwarder, and the handler. -/
def bodyCode : Code := ⟨1, 2, [0x2A, 0xB6, 0, 13, 0xAC, 0x4C, 0x03, 0xAC], []⟩

/-- The lambda `l`. -/
def body : Method where
  accessFlags := 0x100A
  name := "l"
  descriptor := "(LS;)I"
  attributes := ⟨[("Code", [0, 1, 0, 2, 0, 0, 0, 8, 0x2A, 0xB6, 0, 13, 0xAC, 0x4C, 0x03, 0xAC,
    0, 1, 0, 0, 0, 4, 0, 5, 0, 0, 0, 0])]⟩
  code := some bodyCode

/-- The method `m`. -/
def caller : Method where
  accessFlags := 9
  name := "m"
  descriptor := "()V"
  attributes := ⟨[("Code", [0, 1, 0, 0, 0, 0, 0, 7, 0xBA, 0, 17, 0, 0, 0x57, 0xB1, 0, 0, 0, 0])]⟩
  code := some ⟨1, 0, [0xBA, 0, 17, 0, 0, 0x57, 0xB1], []⟩

/-- The class `A`. -/
def cls : ClassFile where
  major := 52
  minor := 0
  accessFlags := 0x0021
  name := some "A"
  superName := some "java/lang/Object"
  interfaces := []
  methods := [caller, body]
  pool := ⟨#[none, some (.utf8 "A"), some (.classRef 1), some (.utf8 "l"), some (.utf8 "(LS;)I"),
    some (.nameAndType 3 4), some (.member .method 2 5), some (.methodHandle 6 6),
    some (.utf8 "S"), some (.classRef 8), some (.utf8 "length"), some (.utf8 "()I"),
    some (.nameAndType 10 11), some (.member .method 9 12), some (.utf8 "f"),
    some (.utf8 "()LF;"), some (.nameAndType 14 15), some (.invokeDynamic 0 16),
    some (.utf8 "Code"), some (.utf8 "m"), some (.utf8 "()V"), some (.utf8 "BootstrapMethods"),
    some (.utf8 "java/lang/Object"), some (.classRef 22)]⟩
  attributes := ⟨[("BootstrapMethods", [0, 1, 0, 7, 0, 1, 0, 7])]⟩
  sourceFile := none

theorem decode_source : ClassFile.decode source.data = .ok cls := by decide +kernel

/-- The one call of the class is reported. -/
theorem result_visit :
    (cls.visit 52).result = .ok [⟨.normal, "A", "m", "()V", 0, none, none, some "l"⟩] := by
  cbv

/-- The analysis of its bytes reports the same. -/
theorem result_analyse : (source.analyse 52).result =
    .ok (some [⟨.normal, "A", "m", "()V", 0, none, none, some "l"⟩]) := by
  simp only [Source.analyse, decode_source, result_visit]
  rfl

/-- The lambda `l` is the only synthetic method of the class. -/
theorem eq_body {m : Method} {key : MethodKey} (hm : m ∈ cls.methods) (hkey : m.IsBodyOf key) :
    m = body := by
  rcases List.mem_cons.1 hm with rfl | hm
  · have hsyn : caller.isSynthetic = false := by decide
    exact absurd hkey.1 (by simp [hsyn])
  · exact List.mem_singleton.1 hm

end Handler

/-- The call of the lambda with the handler is reported, and the lambda begins as a forwarder. -/
theorem reported_bodies_begin_handler :
    ∃ o : Occurrence, o.In Handler.cls ∧ o.instruction.pc = 0 ∧
      ∃ load invoke ret rest,
        Body.Begins Handler.cls.pool load invoke ret rest Handler.bodyCode.bytes := by
  obtain ⟨cls, hcls, hds, -⟩ := reported_bodies_begin Handler.result_analyse
  cases Handler.decode_source.symm.trans hcls
  obtain ⟨name, o, key, -, hd, ho, -, ⟨m, hm, hkey⟩, hall⟩ := (hds _).1 (List.mem_singleton_self _)
  obtain ⟨code, load, invoke, ret, rest, hcode, hbegins⟩ := hall m hm hkey
  rw [Handler.eq_body hm hkey] at hcode
  cases hcode
  exact ⟨o, ho, Int.ofNat.inj (congrArg Diagnostic.pc hd).symm, load, invoke, ret, rest, hbegins⟩

/-- **The body of a reported lambda may hold more than a forwarder.** Not every synthetic method
that is the body of a reported lambda decodes to three instructions. -/
theorem handler_reported :
    ¬ EveryReported fun cls _ key => ∀ m ∈ cls.methods, m.IsBodyOf key →
      ∃ code load invoke ret, m.code = some code ∧
        Decoded.ofBytes code.bytes = ⟨[load, invoke, ret], none⟩ ∧ load.LoadsReceiver ∧
        invoke.InvokesPlainly cls.pool ∧ ret.opcode.isReturn = true := by
  intro hclaim
  obtain ⟨o, key, hreports, hbodies⟩ := hclaim.exists_of_mem Handler.decode_source
    Handler.result_visit (List.mem_singleton_self _)
  obtain ⟨m, hm, hkey⟩ := hreports.forwards.exists_body
  obtain ⟨code, load, invoke, ret, hcode, hdecoded, -⟩ := hbodies m hm hkey
  rw [Handler.eq_body hm hkey] at hcode
  cases hcode
  have hsix : (Decoded.ofBytes Handler.bodyCode.bytes).instructions.length = 6 := by
    cbv
  rw [hdecoded] at hsix
  cases hsix

end Forwarder
