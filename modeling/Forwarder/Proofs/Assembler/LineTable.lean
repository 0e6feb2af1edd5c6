import Forwarder.Proofs.Assembler.Accounts
import Forwarder.Proofs.Assembler.Disassembly
import Forwarder.Proofs.Assembler.RoundTrip

/-!
# The accounts and the lines of a built method

A call for a line adds an entry at the offset that the builder has reached: the next instruction
will start there, unless there is none (`Outline.lines_eq`). So the starts of the entries do not
decrease (`Outline.pairwise_startPc`), and a reader that sorts the entries only changes the order of
those with one start. `accounts_kept` says what a sequence of calls leaves: the depth of the stack,
its greatest depth, the number of local variables and the lines, and which lines are read back.
-/

namespace Forwarder

namespace CodeBuilder

/-! ## The lines that calls ask for -/

/-- Where the first of some instructions starts, in a code that ends at an offset: there if there is
no instruction. -/
def startOf (stop : Nat) (instrs : List Instruction) : Nat :=
  (instrs.head?.map Instruction.pc).getD stop

/-- The lines that calls ask for, in a code that ends at an offset: the entry of a line starts where
the instruction of the next call that emits one does. -/
def linesOf (stop : Nat) : List Call → List Instruction → List LineEntry
  | [], _ => []
  | .line number :: calls, instrs => ⟨startOf stop instrs, number⟩ :: linesOf stop calls instrs
  | _ :: calls, instrs => linesOf stop calls instrs.tail

section Lines

open Instruction (bytesOf)

variable {pool : ConstantPool} {pc : Nat} {calls : List Call} {instrs : List Instruction}
  {lines : List LineEntry}

/-- Instructions start where the calls that leave them do. -/
theorem Outline.startOf_eq (h : Outline pool pc calls instrs lines) :
    startOf (pc + (bytesOf instrs).length) instrs = pc := by
  have hlaid := h.laidOut
  cases instrs with
  | nil => rfl
  | cons ins instrs => exact hlaid.1

/-- Calls leave the lines that they ask for. -/
theorem Outline.lines_eq (h : Outline pool pc calls instrs lines) :
    lines = linesOf (pc + (bytesOf instrs).length) calls instrs := by
  induction h with
  | nil => rfl
  | line hrest ih => rw [linesOf, hrest.startOf_eq, ← ih]
  | @emit pc call calls ins instrs lines hemits hpc _ _ ih =>
    rw [ih, ins.nextPc_add_length, hpc]
    cases call with
    | line number => cases hemits
    | _ => rfl

/-- The lines that calls leave start at their offset or behind it, and in order. -/
theorem Outline.pairwise_startPc (h : Outline pool pc calls instrs lines) :
    lines.Pairwise (fun a b => a.startPc ≤ b.startPc) ∧
      ∀ entry ∈ lines, (pc : Int) ≤ entry.startPc := by
  induction h with
  | nil => exact ⟨.nil, nofun⟩
  | line _ ih =>
    exact ⟨List.pairwise_cons.2 ⟨ih.2, ih.1⟩, List.forall_mem_cons.2 ⟨le_rfl, ih.2⟩⟩
  | emit _ hpc _ _ ih =>
    refine ⟨ih.1, fun entry hentry => ?_⟩
    have hle := ih.2 entry hentry
    rw [Instruction.nextPc] at hle
    omega

end Lines

end CodeBuilder

/-! ## What is read back -/

/-- The code of a method that is read from the bytes that are written for it is that code. -/
theorem ClassBuilder.exists_code_of_decode {b : ClassBuilder} {bs : Bytes} {cls : ClassFile} {i : Nat}
    {m : MethodDraft} {draft : CodeDraft} (hpool : b.pool.Built)
    (hm : b.methods.toList[i]? = some m) (hcode : m.code = some draft)
    (h : b.encode.1 = .ok bs) (hcls : ClassFile.decode bs = .ok cls) :
    ∃ m' code, cls.methods[i]? = some m' ∧ m'.code = some code ∧ draft.Describes code := by
  have hmethods := methods_of_decode hpool.sound (encode_eq_ok_iff.1 ⟨h, rfl⟩) hcls
  obtain ⟨hlt, rfl⟩ := List.getElem?_eq_some_iff.1 hm
  have hlt' : i < cls.methods.length := hmethods.length_eq ▸ hlt
  have hdescribes : MethodDraft.Describes b.methods.toList[i] cls.methods[i] :=
    hmethods.get hlt hlt'
  obtain ⟨code, hcode', hdraft⟩ := hdescribes.exists_code hcode
  exact ⟨_, code, List.getElem?_eq_getElem hlt', hcode', hdraft⟩

namespace CodeBuilder

/-- **A code builder keeps its accounts.** Regular calls that succeed on code that is begun, over a
pool that holds any constants, leave the greatest depth that the stack has behind any number of them,
and the greatest number of local variables that was given or that a load asks for. The lines are
those that the calls ask for: each one starts where the next instruction does, or at the end of the
code, and none starts before the one in front of it. So the method of a class that is read has the
lines of the code that it was written with, and only those with one start may have changed places. -/
theorem accounts_kept {constants : List Constant} {calls : List Call} {maxLocals : Int}
    {e' : Emission} (hregular : ∀ call ∈ calls, call.IsRegular)
    (h : Builds calls ⟨PoolBuilder.empty.internAll constants, .empty maxLocals⟩ e') :
    Accounts.Of maxLocals calls e'.code.accounts ∧
    (∃ instrs, Decoded.ofBytes e'.code.code.toList = ⟨instrs, none⟩ ∧
      instrs.length = (calls.filter Call.emits).length ∧
      e'.code.lines.toList = linesOf e'.code.position calls instrs) ∧
    (e'.code.lines.toList.Pairwise fun a b => a.startPc ≤ b.startPc) ∧
    ∀ {b : ClassBuilder} {bs : Bytes} {cls : ClassFile} {i : Nat} {m : MethodDraft},
      b.pool.Built → b.methods.toList[i]? = some m → m.code = some e'.code.build →
      b.encode.1 = .ok bs → ClassFile.decode bs = .ok cls →
      ∃ m' code, cls.methods[i]? = some m' ∧ m'.code = some code ∧
        code.lines.Perm e'.code.lines.toList ∧
        code.lines.map LineEntry.startPc = e'.code.lines.toList.map LineEntry.startPc := by
  obtain ⟨-, houtline⟩ := h.exists_outline hregular (PoolBuilder.consistent_internAll constants)
  obtain ⟨instrs, lines, hcode, hlines, houtline⟩ := houtline e'.pool (.refl _)
  have hcode : e'.code.code.toList = Instruction.bytesOf instrs := hcode
  have hlines : e'.code.lines.toList = lines := hlines
  have hstop : e'.code.position = 0 + (Instruction.bytesOf instrs).length := by
    rw [position, ← Array.length_toList, hcode, Nat.zero_add]
  have hstarts := houtline.pairwise_startPc.1
  rw [← hlines] at hstarts
  refine ⟨h.accounts, ⟨instrs, by rw [hcode, houtline.decoded], houtline.renders.length_eq.symm,
    ?_⟩, hstarts, fun hpool hm hcode hencode hcls => ?_⟩
  · rw [hlines, hstop]
    exact houtline.lines_eq
  · obtain ⟨m', code, hm', hcode', hdescribes⟩ :=
      ClassBuilder.exists_code_of_decode hpool hm hcode hencode hcls
    exact ⟨m', code, hm', hcode', hdescribes.lines, LineEntry.startPcs_eq_of_perm hdescribes.lines
      (hdescribes.sorted.imp LineEntry.startPc_le_of_ble) hstarts⟩

namespace Listing

open ClassFile Encoding
open PoolBuilder (ofList intern intern_take intern_take_of_lt run_classRef classRef)

/-- The calls for a method with three lines, two of which start at its first instruction. -/
def calls : List Call := [.line 9, .line 7, .aload 0, .pop, .line 8, .vreturn]

/-- The code that the calls leave. -/
def emission : Emission :=
  ⟨.empty, ⟨#[0x2A, 0x57, 0xB1], 1, 1, 0, #[⟨0, 9⟩, ⟨0, 7⟩, ⟨2, 8⟩]⟩⟩

/-- The load of the first variable is emitted as one byte, behind which the stack holds one value.
-/
theorem runs_aload : Runs (Call.aload 0).perform
    ⟨.empty, ⟨#[], 0, 0, 0, #[⟨0, 9⟩, ⟨0, 7⟩]⟩⟩ ()
    ⟨.empty, ⟨#[0x2A], 1, 1, 1, #[⟨0, 9⟩, ⟨0, 7⟩]⟩⟩ := by
  have hbyte : Encode.byte (Opcode.aload0.code + 0) = .ok 0x2A := by decide
  have hemit : Runs (emitByte (Opcode.aload0.code + 0)) ⟨.empty, ⟨#[], 0, 0, 0, #[⟨0, 9⟩, ⟨0, 7⟩]⟩⟩
      () ⟨.empty, ⟨#[0x2A], 0, 0, 0, #[⟨0, 9⟩, ⟨0, 7⟩]⟩⟩ :=
    Runs.bind (runs_ofExcept_iff.2 ⟨hbyte, rfl⟩) (runs_change_iff.2 rfl)
  exact hemit.bind rfl

/-- The calls build the code. -/
theorem builds : Builds calls ⟨PoolBuilder.empty.internAll [], .empty 0⟩ emission :=
  .cons rfl (.cons rfl (.cons runs_aload (.cons rfl (.cons rfl (.cons rfl .nil)))))

/-- A class with the method. -/
def builder : ClassBuilder :=
  { ClassBuilder.new "A" "A" 52 0 with methods := #[⟨9, "A", "A", some emission.code.build⟩] }

/-- The constants of the class, in the order in which they are added. -/
def constants : List Constant :=
  [.utf8 "A", .classRef 1, .utf8 "LineNumberTable", .utf8 "Code"]

theorem nodup_constants : constants.Nodup := by decide +kernel

theorem narrow_constants : ∀ c ∈ constants, c.cells.length = 1 := by decide

/-- The pool with the first constants of the class. -/
def stage (n : Nat) : PoolBuilder := ofList (constants.take n)

/-- The next constant of the class is interned in the slot behind the others. -/
theorem intern_next {c : Constant} (n : Nat) (h : constants[n]? = some c) :
    intern c (stage n) = (n + 1, stage (n + 1)) :=
  intern_take nodup_constants narrow_constants h

/-- A constant that is there already keeps its slot. -/
theorem intern_again {c : Constant} {n : Nat} (j : Nat) (h : constants[j]? = some c)
    (hlt : j < n) : intern c (stage n) = (j + 1, stage n) :=
  intern_take_of_lt nodup_constants narrow_constants h hlt

/-- The code is written, with the name of its line number table and its own. -/
theorem writes_code : ∃ bs, Writes emission.code.build.encode (stage 2) bs (stage 4) := by
  have htable : CodeDraft.encodeLines [⟨0, 9⟩, ⟨0, 7⟩, ⟨2, 8⟩] =
      .ok [0, 3, 0, 0, 0, 9, 0, 0, 0, 7, 0, 2, 0, 8] := by cbv
  have hbytes : Encode.u4 (3 : Nat) = .ok [0, 0, 0, 3] := by decide
  have hlength : Encode.u4 (14 : Nat) = .ok [0, 0, 0, 14] := by decide
  have hcode : Encode.u4 (35 : Nat) = .ok [0, 0, 0, 35] := by decide
  have hlines : Writes (encodeAttribute lineTableName [0, 3, 0, 0, 0, 9, 0, 0, 0, 7, 0, 2, 0, 8])
      (stage 2) _ (stage 3) := writes_attribute (intern_next 2 rfl) rfl hlength
  have hone : Encode.u2 1 = .ok [0, 1] := rfl
  have hattributes : Writes emission.code.build.encodeAttributes (stage 2) _ (stage 3) :=
    (writes_ok htable).bind ((writes_ok hone).bind (hlines.bind (writes_pure _)))
  exact ⟨_, Encoding.writes_code hone hone hbytes hattributes
    (writes_attribute (intern_next 3 rfl) rfl hcode)⟩

/-- The class is written behind its pool. -/
theorem writes_body : ∃ bs, Writes builder.encodeBody builder.pool bs (stage 4) := by
  obtain ⟨code, hcode⟩ := writes_code
  have hname : Writes (encodeIndex (classRef "A")) builder.pool [0, 2] (stage 2) :=
    writes_index (run_classRef (intern_next 0 rfl) (intern_next 1 rfl)) rfl
  have hsuper : Writes (encodeIndex (classRef "A")) (stage 2) [0, 2] (stage 2) :=
    writes_index (run_classRef (intern_again 0 rfl (by decide)) (intern_again 1 rfl (by decide)))
      rfl
  have hmember : Writes (encodeMember 9 "A" "A") (stage 2) _ (stage 2) :=
    writes_member (intern_again 0 rfl (by decide)) (intern_again 0 rfl (by decide)) rfl rfl rfl
  have hone : Encode.u2 (1 : Nat) = .ok [0, 1] := rfl
  have hnone : Encode.u2 (0 : Nat) = .ok [0, 0] := rfl
  have hmethod : Writes (MethodDraft.encode ⟨9, "A", "A", some emission.code.build⟩) (stage 2) _
      (stage 4) := writes_method rfl hmember hcode
  have hhead : Writes builder.encodeHead builder.pool _ (stage 4) :=
    ClassBuilder.writes_head rfl rfl rfl hname hsuper hone (hmethod.cons writes_nil)
  have htail : Writes builder.encodeTail (stage 4) _ (stage 4) :=
    ClassBuilder.writes_tail (writes_pure _) (writes_pure _) hnone writes_nil
  exact ⟨_, ClassBuilder.writes_encodeBody_iff.2 ⟨_, _, _, hhead, htail, rfl⟩⟩

/-- The class is written. -/
theorem exists_encode : ∃ bs, builder.encode.1 = .ok bs := by
  obtain ⟨body, hbody⟩ := writes_body
  exact ClassBuilder.exists_encode_of_body hbody rfl rfl (by decide +kernel)

end Listing

/-- A method with two lines for its first instruction and one for its last, behind which the stack
is empty again. -/
theorem accounts_kept_listing : ∃ bs cls m code, Listing.builder.encode.1 = .ok bs ∧
    ClassFile.decode bs = .ok cls ∧ cls.methods[0]? = some m ∧ m.code = some code ∧
    code.lines.Perm [⟨0, 9⟩, ⟨0, 7⟩, ⟨2, 8⟩] ∧ code.lines.map LineEntry.startPc = [0, 0, 2] ∧
    IsGreatest {d | ∃ before, before <+: Listing.calls ∧ d = depthOf before} 1 := by
  have hregular : ∀ call ∈ Listing.calls, call.IsRegular := by
    simp [Listing.calls, Call.IsRegular]
  obtain ⟨haccounts, -, -, hread⟩ := accounts_kept hregular Listing.builds
  obtain ⟨bs, hbs⟩ := Listing.exists_encode
  obtain ⟨-, cls, hcls, -, -⟩ := ClassBuilder.exists_decode_of_writes PoolBuilder.Built.empty.sound
    (by simp [Listing.builder, ClassBuilder.new]) (by simp [Listing.builder, ClassBuilder.new])
    (ClassBuilder.encode_eq_ok_iff.1 ⟨hbs, rfl⟩)
  have hmethod : Listing.builder.methods.toList[0]? =
      some ⟨9, "A", "A", some Listing.emission.code.build⟩ := rfl
  obtain ⟨m, code, hm, hcode, hperm, hstarts⟩ := hread .empty hmethod rfl hbs hcls
  exact ⟨bs, cls, m, code, hbs, hcls, hm, hcode, hperm, hstarts, haccounts.maxStack⟩

end CodeBuilder

end Forwarder
