import Forwarder.Analysis
import Forwarder.Proofs.Detection

/-!
# Errors stay inside their class

`analyse_contained` says what can come out of the analysis of one class file, whatever its bytes:
nothing, if it is no class file; diagnostics, if it is one; and a failure only if the class has no
name and a remark has to name it (`ClassFile.Unreportable`). The errors of the layers below end
where they are met: `quiet_scan_iff` says when the walk over a class has anything to remark, and
`examine_ne_cut` that no decoded instruction lacks an operand that a body is searched for.
-/

namespace Forwarder

/-- The walk over the methods of a class that are not synthetic meets code that cannot be decoded,
or a dynamic call that does not resolve or goes beyond the bootstrap table. -/
def ClassFile.WalkMeetsError (cls : ClassFile) (table : BootstrapTable) : Prop :=
  ∃ m ∈ cls.methods, m.isSynthetic = false ∧ ∃ code, m.code = some code ∧
    ((Decoded.ofBytes code.bytes).fault ≠ none ∨
      ∃ ins ∈ (Decoded.ofBytes code.bytes).instructions, ins.opcode = .invokedynamic ∧
        ∃ index e, ins.constantIndex = .ok index ∧ CallSite.link cls table index = .error e)

/-- A class without a name about which something has to be said: it is too old, its bootstrap table
is malformed, or the walk over it meets an error. -/
def ClassFile.Unreportable (cls : ClassFile) (minMajor : Int) : Prop :=
  cls.name = none ∧
    (cls.major < minMajor ∨
      ∃ data, cls.attributes.find? BootstrapTable.attributeName = some data ∧
        ((∃ e, BootstrapTable.decode data = .error e) ∨
          ∃ table, BootstrapTable.decode data = .ok table ∧ cls.WalkMeetsError table))

/-! ## The walk -/

namespace CallSite

namespace Scan

/-- Nothing about a walk has to be remarked. -/
def Quiet (s : Scan) : Prop := s.unresolved = [] ∧ s.fault = none

variable {a b : Scan} {scans : List Scan}

/-- Two walks one after the other are quiet exactly if both of them are. -/
theorem quiet_append : (a ++ b).Quiet ↔ a.Quiet ∧ b.Quiet := by
  unfold Quiet
  cases ha : a.fault with
  | some f => simp [append_of_fault ha, ha]
  | none =>
    rw [append_of_no_fault ha]
    simp [and_assoc]

/-- Walks one after the other are quiet exactly if each of them is. -/
theorem quiet_concat : (concat scans).Quiet ↔ ∀ a ∈ scans, a.Quiet := by
  induction scans with
  | nil => exact iff_of_true ⟨rfl, rfl⟩ (by simp)
  | cons a scans ih => rw [concat_cons, quiet_append, ih, List.forall_mem_cons]

/-- Walks one after the other find no call sites if none of them finds any. -/
theorem sites_concat_eq_nil (h : ∀ a ∈ scans, a.sites = []) : (concat scans).sites = [] := by
  induction scans with
  | nil => rfl
  | cons a scans ih =>
    have ha := h a List.mem_cons_self
    cases hf : a.fault with
    | some f => rw [concat_cons, append_of_fault hf, ha]
    | none =>
      rw [concat_cons, append_of_no_fault hf, ha, ih fun b hb => h b (List.mem_cons_of_mem _ hb)]
      rfl

end Scan

variable {cls : ClassFile} {table : BootstrapTable} {m : Method} {code : Code} {ins : Instruction}

/-- One instruction is quiet unless it is a dynamic call whose lookup fails. -/
theorem quiet_scanInstruction (hwf : ins.WellFormed) :
    (scanInstruction cls table m code ins).Quiet ↔
      ¬ (ins.opcode = .invokedynamic ∧
        ∃ index e, ins.constantIndex = .ok index ∧ link cls table index = .error e) := by
  by_cases hop : ins.opcode = .invokedynamic
  · obtain ⟨index, hindex⟩ := hwf.constantIndex (by rw [hop]; decide)
    rw [scanInstruction_of_index hop hindex]
    cases hl : link cls table index with
    | ok found => cases found <;> simp [Scan.Quiet, Scan.empty, hindex, hl]
    | error e => cases e <;> simp [Scan.Quiet, Scan.stop, hop, hindex, hl]
  · rw [scanInstruction_of_ne hop]
    simp [Scan.Quiet, Scan.empty, hop]

/-- A method is quiet unless its code has a fault or a dynamic call whose lookup fails. -/
theorem quiet_scanMethod :
    (scanMethod cls table m).Quiet ↔
      ¬ (m.isSynthetic = false ∧ ∃ code, m.code = some code ∧
        ((Decoded.ofBytes code.bytes).fault ≠ none ∨
          ∃ ins ∈ (Decoded.ofBytes code.bytes).instructions, ins.opcode = .invokedynamic ∧
            ∃ index e, ins.constantIndex = .ok index ∧ link cls table index = .error e)) := by
  cases hcode : m.code with
  | none => simp [scanMethod, hcode, Scan.Quiet, Scan.empty]
  | some code =>
    cases hsyn : m.isSynthetic with
    | true => simp [scanMethod, hcode, hsyn, Scan.Quiet, Scan.empty]
    | false =>
      have hcalls : (Scan.concat ((Decoded.ofBytes code.bytes).instructions.map
          (scanInstruction cls table m code))).Quiet ↔
          ∀ ins ∈ (Decoded.ofBytes code.bytes).instructions, ¬ (ins.opcode = .invokedynamic ∧
            ∃ index e, ins.constantIndex = .ok index ∧ link cls table index = .error e) := by
        rw [Scan.quiet_concat, List.forall_mem_map]
        exact forall₂_congr fun ins hins =>
          quiet_scanInstruction (Decoded.wellFormed_of_mem hins)
      have hfault : (Scan.mk [] [] ((Decoded.ofBytes code.bytes).fault.map .code)).Quiet ↔
          (Decoded.ofBytes code.bytes).fault = none := by
        simp [Scan.Quiet]
      rw [scanMethod_eq hcode hsyn, scanCode, Scan.quiet_append, hcalls, hfault]
      simp only [Option.some.injEq, true_and, exists_eq_left', not_or, ne_eq, not_not, not_exists,
        not_and]
      exact and_comm

/-- The walk over a class is quiet exactly if it meets no error. -/
theorem quiet_scan_iff : (scan cls table).Quiet ↔ ¬ cls.WalkMeetsError table := by
  rw [scan, Scan.quiet_concat, List.forall_mem_map]
  simp only [quiet_scanMethod, ClassFile.WalkMeetsError, not_exists, not_and]

/-- In a class without a name no dynamic call is linked to a candidate: no handle points at a method
of the class. -/
theorem link_ne_of_unnamed (hname : cls.name = none) (index : Nat) (key : MethodKey) :
    link cls table index ≠ .ok (some key) := by
  intro hlink
  obtain ⟨_, _, handle, -, -, -, hpoints⟩ := link_eq_some_iff.1 hlink
  have howner := hpoints.owner_eq
  rw [hname] at howner
  cases howner

/-- In a class without a name no dynamic call has a call site. -/
theorem sites_scanInstruction_of_unnamed (hname : cls.name = none) (ins : Instruction) :
    (scanInstruction cls table m code ins).sites = [] := by
  unfold scanInstruction
  split
  · rfl
  split
  · rfl
  rename_i index _
  split
  · rfl
  · rename_i key hlink
    exact absurd hlink (link_ne_of_unnamed hname index key)
  · rfl
  · rfl

/-- The walk over a class without a name finds no call site. -/
theorem sites_scan_of_unnamed (hname : cls.name = none) : (scan cls table).sites = [] := by
  refine Scan.sites_concat_eq_nil fun a ha => ?_
  obtain ⟨m, -, rfl⟩ := List.mem_map.1 ha
  cases hcode : m.code with
  | none => simp [scanMethod, hcode, Scan.empty]
  | some code =>
    cases hsyn : m.isSynthetic with
    | true => simp [scanMethod, hcode, hsyn, Scan.empty]
    | false =>
      have hcalls : (Scan.concat ((Decoded.ofBytes code.bytes).instructions.map
          (scanInstruction cls table m code))).sites = [] := by
        refine Scan.sites_concat_eq_nil fun a ha => ?_
        obtain ⟨ins, -, rfl⟩ := List.mem_map.1 ha
        exact sites_scanInstruction_of_unnamed hname ins
      rw [scanMethod_eq hcode hsyn, scanCode]
      generalize Scan.concat _ = s at hcalls
      cases hf : s.fault with
      | some f => rw [Scan.append_of_fault hf, hcalls]
      | none => rw [Scan.append_of_no_fault hf, hcalls]; rfl

end CallSite

/-! ## The visit -/

section Visit

variable {cls : ClassFile} (minMajor : Int)

/-- The remarks on a class without a name can be made exactly if none of them names it. -/
theorem resultOf_none {α : Type} (remarks : List Remark) (a : α) :
    resultOf none remarks a =
      if remarks.all fun r => !r.namesClass then .ok a else .error .unnamed := by
  unfold resultOf
  congr 2
  refine List.all_congr rfl fun r => ?_
  unfold Remark.record?
  cases r.namesClass <;> rfl

/-- Where nothing is pending nothing is examined. -/
theorem examine_nil (cls : ClassFile) : cls.examine [] = [] :=
  List.eq_nil_iff_forall_not_mem.2 fun _ he =>
    List.not_mem_nil (Confirmation.pending_of_mem_examinations he)

/-- The visit of a class without a name that comes as far as the walk fails unless the walk is quiet,
and finds nothing then. -/
theorem result_visit_of_unnamed_of_table {data : Bytes} {table : BootstrapTable}
    (hname : cls.name = none) (hmajor : ¬ cls.major < minMajor)
    (hattr : cls.attributes.find? BootstrapTable.attributeName = some data)
    (htable : BootstrapTable.decode data = .ok table) :
    ((cls.visit minMajor).result = .error .unnamed ∧ ¬ (CallSite.scan cls table).Quiet) ∨
      ((cls.visit minMajor).result = .ok [] ∧ (CallSite.scan cls table).Quiet) := by
  have hsites : (CallSite.scan cls table).sites = [] := CallSite.sites_scan_of_unnamed hname
  unfold ClassFile.visit CallSite.Scan.Quiet
  rw [if_neg hmajor]
  simp only [hattr, htable]
  generalize CallSite.scan cls table = scan at hsites
  cases hfault : scan.fault with
  | some fault =>
    refine .inl ⟨?_, by simp⟩
    cases fault <;> simp [ClassFile.skip, Visit.result, hname, resultOf_none, Remark.namesClass]
  | none =>
    -- without a call site there is nothing to examine, so only the walk can be remarked on
    simp only [hsites, List.map_nil, examine_nil, List.flatMap_nil, List.append_nil, Visit.result,
      hname, resultOf_none, ClassFile.report]
    cases scan.unresolved with
    | nil => exact .inr ⟨rfl, rfl, trivial⟩
    | cons u us => exact .inl ⟨by simp [Remark.namesClass], by simp⟩

/-- The visit of a class without a name fails if something has to be said about it, and finds
nothing otherwise. -/
theorem result_visit_of_unnamed (hname : cls.name = none) :
    ((cls.visit minMajor).result = .error .unnamed ∧ cls.Unreportable minMajor) ∨
      ((cls.visit minMajor).result = .ok [] ∧ ¬ cls.Unreportable minMajor) := by
  unfold ClassFile.Unreportable
  by_cases hmajor : cls.major < minMajor
  · refine .inl ⟨?_, hname, .inl hmajor⟩
    rw [ClassFile.visit, if_pos hmajor]
    simp [ClassFile.skip, Visit.result, hname, resultOf_none, Remark.namesClass]
  cases hattr : cls.attributes.find? BootstrapTable.attributeName with
  | none =>
    refine .inr ⟨?_, by simp [hmajor]⟩
    rw [ClassFile.visit, if_neg hmajor]
    simp [hattr, ClassFile.skip, Visit.result, hname, resultOf_none]
  | some data =>
    cases htable : BootstrapTable.decode data with
    | error e =>
      refine .inl ⟨?_, hname, .inr ⟨data, rfl, .inl ⟨e, htable⟩⟩⟩
      rw [ClassFile.visit, if_neg hmajor]
      simp [hattr, htable, ClassFile.skip, Visit.result, hname, resultOf_none, Remark.namesClass]
    | ok table =>
      rcases result_visit_of_unnamed_of_table minMajor hname hmajor hattr htable with
        ⟨hresult, hquiet⟩ | ⟨hresult, hquiet⟩
      · rw [CallSite.quiet_scan_iff, not_not] at hquiet
        exact .inl ⟨hresult, hname, .inr ⟨data, rfl, .inr ⟨table, htable, hquiet⟩⟩⟩
      · rw [CallSite.quiet_scan_iff] at hquiet
        exact .inr ⟨hresult, by simp [hmajor, htable, hquiet]⟩

/-- The visit of a class with a name does not fail. -/
theorem result_visit_of_named {name : String} (hname : cls.name = some name) :
    ∃ ds, (cls.visit minMajor).result = .ok ds := by
  have hclass : (cls.visit minMajor).className = some name := by
    unfold ClassFile.visit
    split
    · exact hname
    split
    · exact hname
    split
    · exact hname
    dsimp only
    split <;> exact hname
  rw [Visit.result, hclass]
  exact ⟨_, resultOf_of_named name _ _⟩

end Visit

/-! ## Bodies -/

namespace Body

variable {pool : ConstantPool} {state : State} {ins : Instruction} {e : Instruction.OperandError}

/-- The first examination never meets an instruction without its operands. -/
theorem loadsReceiver_ne_cut (h : ins.WellFormed) : loadsReceiver ins ≠ .error (.cut e) := by
  unfold loadsReceiver
  split
  · rename_i hop
    obtain ⟨slot, hslot⟩ := h.localIndex hop
    rw [hslot]
    intro hcut
    cases hcut
  · intro hcut
    cases hcut

theorem invokesWithoutArguments_ne_cut (h : ins.WellFormed) :
    invokesWithoutArguments pool ins ≠ .error (.cut e) := by
  unfold invokesWithoutArguments
  split
  · rename_i hop
    obtain ⟨index, hindex⟩ := h.constantIndex (by rcases hop with hop | hop <;> rw [hop] <;> decide)
    rw [hindex]
    intro hcut
    rcases except_bind_eq_error.1 hcut with hcut | ⟨_, -, hcut⟩
    · cases hcut
    rcases except_bind_eq_error.1 hcut with hcut | ⟨_, -, hcut⟩
    · obtain ⟨_, -, hcut⟩ := mapError_eq_error.1 hcut
      cases hcut
    rcases except_bind_eq_error.1 hcut with hcut | ⟨_, -, hcut⟩
    · obtain ⟨_, -, hcut⟩ := mapError_eq_error.1 hcut
      cases hcut
    · cases hcut
  · intro hcut
    cases hcut

/-- No well-formed instruction is rejected for a missing operand. -/
theorem step_ne_cut (h : ins.WellFormed) (state' : State) :
    step pool state ins ≠ (.disqualified (.cut e), state') := by
  cases state with
  | start =>
    unfold step
    dsimp only
    split
    · intro hcut
      cases hcut
    · intro hcut
      cases hcut
    · rename_i hr
      intro hcut
      cases hcut
      exact loadsReceiver_ne_cut h hr
  | receiverLoaded =>
    unfold step
    dsimp only
    split
    · intro hcut
      cases hcut
    · intro hcut
      cases hcut
    · rename_i hr
      intro hcut
      cases hcut
      exact invokesWithoutArguments_ne_cut h hr
  | invoked =>
    unfold step
    dsimp only
    intro hcut
    split at hcut <;> cases hcut

/-- No sequence of well-formed instructions is rejected for a missing operand. -/
theorem follow_ne_cut {instrs : List Instruction} (h : ∀ ins ∈ instrs, ins.WellFormed)
    (fault : Option Instruction.DecodeFault) : follow pool state instrs fault ≠ some (.cut e) := by
  induction instrs generalizing state with
  | nil =>
    intro hcut
    cases fault <;> cases hcut
  | cons ins instrs ih =>
    rw [follow]
    split
    · exact ih fun i hi => h i (List.mem_cons_of_mem _ hi)
    · intro hcut
      cases hcut
    · rename_i hstep
      intro hcut
      cases hcut
      exact step_ne_cut (h ins List.mem_cons_self) _ hstep

/-- No body is rejected because a decoded instruction lacks an operand. -/
theorem examine_ne_cut (m : Method) : examine pool m ≠ some (.cut e) := by
  unfold examine
  cases m.code with
  | none =>
    intro hcut
    cases hcut
  | some code => exact follow_ne_cut (fun ins hins => Decoded.wellFormed_of_mem hins) _

end Body

/-- A class constant names no class exactly if its index is 0. -/
theorem ClassFile.className_eq_none_iff {pool : ConstantPool} {index : Int} :
    ClassFile.className pool index = .ok none ↔ index = 0 := by
  unfold ClassFile.className
  split
  · rename_i h
    simp [h]
  · rename_i h
    split
    · rename_i name _
      cases ClassFile.utf8 pool name <;> simp [h, Except.map]
    · simp [h]

/-! ## The analysis of a class file -/

/-- **Errors stay inside their class.** The analysis of a byte string gives nothing exactly if it is
no class file. For a class file it fails exactly if the class has no name and something has to be
said about it, and gives diagnostics otherwise; a class has no name only if the index of its name
is 0. Apart from that no error can come out: every decoded dynamic call has a constant, and no body
is rejected for a missing operand. -/
theorem analyse_contained (minMajor : Int) (source : Source) :
    ((source.analyse minMajor).result = .ok none ↔
        ∃ e, ClassFile.decode source.data = .error e) ∧
      (∀ cls, ClassFile.decode source.data = .ok cls →
        ((source.analyse minMajor).result = .error .unnamed ↔ cls.Unreportable minMajor) ∧
        (¬ cls.Unreportable minMajor →
          ∃ ds, (source.analyse minMajor).result = .ok (some ds))) ∧
      (∀ pool index, ClassFile.className pool index = .ok none ↔ index = 0) ∧
      (∀ code : Bytes, ∀ ins ∈ (Decoded.ofBytes code).instructions, ins.opcode = .invokedynamic →
        ∃ index, ins.constantIndex = .ok index) ∧
      ∀ pool m e, Body.examine pool m ≠ some (.cut e) := by
  refine ⟨?_, fun cls hcls => ?_, fun _ _ => ClassFile.className_eq_none_iff,
    fun code ins hins hop => (Decoded.wellFormed_of_mem hins).constantIndex (by rw [hop]; decide),
    fun pool m e => Body.examine_ne_cut m⟩
  · unfold Source.analyse
    cases hcls : ClassFile.decode source.data with
    | error e => simp
    | ok cls => cases h : (cls.visit minMajor).result <;> simp [h, Except.map]
  · have hresult : (source.analyse minMajor).result = (cls.visit minMajor).result.map some := by
      simp only [Source.analyse, hcls]
    rw [hresult]
    cases hname : cls.name with
    | none =>
      rcases result_visit_of_unnamed minMajor hname with ⟨h, hun⟩ | ⟨h, hun⟩
      · simp [h, hun, Except.map]
      · simp [h, hun, Except.map]
    | some name =>
      obtain ⟨ds, h⟩ := result_visit_of_named minMajor hname
      have hun : ¬ cls.Unreportable minMajor := fun hun => by
        rw [hun.1] at hname
        cases hname
      simp [h, hun, Except.map]

/-- A class file of version 51 without a name, which is too old for version 52, fails. -/
theorem analyse_contained_nameless :
    (Source.analyse 52 ⟨"Nameless.class", [0xCA, 0xFE, 0xBA, 0xBE, 0, 0, 0, 51, 0, 1, 0, 0x21,
      0, 0, 0, 0, 0, 0, 0, 0, 0, 0, 0, 0]⟩).result = .error .unnamed := by
  refine (((analyse_contained 52 _).2.1
    ⟨51, 0, 0x21, none, none, [], [], ⟨#[none]⟩, .empty, none⟩ (by decide +kernel)).1).2 ?_
  exact ⟨rfl, .inl (by decide)⟩

end Forwarder
