import Forwarder.Proofs.Detection

/-!
# The search for a dynamic call does not show

Before it walks over a method, `CallSite.scan` searches its code for a dynamic call, and the search
stops at the first one. `CallSite.walk` is the walk over a class without any search: method by
method and instruction by instruction, up to the first error. Both find the same call sites or end with the
same error (`callSites_eq_walk`), since the search meets an error only where no dynamic call stands
before it (`contains_eq_ok_true`, `contains_eq_error`, `contains_eq_ok_false`).
-/

namespace Forwarder

section Contains

variable {op : Opcode} {code : Bytes}

/-- An opcode is found exactly if it is that of an instruction that can be decoded. -/
theorem contains_eq_ok_true :
    contains op code = .ok true ↔ ∃ ins ∈ (Decoded.ofBytes code).instructions, ins.opcode = op := by
  have hany : ((Decoded.ofBytes code).instructions.any fun ins => ins.opcode = op) = true ↔
      ∃ ins ∈ (Decoded.ofBytes code).instructions, ins.opcode = op := by simp
  rw [contains_eq, ← hany]
  split
  · rename_i h
    exact iff_of_true rfl h
  · rename_i h
    refine iff_of_false ?_ h
    cases (Decoded.ofBytes code).fault <;> simp

/-- Where no instruction has the opcode, the search gives the fault that ends the decoding. -/
theorem contains_of_not_exists
    (h : ¬ ∃ ins ∈ (Decoded.ofBytes code).instructions, ins.opcode = op) :
    contains op code = match (Decoded.ofBytes code).fault with
      | some fault => .error fault
      | none => .ok false :=
  (contains_eq op code).trans (if_neg (by simpa using h))

/-- The search ends with a fault exactly if that ends the decoding and no instruction before it has
the opcode. -/
theorem contains_eq_error {fault : Instruction.DecodeFault} :
    contains op code = .error fault ↔
      (¬ ∃ ins ∈ (Decoded.ofBytes code).instructions, ins.opcode = op) ∧
        (Decoded.ofBytes code).fault = some fault := by
  by_cases h : ∃ ins ∈ (Decoded.ofBytes code).instructions, ins.opcode = op
  · rw [contains_eq_ok_true.2 h]
    exact iff_of_false nofun fun hnone => hnone.1 h
  · rw [contains_of_not_exists h, and_iff_right h]
    cases (Decoded.ofBytes code).fault <;> simp

/-- The search fails exactly if everything is decoded and no instruction has the opcode. -/
theorem contains_eq_ok_false :
    contains op code = .ok false ↔
      (¬ ∃ ins ∈ (Decoded.ofBytes code).instructions, ins.opcode = op) ∧
        (Decoded.ofBytes code).fault = none := by
  by_cases h : ∃ ins ∈ (Decoded.ofBytes code).instructions, ins.opcode = op
  · rw [contains_eq_ok_true.2 h]
    exact iff_of_false nofun fun hnone => hnone.1 h
  · rw [contains_of_not_exists h, and_iff_right h]
    cases (Decoded.ofBytes code).fault <;> simp

end Contains

namespace CallSite

/-! ## The walk without a search -/

/-- The call site of an instruction, if it has one. Only dynamic calls have; one that does not
resolve or is not linked to a candidate is dropped, one beyond the bootstrap table is an error. -/
def siteOf (cls : ClassFile) (table : BootstrapTable) (m : Method) (code : Code)
    (ins : Instruction) : Except Fault (Option CallSite) :=
  if ins.opcode ≠ .invokedynamic then .ok none
  else
    match ins.constantIndex with
    | .error _ => .ok none
    | .ok index =>
      match link cls table index with
      | .ok key => .ok (key.map fun key => ⟨key, m.key, ins.pc, lineOf code.lines ins.pc⟩)
      | .error (.unresolved _) => .ok none
      | .error (.table e) => .error (.table e)

/-- The call sites of some instructions in their order, up to the first error; the fault that ends
the decoding stands behind the last one. -/
def walkInstructions (cls : ClassFile) (table : BootstrapTable) (m : Method) (code : Code)
    (fault : Option Instruction.DecodeFault) : List Instruction → Except Fault (List CallSite)
  | [] =>
    match fault with
    | some fault => .error (.code fault)
    | none => .ok []
  | ins :: instrs => do
    let site ← siteOf cls table m code ins
    let sites ← walkInstructions cls table m code fault instrs
    return site.toList ++ sites

/-- The call sites of some methods in their order, up to the first error. Methods without code and
synthetic ones have none. -/
def walkMethods (cls : ClassFile) (table : BootstrapTable) :
    List Method → Except Fault (List CallSite)
  | [] => .ok []
  | m :: ms =>
    match m.code, m.isSynthetic with
    | some code, false => do
      let decoded := Decoded.ofBytes code.bytes
      let sites ← walkInstructions cls table m code decoded.fault decoded.instructions
      let more ← walkMethods cls table ms
      return sites ++ more
    | _, _ => walkMethods cls table ms

/-- The call sites of a class, or the first error that a walk over it meets. -/
def walk (cls : ClassFile) (table : BootstrapTable) : Except Fault (List CallSite) :=
  walkMethods cls table cls.methods

/-- What a walk comes to: its call sites, or what ended it early. -/
def Scan.outcome (s : Scan) : Except Fault (List CallSite) :=
  match s.fault with
  | some fault => .error fault
  | none => .ok s.sites

section Outcome

variable {cls : ClassFile} {table : BootstrapTable} {m : Method} {code : Code} {ins : Instruction}

/-- Two walks one after the other come to what both of them find, or to the first error. -/
theorem Scan.outcome_append (a b : Scan) :
    (a ++ b).outcome = (do return (← a.outcome) ++ (← b.outcome)) := by
  unfold outcome
  cases ha : a.fault with
  | some fault => simp only [append_of_fault ha, ha]; rfl
  | none =>
    simp only [append_of_no_fault ha]
    cases b.fault <;> rfl

/-- It makes no difference which two of three walks are taken together. -/
theorem Scan.append_assoc (a b c : Scan) : a ++ b ++ c = a ++ (b ++ c) := by
  cases ha : a.fault with
  | some fault => rw [append_of_fault ha, append_of_fault ha, append_of_fault ha]
  | none =>
    have hfault : (a ++ b).fault = b.fault := by rw [append_of_no_fault ha]
    cases hb : b.fault with
    | some fault => rw [append_of_fault (hfault.trans hb), append_of_fault hb]
    | none =>
      rw [append_of_no_fault (hfault.trans hb), append_of_no_fault hb, append_of_no_fault ha,
        append_of_no_fault ha, List.append_assoc, List.append_assoc]

/-- One instruction adds its call site to what a walk comes to, or the error that it has. -/
theorem outcome_scanInstruction :
    (scanInstruction cls table m code ins).outcome =
      (siteOf cls table m code ins).map Option.toList := by
  unfold scanInstruction siteOf
  by_cases hop : ins.opcode = .invokedynamic
  · rw [if_neg (not_not_intro hop), if_neg (not_not_intro hop)]
    cases ins.constantIndex with
    | error e => rfl
    | ok index =>
      dsimp only
      cases link cls table index with
      | ok key => cases key <;> rfl
      | error e => cases e <;> rfl
  · rw [if_pos hop, if_pos hop]
    rfl

/-- The walk over some instructions of a method, and the fault behind them. -/
theorem outcome_scanInstructions (fault : Option Instruction.DecodeFault)
    (instrs : List Instruction) :
    (Scan.concat (instrs.map (scanInstruction cls table m code)) ++
        ⟨[], [], fault.map .code⟩ : Scan).outcome =
      walkInstructions cls table m code fault instrs := by
  induction instrs with
  | nil => cases fault <;> rfl
  | cons ins instrs ih =>
    rw [List.map_cons, Scan.concat_cons, Scan.append_assoc, Scan.outcome_append, ih,
      outcome_scanInstruction, walkInstructions]
    cases siteOf cls table m code ins <;> rfl

/-- The search in front of the walk over a method makes no difference to what the walks over some
methods come to. -/
theorem outcome_scanMethods (ms : List Method) :
    (Scan.concat (ms.map (scanMethod cls table))).outcome = walkMethods cls table ms := by
  induction ms with
  | nil => rfl
  | cons m ms ih =>
    rw [List.map_cons, Scan.concat_cons, Scan.outcome_append, ih, walkMethods]
    cases hcode : m.code with
    | none =>
      rw [scanMethod, hcode]
      cases walkMethods cls table ms <;> rfl
    | some code =>
      cases hsyn : m.isSynthetic with
      | true =>
        simp only [scanMethod, hcode, hsyn, if_true]
        cases walkMethods cls table ms <;> rfl
      | false =>
        rw [scanMethod_eq hcode hsyn, scanCode, outcome_scanInstructions]

end Outcome

/-- **The search for a dynamic call does not show.** In a class with a name, the walk that searches
each method before it goes over it comes to the same call sites as the walk without a search, or to
the same error. The search finds an opcode exactly if an instruction that can be decoded has it;
where none has, it meets the fault that ends the decoding, or finds nothing if there is no fault. -/
theorem callSites_eq_walk {cls : ClassFile} {name : String} (hname : cls.name = some name)
    (table : BootstrapTable) :
    (∃ scan, cls.callSites table = .ok scan ∧ scan.outcome = walk cls table) ∧
      ∀ (op : Opcode) (code : Bytes),
        (contains op code = .ok true ↔
          ∃ ins ∈ (Decoded.ofBytes code).instructions, ins.opcode = op) ∧
        (∀ fault, contains op code = .error fault ↔
          (¬ ∃ ins ∈ (Decoded.ofBytes code).instructions, ins.opcode = op) ∧
            (Decoded.ofBytes code).fault = some fault) ∧
        (contains op code = .ok false ↔
          (¬ ∃ ins ∈ (Decoded.ofBytes code).instructions, ins.opcode = op) ∧
            (Decoded.ofBytes code).fault = none) := by
  refine ⟨⟨scan cls table, ?_, outcome_scanMethods cls.methods⟩, fun op code => ?_⟩
  · rw [ClassFile.callSites, hname]
    exact resultOf_of_named name _ _
  · exact ⟨contains_eq_ok_true, fun _ => contains_eq_error, contains_eq_ok_false⟩

/-- The class of the lambda with another code of `m`. The last constant of its pool is a dynamic call
beyond the bootstrap table. -/
def calling (code : Bytes) : ClassFile :=
  { Lambda.cls with
    pool := ⟨Lambda.pool.slots.push (some (.invokeDynamic 1 16))⟩
    methods := [{ Lambda.caller with code := some ⟨1, 1, code, [⟨0, 7⟩]⟩ }, Lambda.body] }

/-- The dynamic call of the lambda is found, and one of a constant that is none is dropped. If a call
beyond the bootstrap table stands behind it, the walk ends there and does not come to the byte that is
no opcode. Without such a call the walk with the search ends with that byte, which the search does not
see. -/
theorem callSites_eq_walk_broken :
    (∃ scan, (calling [0xBA, 0, 17, 0, 0, 0xBA, 0, 3, 0, 0, 0xB1]).callSites Lambda.table = .ok scan ∧
      scan.outcome = .ok [⟨Lambda.body.key, Lambda.caller.key, 0, some 7⟩]) ∧
    (∃ scan, (calling [0xBA, 0, 17, 0, 0, 0xBA, 0, 18, 0, 0, 0xFF]).callSites Lambda.table = .ok scan ∧
      scan.outcome = .error (.table (.outOfRange 1 1))) ∧
    contains .invokedynamic [0xBA, 0, 17, 0, 0, 0xFF] = .ok true ∧
      ∃ scan, (calling [0xBA, 0, 17, 0, 0, 0xFF]).callSites Lambda.table = .ok scan ∧
        scan.outcome = .error (.code (.unknownOpcode 0xFF 5)) := by
  have hname (code : Bytes) : (calling code).name = some "A" := rfl
  refine ⟨?_, ?_, ?_⟩
  · obtain ⟨⟨scan, hscan, houtcome⟩, -⟩ := callSites_eq_walk (hname _) Lambda.table
    exact ⟨scan, hscan, houtcome.trans (by decide +kernel)⟩
  · obtain ⟨⟨scan, hscan, houtcome⟩, -⟩ := callSites_eq_walk (hname _) Lambda.table
    exact ⟨scan, hscan, houtcome.trans (by decide +kernel)⟩
  · obtain ⟨⟨scan, hscan, houtcome⟩, hcontains⟩ := callSites_eq_walk (hname _) Lambda.table
    refine ⟨(hcontains _ _).1.2 ⟨⟨0, .invokedynamic, [0, 17, 0, 0]⟩, by decide +kernel, rfl⟩, ?_⟩
    exact ⟨scan, hscan, houtcome.trans (by decide +kernel)⟩

end CallSite

end Forwarder
