import Forwarder.Proofs.CallSite.Link
import Mathlib.Data.List.Basic

/-!
# The walk over a class

An `Occurrence` is a dynamic call together with the place of its method in the class, so that calls
of equal methods are told apart; `Occurrence.In` says which occurrences a class has, `occurrences`
lists each of them once. A walk that meets no fault collects exactly the occurrences that are linked
to a candidate, in their order (`scan_sites`). The search for a dynamic call that precedes the walk
over a method makes no difference (`scanMethod_eq`).
-/

namespace Forwarder

/-- A dynamic call of a class: the place of its method among the methods of the class, the method
and its code, and the instruction. -/
structure Occurrence where
  place : Nat
  method : Method
  code : Code
  instruction : Instruction

namespace Occurrence

/-- The occurrence is a decoded dynamic call in a method of a class that is not synthetic. -/
structure In (o : Occurrence) (cls : ClassFile) : Prop where
  method_eq : cls.methods[o.place]? = some o.method
  not_synthetic : o.method.isSynthetic = false
  code_eq : o.method.code = some o.code
  decoded : o.instruction ∈ (Decoded.ofBytes o.code.bytes).instructions
  dynamic : o.instruction.opcode = .invokedynamic

/-- The body that an occurrence is linked to, if it is a candidate. -/
def target? (cls : ClassFile) (table : BootstrapTable) (o : Occurrence) : Option MethodKey :=
  match o.instruction.constantIndex with
  | .error _ => none
  | .ok index =>
    match CallSite.link cls table index with
    | .ok key => key
    | .error _ => none

/-- The call site of an occurrence that is linked to a key. -/
def site (o : Occurrence) (key : MethodKey) : CallSite :=
  ⟨key, o.method.key, o.instruction.pc, lineOf o.code.lines o.instruction.pc⟩

/-- The instruction of a dynamic call has the operands that its opcode asks for. -/
theorem In.wellFormed {o : Occurrence} {cls : ClassFile} (h : o.In cls) :
    o.instruction.WellFormed :=
  Decoded.wellFormed_of_mem h.decoded

/-- A dynamic call of a class has the index of a constant. -/
theorem In.constantIndex {o : Occurrence} {cls : ClassFile} (h : o.In cls) :
    ∃ index, o.instruction.constantIndex = .ok index :=
  h.wellFormed.constantIndex (by rw [h.dynamic]; decide)

/-- An occurrence is linked to a key exactly if the constant of its call is. -/
theorem target?_eq_some_iff {o : Occurrence} {cls : ClassFile} {table : BootstrapTable}
    {key : MethodKey} :
    o.target? cls table = some key ↔
      ∃ index, o.instruction.constantIndex = .ok index ∧
        CallSite.LinkedTo cls table index key := by
  unfold target?
  cases hi : o.instruction.constantIndex with
  | error e => simp
  | ok index =>
    simp only [Except.ok.injEq, exists_eq_left', ← CallSite.link_eq_some_iff]
    cases CallSite.link cls table index with
    | error e => simp
    | ok found => simp

end Occurrence

/-- The dynamic calls of a method at a place, unless it is synthetic. -/
def Method.occurrences (place : Nat) (m : Method) : List Occurrence :=
  match m.code with
  | none => []
  | some code =>
    if m.isSynthetic then []
    else ((Decoded.ofBytes code.bytes).instructions.filter (·.opcode = .invokedynamic)).map
      (Occurrence.mk place m code)

/-- The dynamic calls of a class, in the order of its methods. -/
def ClassFile.occurrences (cls : ClassFile) : List Occurrence :=
  cls.methods.zipIdx.flatMap fun (m, place) => m.occurrences place

section Occurrences

variable {o : Occurrence} {cls : ClassFile}

/-- The dynamic calls of a method are those among its decoded instructions. -/
theorem mem_occurrences_method {place : Nat} {m : Method} :
    o ∈ m.occurrences place ↔
      o.place = place ∧ o.method = m ∧ m.isSynthetic = false ∧ m.code = some o.code ∧
        o.instruction ∈ (Decoded.ofBytes o.code.bytes).instructions ∧
        o.instruction.opcode = .invokedynamic := by
  unfold Method.occurrences
  cases hc : m.code with
  | none => simp
  | some code =>
    cases hs : m.isSynthetic with
    | true => simp
    | false =>
      simp only [Bool.false_eq_true, if_false, List.mem_map, List.mem_filter, decide_eq_true_eq,
        Option.some.injEq]
      constructor
      · rintro ⟨ins, ⟨hmem, hop⟩, rfl⟩
        exact ⟨rfl, rfl, trivial, rfl, hmem, hop⟩
      · obtain ⟨place', m', code', ins⟩ := o
        rintro ⟨rfl, rfl, -, rfl, hmem, hop⟩
        exact ⟨ins, ⟨hmem, hop⟩, rfl⟩

/-- The list of dynamic calls has exactly the occurrences of the class. -/
theorem mem_occurrences : o ∈ cls.occurrences ↔ o.In cls := by
  simp only [ClassFile.occurrences, List.mem_flatMap, Prod.exists, List.mem_zipIdx_iff_getElem?,
    mem_occurrences_method]
  constructor
  · rintro ⟨m, place, hm, rfl, rfl, hs, hc, hmem, hop⟩
    exact ⟨hm, hs, hc, hmem, hop⟩
  · rintro ⟨hm, hs, hc, hmem, hop⟩
    exact ⟨o.method, o.place, hm, rfl, rfl, hs, hc, hmem, hop⟩

/-- A dynamic call stands before another one: in an earlier method, or earlier in the same one. -/
def Occurrence.Before (a b : Occurrence) : Prop :=
  a.place < b.place ∨ a.place = b.place ∧ a.instruction.pc < b.instruction.pc

/-- The dynamic calls of a method are listed in the order of their offsets. -/
theorem pairwise_before_method (place : Nat) (m : Method) :
    (m.occurrences place).Pairwise Occurrence.Before := by
  unfold Method.occurrences
  cases m.code with
  | none => exact .nil
  | some code =>
    dsimp only
    split
    · exact .nil
    · rw [List.pairwise_map]
      exact ((Decoded.pairwise_pc code.bytes).filter _).imp fun h => .inr ⟨rfl, h⟩

/-- The elements of a list stand in the order of their places. -/
theorem pairwise_zipIdx {α : Type} (l : List α) : l.zipIdx.Pairwise fun a b => a.2 < b.2 := by
  have h : (l.zipIdx.map Prod.snd).Pairwise (· < ·) := by
    rw [List.zipIdx_map_snd]
    exact List.pairwise_lt_range'
  exact List.pairwise_map.1 h

/-- The dynamic calls of a class are listed in the order of methods and offsets. -/
theorem pairwise_before (cls : ClassFile) : cls.occurrences.Pairwise Occurrence.Before := by
  refine List.pairwise_flatMap.2 ⟨fun p _ => pairwise_before_method p.2 p.1, ?_⟩
  refine (pairwise_zipIdx cls.methods).imp fun {p q} hlt a ha b hb => .inl ?_
  rw [(mem_occurrences_method.1 ha).1, (mem_occurrences_method.1 hb).1]
  exact hlt

end Occurrences

namespace CallSite

namespace Scan

section Append

variable {a b : Scan} {scans : List Scan}

/-- Behind a fault no other walk takes place. -/
theorem append_of_fault {f : Fault} (h : a.fault = some f) : a ++ b = a := by
  show Scan.append a b = a
  simp [Scan.append, h]

/-- Without a fault two walks find what both of them find. -/
theorem append_of_no_fault (h : a.fault = none) :
    a ++ b = ⟨a.sites ++ b.sites, a.unresolved ++ b.unresolved, b.fault⟩ := by
  show Scan.append a b = _
  simp [Scan.append, h]

/-- A walk stands in front of the others. -/
@[simp] theorem concat_cons (a : Scan) (scans : List Scan) :
    concat (a :: scans) = a ++ concat scans := rfl

/-- Walks one after the other meet no fault exactly if none of them does. -/
theorem fault_concat_eq_none :
    (concat scans).fault = none ↔ ∀ a ∈ scans, a.fault = none := by
  induction scans with
  | nil => exact iff_of_true rfl (by simp)
  | cons a scans ih =>
    cases ha : a.fault with
    | some f => simp [append_of_fault ha, ha]
    | none => simp [append_of_no_fault ha, ha, ih]

/-- Without a fault, walks one after the other find what each of them finds. -/
theorem sites_concat (h : ∀ a ∈ scans, a.fault = none) :
    (concat scans).sites = scans.flatMap Scan.sites := by
  induction scans with
  | nil => rfl
  | cons a scans ih =>
    rw [concat_cons, append_of_no_fault (h a List.mem_cons_self), List.flatMap_cons,
      ih fun b hb => h b (List.mem_cons_of_mem _ hb)]

end Append

end Scan

section Walk

variable {cls : ClassFile} {table : BootstrapTable} {m : Method} {code : Code} {ins : Instruction}

/-- Only a dynamic call adds something to a walk. -/
theorem scanInstruction_of_ne (h : ins.opcode ≠ .invokedynamic) :
    scanInstruction cls table m code ins = .empty := if_pos h

/-- The search for a dynamic call in front of the walk over a method makes no difference. -/
theorem scanMethod_eq (hcode : m.code = some code) (hsyn : m.isSynthetic = false) :
    scanMethod cls table m = scanCode cls table m code := by
  unfold scanMethod
  rw [hcode]
  simp only [hsyn, Bool.false_eq_true, if_false, contains_eq]
  by_cases hany : (Decoded.ofBytes code.bytes).instructions.any
      fun ins => ins.opcode = .invokedynamic
  · rw [if_pos hany]
  · -- without a dynamic call the walk adds nothing but the fault
    have hnone : Scan.concat ((Decoded.ofBytes code.bytes).instructions.map
        (scanInstruction cls table m code)) = .empty := by
      generalize (Decoded.ofBytes code.bytes).instructions = instrs at hany
      induction instrs with
      | nil => rfl
      | cons ins instrs ih =>
        simp only [List.any_cons, Bool.or_eq_true, decide_eq_true_eq, not_or] at hany
        rw [List.map_cons, Scan.concat_cons, scanInstruction_of_ne hany.1]
        exact ih hany.2
    rw [if_neg hany, scanCode, hnone]
    cases (Decoded.ofBytes code.bytes).fault <;> rfl

/-- A dynamic call adds to a walk what it is linked to. -/
theorem scanInstruction_of_index {index : Nat} (hop : ins.opcode = .invokedynamic)
    (hindex : ins.constantIndex = .ok index) :
    scanInstruction cls table m code ins =
      match link cls table index with
      | .ok none => .empty
      | .ok (some key) => ⟨[⟨key, m.key, ins.pc, lineOf code.lines ins.pc⟩], [], none⟩
      | .error (.unresolved e) => ⟨[], [⟨m.name, ins.pc, e⟩], none⟩
      | .error (.table e) => .stop (.table e) := by
  rw [scanInstruction, if_neg (not_not_intro hop)]
  exact hindex ▸ rfl

/-- What one instruction adds to a walk that does not fail at the bootstrap table: a call site if it
is a dynamic call that is linked to a candidate. -/
theorem scanInstruction_of_no_table_error (place : Nat) (hwf : ins.WellFormed)
    (htable : ins.opcode = .invokedynamic → ∀ index e, ins.constantIndex = .ok index →
      link cls table index ≠ .error (.table e)) :
    (scanInstruction cls table m code ins).fault = none ∧
      (scanInstruction cls table m code ins).sites =
        if ins.opcode = .invokedynamic then
          (((Occurrence.mk place m code ins).target? cls table).map
            (Occurrence.mk place m code ins).site).toList
        else [] := by
  by_cases hop : ins.opcode = .invokedynamic
  · obtain ⟨index, hindex⟩ := hwf.constantIndex (by rw [hop]; decide)
    have htable := htable hop index
    rw [scanInstruction_of_index hop hindex, if_pos hop]
    simp only [Occurrence.target?, hindex]
    cases hl : link cls table index with
    | ok found => cases found <;> exact ⟨rfl, rfl⟩
    | error e =>
      cases e with
      | unresolved e => exact ⟨rfl, rfl⟩
      | table e => exact absurd hl (htable e hindex)
  · rw [scanInstruction_of_ne hop, if_neg hop]
    exact ⟨rfl, rfl⟩

/-- To select, to change and to select again is to do so with each element in turn. -/
theorem filterMap_map_filter {α β γ : Type} (p : α → Bool) (f : α → β) (g : β → Option γ)
    (l : List α) :
    ((l.filter p).map f).filterMap g = l.flatMap fun a => if p a then (g (f a)).toList else [] := by
  induction l with
  | nil => rfl
  | cons a l ih =>
    rw [List.filter_cons, List.flatMap_cons, ← ih]
    cases hp : p a with
    | false => rfl
    | true =>
      simp only [if_true, List.map_cons, List.filterMap_cons]
      cases g (f a) <;> rfl

/-- The walk over a method that meets no fault collects the call sites of its dynamic calls. -/
theorem scanMethod_sites (place : Nat)
    (hdecoded : ∀ code, m.code = some code → m.isSynthetic = false →
      (Decoded.ofBytes code.bytes).fault = none)
    (htable : ∀ o ∈ m.occurrences place, ∀ index e, o.instruction.constantIndex = .ok index →
      link cls table index ≠ .error (.table e)) :
    (scanMethod cls table m).fault = none ∧
      (scanMethod cls table m).sites =
        (m.occurrences place).filterMap fun o => (o.target? cls table).map o.site := by
  cases hcode : m.code with
  | none => simp [scanMethod, Method.occurrences, hcode, Scan.empty]
  | some code =>
    cases hsyn : m.isSynthetic with
    | true => simp [scanMethod, Method.occurrences, hcode, hsyn, Scan.empty]
    | false =>
      have hstep : ∀ ins ∈ (Decoded.ofBytes code.bytes).instructions,
          (scanInstruction cls table m code ins).fault = none ∧
            (scanInstruction cls table m code ins).sites =
              if ins.opcode = .invokedynamic then
                (((Occurrence.mk place m code ins).target? cls table).map
                  (Occurrence.mk place m code ins).site).toList
              else [] := fun ins hins =>
        scanInstruction_of_no_table_error place (Decoded.wellFormed_of_mem hins) fun hop =>
          htable ⟨place, m, code, ins⟩
            (mem_occurrences_method.2 ⟨rfl, rfl, hsyn, hcode, hins, hop⟩)
      have hfaults : ∀ scan ∈ (Decoded.ofBytes code.bytes).instructions.map
          (scanInstruction cls table m code), scan.fault = none := by
        intro scan hscan
        obtain ⟨ins, hins, rfl⟩ := List.mem_map.1 hscan
        exact (hstep ins hins).1
      rw [scanMethod_eq hcode hsyn, scanCode,
        Scan.append_of_no_fault (Scan.fault_concat_eq_none.2 hfaults), hdecoded code hcode hsyn,
        Scan.sites_concat hfaults]
      simp only [Method.occurrences, hcode, hsyn, Bool.false_eq_true, if_false, Option.map_none,
        List.append_nil, true_and, List.flatMap_map, filterMap_map_filter, decide_eq_true_eq]
      exact List.flatMap_congr fun ins hins => (hstep ins hins).2

/-- A walk over a class that meets no fault collects the call sites of its dynamic calls, in their
order. -/
theorem scan_sites
    (hdecoded : ∀ m ∈ cls.methods, ∀ code, m.code = some code → m.isSynthetic = false →
      (Decoded.ofBytes code.bytes).fault = none)
    (htable : ∀ o : Occurrence, o.In cls → ∀ index e, o.instruction.constantIndex = .ok index →
      link cls table index ≠ .error (.table e)) :
    (scan cls table).fault = none ∧
      (scan cls table).sites =
        cls.occurrences.filterMap fun o => (o.target? cls table).map o.site := by
  have hmethod : ∀ p ∈ cls.methods.zipIdx, (scanMethod cls table p.1).fault = none ∧
      (scanMethod cls table p.1).sites =
        (p.1.occurrences p.2).filterMap fun o => (o.target? cls table).map o.site := by
    intro p hp
    refine scanMethod_sites p.2 (hdecoded p.1 (List.fst_mem_of_mem_zipIdx hp)) fun o ho => ?_
    exact htable o (mem_occurrences.1 (List.mem_flatMap.2 ⟨p, hp, ho⟩))
  have hscan : scan cls table =
      .concat (cls.methods.zipIdx.map fun p => scanMethod cls table p.1) := by
    have h : (cls.methods.zipIdx.map Prod.fst).map (scanMethod cls table) =
        cls.methods.map (scanMethod cls table) := by rw [List.zipIdx_map_fst]
    rw [scan, ← h, List.map_map]
    rfl
  have hfaults : ∀ s ∈ cls.methods.zipIdx.map fun p => scanMethod cls table p.1,
      s.fault = none := by
    intro s hs
    obtain ⟨p, hp, rfl⟩ := List.mem_map.1 hs
    exact (hmethod p hp).1
  rw [hscan, Scan.sites_concat hfaults, ClassFile.occurrences, List.filterMap_flatMap,
    List.flatMap_map]
  exact ⟨Scan.fault_concat_eq_none.2 hfaults, List.flatMap_congr fun p hp => (hmethod p hp).2⟩

end Walk

end CallSite

end Forwarder
