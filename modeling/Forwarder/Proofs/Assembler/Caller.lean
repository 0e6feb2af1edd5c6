import Forwarder.Proofs.Assembler.Plan
import Forwarder.Proofs.CallSite.Walk
import Forwarder.Proofs.ClassFile.Lines
import Mathlib.Data.List.Perm.Basic

/-!
# The code of a caller

Every dynamic call of a caller takes six bytes, with the instruction that drops its result, and has
a line of its own. So the call at place `k` stands at offset `6 * k` (`Outline.of_sites`), and the
line number table of the caller gives it its line (`lineOf_eq`).
-/

namespace Forwarder

open CodeBuilder (Builds Call Outline Renders)
open Instruction (bytesOf)

/-- The line of a dynamic call at a place. -/
def SitePlan.entry (r : SitePlan × Nat) : LineEntry := ⟨6 * (r.2 : Int), r.1.line⟩

section Outline

variable {pool : ConstantPool} {pc k : Nat} {s : SitePlan} {sites : List SitePlan}
  {calls : List Call} {instrs : List Instruction} {lines : List LineEntry}

/-- The calls of a site leave two instructions, which take six bytes, and a line. -/
theorem CodeBuilder.Outline.of_site (h : Outline pool pc (s.calls ++ calls) instrs lines) :
    ∃ call pop rest restLines, instrs = call :: pop :: rest ∧
      lines = ⟨pc, s.line⟩ :: restLines ∧ call.pc = pc ∧ Renders pool s.call call ∧
      pop.opcode ≠ .invokedynamic ∧ (bytesOf [call, pop]).length = 6 ∧
      Outline pool (pc + 6) calls rest restLines := by
  cases h with
  | emit hemits => cases hemits
  | line h =>
    cases h with
    | @emit _ _ _ call _ _ _ hpc hcall h =>
      cases h with
      | @emit _ _ _ pop rest _ _ hnext hpop h =>
        have hsize : call.toBytes.length = 5 := by cases hcall with | invokeDynamic => rfl
        have hone : pop.toBytes.length = 1 := by cases hpop with | pop => rfl
        refine ⟨call, pop, rest, _, rfl, rfl, hpc, hcall, ?_, ?_, ?_⟩
        · cases hpop with
          | pop => exact nofun
        · simp [bytesOf, hsize, hone]
        · have hend : pop.nextPc = pc + 6 := by
            rw [Instruction.toBytes, List.length_cons] at hsize hone
            rw [Instruction.nextPc, hnext, Instruction.nextPc, hpc]
            omega
          rwa [hend] at h

/-- **The dynamic calls of a caller stand six bytes apart**, each with its line. -/
theorem CodeBuilder.Outline.of_sites
    (h : Outline pool (6 * k) (sites.flatMap SitePlan.calls ++ calls) instrs lines) :
    ∃ head rest restLines, instrs = head ++ rest ∧
      lines = (sites.zipIdx k).map SitePlan.entry ++ restLines ∧
      (bytesOf head).length = 6 * sites.length ∧
      List.Forall₂ (fun r ins => ins.pc = 6 * r.2 ∧ Renders pool r.1.call ins) (sites.zipIdx k)
        (head.filter (·.opcode = .invokedynamic)) ∧
      Outline pool (6 * (k + sites.length)) calls rest restLines := by
  induction sites generalizing k instrs lines with
  | nil => exact ⟨[], instrs, lines, rfl, rfl, rfl, .nil, h⟩
  | cons s sites ih =>
    rw [List.flatMap_cons, List.append_assoc] at h
    obtain ⟨call, pop, _, _, rfl, rfl, hpc, hcall, hpop, hlength, h⟩ := h.of_site
    obtain ⟨head, rest, restLines, rfl, rfl, hhead, hsites, hrest⟩ := ih (k := k + 1) h
    have hdynamic : call.opcode = .invokedynamic := by cases hcall with | invokeDynamic => rfl
    refine ⟨call :: pop :: head, rest, restLines, rfl, rfl, ?_, ?_, ?_⟩
    · have hsplit : bytesOf (call :: pop :: head) = bytesOf [call, pop] ++ bytesOf head := by
        simp [bytesOf]
      rw [hsplit, List.length_append, hlength, hhead, List.length_cons]
      omega
    · rw [List.zipIdx_cons, List.filter_cons_of_pos (by simpa using hdynamic),
        List.filter_cons_of_neg (by simpa using hpop)]
      exact .cons ⟨hpc, hcall⟩ hsites
    · rw [List.length_cons, Nat.add_comm sites.length, ← Nat.add_assoc]
      exact hrest

end Outline

section Position

variable {c : CallerPlan} {k : Nat} {s : SitePlan} {w : Workspace}

/-- The calls of a caller begin with those that come before one of its dynamic calls. -/
theorem CallerPlan.callsBefore_prefix (h : c.sites[k]? = some s) :
    c.callsBefore k s <+: c.method.calls := by
  obtain ⟨hlt, rfl⟩ := List.getElem?_eq_some_iff.1 h
  have hsites : c.sites.flatMap SitePlan.calls =
      (c.sites.take k).flatMap SitePlan.calls ++
        (c.sites[k].calls ++ (c.sites.drop (k + 1)).flatMap SitePlan.calls) := by
    rw [← List.flatMap_cons, ← List.flatMap_append, ← List.drop_eq_getElem_cons hlt,
      List.take_append_drop]
  refine ⟨c.sites[k].call :: .pop ::
    ((c.sites.drop (k + 1)).flatMap SitePlan.calls ++ [.vreturn]), ?_⟩
  rw [callsBefore, method, hsites, SitePlan.calls]
  simp only [List.append_assoc, List.cons_append, List.nil_append]

/-- **A dynamic call of a caller is made at the offset that its place gives it.** -/
theorem CallerPlan.position_eq (h : c.sites[k]? = some s) (hp : w.cls.pool.Sound)
    (hsteps : w.Succeeds c.method.steps) :
    ∃ code, (w.after (.code c.maxLocals :: (c.callsBefore k s).map .call)).code = some code ∧
      code.position = 6 * k := by
  obtain ⟨behind, hbehind⟩ := callsBefore_prefix h
  obtain ⟨-, hsteps⟩ := Workspace.succeeds_cons_iff.1 hsteps
  rw [← hbehind, List.map_append, List.append_assoc] at hsteps
  obtain ⟨hcalls, -⟩ := Workspace.succeeds_append_iff.1 hsteps
  obtain ⟨e, hbuilds, hafter⟩ := Workspace.exists_builds hcalls
  have hregular : ∀ call ∈ c.callsBefore k s, call.IsRegular := fun call hcall =>
    c.regular call (hbehind ▸ List.mem_append_left _ hcall)
  obtain ⟨-, houtline⟩ := hbuilds.exists_outline hregular hp.consistent
  obtain ⟨instrs, lines, hcode, -, houtline⟩ := houtline e.pool (.refl e.pool)
  obtain ⟨head, rest, restLines, rfl, -, hlength, -, hrest⟩ := houtline.of_sites (k := 0)
  -- the line in front of the dynamic call takes no bytes
  obtain rfl : rest = [] := by
    cases hrest with
    | line hnil =>
      cases hnil
      rfl
    | emit hemits => cases hemits
  refine ⟨e.code, congrArg Workspace.code hafter, ?_⟩
  obtain ⟨hlt, -⟩ := List.getElem?_eq_some_iff.1 h
  have hsize := congrArg List.length hcode
  rw [List.append_nil] at hsize
  rw [CodeBuilder.position, ← Array.length_toList, hsize]
  simp only [CodeBuilder.empty, List.nil_append, hlength, List.length_take]
  omega

end Position

section Lines

variable {k i : Nat} {s : SitePlan} {sites : List SitePlan} {lines : List LineEntry}

/-- The lines of a caller are in order. -/
theorem pairwise_entry (sites : List SitePlan) :
    (sites.zipIdx.map SitePlan.entry).Pairwise fun a b => a.ble b := by
  rw [List.pairwise_map]
  refine (pairwise_zipIdx sites).imp fun {a b} hlt => ?_
  have hpc : (SitePlan.entry a).startPc < (SitePlan.entry b).startPc := by
    show 6 * (a.2 : Int) < 6 * (b.2 : Int)
    omega
  rw [LineEntry.ble, decide_eq_true hpc, Bool.true_or]

/-- The last entry that starts no later than a dynamic call of a caller is that of its line. -/
theorem lineOf_map_entry (h : (s, i) ∈ sites.zipIdx k) :
    lineOf ((sites.zipIdx k).map SitePlan.entry) (6 * (i : Int)) = some s.line := by
  have hentry (site : SitePlan) (place : Nat) :
      (SitePlan.entry (site, place)).startPc = 6 * (place : Int) := rfl
  induction sites generalizing k with
  | nil => cases h
  | cons first sites ih =>
    rw [List.zipIdx_cons, List.mem_cons] at h
    rw [List.zipIdx_cons, List.map_cons]
    rcases h with h | h
    · -- the entries of the calls behind it start later
      obtain ⟨rfl, rfl⟩ := Prod.mk.inj h
      rw [lineOf_cons_of_le (Int.le_of_eq (hentry s i))]
      cases sites with
      | nil => rfl
      | cons second sites =>
        rw [List.zipIdx_cons, List.map_cons, lineOf_cons_of_lt (by rw [hentry]; omega)]
        rfl
    · obtain ⟨hle, -⟩ := List.mem_zipIdx h
      rw [lineOf_cons_of_le (by rw [hentry]; omega), ih h]
      rfl

/-- A sorted line number table with the lines of a caller gives every dynamic call its line. -/
theorem lineOf_eq (hperm : lines.Perm (sites.zipIdx.map SitePlan.entry))
    (hsorted : lines.Pairwise fun a b => a.ble b) (h : (s, i) ∈ sites.zipIdx) :
    lineOf lines (6 * (i : Int)) = some s.line := by
  have hlines : lines = sites.zipIdx.map SitePlan.entry :=
    hperm.eq_of_pairwise (fun _ _ _ _ => LineEntry.ble_antisymm) hsorted (pairwise_entry sites)
  rw [hlines]
  exact lineOf_map_entry h

end Lines

end Forwarder
