import Mathlib.Order.Bounds.Basic
import Forwarder.Proofs.Assembler.Emission

/-!
# The accounts of a code builder

A code builder keeps account of the stack and of the local variables while it emits.
`CodeBuilder.Charges` says what a computation does to these accounts, whatever it emits, and
`charges_perform` what a call does. So after a sequence of calls the accounts are those of the calls
(`Accounts.Of`), which every call keeps up (`Accounts.Of.charge`): the depth is the sum of their
effects, and the two maxima are attained and never exceeded (`Builds.accounts`).
-/

namespace Forwarder.CodeBuilder

/-! ## What a call charges -/

/-- What a code builder keeps account of. -/
structure Accounts where
  depth : Int
  maxStack : Int
  maxLocals : Int
  deriving Repr, DecidableEq

/-- The accounts of code under construction. -/
def accounts (b : CodeBuilder) : Accounts := ⟨b.depth, b.maxStack, b.maxLocals⟩

namespace Accounts

/-- Values are put on the stack. -/
def push (count : Int) (a : Accounts) : Accounts :=
  ⟨a.depth + count, max a.maxStack (a.depth + count), a.maxLocals⟩

/-- Values are taken from the stack. -/
def drop (count : Int) (a : Accounts) : Accounts := { a with depth := a.depth - count }

/-- A local variable is used. -/
def use (slot : Int) (a : Accounts) : Accounts := { a with maxLocals := max a.maxLocals (slot + 1) }

end Accounts

/-- What a call does to the accounts. -/
def Call.charge : Call → Accounts → Accounts
  | line _ | vreturn | raw _ => id
  | iconst _ | ldcString _ => .push 1
  | aload slot => .push 1 ∘ .use slot
  | pop | ireturn | areturn => .drop 1
  | invoke kind _ _ _ arguments results => .push results ∘ .drop (kind.receivers + arguments)
  | invokeDynamic _ _ _ arguments results => .push results ∘ .drop arguments

/-- A computation does something to the accounts, whatever it emits. -/
def Charges {α : Type} (m : Emit α) (f : Accounts → Accounts) : Prop :=
  ∀ ⦃e a e'⦄, Runs m e a e' → e'.code.accounts = f e.code.accounts

section Charges

variable {α β : Type} {m m' : Emit α} {k : α → Emit β} {f g : Accounts → Accounts}

/-- Two changes one after the other charge the accounts one after the other. -/
theorem Charges.bind (h : Charges m f) (h' : ∀ a, Charges (k a) g) : Charges (m >>= k) (g ∘ f) := by
  intro e b e' hrun
  obtain ⟨a, e₁, hm, hk⟩ := runs_bind_iff.1 hrun
  rw [h' a hk, h hm, Function.comp_apply]

/-- What only emits in front of a computation leaves its charge as it is. -/
theorem Charges.behind (h : Charges m id) (h' : ∀ a, Charges (k a) f) : Charges (m >>= k) f :=
  h.bind h'

/-- A change of the code charges the accounts as it changes them. -/
theorem charges_change {change' : CodeBuilder → CodeBuilder}
    (h : ∀ b, (change' b).accounts = f b.accounts) : Charges (change change') f := by
  intro e u e' hrun
  obtain rfl := runs_change_iff.1 hrun
  exact h e.code

/-- A check does not charge the accounts. -/
theorem charges_ofExcept (x : Except EncodeError α) : Charges (ofExcept x) id := by
  intro e a e' hrun
  obtain ⟨-, rfl⟩ := runs_ofExcept_iff.1 hrun
  rfl

/-- An addition to the pool does not charge the accounts. -/
theorem charges_pooling (m : Pooling α) : Charges (pooling m) id := by
  intro e a e' hrun
  obtain ⟨-, rfl⟩ := runs_pooling_iff.1 hrun
  rfl

/-- What is pushed is charged to the depth of the stack, and its maximum follows. -/
theorem charges_push (count : Int) : Charges (push count) (.push count) :=
  charges_change fun _ => rfl

/-- What is dropped is charged to the depth of the stack. -/
theorem charges_drop (count : Int) : Charges (drop count) (.drop count) :=
  charges_change fun _ => rfl

/-- Bytes by themselves do not charge the accounts. -/
theorem charges_emitBytes (bs : Bytes) : Charges (emitBytes bs) id := charges_change fun _ => rfl

theorem charges_emitOpcode (op : Opcode) : Charges (emitOpcode op) id := charges_emitBytes _

theorem charges_emitByte (i : Int) : Charges (emitByte i) id :=
  (charges_ofExcept _).behind fun _ => charges_emitBytes _

theorem charges_emitU2 (i : Int) : Charges (emitU2 i) id :=
  (charges_ofExcept _).behind fun _ => charges_emitBytes _

/-- The load of a constant charges the accounts only with what it pushes afterwards. -/
theorem charges_emitConstant (index : Nat) : Charges (emitConstant index) id := by
  unfold emitConstant
  split
  · exact (charges_emitOpcode _).behind fun _ => charges_emitByte _
  · exact (charges_emitOpcode _).behind fun _ => charges_emitU2 _

/-- The load of a small number charges the accounts only with what it pushes afterwards. -/
theorem charges_emitInteger (value : Int) : Charges (emitInteger value) id := by
  unfold emitInteger
  repeat' split
  · exact charges_emitOpcode _
  · exact charges_emitByte _
  · exact charges_emitBytes _
  · exact charges_emitBytes _
  · exact (charges_pooling _).behind fun _ => charges_emitConstant _

/-- **What a call does to the accounts.** -/
theorem charges_perform (call : Call) : Charges call.perform call.charge := by
  cases call with
  | line number =>
    intro e u e' hrun
    obtain rfl := runs_line_iff.1 hrun
    rfl
  | vreturn => exact charges_emitOpcode _
  | raw bs => exact charges_emitBytes bs
  | iconst value => exact (charges_emitInteger value).behind fun _ => charges_push 1
  | ldcString text =>
    exact (charges_pooling _).behind fun _ => (charges_emitConstant _).behind fun _ => charges_push 1
  | pop | ireturn | areturn => exact (charges_emitOpcode _).behind fun _ => charges_drop 1
  | aload slot =>
    have huse : Charges (change fun b => { b with maxLocals := max b.maxLocals (slot + 1) })
        (.use slot) := charges_change fun _ => rfl
    have haccounts := huse.bind fun _ => charges_push 1
    unfold Call.perform
    by_cases hshort : slot ≤ 3
    · simp only [if_pos hshort]
      exact (charges_emitByte _).behind fun _ => haccounts
    · simp only [if_neg hshort]
      exact (charges_emitOpcode _).behind fun _ => (charges_emitByte _).behind fun _ => haccounts
  | invoke kind owner name descriptor arguments results =>
    have haccounts := (charges_drop (kind.receivers + arguments)).bind fun _ => charges_push results
    refine (charges_pooling _).behind fun _ => (charges_emitOpcode _).behind fun _ =>
      (charges_emitU2 _).behind fun _ => ?_
    split
    · exact (charges_emitByte _).behind fun _ => (charges_emitByte _).behind fun _ => haccounts
    · exact haccounts
  | invokeDynamic bootstrap name descriptor arguments results =>
    exact (charges_pooling _).behind fun _ => (charges_emitOpcode _).behind fun _ =>
      (charges_emitU2 _).behind fun _ => (charges_emitBytes _).behind fun _ =>
        (charges_drop _).bind fun _ => charges_push _

end Charges

/-! ## The accounts of a sequence of calls -/

/-- By how much a call makes the stack grow. -/
def Call.effect : Call → Int
  | line _ | vreturn | raw _ => 0
  | iconst _ | ldcString _ | aload _ => 1
  | pop | ireturn | areturn => -1
  | invoke kind _ _ _ arguments results => results - (kind.receivers + arguments)
  | invokeDynamic _ _ _ arguments results => results - arguments

/-- The depth of the stack behind calls; it may be negative. -/
def depthOf : List Call → Int
  | [] => 0
  | call :: calls => call.effect + depthOf calls

/-- Accounts are those of calls on an empty stack and a number of local variables: the depth is the
sum of the effects, the greatest depth is that behind some of the calls, and the number of local
variables is the given one or the greatest that a load asks for. -/
structure Accounts.Of (maxLocals : Int) (calls : List Call) (a : Accounts) : Prop where
  depth_eq : a.depth = depthOf calls
  maxStack : IsGreatest {d | ∃ before, before <+: calls ∧ d = depthOf before} a.maxStack
  maxLocals : IsGreatest (insert maxLocals {n | ∃ slot, Call.aload slot ∈ calls ∧ n = slot + 1})
    a.maxLocals

section Run

variable {maxLocals : Int} {calls before : List Call} {a : Accounts} {e e' : Emission}

/-- One more call changes the depth by its effect. -/
theorem depthOf_concat (calls : List Call) (call : Call) :
    depthOf (calls ++ [call]) = depthOf calls + call.effect := by
  induction calls with
  | nil => exact Int.add_comm ..
  | cons c calls ih => rw [List.cons_append, depthOf, depthOf, ih, Int.add_assoc]

/-- A call changes the depth of the accounts by its effect. -/
theorem Call.depth_charge (call : Call) (a : Accounts) :
    (call.charge a).depth = a.depth + call.effect := by
  cases call <;> simp only [charge, effect, Accounts.push, Accounts.drop, Accounts.use, id,
    Function.comp_apply] <;> omega

/-- Results are put on the stack last, so that no depth behind a call is missed. -/
theorem Call.maxStack_charge (call : Call) (h : a.depth ≤ a.maxStack) :
    (call.charge a).maxStack = max (a.depth + call.effect) a.maxStack := by
  cases call <;> simp only [charge, effect, Accounts.push, Accounts.drop, Accounts.use, id,
    Function.comp_apply] <;> omega

/-- The depth of the stack never exceeds its maximum. -/
theorem Accounts.Of.depth_le (h : Accounts.Of maxLocals calls a) : a.depth ≤ a.maxStack :=
  h.maxStack.2 ⟨calls, List.prefix_rfl, h.depth_eq⟩

/-- **The accounts of calls and of one more.** -/
theorem Accounts.Of.charge (h : Accounts.Of maxLocals calls a) (call : Call) :
    Accounts.Of maxLocals (calls ++ [call]) (call.charge a) where
  depth_eq := by rw [call.depth_charge, h.depth_eq, depthOf_concat]
  maxStack := by
    have hdepths : {d | ∃ before, before <+: calls ++ [call] ∧ d = depthOf before} =
        insert (a.depth + call.effect) {d | ∃ before, before <+: calls ∧ d = depthOf before} := by
      rw [h.depth_eq, ← depthOf_concat]
      ext d
      simp only [List.prefix_concat_iff, Set.mem_ofPred_eq, Set.mem_insert_iff, or_and_right,
        exists_or, exists_eq_left]
    rw [hdepths, call.maxStack_charge h.depth_le]
    exact h.maxStack.insert _
  maxLocals := by
    cases call with
    | aload slot =>
      have hslots : insert maxLocals {n | ∃ s, Call.aload s ∈ calls ++ [.aload slot] ∧ n = s + 1} =
          insert (slot + 1) (insert maxLocals {n | ∃ s, Call.aload s ∈ calls ∧ n = s + 1}) := by
        rw [Set.insert_comm]
        congr 1
        ext n
        simp [or_and_right, exists_or, or_comm]
      have hmax : ((Call.aload slot).charge a).maxLocals = max (slot + 1) a.maxLocals :=
        max_comm ..
      rw [hslots, hmax]
      exact h.maxLocals.insert _
    | _ =>
      simp only [List.mem_append, List.mem_singleton, reduceCtorEq, or_false]
      exact h.maxLocals

/-- An empty code has the accounts of no calls. -/
theorem Accounts.Of.nil (maxLocals : Int) :
    Accounts.Of maxLocals [] (empty maxLocals).accounts where
  depth_eq := rfl
  maxStack := by
    simp only [List.prefix_nil, exists_eq_left]
    exact isGreatest_singleton
  maxLocals := by simp [isGreatest_singleton, empty, accounts]

/-- Calls keep up the accounts of the calls before them and of themselves. -/
theorem Builds.accounts_append (h : Builds calls e e')
    (ha : Accounts.Of maxLocals before e.code.accounts) :
    Accounts.Of maxLocals (before ++ calls) e'.code.accounts := by
  induction h generalizing before with
  | nil => rwa [List.append_nil]
  | @cons call calls e e₁ e' hcall _ ih =>
    have ha₁ := ha.charge call
    rw [← charges_perform call hcall] at ha₁
    rw [List.append_cons]
    exact ih ha₁

/-- **Calls on code that is begun leave their accounts.** -/
theorem Builds.accounts {p : PoolBuilder} (h : Builds calls ⟨p, .empty maxLocals⟩ e') :
    Accounts.Of maxLocals calls e'.code.accounts :=
  h.accounts_append (.nil maxLocals)

end Run

end Forwarder.CodeBuilder
