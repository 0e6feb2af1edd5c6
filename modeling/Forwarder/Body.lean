import Forwarder.CallSite

/-!
# Bodies that only forward

A body forwards when it loads its first local variable, calls a method without parameters on it and
returns. `Body.step` follows these three instructions one at a time, `Body.examine` runs it over the
code of a method. Nothing behind the third instruction is looked at.
-/

namespace Forwarder.Body

/-- How far a body has been followed. -/
inductive State where
  | start
  /-- The first local variable is on the stack. -/
  | receiverLoaded
  /-- The result of the call is on the stack. -/
  | invoked
  deriving Repr, DecidableEq

/-- Why a body does not forward. -/
inductive Rejection where
  /-- The method has no code. -/
  | noCode
  /-- An instruction is another one. -/
  | mismatch
  /-- An instruction lacks operand bytes that it needs, which no decoded instruction does. -/
  | cut (error : Instruction.OperandError)
  /-- The method that is called does not resolve. -/
  | unresolved (pc : Nat) (error : ResolutionError)
  /-- The code ends too early. -/
  | short
  /-- The code cannot be decoded. -/
  | undecodable (fault : Instruction.DecodeFault)
  deriving Repr, DecidableEq

/-- What one more instruction decides. -/
inductive Verdict where
  | undecided
  | confirmed
  | disqualified (rejection : Rejection)
  deriving Repr, DecidableEq

/-- Whether an instruction loads the first local variable. -/
def loadsReceiver (ins : Instruction) : Except Rejection Bool :=
  if ins.opcode = .aload0 ∨ ins.opcode = .aload then do
    let slot ← ins.localIndex.mapError .cut
    return slot = 0
  else .ok false

/-- Whether an instruction calls a method without parameters on an object. -/
def invokesWithoutArguments (pool : ConstantPool) (ins : Instruction) : Except Rejection Bool :=
  if ins.opcode = .invokevirtual ∨ ins.opcode = .invokeinterface then do
    let index ← ins.constantIndex.mapError .cut
    let member ← (pool.member index).mapError (.unresolved ins.pc)
    let d ← (MethodDescriptor.parse member.descriptor).mapError (.unresolved ins.pc)
    return d.arity = 0
  else .ok false

/-- Follows one instruction. The state stays as it is once the verdict is out. -/
def step (pool : ConstantPool) (state : State) (ins : Instruction) : Verdict × State :=
  match state with
  | .start =>
    match loadsReceiver ins with
    | .ok true => (.undecided, .receiverLoaded)
    | .ok false => (.disqualified .mismatch, .start)
    | .error rejection => (.disqualified rejection, .start)
  | .receiverLoaded =>
    match invokesWithoutArguments pool ins with
    | .ok true => (.undecided, .invoked)
    | .ok false => (.disqualified .mismatch, .receiverLoaded)
    | .error rejection => (.disqualified rejection, .receiverLoaded)
  | .invoked =>
    if ins.opcode.isReturn then (.confirmed, .invoked) else (.disqualified .mismatch, .invoked)

/-- Follows instructions up to the first verdict. -/
def follow (pool : ConstantPool) (state : State) :
    List Instruction → Option Instruction.DecodeFault → Option Rejection
  | [], none => some .short
  | [], some fault => some (.undecodable fault)
  | ins :: rest, fault =>
    match step pool state ins with
    | (.undecided, state) => follow pool state rest fault
    | (.confirmed, _) => none
    | (.disqualified rejection, _) => some rejection

/-- Why a method does not forward, or nothing if it does. -/
def examine (pool : ConstantPool) (m : Method) : Option Rejection :=
  match m.code with
  | none => some .noCode
  | some code =>
    let decoded := Decoded.ofBytes code.bytes
    follow pool .start decoded.instructions decoded.fault

/-- Whether a method forwards. -/
def forwards (pool : ConstantPool) (m : Method) : Bool := (examine pool m).isNone

end Forwarder.Body
