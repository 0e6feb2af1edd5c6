import Forwarder.BootstrapTable
import Forwarder.Descriptor.Parse
import Forwarder.Instruction.Decode
import Forwarder.MethodKey

/-!
# Call sites of lambdas

A lambda that captures nothing is compiled to a synthetic method and a dynamic call that is linked
to it by a handle in the bootstrap table. `CallSite.scan` walks the methods of a class and collects
the dynamic calls that are linked to a static method of the same class which returns something.
Calls that do not resolve are left out and noted; code that cannot be decoded or a call beyond the
bootstrap table ends the walk.
-/

namespace Forwarder

/-- A dynamic call and the body that it is linked to. -/
structure CallSite where
  target : MethodKey
  caller : MethodKey
  pc : Nat
  line : Option Int
  deriving Repr, DecidableEq

/-- The descriptor that a text spells, or the cause that it spells none. -/
def MethodDescriptor.parse (text : String) : Except ResolutionError MethodDescriptor :=
  match parse? text with
  | some d => .ok d
  | none => .error (.malformedDescriptor text)

/-- The body that a handle points at, if it is a static method of the class `owner` that returns
something. -/
def MethodHandle.lambdaTarget (handle : MethodHandle) (owner : Option String) :
    Except ResolutionError (Option MethodKey) :=
  if handle.kind ≠ .invokeStatic then .ok none
  else if some handle.member.owner ≠ owner then .ok none
  else
    match MethodDescriptor.parse handle.member.descriptor with
    | .error e => .error e
    | .ok d =>
      if d.isVoid then .ok none else .ok (some ⟨handle.member.name, handle.member.descriptor⟩)

namespace CallSite

/-- Why the walk over a class ends early. -/
inductive Fault where
  /-- A call names a bootstrap method that the table does not have. -/
  | table (error : BootstrapTable.Error)
  /-- The code of a method cannot be decoded. -/
  | code (fault : Instruction.DecodeFault)
  deriving Repr, DecidableEq

/-- A call that does not resolve. -/
structure Unresolved where
  method : String
  pc : Nat
  error : ResolutionError
  deriving Repr, DecidableEq

/-- What a walk finds, in its order, and what ended it early. -/
structure Scan where
  sites : List CallSite
  unresolved : List Unresolved
  fault : Option Fault
  deriving Repr, DecidableEq

namespace Scan

/-- A walk over nothing. -/
def empty : Scan := ⟨[], [], none⟩

/-- A walk that ends at once. -/
def stop (fault : Fault) : Scan := ⟨[], [], some fault⟩

/-- Two walks one after the other; the second does not take place if the first ends early. -/
protected def append (a b : Scan) : Scan :=
  match a.fault with
  | some _ => a
  | none => ⟨a.sites ++ b.sites, a.unresolved ++ b.unresolved, b.fault⟩

instance : Append Scan := ⟨Scan.append⟩

/-- Some walks one after the other. -/
def concat (scans : List Scan) : Scan := scans.foldr (· ++ ·) empty

end Scan

/-- Why a dynamic call has no target. -/
inductive LinkError where
  | unresolved (error : ResolutionError)
  | table (error : BootstrapTable.Error)
  deriving Repr, DecidableEq

/-- The body that the dynamic call of a constant is linked to, if it is a candidate. -/
def link (cls : ClassFile) (table : BootstrapTable) (index : Nat) :
    Except LinkError (Option MethodKey) := do
  let call ← (cls.pool.dynamicCall index).mapError .unresolved
  let entry ← (table.entry call.bootstrapIndex).mapError .table
  match ← (entry.handle cls.pool).mapError .unresolved with
  | none => return none
  | some handle => (handle.lambdaTarget cls.name).mapError .unresolved

/-- What one instruction adds to a walk. -/
def scanInstruction (cls : ClassFile) (table : BootstrapTable) (m : Method) (code : Code)
    (ins : Instruction) : Scan :=
  if ins.opcode ≠ .invokedynamic then .empty
  else
    match ins.constantIndex with
    | .error _ => .empty
    | .ok index =>
      match link cls table index with
      | .ok none => .empty
      | .ok (some target) => ⟨[⟨target, m.key, ins.pc, lineOf code.lines ins.pc⟩], [], none⟩
      | .error (.unresolved e) => ⟨[], [⟨m.name, ins.pc, e⟩], none⟩
      | .error (.table e) => .stop (.table e)

/-- The walk over the code of a method. -/
def scanCode (cls : ClassFile) (table : BootstrapTable) (m : Method) (code : Code) : Scan :=
  let decoded := Decoded.ofBytes code.bytes
  .concat (decoded.instructions.map (scanInstruction cls table m code)) ++
    ⟨[], [], decoded.fault.map .code⟩

/-- The walk over a method. A synthetic method is passed over, and so is one without a dynamic
call. -/
def scanMethod (cls : ClassFile) (table : BootstrapTable) (m : Method) : Scan :=
  match m.code with
  | none => .empty
  | some code =>
    if m.isSynthetic then .empty
    else
      match contains .invokedynamic code.bytes with
      | .error fault => .stop (.code fault)
      | .ok false => .empty
      | .ok true => scanCode cls table m code

/-- The walk over the methods of a class. -/
def scan (cls : ClassFile) (table : BootstrapTable) : Scan :=
  .concat (cls.methods.map (scanMethod cls table))

end CallSite

end Forwarder
