import Forwarder.Analysis
import Forwarder.Assembler.Class

/-!
# Building a class step by step

A `Workspace` holds a class under construction and at most one method's code under construction.
`Workspace.perform` carries out one `Step` and gives its answer; a step that fails leaves behind what
it did before it failed.
-/

namespace Forwarder

/-- A class and the code of its next method. -/
structure Workspace where
  cls : ClassBuilder
  code : Option CodeBuilder

namespace Workspace

/-- One step of building a class. -/
inductive Step where
  | add (addition : PoolBuilder.Addition)
  /-- Adds a constant by its tag and operands. -/
  | raw (tag : Int) (operands : List Operand)
  /-- Adds texts that a stem makes with the numbers below `count`. -/
  | fill (stem : String) (count : Nat)
  | poolSize
  | poolBytes
  | bootstrap (method : Int) (arguments : List Int)
  | lambda (owner name descriptor interfaceDescriptor : String) (kind : Int)
  | bootstrapBytes
  | field (accessFlags : Int) (name descriptor : String)
  | interface (name : String)
  | accessFlags (flags : Int)
  | sourceFile (name : Option String)
  | attribute (name : String) (data : Bytes)
  /-- Begins the code of the next method. -/
  | code (maxLocals : Int)
  /-- Adds a method with the code that was begun, if any. -/
  | method (accessFlags : Int) (name descriptor : String)
  | call (call : CodeBuilder.Call)
  | position
  | classBytes
  /-- Writes the class and reads it back. -/
  | readBack
  /-- Writes the class and analyses it. -/
  | analyse (minMajor : Int)
  deriving Repr, DecidableEq

/-- What a step answers. -/
inductive Answer where
  | done
  | number (n : Nat)
  | bytes (bs : Bytes)
  | cls (c : ClassFile)
  | analysis (outcome : Logged (Option (List Diagnostic)))

/-- Why a step fails. -/
inductive Error where
  | encode (error : EncodeError)
  | format (error : ClassFile.FormatError)
  /-- No code has been begun. -/
  | noCode
  deriving Repr, DecidableEq

/-- The origin of a class that comes from a workspace. -/
def origin : String := "x"

/-- Adds to the pool. -/
def pooling {α : Type} (m : Pooling α) (w : Workspace) : α × Workspace :=
  let ⟨cls, code⟩ := w
  let (a, pool) := m cls.pool
  (a, ⟨{ cls with pool }, code⟩)

/-- Changes the class. -/
def change (f : ClassBuilder → ClassBuilder) (w : Workspace) : Except Error Answer × Workspace :=
  (.ok .done, { w with cls := f w.cls })

/-- Writes the class and goes on with its bytes. -/
def withBytes (w : Workspace) (f : Bytes → Except Error Answer) : Except Error Answer × Workspace :=
  let (result, cls) := w.cls.encode
  ((result.mapError .encode).bind f, { w with cls })

/-- Carries out a call on the code that was begun. -/
def perform.call (w : Workspace) (c : CodeBuilder.Call) : Except Error Answer × Workspace :=
  match w.code with
  | none => (.error .noCode, w)
  | some code =>
    let (result, e) := c.perform.run ⟨w.cls.pool, code⟩
    ((result.mapError .encode).map fun _ => .done,
      ⟨{ w.cls with pool := e.pool }, some e.code⟩)

/-- Carries out a step. -/
def perform (w : Workspace) : Step → Except Error Answer × Workspace
  | .add addition =>
    let (index, w) := w.pooling addition.perform
    (.ok (.number index), w)
  | .raw tag operands =>
    let (index, w) := w.pooling (PoolBuilder.intern (.ofOperands tag operands))
    (.ok (.number index), w)
  | .fill stem count =>
    let (last, w) := w.pooling (PoolBuilder.fill stem count)
    (.ok (last.elim .done .number), w)
  | .poolSize => (.ok (.number w.cls.pool.size), w)
  | .poolBytes => ((w.cls.pool.encode.mapError .encode).map .bytes, w)
  | .bootstrap method arguments =>
    let (index, cls) := w.cls.addBootstrap method arguments
    (.ok (.number index), { w with cls })
  | .lambda owner name descriptor interfaceDescriptor kind =>
    let (index, cls) := w.cls.addLambda owner name descriptor interfaceDescriptor kind
    (.ok (.number index), { w with cls })
  | .bootstrapBytes => ((w.cls.encodeBootstrap.mapError .encode).map .bytes, w)
  | .field accessFlags name descriptor =>
    w.change fun cls => { cls with fields := cls.fields.push ⟨accessFlags, name, descriptor⟩ }
  | .interface name => w.change fun cls => { cls with interfaces := cls.interfaces.push name }
  | .accessFlags flags => w.change fun cls => { cls with accessFlags := flags }
  | .sourceFile name => w.change fun cls => { cls with sourceFile := name }
  | .attribute name data =>
    w.change fun cls => { cls with attributes := cls.attributes.push (name, data) }
  | .code maxLocals => (.ok .done, { w with code := some (.empty maxLocals) })
  | .method accessFlags name descriptor =>
    let draft : MethodDraft := ⟨accessFlags, name, descriptor, w.code.map CodeBuilder.build⟩
    (.ok .done, ⟨{ w.cls with methods := w.cls.methods.push draft }, none⟩)
  | .call c => perform.call w c
  | .position =>
    match w.code with
    | none => (.error .noCode, w)
    | some code => (.ok (.number code.position), w)
  | .classBytes => w.withBytes fun bs => .ok (.bytes bs)
  | .readBack => w.withBytes fun bs => ((ClassFile.decode bs).mapError .format).map .cls
  | .analyse minMajor => w.withBytes fun bs => .ok (.analysis (Source.analyse minMajor ⟨origin, bs⟩))

/-- Carries out steps one after the other and keeps the code under construction after each. -/
def run (w : Workspace) : List Step → List (Except Error Answer × Option CodeBuilder)
  | [] => []
  | step :: steps =>
    let (answer, w) := w.perform step
    (answer, w.code) :: w.run steps

end Workspace

end Forwarder
