import Forwarder.Assembler.Code
import Forwarder.BootstrapTable
import Forwarder.ClassFile.Read

/-!
# Building class files

A `ClassBuilder` holds the parts of a class under construction. `ClassBuilder.encode` writes the
class file: everything behind the constant pool is written first, so that the pool holds every
constant that it refers to. The constants that writing adds stay in the pool, also when writing
fails.
-/

namespace Forwarder

/-- The code of a method under construction. -/
structure CodeDraft where
  maxStack : Int
  maxLocals : Int
  bytes : Bytes
  lines : List LineEntry
  deriving Repr, DecidableEq

/-- The code that a builder has built. -/
def CodeBuilder.build (b : CodeBuilder) : CodeDraft :=
  ⟨b.maxStack, b.maxLocals, b.code.toList, b.lines.toList⟩

/-- A field under construction. -/
structure FieldDraft where
  accessFlags : Int
  name : String
  descriptor : String
  deriving Repr, DecidableEq

/-- A method under construction. -/
structure MethodDraft where
  accessFlags : Int
  name : String
  descriptor : String
  code : Option CodeDraft
  deriving Repr, DecidableEq

/-- A bootstrap method under construction: the index of its handle and the indices of its
arguments. -/
structure BootstrapDraft where
  method : Int
  arguments : List Int
  deriving Repr, DecidableEq

/-- A class under construction. -/
structure ClassBuilder where
  major : Int
  minor : Int
  accessFlags : Int
  name : String
  superName : String
  interfaces : Array String
  fields : Array FieldDraft
  methods : Array MethodDraft
  sourceFile : Option String
  bootstrap : Array BootstrapDraft
  /-- Further attributes, which are written as they are behind all others. -/
  attributes : Array (String × Bytes)
  pool : PoolBuilder

/-- A computation that writes bytes, adds to the pool and may fail. -/
abbrev Encoding := ExceptT EncodeError Pooling

/-- The index of a constant as a field of two bytes. -/
def encodeIndex (m : Pooling Nat) : Encoding Bytes := do
  let index ← m
  ofExcept (Encode.u2 index)

/-- An attribute. -/
def encodeAttribute (name : String) (data : Bytes) : Encoding Bytes := do
  let name ← encodeIndex (PoolBuilder.utf8 name)
  let length ← ofExcept (Encode.u4 data.length)
  return name ++ length ++ data

/-- The access flags, the name and the descriptor of a member. The texts are in the pool before the
flags are written. -/
def encodeMember (accessFlags : Int) (name descriptor : String) : Encoding Bytes := do
  let name ← PoolBuilder.utf8 name
  let descriptor ← PoolBuilder.utf8 descriptor
  let accessFlags ← ofExcept (Encode.u2 accessFlags)
  let name ← ofExcept (Encode.u2 name)
  let descriptor ← ofExcept (Encode.u2 descriptor)
  return accessFlags ++ name ++ descriptor

namespace CodeDraft

/-- A line number table. -/
def encodeLines (lines : List LineEntry) : Except EncodeError Bytes := do
  let count ← Encode.u2 lines.length
  let entries ← lines.mapM fun e => return (← Encode.u2 e.startPc) ++ (← Encode.u2 e.line)
  return count ++ entries.flatten

/-- The attributes of the code, with their number. -/
def encodeAttributes (c : CodeDraft) : Encoding Bytes := do
  if c.lines.isEmpty then ofExcept (Encode.u2 0)
  else
    let table ← ofExcept (encodeLines c.lines)
    let count ← ofExcept (Encode.u2 1)
    return count ++ (← encodeAttribute ClassFile.lineTableName table)

/-- The code as an attribute of its method. -/
def encode (c : CodeDraft) : Encoding Bytes := do
  let maxStack ← ofExcept (Encode.u2 c.maxStack)
  let maxLocals ← ofExcept (Encode.u2 c.maxLocals)
  let length ← ofExcept (Encode.u4 c.bytes.length)
  let handlers ← ofExcept (Encode.u2 0)
  let attributes ← c.encodeAttributes
  encodeAttribute ClassFile.codeName
    (maxStack ++ maxLocals ++ length ++ c.bytes ++ handlers ++ attributes)

end CodeDraft

/-- A field; it has no attributes. -/
def FieldDraft.encode (f : FieldDraft) : Encoding Bytes := do
  let head ← encodeMember f.accessFlags f.name f.descriptor
  return head ++ (← ofExcept (Encode.u2 0))

/-- A method; its code is its only attribute. -/
def MethodDraft.encode (m : MethodDraft) : Encoding Bytes := do
  let head ← encodeMember m.accessFlags m.name m.descriptor
  match m.code with
  | none => return head ++ (← ofExcept (Encode.u2 0))
  | some code =>
    let count ← ofExcept (Encode.u2 1)
    return head ++ count ++ (← code.encode)

/-- A bootstrap method. -/
def BootstrapDraft.encode (d : BootstrapDraft) : Except EncodeError Bytes := do
  let method ← Encode.u2 d.method
  let count ← Encode.u2 d.arguments.length
  let arguments ← d.arguments.mapM Encode.u2
  return method ++ count ++ arguments.flatten

namespace ClassBuilder

/-- The class that classes extend unless they name another one. -/
def objectName : String := "java/lang/Object"

/-- A public class of a name without members. -/
def new (name : String) (superName : String) (major minor : Int) : ClassBuilder where
  major := major
  minor := minor
  accessFlags := 0x0021
  name := name
  superName := superName
  interfaces := #[]
  fields := #[]
  methods := #[]
  sourceFile := none
  bootstrap := #[]
  attributes := #[]
  pool := .empty

/-- Adds a bootstrap method and gives its index. -/
def addBootstrap (b : ClassBuilder) (method : Int) (arguments : List Int) : Nat × ClassBuilder :=
  (b.bootstrap.size, { b with bootstrap := b.bootstrap.push ⟨method, arguments⟩ })

/-- The class whose method links lambdas. -/
def metafactoryOwner : String := "java/lang/invoke/LambdaMetafactory"

/-- The name of the method that links lambdas. -/
def metafactoryName : String := "metafactory"

/-- The descriptor of the method that links lambdas. -/
def metafactoryDescriptor : String :=
  "(Ljava/lang/invoke/MethodHandles$Lookup;Ljava/lang/String;Ljava/lang/invoke/MethodType;" ++
  "Ljava/lang/invoke/MethodType;Ljava/lang/invoke/MethodHandle;Ljava/lang/invoke/MethodType;)" ++
  "Ljava/lang/invoke/CallSite;"

/-- The constants of a lambda's bootstrap method: the handle of the method that links it, and the
indices of its arguments. -/
def lambdaConstants (owner name descriptor interfaceDescriptor : String) (kind : Int) :
    Pooling BootstrapDraft := do
  let factory ←
    PoolBuilder.member .method metafactoryOwner metafactoryName metafactoryDescriptor
  let method ← PoolBuilder.methodHandle HandleKind.invokeStatic.number factory
  let interfaceType ← PoolBuilder.methodType interfaceDescriptor
  let body ← PoolBuilder.member .method owner name descriptor
  let handle ← PoolBuilder.methodHandle kind body
  let instantiated ← PoolBuilder.methodType descriptor
  return ⟨method, [interfaceType, handle, instantiated]⟩

/-- Adds the bootstrap method of a lambda and gives its index. -/
def addLambda (b : ClassBuilder) (owner name descriptor interfaceDescriptor : String)
    (kind : Int) : Nat × ClassBuilder :=
  let (draft, pool) := lambdaConstants owner name descriptor interfaceDescriptor kind b.pool
  { b with pool }.addBootstrap draft.method draft.arguments

/-- The bootstrap table. -/
def encodeBootstrap (b : ClassBuilder) : Except EncodeError Bytes := do
  let count ← Encode.u2 b.bootstrap.size
  let entries ← b.bootstrap.toList.mapM BootstrapDraft.encode
  return count ++ entries.flatten

/-- The source file as the value of an attribute, if one is named. -/
def sourceAttribute (b : ClassBuilder) : Encoding (List (String × Bytes)) := do
  match b.sourceFile with
  | none => return []
  | some name =>
    if name.isEmpty then return []
    else return [(ClassFile.sourceFileName, ← encodeIndex (PoolBuilder.utf8 name))]

/-- The bootstrap table as the value of an attribute, unless it is empty. -/
def bootstrapAttribute (b : ClassBuilder) : Encoding (List (String × Bytes)) := do
  if b.bootstrap.isEmpty then return []
  else return [(BootstrapTable.attributeName, ← ofExcept b.encodeBootstrap)]

/-- Everything behind the constant pool. -/
def encodeBody (b : ClassBuilder) : Encoding Bytes := do
  let accessFlags ← ofExcept (Encode.u2 b.accessFlags)
  let name ← encodeIndex (PoolBuilder.classRef b.name)
  let superName ← encodeIndex (PoolBuilder.classRef b.superName)
  let interfaceCount ← ofExcept (Encode.u2 b.interfaces.size)
  let interfaces ← b.interfaces.toList.mapM fun i => encodeIndex (PoolBuilder.classRef i)
  let fieldCount ← ofExcept (Encode.u2 b.fields.size)
  let fields ← b.fields.toList.mapM FieldDraft.encode
  let methodCount ← ofExcept (Encode.u2 b.methods.size)
  let methods ← b.methods.toList.mapM MethodDraft.encode
  let source ← b.sourceAttribute
  let bootstrap ← b.bootstrapAttribute
  let values := source ++ bootstrap ++ b.attributes.toList
  let attributeCount ← ofExcept (Encode.u2 values.length)
  let attributes ← values.mapM fun (name, data) => encodeAttribute name data
  return accessFlags ++ name ++ superName ++ interfaceCount ++ interfaces.flatten ++ fieldCount
    ++ fields.flatten ++ methodCount ++ methods.flatten ++ attributeCount ++ attributes.flatten

/-- The class file, with the constants that it adds to the pool. -/
def encodePooling (b : ClassBuilder) : Encoding Bytes := do
  let body ← b.encodeBody
  let magic ← ofExcept (Encode.u4 ClassFile.magic)
  let minor ← ofExcept (Encode.u2 b.minor)
  let major ← ofExcept (Encode.u2 b.major)
  let pool ← ofExcept (PoolBuilder.encode (← get))
  return magic ++ minor ++ major ++ pool ++ body

/-- The class file, and the builder with the pool that writing leaves. -/
def encode (b : ClassBuilder) : Except EncodeError Bytes × ClassBuilder :=
  let (result, pool) := b.encodePooling.run b.pool
  (result, { b with pool })

end ClassBuilder

end Forwarder
