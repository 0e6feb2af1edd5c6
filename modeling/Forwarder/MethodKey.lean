import Forwarder.ClassFile

/-!
# What identifies a method in its class
-/

namespace Forwarder

/-- The name and the descriptor of a method. A class may have several methods of one key. -/
structure MethodKey where
  name : String
  descriptor : String
  deriving Repr, DecidableEq

/-- The key of a method. -/
def Method.key (m : Method) : MethodKey := ⟨m.name, m.descriptor⟩

/-- Whether a key stands before another one or equals it: by name, then by descriptor. -/
def MethodKey.ble (a b : MethodKey) : Bool :=
  a.name < b.name ||
    (a.name == b.name && (a.descriptor < b.descriptor || a.descriptor == b.descriptor))

end Forwarder
