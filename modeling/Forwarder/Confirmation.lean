import Forwarder.Body

/-!
# Confirming the targets of call sites

The targets of call sites are keys, and a class may have several methods of one key. A key is
confirmed when a synthetic method of the class has it and every such method forwards.
-/

namespace Forwarder.Confirmation

/-- A synthetic method that was examined, and why it does not forward, if it does not. -/
structure Examination where
  key : MethodKey
  rejection : Option Body.Rejection
  deriving Repr, DecidableEq

/-- Examines the synthetic methods of pending keys in their order. Once a method has failed, no
other one of its key is examined. -/
def examinations (pool : ConstantPool) (pending : List MethodKey) :
    (failed : List MethodKey) → List Method → List Examination
  | _, [] => []
  | failed, m :: ms =>
    if m.isSynthetic && pending.contains m.key && !failed.contains m.key then
      match Body.examine pool m with
      | none => ⟨m.key, none⟩ :: examinations pool pending failed ms
      | some rejection =>
        ⟨m.key, some rejection⟩ :: examinations pool pending (m.key :: failed) ms
    else examinations pool pending failed ms

/-- The keys that passed an examination and failed none. -/
def confirmed (examinations : List Examination) : List MethodKey :=
  let failed := (examinations.filter fun e => e.rejection.isSome).map Examination.key
  let passed := (examinations.filter fun e => e.rejection.isNone).map Examination.key
  (passed.filter fun key => !failed.contains key).eraseDups

/-- Keys in the order of names and then of descriptors. -/
def sorted (keys : List MethodKey) : List MethodKey := keys.mergeSort MethodKey.ble

end Forwarder.Confirmation
