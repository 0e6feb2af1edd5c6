import Forwarder.ClassFile.Read
import Forwarder.Proofs.Cursor.Local

/-!
# How far a class file extends

The reader of class files looks only at the bytes that it consumes (`local_read`): every length and
every count that it follows is among them, and what is read out of the bytes of an attribute is
read out of bytes at hand. `ClassFile.Extent` says what that means for a byte string that is a class
file: a front of it is needed in full, and nothing behind that front matters.
-/

namespace Forwarder.ClassFile

open Cursor

/-! ## The parts of a class file -/

section Parts

variable {α β : Type} (pool : ConstantPool)

/-- A step of a cursor in a part of a class file looks at what it looks at on its own. -/
theorem local_step {r : Cursor.Reader Fault α} (h : Local r) : Local (liftM r : Part α) :=
  h.mapFault FormatError.truncated

theorem local_u2 : Local (liftM Cursor.u2 : Part Nat) := local_step (local_unsigned 2)

theorem local_u4 : Local (liftM Cursor.u4 : Part Nat) := local_step (local_unsigned 4)

/-- A lookup by an index at the cursor. -/
theorem local_lookup (f : Nat → Except FormatError α) :
    Local (do liftM (f (← Cursor.u2)) : Part α) :=
  local_u2.bind fun n => local_lift (f n)

/-- A reader that is repeated looks only at what it consumes. -/
theorem local_times {r : Part α} (h : Local r) (n : Nat) : Local (times r n) := by
  induction n with
  | zero => exact local_pure []
  | succ n ih => exact h.bind fun a => ih.map (a :: ·)

/-- A constant that is one index. -/
theorem local_index (mk : Int → Constant) : Local (do return mk (← Cursor.u2) : Part Constant) :=
  local_u2.map fun n : Nat => mk n

/-- A constant that is a number and an index. -/
theorem local_indices (width : Nat) (mk : Int → Int → Constant) :
    Local (do return mk (← Cursor.unsigned width) (← Cursor.u2) : Part Constant) :=
  (local_step (local_unsigned width)).bind fun n => local_index (mk n)

/-- The reader of constants looks only at what it consumes. -/
theorem local_readConstant (index tag : Nat) : Local (readConstant index tag) := by
  unfold readConstant
  split
  · exact local_u2.bind fun n => (local_step (local_take n)).map fun data =>
      Constant.utf8 (Utf8.decode data)
  · exact (local_step (local_signed 4)).map Constant.integer
  · exact local_u4.map fun n => Constant.float (UInt32.ofNat n)
  · exact (local_step (local_signed 8)).map Constant.long
  · exact (local_step (local_unsigned 8)).map fun n => Constant.double (UInt64.ofNat n)
  · exact local_index .classRef
  · exact local_index .string
  · exact local_index .methodType
  · exact local_index .moduleRef
  · exact local_index .packageRef
  · rename_i kind _
    exact local_indices 2 (.member kind)
  · exact local_indices 2 .nameAndType
  · exact local_indices 2 .dynamic
  · exact local_indices 2 .invokeDynamic
  · exact local_indices 1 .methodHandle
  · exact local_throw _

/-- The constants are read one by one, so their reader looks only at what it consumes. -/
theorem local_readConstants (count : Nat) (slots : Array (Option Constant)) :
    Local (readConstants count slots) := by
  induction slots using readConstants.induct count with
  | case1 slots hlt ih₂ ih₁ =>
    rw [readConstants, if_pos hlt]
    refine (local_step (local_unsigned 1)).bind fun tag => ?_
    refine (local_readConstant slots.size tag).bind fun constant => ?_
    split
    · exact ih₂ constant
    · exact ih₁ constant
  | case2 slots hge =>
    rw [readConstants, if_neg hge]
    exact local_pure slots

/-- The reader of pools looks only at what it consumes. -/
theorem local_readPool : Local readPool :=
  local_u2.bind fun count => (local_readConstants count _).map ConstantPool.mk

/-- An attribute is consumed as a whole, so its reader looks only at that. -/
theorem local_readAttribute : Local (readAttribute pool) := by
  refine local_u2.bind fun n => ?_
  refine (local_lift (utf8 pool n)).bind fun name => ?_
  refine local_u4.bind fun length => ?_
  exact (local_step (local_take length)).map (name, ·)

theorem local_readAttributes : Local (readAttributes pool) :=
  local_u2.bind fun count => (local_times (local_readAttribute pool) count).map _

/-- The reader of methods looks only at what it consumes. -/
theorem local_readMethod : Local (readMethod pool) := by
  refine local_u2.bind fun accessFlags => ?_
  refine local_u2.bind fun nameIndex => ?_
  refine local_u2.bind fun descriptorIndex => ?_
  refine (local_readAttributes pool).bind fun attributes => ?_
  refine (local_lift _).bind fun name => ?_
  refine (local_lift _).bind fun descriptor => ?_
  -- the code is read out of the bytes of an attribute, which have been consumed already
  cases attributes.find? codeName with
  | none => exact (local_pure none).bind fun code => local_pure _
  | some data =>
    exact ((local_lift (within data (readCode pool))).map some).bind fun code => local_pure _

theorem local_skipField : Local (skipField pool) := by
  refine (local_step (local_skip 6)).bind fun _ => ?_
  exact (local_readAttributes pool).bind fun _ => local_pure ()

theorem local_readClassName : Local (readClassName pool) :=
  local_lookup fun n => className pool n

end Parts

/-- **The reader of class files looks only at the bytes that it consumes.** -/
theorem local_read : Local read := by
  refine local_u4.bind fun found => ?_
  split
  · exact local_throw_bind _ _
  · refine local_u2.bind fun minor => ?_
    refine local_u2.bind fun major => ?_
    refine local_readPool.bind fun pool => ?_
    refine local_u2.bind fun accessFlags => ?_
    refine (local_readClassName pool).bind fun name => ?_
    refine (local_readClassName pool).bind fun superName => ?_
    refine local_u2.bind fun interfaceCount => ?_
    refine (local_times (local_readClassName pool) interfaceCount).bind fun interfaces => ?_
    refine local_u2.bind fun fieldCount => ?_
    refine (local_times (local_skipField pool) fieldCount).bind fun _ => ?_
    refine local_u2.bind fun methodCount => ?_
    refine (local_times (local_readMethod pool) methodCount).bind fun methods => ?_
    refine (local_readAttributes pool).bind fun attributes => ?_
    exact (local_lift (sourceFileOf pool attributes)).map _

/-! ## The front of a byte string that is a class file -/

/-- The first `n` bytes of a byte string are the class file of a class: no fewer of them are one,
and whatever follows them does not matter. -/
structure Extent (data : Bytes) (cls : ClassFile) (n : Nat) : Prop where
  le_length : n ≤ data.length
  rejects : ∀ k < n, ∃ e, decode (data.take k) = .error e
  accepts : ∀ data', data.take n <+: data' → decode data' = .ok cls

/-- No byte string has class files of two lengths at its front. -/
theorem Extent.unique {data : Bytes} {cls cls' : ClassFile} {n n' : Nat} (h : Extent data cls n)
    (h' : Extent data cls' n') : n = n' := by
  -- the shorter front would be accepted on its own, and it is rejected as part of the longer one
  have not_lt {cls cls' : ClassFile} {n n' : Nat} (h : Extent data cls n)
      (h' : Extent data cls' n') : ¬ n < n' := by
    intro hlt
    obtain ⟨e, he⟩ := h'.rejects n hlt
    cases he.symm.trans (h.accepts _ (List.prefix_refl _))
  exact Nat.le_antisymm (Nat.not_lt.1 (not_lt h' h)) (Nat.not_lt.1 (not_lt h h'))

section Extent

variable {data : Bytes} {cls : ClassFile}

/-- A byte string is decoded exactly if the reader succeeds at its start, whatever it leaves. -/
theorem decode_eq_ok_iff : decode data = .ok cls ↔ ∃ c, read (.ofBytes data) = .ok (cls, c) := by
  unfold decode within
  cases read (.ofBytes data) with
  | error e => simp [Except.map]
  | ok found => simp [Except.map, Prod.ext_iff]

/-- An error of the reader is one of the decoding. -/
theorem decode_eq_error {e : FormatError} (h : read (.ofBytes data) = .error e) :
    decode data = .error e := by
  rw [decode, within, h]
  rfl

/-- A byte string from which a class is read extends as far as the reader gets. -/
theorem extent_of_read {c : Cursor} (h : read (.ofBytes data) = .ok (cls, c)) :
    Extent data cls c.pos where
  le_length := (local_read.reads_take h).1
  rejects := fun _ hk => (local_read.error_of_take h hk).imp fun _ => decode_eq_error
  accepts := fun _ hp => decode_eq_ok_iff.2 (local_read.of_front h hp)

end Extent

end Forwarder.ClassFile
