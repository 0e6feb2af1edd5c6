import Forwarder.Bytes

/-!
# A cursor over a byte buffer

A `Cursor` is a buffer and an offset into it. A `Step` looks first whether the bytes that it wants are
there (`Step.require`) and then moves past them; it leaves a cursor behind after a fault, too. The
readers of a format give up at the first fault: a `Reader` has no cursor then, and `Step.reader` makes
one of a step. Every read goes through `Cursor.take`, which either hands out the next bytes and
advances past them or names the fault; `take_eq_ok_iff` says exactly when it succeeds and with what.
The offset may lie beyond the buffer, where every read fails. Numbers are big-endian.
-/

namespace Forwarder

/-- A buffer and the offset of the next byte. -/
structure Cursor where
  data : Array UInt8
  pos : Nat
  deriving Repr, DecidableEq

namespace Cursor

/-- Why a step of a cursor fails. -/
inductive Fault where
  /-- A read of `size` bytes at `offset` does not fit into a buffer of `length` bytes. -/
  | overrun (size offset : Int) (length : Nat)
  /-- The position to move to lies outside a buffer of `length` bytes. -/
  | outside (offset : Int) (length : Nat)
  deriving Repr, DecidableEq

/-- The text that reports a fault. -/
def Fault.message : Fault → String
  | overrun size offset length =>
    s!"Read of {size} byte(s) at offset {offset} exceeds buffer of {length}"
  | outside offset length => s!"Offset {offset} outside buffer of {length}"

/-- The cursor at the start of a byte string. -/
def ofBytes (bs : Bytes) : Cursor := ⟨bs.toArray, 0⟩

/-- The number of bytes in the buffer. -/
def length (c : Cursor) : Nat := c.data.size

/-- The number of bytes from the position to the end, negative beyond the end. -/
def remaining (c : Cursor) : Int := c.length - c.pos

/-- The bytes from the position on. -/
def rest (c : Cursor) : Bytes := c.data.toList.drop c.pos

/-- The numbers that a byte string holds in pairs of bytes; a last single byte is dropped. -/
def pairs : Bytes → List Nat
  | hi :: lo :: rest => (256 * hi.toNat + lo.toNat) :: pairs rest
  | _ => []

/-- A computation on a cursor that may fail on the way; what it did to the cursor before stays
done. -/
abbrev Step := ExceptT Fault (StateM Cursor)

/-- A computation that reads from a cursor and may fail with `ε`, which ends it. -/
abbrev Reader (ε : Type) := StateT Cursor (Except ε)

namespace Step

/-- Refuses a size that is negative or reaches beyond the buffer. -/
def require (size : Int) : Step Unit := do
  let c ← get
  if size < 0 ∨ c.length < c.pos + size then throw (.overrun size c.pos c.length)

/-- Moves past `size` bytes, whether they are there or not. -/
def advance (size : Int) : Step Unit := modify fun c => { c with pos := c.pos + size.toNat }

/-- The next `size` bytes. -/
def take (size : Int) : Step Bytes := do
  require size
  let c ← get
  advance size
  return (c.data.extract c.pos (c.pos + size.toNat)).toList

/-- Advances past `size` bytes. -/
def skip (size : Int) : Step Unit := do
  require size
  advance size

/-- Moves to an offset inside the buffer or to its end. -/
def seek (offset : Int) : Step Unit := do
  let c ← get
  if offset < 0 ∨ c.length < offset then throw (.outside offset c.length)
  else set { c with pos := offset.toNat }

/-- An unsigned number of `width` bytes. -/
def unsigned (width : Nat) : Step Nat := do
  return Bytes.toNat (← take width)

/-- A two's complement number of `width` bytes. -/
def signed (width : Nat) : Step Int := do
  return Bytes.toInt (← take width)

/-- `count` unsigned numbers of two bytes each, read as one block. -/
def u2Array (count : Int) : Step (List Nat) := do
  return pairs (← take (2 * count))

/-- What a step comes to, and the cursor behind it. -/
def apply {α : Type} (s : Step α) (c : Cursor) : Except Fault α × Cursor := s.run.run c

/-- A step as a reader, which has no cursor after a fault. -/
def reader {α : Type} (s : Step α) : Reader Fault α := fun c =>
  match s.apply c with
  | (.ok a, c') => .ok (a, c')
  | (.error e, _) => .error e

end Step

/-- The next `size` bytes. -/
def take (size : Int) : Reader Fault Bytes := (Step.take size).reader

/-- Advances past `size` bytes. -/
def skip (size : Int) : Reader Fault Unit := (Step.skip size).reader

/-- An unsigned number of `width` bytes. -/
def unsigned (width : Nat) : Reader Fault Nat := (Step.unsigned width).reader

/-- A two's complement number of `width` bytes. -/
def signed (width : Nat) : Reader Fault Int := (Step.signed width).reader

/-- An unsigned number of one byte. -/
def u1 : Reader Fault Nat := unsigned 1

/-- An unsigned number of two bytes. -/
def u2 : Reader Fault Nat := unsigned 2

/-- An unsigned number of four bytes. -/
def u4 : Reader Fault Nat := unsigned 4

/-- A two's complement number of four bytes. -/
def i4 : Reader Fault Int := signed 4

/-- A two's complement number of eight bytes. -/
def i8 : Reader Fault Int := signed 8

/-- `count` unsigned numbers of two bytes each, read as one block. -/
def u2Array (count : Int) : Reader Fault (List Nat) := (Step.u2Array count).reader

/-- Runs a reader and names its fault in the terms of the caller. -/
def Reader.mapFault {ε δ α : Type} (f : ε → δ) (r : Reader ε α) : Reader δ α := fun c =>
  (r c).mapError f

section Reader

variable {ε δ α β : Type} {c c' : Cursor} {a : α} {b : β}

/-- A sequence succeeds exactly when both of its parts do. -/
theorem bind_eq_ok_iff {r : Reader ε α} {f : α → Reader ε β} :
    (r >>= f) c = .ok (b, c') ↔ ∃ a c₁, r c = .ok (a, c₁) ∧ f a c₁ = .ok (b, c') := by
  simp only [bind, StateT.bind, Except.bind]
  cases r c with
  | error e => simp
  | ok p =>
    obtain ⟨a, c₁⟩ := p
    constructor
    · intro h
      exact ⟨a, c₁, rfl, h⟩
    · rintro ⟨a', c₁', h, h'⟩
      cases h
      exact h'

/-- A sequence fails exactly when one of its parts does. -/
theorem bind_eq_error_iff {r : Reader ε α} {f : α → Reader ε β} {e : ε} :
    (r >>= f) c = .error e ↔ r c = .error e ∨ ∃ a c₁, r c = .ok (a, c₁) ∧ f a c₁ = .error e := by
  simp only [bind, StateT.bind, Except.bind]
  cases r c with
  | error e' => simp
  | ok p =>
    obtain ⟨a, c₁⟩ := p
    constructor
    · intro h
      exact .inr ⟨a, c₁, rfl, h⟩
    · rintro (h | ⟨_, _, h, h'⟩)
      · cases h
      · cases h
        exact h'

/-- A result that is given stays as it is, and so does the cursor. -/
theorem pure_eq_ok_iff {a' : α} : (pure a : Reader ε α) c = .ok (a', c') ↔ a = a' ∧ c = c' := by
  show Except.ok (a, c) = Except.ok (a', c') ↔ _
  simp

/-- A fault is no success. -/
theorem throw_ne_ok {e : ε} : (throw e : Reader ε α) c ≠ .ok (a, c') := by
  simp [throw, throwThe, MonadExceptOf.throw, StateT.lift, bind, Except.bind]

/-- A result that does not come from the cursor leaves it where it is. -/
theorem lift_eq_ok_iff {x : Except ε α} :
    (liftM x : Reader ε α) c = .ok (a, c') ↔ x = .ok a ∧ c = c' := by
  cases x with
  | error e => exact iff_of_false (throw_ne_ok (e := e)) nofun
  | ok a' =>
    rw [Except.ok.injEq]
    exact pure_eq_ok_iff

/-- What is asked for the cursor gives it and leaves it in place. -/
theorem get_eq_ok_iff {s : Cursor} :
    (get : Reader ε Cursor) c = .ok (s, c') ↔ c = s ∧ c = c' := by
  simp [get, getThe, MonadStateOf.get, StateT.get, pure, Except.pure]

/-- Another name for its faults does not change where a reader succeeds. -/
theorem mapFault_eq_ok_iff {f : ε → δ} {r : Reader ε α} :
    r.mapFault f c = .ok (a, c') ↔ r c = .ok (a, c') := by
  unfold Reader.mapFault
  cases r c with
  | error e =>
    show Except.error (f e) = Except.ok (a, c') ↔ _
    simp
  | ok p =>
    show Except.ok p = Except.ok (a, c') ↔ Except.ok p = Except.ok (a, c')
    simp only [Except.ok.injEq]

/-- The faults of a reader under another name are its faults, renamed. -/
theorem mapFault_eq_error_iff {f : ε → δ} {r : Reader ε α} {d : δ} :
    r.mapFault f c = .error d ↔ ∃ e, r c = .error e ∧ f e = d := by
  unfold Reader.mapFault
  cases r c with
  | error e =>
    show Except.error (f e) = Except.error d ↔ _
    simp
  | ok p =>
    show Except.ok p = Except.error d ↔ _
    simp

end Reader

/-! ## What steps come to -/

namespace Step

section Apply

variable {α β : Type} {s : Step α} {f : α → Step β} {a : α} {e : Fault} {c c' : Cursor} {size : Int}

/-- A sequence of steps goes on from the cursor that the first one leaves, unless that fails. -/
theorem apply_bind :
    (s >>= f).apply c =
      match s.apply c with
      | (.ok a, c₁) => (f a).apply c₁
      | (.error e, c₁) => (.error e, c₁) := by
  unfold apply
  rw [ExceptT.run_bind, StateT.run_bind]
  rcases s.run.run c with ⟨e | a, c₁⟩ <;> rfl

/-- A size is looked at, and the cursor stays. -/
theorem apply_require :
    (require size).apply c =
      if size < 0 ∨ c.length < c.pos + size then (.error (.overrun size c.pos c.length), c)
      else (.ok (), c) := by
  show (if size < 0 ∨ c.length < c.pos + size then throw (.overrun size c.pos c.length)
    else pure () : Step Unit).apply c = _
  split <;> rfl

/-- Bytes that are there are handed out and passed; else the cursor stays. -/
theorem apply_take :
    (take size).apply c =
      if size < 0 ∨ c.length < c.pos + size then (.error (.overrun size c.pos c.length), c)
      else (.ok (c.data.extract c.pos (c.pos + size.toNat)).toList,
        { c with pos := c.pos + size.toNat }) := by
  rw [take, apply_bind, apply_require]
  by_cases h : size < 0 ∨ c.length < c.pos + size
  · rw [if_pos h, if_pos h]
  · rw [if_neg h, if_neg h]
    rfl

/-- To skip is to take bytes and to make nothing of them. -/
theorem skip_eq_take (size : Int) : skip size = do let _ ← take size; return () := by
  funext c
  show (skip size).apply c = (take size >>= fun _ => pure ()).apply c
  rw [skip, apply_bind, apply_require, apply_bind, apply_take]
  by_cases h : size < 0 ∨ c.length < c.pos + size
  · rw [if_pos h, if_pos h]
  · rw [if_neg h, if_neg h]
    rfl

/-- The cursor moves to a position of the buffer; else it stays. -/
theorem apply_seek {offset : Int} :
    (seek offset).apply c =
      if offset < 0 ∨ c.length < offset then (.error (.outside offset c.length), c)
      else (.ok (), { c with pos := offset.toNat }) := by
  show (if offset < 0 ∨ c.length < offset then throw (.outside offset c.length)
    else set ({ c with pos := offset.toNat } : Cursor) : Step Unit).apply c = _
  split <;> rfl

/-- A step succeeds as a reader as it does on its own. -/
theorem reader_eq_ok_iff : s.reader c = .ok (a, c') ↔ s.apply c = (.ok a, c') := by
  unfold reader
  rcases s.apply c with ⟨e | a, c₁⟩ <;> simp

/-- A step fails as a reader as it does on its own, and the cursor is lost. -/
theorem reader_eq_error_iff : s.reader c = .error e ↔ (s.apply c).1 = .error e := by
  unfold reader
  rcases s.apply c with ⟨e | a, c₁⟩ <;> simp

/-- A sequence of steps is a sequence of readers. -/
theorem reader_bind : (s >>= f).reader = s.reader >>= fun a => (f a).reader := by
  funext c
  show reader (s >>= f) c = (s.reader c).bind fun (a, c₁) => (f a).reader c₁
  unfold reader
  rw [apply_bind]
  rcases s.apply c with ⟨e | a, c₁⟩ <;> rfl

end Apply

end Step

/-- To skip bytes is to take them and to forget them. -/
theorem skip_eq_take (size : Int) : skip size = do let _ ← take size; return () := by
  rw [skip, Step.skip_eq_take]
  exact Step.reader_bind

/-- An unsigned number is what the bytes denote that are taken for it. -/
theorem unsigned_eq (width : Nat) : unsigned width = do return Bytes.toNat (← take width) :=
  Step.reader_bind

/-- A number in two's complement is what the bytes denote that are taken for it. -/
theorem signed_eq (width : Nat) : signed width = do return Bytes.toInt (← take width) :=
  Step.reader_bind

/-- A block of numbers is made of the pairs of the bytes that are taken for it. -/
theorem u2Array_eq (count : Int) : u2Array count = do return pairs (← take (2 * count)) :=
  Step.reader_bind

section Take

variable {size : Int} {c c' : Cursor} {bs : Bytes}

/-- A read succeeds exactly when the bytes are there, hands them out and advances past them. -/
theorem take_eq_ok_iff :
    take size c = .ok (bs, c') ↔
      0 ≤ size ∧ c.pos + size ≤ c.length ∧ bs = c.rest.take size.toNat ∧
        c' = { c with pos := c.pos + size.toNat } := by
  rw [take, Step.reader_eq_ok_iff, Step.apply_take]
  split
  · rename_i h
    constructor
    · intro h'; cases h'
    · rintro ⟨h1, h2, -, -⟩; omega
  · rename_i h
    have hb : (c.data.extract c.pos (c.pos + size.toNat)).toList = c.rest.take size.toNat := by
      simp [rest, List.extract]
    rw [hb]
    constructor
    · intro h'
      cases h'
      exact ⟨by omega, by omega, rfl, rfl⟩
    · rintro ⟨-, -, rfl, rfl⟩
      rfl

/-- A read that fails names its size, its offset and the length of the buffer. -/
theorem take_eq_error_iff {e : Fault} :
    take size c = .error e ↔
      (size < 0 ∨ c.length < c.pos + size) ∧ e = .overrun size c.pos c.length := by
  rw [take, Step.reader_eq_error_iff, Step.apply_take]
  split
  · rename_i h
    simp [h, eq_comm]
  · rename_i h
    simp [h]

/-- A number fails to be read where its bytes are not there. -/
theorem unsigned_eq_error_iff {width : Nat} {e : Fault} :
    unsigned width c = .error e ↔
      c.length < c.pos + width ∧ e = .overrun width c.pos c.length := by
  rw [unsigned_eq, bind_eq_error_iff, take_eq_error_iff]
  constructor
  · rintro (⟨hout, rfl⟩ | ⟨bs, c₁, -, hpure⟩)
    · exact ⟨by omega, rfl⟩
    · cases hpure
  · rintro ⟨hout, rfl⟩
    exact .inl ⟨by omega, rfl⟩

end Take

end Cursor

end Forwarder
