import Forwarder.Proofs.Decoding

/-!
# Code in front of code

What is decoded at the front of a code is decoded whatever follows it, and behind a complete code
whose length is a multiple of four the decoding starts anew (`decoding_compositional`). The step
lemma is `Instruction.shifts_readAt`: with `k` more bytes in front of the buffer an instruction is
read as before, `k` further on, and a fault that stops the reading is the same one at an offset that
is greater by `k`. It is put together from the primitive readers along the sequences that readers
are made of (`Cursor.Shifts.bind`). Only the padding of a jump table looks at an offset, so `k` has
to be a multiple of four.
-/

namespace Forwarder

/-! ## Readers behind more bytes -/

namespace Cursor

/-- A cursor stands where another one does, with `k` more bytes in front of the buffer. -/
structure Shifted (k : Nat) (c d : Cursor) : Prop where
  length_eq : d.length = c.length + k
  pos_eq : d.pos = c.pos + k
  rest_eq : d.rest = c.rest

/-- A fault as it is reported with `k` more bytes in front of the buffer. -/
def Fault.shift (k : Nat) : Fault → Fault
  | overrun size offset length => overrun size (offset + k) (length + k)
  | outside offset length => outside (offset + k) (length + k)

/-- What `r` does, `r'` does with `k` more bytes in front of the buffer, up to the translations of
what is read and of faults. -/
structure Shifts {ε α : Type} (k : Nat) (onFault : ε → ε) (onValue : α → α) (r r' : Reader ε α) :
    Prop where
  ok : ∀ {c d : Cursor} {a : α} {c' : Cursor}, Shifted k c d → r c = .ok (a, c') →
    ∃ d', r' d = .ok (onValue a, d') ∧ Shifted k c' d'
  error : ∀ {c d : Cursor} {e : ε}, Shifted k c d → r c = .error e → r' d = .error (onFault e)

section Shifts

variable {ε δ α β : Type} {k : Nat} {onFault : ε → ε} {onValue : α → α} {onResult : β → β}
  {r r' : Reader ε α} {f f' : α → Reader ε β}

/-- Any bytes may stand in front of a buffer. -/
theorem shifted_ofBytes (a b : Bytes) {c : Cursor} (h : (ofBytes (a ++ b)).Advances a c) :
    Shifted a.length (ofBytes b) c where
  length_eq := by
    rw [h.length_eq]
    simp [ofBytes, length, Nat.add_comm]
  pos_eq := by rw [h.pos_eq]; rfl
  rest_eq := by
    rw [rest_ofBytes]
    exact List.append_cancel_left (h.rest_eq.symm.trans (rest_ofBytes _))

theorem Shifted.skip {c d : Cursor} (h : Shifted k c d) (n : Nat) :
    Shifted k { c with pos := c.pos + n } { d with pos := d.pos + n } where
  length_eq := h.length_eq
  pos_eq := by
    show d.pos + n = c.pos + n + k
    rw [h.pos_eq, Nat.add_right_comm]
  rest_eq := by
    show d.data.toList.drop (d.pos + n) = c.data.toList.drop (c.pos + n)
    rw [← List.drop_drop, ← List.drop_drop]
    exact congrArg (List.drop n) h.rest_eq

theorem shifts_pure (onValue : α → α) (a : α) :
    Shifts k onFault onValue (pure a) (pure (onValue a)) where
  ok hd ha := by
    obtain ⟨rfl, rfl⟩ := pure_eq_ok_iff.1 ha
    exact ⟨_, rfl, hd⟩
  error _ he := by cases he

theorem shifts_throw (onValue : α → α) (e : ε) :
    Shifts k onFault onValue (throw e) (throw (onFault e)) where
  ok _ ha := absurd ha throw_ne_ok
  error _ he := by
    cases he
    rfl

/-- Sequences do what their parts do. -/
theorem Shifts.bind (h : Shifts k onFault onValue r r')
    (hf : ∀ a, Shifts k onFault onResult (f a) (f' (onValue a))) :
    Shifts k onFault onResult (r >>= f) (r' >>= f') where
  ok hd hb := by
    obtain ⟨a, c₁, ha, hb⟩ := bind_eq_ok_iff.1 hb
    obtain ⟨d₁, ha', hd₁⟩ := h.ok hd ha
    obtain ⟨d', hb', hd'⟩ := (hf a).ok hd₁ hb
    exact ⟨d', bind_eq_ok_iff.2 ⟨_, d₁, ha', hb'⟩, hd'⟩
  error hd he := by
    rcases bind_eq_error_iff.1 he with he | ⟨a, c₁, ha, he⟩
    · exact bind_eq_error_iff.2 (.inl (h.error hd he))
    · obtain ⟨d₁, ha', hd₁⟩ := h.ok hd ha
      exact bind_eq_error_iff.2 (.inr ⟨_, d₁, ha', (hf a).error hd₁ he⟩)

theorem Shifts.mapFault {onFault' : δ → δ} {g : ε → δ} (h : Shifts k onFault onValue r r')
    (hg : ∀ e, onFault' (g e) = g (onFault e)) :
    Shifts k onFault' onValue (r.mapFault g) (r'.mapFault g) where
  ok hd ha := by
    obtain ⟨d', ha', hd'⟩ := h.ok hd (mapFault_eq_ok_iff.1 ha)
    exact ⟨d', mapFault_eq_ok_iff.2 ha', hd'⟩
  error hd hmapped := by
    obtain ⟨e, he, rfl⟩ := mapFault_eq_error_iff.1 hmapped
    exact mapFault_eq_error_iff.2 ⟨_, h.error hd he, (hg _).symm⟩

/-- The same bytes lie ahead with more bytes in front of the buffer. -/
theorem shifts_take (size : Int) : Shifts k (Fault.shift k) id (take size) (take size) where
  ok hd ha := by
    obtain ⟨h0, hle, rfl, rfl⟩ := take_eq_ok_iff.1 ha
    have hlength := hd.length_eq
    have hpos := hd.pos_eq
    exact ⟨_, take_eq_ok_iff.2 ⟨h0, by omega, by rw [hd.rest_eq]; rfl, rfl⟩, hd.skip _⟩
  error hd he := by
    obtain ⟨hout, rfl⟩ := take_eq_error_iff.1 he
    have hlength := hd.length_eq
    have hpos := hd.pos_eq
    refine take_eq_error_iff.2 ⟨by omega, ?_⟩
    rw [Fault.shift, hlength, hpos, Int.natCast_add]

/-- An unsigned number does not depend on the offset. -/
theorem shifts_unsigned (width : Nat) :
    Shifts k (Fault.shift k) id (unsigned width) (unsigned width) := by
  rw [unsigned_eq]
  exact (shifts_take width).bind fun _ => shifts_pure id _

/-- A number in two's complement does not depend on the offset. -/
theorem shifts_signed (width : Nat) :
    Shifts k (Fault.shift k) id (signed width) (signed width) := by
  rw [signed_eq]
  exact (shifts_take width).bind fun _ => shifts_pure id _

theorem shifts_skip (size : Int) : Shifts k (Fault.shift k) id (skip size) (skip size) := by
  rw [skip_eq_take]
  exact (shifts_take size).bind fun _ => shifts_pure id ()

end Shifts

end Cursor

/-! ## Instructions behind more bytes -/

namespace Instruction

open Cursor

/-- An instruction `k` further on. -/
def shift (k : Nat) (ins : Instruction) : Instruction := { ins with pc := ins.pc + k }

/-- A fault `k` further on, in a code that is longer by `k`. -/
def DecodeFault.shift (k : Nat) : DecodeFault → DecodeFault
  | overrun fault => overrun (fault.shift k)
  | unknownOpcode byte pc => unknownOpcode byte (pc + k)
  | emptyRange pc low high => emptyRange (pc + k) low high
  | negativePairs pc => negativePairs (pc + k)

section Read

variable {α : Type} {k : Nat}

/-- The padding of a jump table depends on the offset only modulo four. -/
theorem padding_add (hk : 4 ∣ k) (pc : Nat) : padding (pc + k) = padding pc := by
  unfold padding
  omega

/-- A step of a cursor does in the decoding of an instruction what it does on its own. -/
theorem shifts_step {r : Cursor.Reader Fault α} (h : Shifts k (Fault.shift k) id r r) :
    Shifts k (DecodeFault.shift k) id (liftM r : Cursor.Reader DecodeFault α) (liftM r) :=
  h.mapFault fun _ => rfl

/-- An opcode does not depend on the offset. -/
theorem shifts_readOpcode (pc : Nat) :
    Shifts k (DecodeFault.shift k) id (readOpcode pc) (readOpcode (pc + k)) := by
  refine (shifts_step (shifts_unsigned 1)).bind fun byte => ?_
  rw [id]
  cases Opcode.ofNat? byte with
  | none => exact shifts_throw id _
  | some op => exact shifts_pure id op

/-- The width of operands does not change if the offset changes by a multiple of four. -/
theorem shifts_operandWidth (hk : 4 ∣ k) (op : Opcode) (pc : Nat) :
    Shifts k (DecodeFault.shift k) id (operandWidth op pc) (operandWidth op (pc + k)) := by
  have hskip (size : Int) := shifts_step (shifts_skip (k := k) size)
  have hi4 := shifts_step (shifts_signed (k := k) 4)
  unfold operandWidth
  rw [padding_add hk]
  cases op.layout with
  | fixed width => exact shifts_pure id _
  | wide =>
    exact (shifts_step (shifts_unsigned 1)).bind fun modified => shifts_pure id _
  | tableSwitch =>
    refine (hskip _).bind fun _ => ?_
    refine (hskip _).bind fun _ => ?_
    refine hi4.bind fun low => ?_
    refine hi4.bind fun high => ?_
    simp only [id]
    split
    · exact (shifts_throw id _).bind fun _ => shifts_pure id _
    · exact shifts_pure id _
  | lookupSwitch =>
    refine (hskip _).bind fun _ => ?_
    refine (hskip _).bind fun _ => ?_
    refine hi4.bind fun npairs => ?_
    simp only [id]
    split
    · exact (shifts_throw id _).bind fun _ => shifts_pure id _
    · exact shifts_pure id _

theorem Shifts.ahead {ε : Type} {onFault : ε → ε} {r r' : Cursor.Reader ε α}
    (h : Shifts k onFault id r r') : Shifts k onFault id (ahead r) (ahead r') where
  ok hd ha := by
    obtain ⟨rfl, c₁, ha⟩ := ahead_eq_ok_iff.1 ha
    obtain ⟨d₁, ha', -⟩ := h.ok hd ha
    exact ⟨_, ahead_eq_ok_iff.2 ⟨rfl, d₁, ha'⟩, hd⟩
  error hd he := by
    rename_i c d e
    cases hr : r c with
    | error e' =>
      rw [Instruction.ahead, hr] at he
      cases he
      rw [Instruction.ahead, h.error hd hr]
      rfl
    | ok p =>
      rw [Instruction.ahead, hr] at he
      cases he

/-- The instruction at the cursor, which stands at `pc`. -/
def readAt (pc : Nat) : Cursor.Reader DecodeFault Instruction := do
  let op ← readOpcode pc
  let width ← Instruction.ahead (operandWidth op pc)
  let operands ← Cursor.take width
  return ⟨pc, op, operands⟩

theorem read_eq_readAt (c : Cursor) : read c = readAt c.pos c := rfl

/-- **An instruction is read behind more bytes as it is without them.** -/
theorem shifts_readAt (hk : 4 ∣ k) (pc : Nat) :
    Shifts k (DecodeFault.shift k) (shift k) (readAt pc) (readAt (pc + k)) :=
  (shifts_readOpcode pc).bind fun op =>
    (Shifts.ahead (shifts_operandWidth hk op pc)).bind fun width =>
      (shifts_step (shifts_take width)).bind fun operands =>
        shifts_pure (shift k) (⟨pc, op, operands⟩ : Instruction)

end Read

end Instruction

/-! ## Decoding behind more bytes -/

namespace Decoded

open Instruction (bytesOf)

/-- The instructions and the fault `k` further on. -/
def shift (k : Nat) (d : Decoded) : Decoded :=
  ⟨d.instructions.map (Instruction.shift k), d.fault.map (Instruction.DecodeFault.shift k)⟩

/-- Decoding behind more bytes, a multiple of four, gives the same code further on. -/
theorem ofCursor_shifted {k : Nat} {c d : Cursor} (hk : 4 ∣ k) (hd : Cursor.Shifted k c d) :
    ofCursor d = (ofCursor c).shift k := by
  have hlength := hd.length_eq
  have hpos := hd.pos_eq
  have hshifts := Instruction.shifts_readAt hk c.pos
  -- the induction is along the recursion of `ofCursor`, and the two cursors stay shifted
  induction c using Decoded.ofCursor.induct generalizing d with
  | case1 c hend =>
    rw [ofCursor_of_end hend, ofCursor_of_end (by omega)]
    rfl
  | case2 c hend fault hread =>
    have hread' := hshifts.error hd hread
    rw [← hpos, ← Instruction.read_eq_readAt] at hread'
    rw [ofCursor_of_error (by omega) hread, ofCursor_of_error (by omega) hread']
    rfl
  | case3 c hend ins c' hread ih =>
    obtain ⟨d', hread', hd'⟩ := hshifts.ok hd hread
    rw [← hpos, ← Instruction.read_eq_readAt] at hread'
    rw [ofCursor_of_ok hread, ofCursor_of_ok hread',
      ih hd' hd'.length_eq hd'.pos_eq (Instruction.shifts_readAt hk c'.pos)]
    rfl

/-- A code begins with the bytes of its instructions, and goes on exactly if a fault stops the
decoding. -/
theorem ofBytes_run (code : Bytes) :
    (∀ ins ∈ (ofBytes code).instructions, ins.WellFormed) ∧
      LaidOut 0 (ofBytes code).instructions ∧
      ∃ rest, code = bytesOf (ofBytes code).instructions ++ rest ∧
        ((ofBytes code).fault = none ↔ rest = []) := by
  obtain ⟨hwf, hlaid, c, hadvance, hfault⟩ := ofCursor_run (.ofBytes code) (Nat.zero_le _)
  exact ⟨hwf, hlaid, c.rest, (Cursor.rest_ofBytes code).symm.trans hadvance.rest_eq, hfault⟩

/-- What is decoded at the front of a code is decoded first whatever follows it. -/
theorem instructions_prefix_append (a b : Bytes) :
    (ofBytes a).instructions <+: (ofBytes (a ++ b)).instructions := by
  obtain ⟨hwf, hlaid, rest, ha, -⟩ := ofBytes_run a
  obtain ⟨more, hmore⟩ := exists_instructions_append hwf hlaid (rest ++ b)
  rw [← List.append_assoc, ← ha] at hmore
  exact ⟨more, hmore.symm⟩

/-- Behind a code without a fault, as long as a multiple of four, the decoding starts anew. -/
theorem ofBytes_append {a : Bytes} (h : (ofBytes a).fault = none) (hlength : 4 ∣ a.length)
    (b : Bytes) :
    ofBytes (a ++ b) = ⟨(ofBytes a).instructions ++ ((ofBytes b).shift a.length).instructions,
      ((ofBytes b).shift a.length).fault⟩ := by
  obtain ⟨hwf, hlaid, rest, ha, hfault⟩ := ofBytes_run a
  rw [hfault.1 h, List.append_nil] at ha
  obtain ⟨c, hadvance, -⟩ := Cursor.exists_advances (Nat.zero_le _) (Cursor.rest_ofBytes (a ++ b))
  have hbehind : ofCursor c = (ofBytes b).shift a.length :=
    ofCursor_shifted hlength (Cursor.shifted_ofBytes a b hadvance)
  rw [← hbehind]
  exact ofCursor_append (c := .ofBytes (a ++ b)) hwf hlaid (ha ▸ hadvance)

/-- **Decoding is stable at the front and composes.** The instructions of a code, up to its end or
to a fault, are the first ones of the code with any bytes behind it. Behind a code without a fault
whose length is a multiple of four come the instructions of the bytes behind it, further on by its
length, and the decoding is stopped by the fault that stops theirs, if there is one. -/
theorem decoding_compositional (a b : Bytes) :
    (ofBytes a).instructions <+: (ofBytes (a ++ b)).instructions ∧
      ((ofBytes a).fault = none → 4 ∣ a.length →
        (ofBytes (a ++ b)).instructions =
          (ofBytes a).instructions ++ (ofBytes b).instructions.map (Instruction.shift a.length) ∧
        (ofBytes (a ++ b)).fault =
          (ofBytes b).fault.map (Instruction.DecodeFault.shift a.length) ∧
        ((ofBytes (a ++ b)).fault = none ↔ (ofBytes b).fault = none)) := by
  refine ⟨instructions_prefix_append a b, fun hfault hlength => ?_⟩
  have happend := ofBytes_append hfault hlength b
  refine ⟨congrArg instructions happend, congrArg fault happend, ?_⟩
  rw [congrArg fault happend]
  exact Option.map_eq_none_iff

/-- Behind a jump table of twenty bytes another one is decoded twenty bytes further on, with the
padding that it has at the front, and what stops the decoding behind it is met there. -/
theorem decoding_compositional_jump_table :
    let operands : Bytes := [0, 0, 0, 0, 0, 0, 9, 0, 0, 0, 5, 0, 0, 0, 5, 0, 0, 0, 9]
    let table : Bytes := Opcode.tableswitch.toByte :: operands
    (ofBytes table).fault = none ∧ 4 ∣ table.length ∧
      (ofBytes (table ++ (table ++ [0xFF]))).instructions =
        [⟨0, .tableswitch, operands⟩, ⟨20, .tableswitch, operands⟩] ∧
      (ofBytes (table ++ (table ++ [0xFF]))).fault = some (.unknownOpcode 255 40) := by
  intro operands table
  have hfirst : ofBytes table = ⟨[⟨0, .tableswitch, operands⟩], none⟩ := by decide +kernel
  have hsecond : ofBytes (table ++ [0xFF]) =
      ⟨[⟨0, .tableswitch, operands⟩], some (.unknownOpcode 255 20)⟩ := by decide +kernel
  have hfault : (ofBytes table).fault = none := congrArg fault hfirst
  have hlength : 4 ∣ table.length := ⟨5, rfl⟩
  obtain ⟨hinstructions, hbehind, -⟩ :=
    (decoding_compositional table (table ++ [0xFF])).2 hfault hlength
  refine ⟨hfault, hlength, hinstructions.trans ?_, hbehind.trans ?_⟩
  · rw [hfirst, hsecond]
    rfl
  · rw [hsecond]
    rfl

end Decoded

end Forwarder
