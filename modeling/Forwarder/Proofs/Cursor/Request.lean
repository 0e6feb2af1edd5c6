import Mathlib.Data.List.Basic
import Forwarder.Proofs.Cursor.Block
import Forwarder.SignedCursor

/-!
# What a cursor does on request

`Request.Outcome` lists what one request can come to: it asks for bytes that are there and gets what
they denote, it asks for bytes that are not there and nothing changes, or it moves inside the
buffer. `outcome_answer` is the law of one step and `runs_answers` that of a run, in which every
step starts where the one before it ended. No step leaves the buffer (`Keeps`), and a cursor
that may count from the end does the same from the start on (`SignedCursor.answers_ofCursor`).
-/

namespace Forwarder

namespace Cursor

/-! ## One step -/

/-- The number of bytes that a request asks for, if it reads or skips. -/
def Request.size? : Request → Option Int
  | unsigned width | signed width => some width
  | binary32 => some 4
  | binary64 => some 8
  | u2Array count => some (2 * count)
  | bytes size | skip size => some size
  | length | remaining | seek _ => none

/-- What a request gives for the bytes that it asks for: the number that is written with them in
big-endian order, unsigned or in two's complement, the numbers of a block, the bytes themselves, or
nothing. -/
inductive Request.Gives : Request → Bytes → Answer → Prop where
  | unsigned {width n : Nat} (h : n < Bytes.capacity width) :
      Gives (.unsigned width) (Bytes.ofNat width n) (.number n)
  | signed {width : Nat} {i : Int} (hlow : -Bytes.capacity width ≤ 2 * i)
      (hhigh : 2 * i < Bytes.capacity width) :
      Gives (.signed width) (Bytes.ofInt width i) (.number i)
  | binary32 {bits : UInt32} : Gives .binary32 (Bytes.ofNat 4 bits.toNat) (.binary32 bits)
  | binary64 {bits : UInt64} : Gives .binary64 (Bytes.ofNat 8 bits.toNat) (.binary64 bits)
  | u2Array {ns : List Nat} (h : ∀ n ∈ ns, n < Bytes.capacity 2) :
      Gives (.u2Array ns.length) (ns.flatMap (Bytes.ofNat 2)) (.numbers ns)
  | bytes {bs : Bytes} : Gives (.bytes bs.length) bs (.bytes bs)
  | skip {bs : Bytes} : Gives (.skip bs.length) bs .done

/-- What a request to a cursor comes to, and the cursor behind it. -/
inductive Request.Outcome (c : Cursor) : Request → Except Fault Answer × Cursor → Prop where
  /-- The bytes ahead are read or skipped. -/
  | advances {request : Request} {bs : Bytes} {a : Answer} {c' : Cursor} (h : c.Advances bs c')
      (ha : request.Gives bs a) : Outcome c request (.ok a, c')
  /-- The bytes are not there, and the cursor stays. -/
  | overrun {request : Request} {size : Int} (hsize : request.size? = some size)
      (h : size < 0 ∨ c.length < c.pos + size) :
      Outcome c request (.error (.overrun size c.pos c.length), c)
  /-- The cursor moves to a position inside the buffer or to its end. -/
  | moves {pos : Nat} (h : pos ≤ c.length) :
      Outcome c (.seek pos) (.ok .done, { c with pos := pos })
  /-- The position is not inside the buffer, and the cursor stays. -/
  | outside {offset : Int} (h : offset < 0 ∨ c.length < offset) :
      Outcome c (.seek offset) (.error (.outside offset c.length), c)
  /-- The length of the buffer is asked for. -/
  | length : Outcome c .length (.ok (.number c.length), c)
  /-- The number of bytes ahead is asked for. -/
  | remaining : Outcome c .remaining (.ok (.number c.remaining), c)

section Gives

variable {bs : Bytes}

/-- Bytes are what is written for the unsigned number that is read from them. -/
theorem gives_unsigned {width : Nat} (h : bs.length = width) :
    (Request.unsigned width).Gives bs (.number bs.toNat) := by
  subst h
  have hgives := Request.Gives.unsigned bs.toNat_lt
  rwa [Bytes.ofNat_toNat] at hgives

/-- Bytes are what is written for the number in two's complement that is read from them. -/
theorem gives_signed {width : Nat} (h : bs.length = width) :
    (Request.signed width).Gives bs (.number bs.toInt) := by
  subst h
  obtain ⟨hlow, hhigh⟩ := bs.toInt_bounds
  have hgives := Request.Gives.signed hlow hhigh
  rwa [Bytes.ofInt_toInt] at hgives

/-- Four bytes are what is written for the bit pattern that is read from them. -/
theorem gives_binary32 (h : bs.length = 4) :
    Request.Gives .binary32 bs (.binary32 (UInt32.ofNat bs.toNat)) := by
  have hlt : bs.toNat < 2 ^ 32 := by simpa [h, Bytes.capacity] using bs.toNat_lt
  have hgives := @Request.Gives.binary32 (UInt32.ofNat bs.toNat)
  rwa [UInt32.toNat_ofNat_of_lt' hlt, ← h, Bytes.ofNat_toNat] at hgives

/-- Eight bytes are what is written for the bit pattern that is read from them. -/
theorem gives_binary64 (h : bs.length = 8) :
    Request.Gives .binary64 bs (.binary64 (UInt64.ofNat bs.toNat)) := by
  have hlt : bs.toNat < 2 ^ 64 := by simpa [h, Bytes.capacity] using bs.toNat_lt
  have hgives := @Request.Gives.binary64 (UInt64.ofNat bs.toNat)
  rwa [UInt64.toNat_ofNat_of_lt' hlt, ← h, Bytes.ofNat_toNat] at hgives

/-- The bytes of a block are what is written for the numbers that are read from them. -/
theorem gives_u2Array {count : Int} (h : (bs.length : Int) = 2 * count) :
    (Request.u2Array count).Gives bs (.numbers (pairs bs)) := by
  obtain ⟨n, rfl⟩ := Int.eq_ofNat_of_zero_le (a := count) (by omega)
  have hsize : bs.length = 2 * n := by omega
  obtain ⟨hlength, hfits, hwritten⟩ := flatMap_ofNat_pairs hsize
  have hgives := Request.Gives.u2Array hfits
  rwa [hwritten, hlength] at hgives

end Gives

section Step

variable {c : Cursor} {request : Request}

/-- A request that takes bytes and makes something of them. -/
theorem outcome_of_take (size : Int) (f : Bytes → Answer)
    (hperform : request.perform = do return f (← Step.take size))
    (hsize : request.size? = some size)
    (hgives : ∀ bs : Bytes, (bs.length : Int) = size → request.Gives bs (f bs)) :
    request.Outcome c (c.answer request) := by
  rw [answer, hperform, Step.apply_bind]
  by_cases hout : size < 0 ∨ c.length < c.pos + size
  · have hfails : (Step.take size).apply c = (.error (.overrun size c.pos c.length), c) := by
      rw [Step.apply_take, if_pos hout]
    rw [hfails]
    exact .overrun hsize hout
  · have htakes : (Step.take size).apply c =
        (.ok (c.data.extract c.pos (c.pos + size.toNat)).toList,
          { c with pos := c.pos + size.toNat }) := by
      rw [Step.apply_take, if_neg hout]
    obtain ⟨hlength, hadvance⟩ := take_eq_ok.1 (Step.reader_eq_ok_iff.2 htakes)
    rw [htakes]
    exact .advances hadvance (hgives _ hlength)

/-- A request to move, which looks first whether it may. -/
theorem outcome_seek (c : Cursor) (offset : Int) :
    (Request.seek offset).Outcome c (c.answer (.seek offset)) := by
  rw [answer, Request.perform, Step.apply_bind]
  by_cases hout : offset < 0 ∨ c.length < offset
  · have hfails : (Step.seek offset).apply c = (.error (.outside offset c.length), c) := by
      rw [Step.apply_seek, if_pos hout]
    rw [hfails]
    exact .outside hout
  · obtain ⟨pos, rfl⟩ := Int.eq_ofNat_of_zero_le (a := offset) (by omega)
    have hmoves : (Step.seek pos).apply c = (.ok (), { c with pos := pos }) := by
      rw [Step.apply_seek, if_neg hout, Int.toNat_natCast]
    rw [hmoves]
    exact .moves (by omega)

/-- **Every request comes to what `Request.Outcome` lists.** -/
theorem outcome_answer (c : Cursor) (request : Request) :
    request.Outcome c (c.answer request) := by
  cases request with
  | length => exact .length
  | remaining => exact .remaining
  | unsigned width =>
    refine outcome_of_take width (fun bs => .number bs.toNat) ?_ rfl ?_
    · simp only [Request.perform, Step.unsigned, bind_assoc, pure_bind]
    · exact fun bs hbs => gives_unsigned (Int.ofNat.inj hbs)
  | signed width =>
    refine outcome_of_take width (fun bs => .number bs.toInt) ?_ rfl ?_
    · simp only [Request.perform, Step.signed, bind_assoc, pure_bind]
    · exact fun bs hbs => gives_signed (Int.ofNat.inj hbs)
  | binary32 =>
    refine outcome_of_take (4 : Nat) (fun bs => .binary32 (UInt32.ofNat bs.toNat)) ?_ rfl ?_
    · simp only [Request.perform, Step.unsigned, bind_assoc, pure_bind]
    · exact fun bs hbs => gives_binary32 (Int.ofNat.inj hbs)
  | binary64 =>
    refine outcome_of_take (8 : Nat) (fun bs => .binary64 (UInt64.ofNat bs.toNat)) ?_ rfl ?_
    · simp only [Request.perform, Step.unsigned, bind_assoc, pure_bind]
    · exact fun bs hbs => gives_binary64 (Int.ofNat.inj hbs)
  | u2Array count =>
    refine outcome_of_take (2 * count) (fun bs => .numbers (pairs bs)) ?_ rfl ?_
    · simp only [Request.perform, Step.u2Array, bind_assoc, pure_bind]
    · exact fun bs => gives_u2Array
  | bytes size =>
    refine outcome_of_take size .bytes rfl rfl ?_
    rintro bs rfl
    exact .bytes
  | skip size =>
    refine outcome_of_take size (fun _ => .done) ?_ rfl ?_
    · simp only [Request.perform, Step.skip_eq_take, bind_assoc, pure_bind]
    · rintro bs rfl
      exact .skip
  | seek offset => exact outcome_seek c offset

end Step

/-! ## Runs -/

/-- A cursor has the buffer of another one, and is inside of it if the other one is. -/
structure Keeps (c c' : Cursor) : Prop where
  data_eq : c'.data = c.data
  inside : c.pos ≤ c.length → c'.pos ≤ c'.length

theorem Keeps.refl (c : Cursor) : Keeps c c := ⟨rfl, id⟩

theorem Keeps.trans {c c₁ c' : Cursor} (h : Keeps c c₁) (h' : Keeps c₁ c') : Keeps c c' :=
  ⟨h'.data_eq.trans h.data_eq, fun hc => h'.inside (h.inside hc)⟩

/-- What one step preserves. -/
theorem Request.Outcome.keeps {c c' : Cursor} {request : Request} {a : Except Fault Answer}
    (h : request.Outcome c (a, c')) : Keeps c c' := by
  cases h with
  | advances h => exact ⟨h.data_eq, fun _ => h.length_eq ▸ h.pos_le⟩
  | moves h => exact ⟨rfl, fun _ => h⟩
  | overrun | outside | length | remaining => exact .refl c

/-- The outcomes of requests that are performed one after the other. -/
inductive Runs : Cursor → List Request → List (Except Fault Answer × Cursor) → Prop where
  | nil {c : Cursor} : Runs c [] []
  | cons {c c' : Cursor} {request : Request} {requests : List Request} {a : Except Fault Answer}
      {outcomes : List (Except Fault Answer × Cursor)} (h : request.Outcome c (a, c'))
      (hrest : Runs c' requests outcomes) :
      Runs c (request :: requests) ((a, c') :: outcomes)

section Run

variable {c : Cursor} {requests : List Request} {outcomes : List (Except Fault Answer × Cursor)}

/-- The answers to requests come one after the other. -/
theorem runs_answers (c : Cursor) (requests : List Request) :
    Runs c requests (c.answers requests) := by
  induction requests generalizing c with
  | nil => exact .nil
  | cons request requests ih => exact .cons (outcome_answer c request) (ih _)

/-- What a whole run preserves, from any point of it on. -/
theorem Runs.pairwise_keeps (h : Runs c requests outcomes) :
    (c :: outcomes.map Prod.snd).Pairwise Keeps := by
  induction h with
  | nil => exact List.pairwise_singleton _ _
  | @cons c c' request requests a outcomes h hrest ih =>
    refine .cons (fun c₁ hc₁ => ?_) ih
    rcases List.mem_cons.1 hc₁ with rfl | hc₁
    · exact h.keeps
    · exact h.keeps.trans ((List.pairwise_cons.1 ih).1 c₁ hc₁)

end Run

end Cursor

/-- A run from the start of the buffer on never counts from its end. -/
theorem SignedCursor.answers_ofCursor (c : Cursor) (requests : List Cursor.Request) :
    (ofCursor c).answers requests =
      (c.answers requests).map fun (a, c') => (a.mapError .cursor, ofCursor c') := by
  induction requests generalizing c with
  | nil => rfl
  | cons request requests ih =>
    simp only [answers, Cursor.answers, answer_ofCursor, ih, List.map_cons]

namespace Cursor

/-- **Every step of a cursor is safe and atomic.** Whatever is asked of a cursor, one request after
the other, each request either fails and leaves the cursor as it is, or gives what exactly the
bytes ahead denote and advances past them, or moves inside the buffer; a cursor that may count
from the end of its buffer does the same. From any point of the run on the buffer stays the same,
and a position inside of it stays inside. A block of numbers is read exactly where its numbers can
be read one by one, to the same position. -/
theorem answers_safe (c : Cursor) (requests : List Request) (count : Nat) :
    Runs c requests (c.answers requests) ∧
      (SignedCursor.ofCursor c).answers requests = (c.answers requests).map (fun (a, c') =>
        (a.mapError SignedCursor.Fault.cursor, SignedCursor.ofCursor c')) ∧
      (c :: (c.answers requests).map Prod.snd).Pairwise Keeps ∧
      (c.pos ≤ c.length → ∀ ns c',
        u2Array count c = .ok (ns, c') ↔ u2Each count c = .ok (ns, c')) :=
  ⟨runs_answers c requests, SignedCursor.answers_ofCursor c requests,
    (runs_answers c requests).pairwise_keeps, fun hc _ _ => u2Array_eq_ok_iff_u2Each hc⟩

/-- Behind a read that fails a negative number is read in two's complement, and then a block of two
numbers as if one by one. -/
theorem answers_safe_block :
    let c : Cursor := ⟨#[0xFF, 0xFF, 0xFF, 0xFE, 1, 2, 3, 4], 0⟩
    c.answers [.bytes (-1), .signed 4, .u2Array 2] =
        [(.error (.overrun (-1) 0 8), c), (.ok (.number (-2)), ⟨c.data, 4⟩),
          (.ok (.numbers [258, 772]), ⟨c.data, 8⟩)] ∧
      u2Each 2 ⟨c.data, 4⟩ = .ok ([258, 772], ⟨c.data, 8⟩) := by
  intro c
  obtain ⟨-, -, -, hblock⟩ := answers_safe ⟨c.data, 4⟩ [] 2
  refine ⟨?_, (hblock (by decide) [258, 772] ⟨c.data, 8⟩).1 ?_⟩
  · decide +kernel
  · decide +kernel

end Cursor

end Forwarder
