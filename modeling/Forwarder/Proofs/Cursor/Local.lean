import Forwarder.Proofs.Cursor.Reads

/-!
# Readers that look only at what they consume

A reader is `Local` if a success of it rests on the bytes that it consumes and on nothing else: it
does the same wherever these bytes lie ahead. Local readers compose (`Local.bind`), and they obey a
law of truncation: what they accept at the front of a byte string they accept whatever follows
(`Local.of_front`), and no shorter front is accepted (`Local.error_of_take`). `Spans r bs` says how
far a reader gets without saying what it reads: if `r` succeeds where the bytes `bs` lie ahead, it
consumes exactly them.
-/

namespace Forwarder.Cursor

section Local

variable {ε δ α β : Type} {r : Reader ε α} {f : α → Reader ε β}

/-- Where `r` succeeds it has consumed some bytes, and wherever these lie ahead it succeeds with the
same result. -/
def Local (r : Reader ε α) : Prop :=
  ∀ ⦃c : Cursor⦄ ⦃a : α⦄ ⦃c' : Cursor⦄, c.pos ≤ c.length → r c = .ok (a, c') →
    ∃ bs, c.Advances bs c' ∧ Reads r bs a

/-- What reads nothing looks at nothing. -/
theorem local_pure (a : α) : Local (pure a : Reader ε α) := by
  intro c a' c' hp h
  obtain ⟨rfl, rfl⟩ := pure_eq_ok_iff.1 h
  exact ⟨[], .refl hp, reads_pure a⟩

theorem local_throw (e : ε) : Local (throw e : Reader ε α) := by
  intro c a c' _ h
  exact absurd h throw_ne_ok

/-- Nothing behind a failure is looked at. -/
theorem local_throw_bind (e : ε) (f : α → Reader ε β) : Local (throw e >>= f) := by
  intro c b c' _ h
  obtain ⟨a, c₁, ha, -⟩ := bind_eq_ok_iff.1 h
  exact absurd ha throw_ne_ok

/-- Two readers one behind the other look only at what they consume. -/
theorem Local.bind (h : Local r) (h' : ∀ a, Local (f a)) : Local (r >>= f) := by
  intro c b c' hp hb
  obtain ⟨a, c₁, ha, hb⟩ := bind_eq_ok_iff.1 hb
  obtain ⟨bs, hadvances, hreads⟩ := h hp ha
  obtain ⟨bs', hadvances', hreads'⟩ := h' a (hadvances.length_eq ▸ hadvances.pos_le) hb
  exact ⟨bs ++ bs', hadvances.trans hadvances', hreads.bind hreads'⟩

/-- What is made of what a reader gives looks at nothing more. -/
theorem Local.map (h : Local r) (g : α → β) : Local (do return g (← r)) :=
  h.bind fun a => local_pure (g a)

/-- Another name for its faults makes no difference to what a reader looks at. -/
theorem Local.mapFault (h : Local r) (g : ε → δ) : Local (r.mapFault g) := by
  intro c a c' hp ha
  obtain ⟨bs, hadvances, hreads⟩ := h hp (mapFault_eq_ok_iff.1 ha)
  exact ⟨bs, hadvances, hreads.mapFault g⟩

/-- A result that does not come from the cursor consumes nothing. -/
theorem local_lift (e : Except ε α) : Local (liftM e : Reader ε α) := by
  cases e with
  | error e => exact local_throw e
  | ok a => exact local_pure a

/-- To take bytes looks only at these. -/
theorem local_take (size : Int) : Local (take size) := by
  intro c bs c' _ h
  obtain ⟨hsize, hadvances⟩ := take_eq_ok.1 h
  rw [← hsize]
  exact ⟨bs, hadvances, reads_take bs⟩

/-- To skip bytes looks only at these. -/
theorem local_skip (size : Int) : Local (skip size) := by
  intro c u c' _ h
  obtain ⟨bs, hsize, hadvances⟩ := skip_eq_ok.1 h
  rw [← hsize]
  exact ⟨bs, hadvances, reads_skip bs⟩

/-- The reader of unsigned numbers looks only at what it consumes. -/
theorem local_unsigned (width : Nat) : Local (unsigned width) := by
  rw [unsigned_eq]
  exact (local_take width).map Bytes.toNat

/-- The reader of numbers in two's complement looks only at what it consumes. -/
theorem local_signed (width : Nat) : Local (signed width) := by
  rw [signed_eq]
  exact (local_take width).map Bytes.toInt

variable {a : α} {c : Cursor} {data data' : Bytes}

/-- What a local reader has consumed lies at the front of the byte string. -/
theorem Local.reads_take (h : Local r) (hr : r (.ofBytes data) = .ok (a, c)) :
    c.pos ≤ data.length ∧ Reads r (data.take c.pos) a := by
  obtain ⟨bs, hadvances, hreads⟩ := h (Nat.zero_le _) hr
  have hpos : c.pos = bs.length := by simpa [ofBytes] using hadvances.pos_eq
  have hdata : data = bs ++ c.rest := by simpa using hadvances.rest_eq
  have htake : data.take c.pos = bs := by rw [hpos, hdata, List.take_left]
  refine ⟨?_, htake ▸ hreads⟩
  rw [hpos, hdata, List.length_append]
  exact Nat.le_add_right ..

/-- What a reader reads at the front of a byte string it reads at the front of every longer one, and
stops at the same place. -/
theorem Reads.of_front {bs : Bytes} (h : Reads r bs a) (hp : bs <+: data) :
    ∃ c, r (.ofBytes data) = .ok (a, c) ∧ c.pos = bs.length := by
  obtain ⟨more, rfl⟩ := hp
  obtain ⟨c, hadvances, -⟩ := exists_advances (Nat.zero_le _) (rest_ofBytes (bs ++ more))
  exact ⟨c, h hadvances, by simpa [ofBytes] using hadvances.pos_eq⟩

/-- What a local reader accepts it accepts whatever follows the bytes that it consumes. -/
theorem Local.of_front (h : Local r) (hr : r (.ofBytes data) = .ok (a, c))
    (hp : data.take c.pos <+: data') : ∃ c', r (.ofBytes data') = .ok (a, c') := by
  obtain ⟨c', hc', -⟩ := (h.reads_take hr).2.of_front hp
  exact ⟨c', hc'⟩

/-- A local reader fails on every front of a byte string that is shorter than what it consumes. -/
theorem Local.error_of_take (h : Local r) (hr : r (.ofBytes data) = .ok (a, c)) {k : Nat}
    (hk : k < c.pos) : ∃ e, r (.ofBytes (data.take k)) = .error e := by
  cases hshort : r (.ofBytes (data.take k)) with
  | error e => exact ⟨e, rfl⟩
  | ok found =>
    -- the shorter front would be accepted in the longer one, too, and end before it does
    obtain ⟨a', c'⟩ := found
    obtain ⟨hle, hreads⟩ := h.reads_take hshort
    rw [List.length_take] at hle
    have hp : (data.take k).take c'.pos <+: data :=
      (List.take_prefix ..).trans (List.take_prefix ..)
    obtain ⟨c'', hc'', hpos⟩ := hreads.of_front hp
    cases hr.symm.trans hc''
    rw [List.length_take, List.length_take] at hpos
    omega

end Local

section Spans

variable {ε δ α β : Type} {r : Reader ε α} {f : α → Reader ε β} {bs bs' : Bytes} {a : α}

/-- If `r` succeeds where the bytes `bs` lie ahead, it consumes exactly them. -/
def Spans (r : Reader ε α) (bs : Bytes) : Prop :=
  ∀ ⦃c c' : Cursor⦄ ⦃a : α⦄ ⦃c₁ : Cursor⦄, c.Advances bs c' → r c = .ok (a, c₁) → c₁ = c'

/-- A reader takes up the bytes that it reads. -/
theorem Reads.spans (h : Reads r bs a) : Spans r bs := by
  intro c c' a' c₁ hc hr
  cases hr.symm.trans (h hc)
  rfl

/-- Two readers take up their bytes one behind the other. -/
theorem Spans.bind (h : Spans r bs) (h' : ∀ a, Spans (f a) bs') :
    Spans (r >>= f) (bs ++ bs') := by
  intro c c' b c₁ hc hb
  obtain ⟨a, c₂, ha, hb⟩ := bind_eq_ok_iff.1 hb
  obtain ⟨c₃, hc₃, hc'⟩ := hc.split
  obtain rfl := h hc₃ ha
  exact h' a hc' hb

/-- What follows a value that was read may depend on it. -/
theorem Reads.bind_spans (h : Reads r bs a) (h' : Spans (f a) bs') :
    Spans (r >>= f) (bs ++ bs') := by
  intro c c' b c₁ hc hb
  obtain ⟨c₂, hc₂, hc'⟩ := hc.split
  obtain ⟨a', c₃, ha, hb⟩ := bind_eq_ok_iff.1 hb
  cases ha.symm.trans (h hc₂)
  exact h' hc' hb

/-- What takes up no bytes behind a reader leaves its bytes as they are. -/
theorem Spans.bind_nil (h : Spans r bs) (h' : ∀ a, Spans (f a) []) : Spans (r >>= f) bs := by
  rw [← List.append_nil bs]
  exact h.bind h'

theorem spans_pure (a : α) : Spans (pure a : Reader ε α) [] := (reads_pure a).spans

/-- A result that does not come from the cursor consumes nothing. -/
theorem spans_lift (e : Except ε α) : Spans (liftM e : Reader ε α) [] := by
  cases e with
  | error e =>
    intro c c' a c₁ _ h
    exact absurd h (throw_ne_ok (e := e))
  | ok a => exact spans_pure a

/-- Another name for its faults makes no difference to what a reader takes up. -/
theorem Spans.mapFault (h : Spans r bs) (g : ε → δ) : Spans (r.mapFault g) bs := by
  intro c c' a c₁ hc ha
  exact h hc (mapFault_eq_ok_iff.1 ha)

end Spans

end Forwarder.Cursor
