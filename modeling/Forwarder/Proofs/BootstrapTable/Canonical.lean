import Forwarder.BootstrapTable.View
import Forwarder.Proofs.BootstrapTable
import Mathlib

/-!
# The bytes of a bootstrap table are the only ones it has

Decoding accepts exactly what the writer of classes writes: `decode_eq_ok_iff` for the table and
`ClassBuilder.encodeBootstrap_eq_ok_iff` for the writer. Bytes that are refused are refused for a
reason that `Error.Explains` spells out. A view of the bytes (`BootstrapView`) skips where the
decoder reads: it accepts the same bytes with the same errors, and it finds every entry at its
offset (`locate_of_readEntries`). `BootstrapView.accepts_exactly_written` puts these together.
-/

namespace Forwarder

open Cursor

section Entries

variable {c c' : Cursor} {e : BootstrapEntry} {count left : Nat}
  {before after : Array BootstrapEntry}

/-- An entry is read exactly where the bytes of one that fits lie ahead. -/
theorem readEntry_eq_ok_iff :
    BootstrapTable.readEntry c = .ok (e, c') ↔ e.Fits ∧ c.Advances e.encode c' := by
  constructor
  · intro h
    obtain ⟨method, c₁, hmethod, h⟩ := bind_eq_ok_iff.1 h
    obtain ⟨count, c₂, hcount, h⟩ := bind_eq_ok_iff.1 h
    obtain ⟨arguments, c₃, harguments, h⟩ := bind_eq_ok_iff.1 h
    obtain ⟨rfl, rfl⟩ := pure_eq_ok_iff.1 h
    obtain ⟨hmlt, hmethod⟩ := u2_eq_ok_iff.1 hmethod
    obtain ⟨hclt, hcount⟩ := u2_eq_ok_iff.1 hcount
    obtain ⟨rfl, hfits, harguments⟩ := u2Array_eq_ok_iff.1 harguments
    exact ⟨⟨hmlt, hclt, hfits⟩, (hmethod.trans hcount).trans harguments⟩
  · rintro ⟨hfits, hadvance⟩
    exact reads_entry hfits hadvance

/-- No entry is read exactly where the bytes of no entry that fits lie ahead. -/
theorem not_prefix_of_readEntry {f : Fault} (hc : c.pos ≤ c.length)
    (h : BootstrapTable.readEntry c = .error f) (hfits : e.Fits) : ¬ e.encode <+: c.rest := by
  rintro ⟨rest, hrest⟩
  obtain ⟨c₁, hadvance, -⟩ := exists_advances hc hrest.symm
  rw [reads_entry hfits hadvance] at h
  cases h

/-- The entries of a table are read exactly where their bytes lie ahead, in order. -/
theorem readEntries_eq_ok_iff (hc : c.pos ≤ c.length) :
    BootstrapTable.readEntries count left before c = .ok (after, c') ↔
      ∃ es : List BootstrapEntry, es.length = left ∧ (∀ e ∈ es, e.Fits) ∧
        after = before ++ es ∧ c.Advances (es.flatMap BootstrapEntry.encode) c' := by
  constructor
  · intro h
    induction left generalizing before c with
    | zero =>
      obtain ⟨rfl, rfl⟩ := pure_eq_ok_iff.1 h
      exact ⟨[], rfl, by simp, by simp, .refl hc⟩
    | succ left ih =>
      obtain ⟨e, c₁, hentry, h⟩ := bind_eq_ok_iff.1 h
      obtain ⟨hfits, hadvance⟩ := readEntry_eq_ok_iff.1 (mapFault_eq_ok_iff.1 hentry)
      obtain ⟨es, rfl, hall, rfl, hrest⟩ := ih (hadvance.length_eq ▸ hadvance.pos_le) h
      exact ⟨e :: es, rfl, by simpa using ⟨hfits, hall⟩, by simp, hadvance.trans hrest⟩
  · rintro ⟨es, rfl, hall, rfl, hadvance⟩
    exact reads_entries count hall before hadvance

/-- Reading the entries of a table fails behind the first ones, where no entry is read. -/
theorem readEntries_eq_error (hc : c.pos ≤ c.length) {error : BootstrapTable.Error}
    (h : BootstrapTable.readEntries count left before c = .error error) :
    ∃ (es : List BootstrapEntry) (c₁ : Cursor) (f : Fault), es.length < left ∧
      (∀ e ∈ es, e.Fits) ∧ c.Advances (es.flatMap BootstrapEntry.encode) c₁ ∧
      BootstrapTable.readEntry c₁ = .error f ∧
      error = .truncated (count - (left - es.length)) count f := by
  induction left generalizing before c with
  | zero => cases h
  | succ left ih =>
    rcases bind_eq_error_iff.1 h with h | ⟨e, c₁, hentry, h⟩
    · obtain ⟨f, hf, rfl⟩ := mapFault_eq_error_iff.1 h
      exact ⟨[], c, f, by simp, by simp, .refl hc, hf, rfl⟩
    · obtain ⟨hfits, hadvance⟩ := readEntry_eq_ok_iff.1 (mapFault_eq_ok_iff.1 hentry)
      obtain ⟨es, c₂, f, hlength, hall, hrest, hf, rfl⟩ :=
        ih (hadvance.length_eq ▸ hadvance.pos_le) h
      refine ⟨e :: es, c₂, f, by simpa using hlength, by simpa using ⟨hfits, hall⟩,
        hadvance.trans hrest, hf, ?_⟩
      rw [List.length_cons, Nat.add_sub_add_right]

end Entries

namespace BootstrapTable

section Finish

variable {α : Type} {a a' : α} {count : Nat} {c c' : Cursor} {e : Error}

/-- What ends the reading of a table: the cursor must stand at the end of the buffer. -/
def finish (count : Nat) (a : α) : Reader Error α := do
  let extra := (← get).remaining
  if extra ≠ 0 then throw (.trailing extra count)
  return a

/-- A reader finishes with success exactly if nothing remains. -/
theorem finish_eq_ok_iff :
    finish count a c = .ok (a', c') ↔ c.remaining = 0 ∧ a = a' ∧ c = c' := by
  unfold finish
  rw [bind_eq_ok_iff]
  constructor
  · rintro ⟨s, c₁, hget, h⟩
    obtain ⟨rfl, rfl⟩ := get_eq_ok_iff.1 hget
    dsimp only at h
    split at h
    · cases h
    · rename_i hextra
      exact ⟨not_not.1 hextra, pure_eq_ok_iff.1 h⟩
  · rintro ⟨hextra, rfl, rfl⟩
    refine ⟨c, c, get_eq_ok_iff.2 ⟨rfl, rfl⟩, ?_⟩
    dsimp only
    rw [if_neg (by simp [hextra])]
    rfl

/-- A reader finishes with an error exactly if something remains, and the error says how much. -/
theorem finish_eq_error_iff :
    finish count a c = .error e ↔ c.remaining ≠ 0 ∧ e = .trailing c.remaining count := by
  unfold finish
  rw [bind_eq_error_iff]
  constructor
  · rintro (h | ⟨s, c₁, hget, h⟩)
    · cases h
    · obtain ⟨rfl, rfl⟩ := get_eq_ok_iff.1 hget
      dsimp only at h
      split at h
      · rename_i hextra
        cases h
        exact ⟨hextra, rfl⟩
      · cases h
  · rintro ⟨hextra, rfl⟩
    refine .inr ⟨c, c, get_eq_ok_iff.2 ⟨rfl, rfl⟩, ?_⟩
    dsimp only
    rw [if_pos hextra]
    rfl

end Finish

theorem read_eq : read = (do
    let count ← u2.mapFault .short
    let entries ← readEntries count count #[]
    finish count ⟨entries⟩) := rfl

section Decode

variable {data : Bytes} {table : BootstrapTable} {e : Error}

/-- Why bytes are refused with an error. -/
def Error.Explains (data : Bytes) : Error → Prop
  /- The bytes end inside the number of entries. -/
  | short _ => data.length < 2
  /- So many entries are there, but the bytes behind them do not begin with another one. -/
  | truncated index count _ =>
    ∃ (es : List BootstrapEntry) (rest : Bytes), es.length = index ∧ index < count ∧
      count < Bytes.capacity 2 ∧ (∀ e ∈ es, e.Fits) ∧
      data = Bytes.ofNat 2 count ++ es.flatMap BootstrapEntry.encode ++ rest ∧
      ∀ e : BootstrapEntry, e.Fits → ¬ e.encode <+: rest
  /- All entries are there, and bytes follow them. -/
  | trailing extra count =>
    ∃ (table : BootstrapTable) (rest : Bytes), table.size = count ∧ table.Fits ∧
      data = table.encode ++ rest ∧ (rest.length : Int) = extra ∧ rest ≠ []
  /- Decoding looks up no entry. -/
  | outOfRange _ _ => False

/-- The table of the entries that were read behind their number. -/
theorem fits_ofList {es : List BootstrapEntry} (hcount : es.length < Bytes.capacity 2)
    (hall : ∀ e ∈ es, e.Fits) : Fits ⟨(#[] : Array BootstrapEntry) ++ es⟩ :=
  ⟨by simpa [size] using hcount, by simpa using hall⟩

/-- The bytes of a table are its number of entries and the bytes of these. -/
theorem encode_ofList (es : List BootstrapEntry) :
    encode ⟨(#[] : Array BootstrapEntry) ++ es⟩ =
      Bytes.ofNat 2 es.length ++ es.flatMap BootstrapEntry.encode := by
  simp [encode, size]

/-- Decoding accepts exactly the bytes of the tables that fit. -/
theorem decode_eq_ok_iff : decode data = .ok table ↔ table.Fits ∧ table.encode = data := by
  constructor
  · intro h
    obtain ⟨⟨_, c'⟩, hread, rfl⟩ := except_map_eq_ok.1 h
    rw [read_eq] at hread
    obtain ⟨count, c₁, hcount, hread⟩ := bind_eq_ok_iff.1 hread
    obtain ⟨entries, c₂, hentries, hread⟩ := bind_eq_ok_iff.1 hread
    obtain ⟨hextra, rfl, rfl⟩ := finish_eq_ok_iff.1 hread
    obtain ⟨hlt, hcount⟩ := u2_eq_ok_iff.1 (mapFault_eq_ok_iff.1 hcount)
    obtain ⟨es, rfl, hall, rfl, hadvance⟩ :=
      (readEntries_eq_ok_iff (hcount.length_eq ▸ hcount.pos_le)).1 hentries
    have hend : c₂.rest = [] := by
      refine (rest_eq_nil_iff (hadvance.length_eq ▸ hadvance.pos_le)).2 ?_
      simp only [remaining] at hextra
      omega
    refine ⟨fits_ofList hlt hall, ?_⟩
    calc encode ⟨(#[] : Array BootstrapEntry) ++ es⟩
        = Bytes.ofNat 2 es.length ++ es.flatMap BootstrapEntry.encode ++ c₂.rest := by
          rw [encode_ofList, hend, List.append_nil]
      _ = (Cursor.ofBytes data).rest := (hcount.trans hadvance).rest_eq.symm
      _ = data := rest_ofBytes data
  · rintro ⟨hfits, rfl⟩
    exact decode_encode hfits

/-- The error that decoding gives explains why the bytes are refused. -/
theorem explains_of_decode (h : decode data = .error e) : e.Explains data := by
  have hread := except_map_eq_error.1 h
  rw [read_eq] at hread
  rcases bind_eq_error_iff.1 hread with hcount | ⟨count, c₁, hcount, hread⟩
  · obtain ⟨f, hf, rfl⟩ := mapFault_eq_error_iff.1 hcount
    obtain ⟨hshort, -⟩ := unsigned_eq_error_iff.1 hf
    show data.length < 2
    simpa [ofBytes, length] using hshort
  · obtain ⟨hlt, hcount⟩ := u2_eq_ok_iff.1 (mapFault_eq_ok_iff.1 hcount)
    have hinside : c₁.pos ≤ c₁.length := hcount.length_eq ▸ hcount.pos_le
    rcases bind_eq_error_iff.1 hread with hentries | ⟨entries, c₂, hentries, hread⟩
    · obtain ⟨es, c₂, f, hlength, hall, hadvance, hf, rfl⟩ :=
        readEntries_eq_error hinside hentries
      refine ⟨es, c₂.rest, by omega, by omega, hlt, hall, ?_, ?_⟩
      · rw [← (hcount.trans hadvance).rest_eq, rest_ofBytes]
      · intro e hfits
        exact not_prefix_of_readEntry (hadvance.length_eq ▸ hadvance.pos_le) hf hfits
    · obtain ⟨hextra, rfl⟩ := finish_eq_error_iff.1 hread
      obtain ⟨es, rfl, hall, rfl, hadvance⟩ := (readEntries_eq_ok_iff hinside).1 hentries
      have hrest := length_rest c₂
      have hend : c₂.pos ≤ c₂.length := hadvance.length_eq ▸ hadvance.pos_le
      refine ⟨⟨(#[] : Array BootstrapEntry) ++ es⟩, c₂.rest, by simp [size],
        fits_ofList hlt hall, ?_, ?_, ?_⟩
      · rw [encode_ofList, ← (hcount.trans hadvance).rest_eq, rest_ofBytes]
      · rw [hrest, remaining]
        omega
      · intro hnil
        rw [rest_eq_nil_iff hend] at hnil
        exact hextra (by rw [remaining]; omega)

end Decode

end BootstrapTable

section Write

/-- The draft of an entry that fits is written as the bytes of the entry. -/
theorem BootstrapEntry.encode_draft {e : BootstrapEntry} (h : e.Fits) :
    e.draft.encode = .ok e.encode := by
  have harguments := mapM_map_eq_ok fun a ha => unsigned_natCast (h.arguments a ha)
  have hcount : Encode.u2 (e.draft.arguments.length) = .ok (Bytes.ofNat 2 e.arguments.length) := by
    rw [BootstrapEntry.draft, List.length_map]
    exact unsigned_natCast h.count
  refine except_bind_eq_ok.2 ⟨_, unsigned_natCast h.method, ?_⟩
  refine except_bind_eq_ok.2 ⟨_, hcount, ?_⟩
  refine except_bind_eq_ok.2 ⟨_, harguments, ?_⟩
  rw [← List.flatMap_def]
  rfl

/-- The writer of a class writes exactly the bytes of the tables that fit and hold its entries. -/
theorem ClassBuilder.encodeBootstrap_eq_ok_iff {b : ClassBuilder} {data : Bytes} :
    b.encodeBootstrap = .ok data ↔ ∃ table : BootstrapTable,
      table.entries.toList.map BootstrapEntry.draft = b.bootstrap.toList ∧ table.Fits ∧
        table.encode = data := by
  constructor
  · intro h
    obtain ⟨table, hentries, hfits, rfl⟩ := encodeBootstrap_spec h
    exact ⟨table, hentries, hfits, rfl⟩
  · rintro ⟨table, hentries, hfits, rfl⟩
    have hsize : b.bootstrap.size = table.size := by
      simpa [BootstrapTable.size] using (congrArg List.length hentries).symm
    have hparts := mapM_map_eq_ok fun e he => BootstrapEntry.encode_draft (hfits.entries e he)
    rw [hentries] at hparts
    have hcount : Encode.u2 b.bootstrap.size = .ok (Bytes.ofNat 2 table.size) := by
      rw [hsize]
      exact unsigned_natCast hfits.count
    refine except_bind_eq_ok.2 ⟨_, hcount, except_bind_eq_ok.2 ⟨_, hparts, ?_⟩⟩
    rw [← List.flatMap_def]
    rfl

end Write

namespace BootstrapView

section Locate

variable {c c' : Cursor} {count left : Nat} {before after : Array BootstrapEntry}
  {found : Array Nat} {e : BootstrapTable.Error}

/-- To skip an entry is to read it and to make nothing of it. -/
theorem skipEntry_eq : skipEntry = do let _ ← BootstrapTable.readEntry; return () := by
  simp only [skipEntry, BootstrapTable.readEntry, u2, unsigned_eq, u2Array_eq, skip_eq_take,
    bind_assoc, pure_bind]
  rfl

/-- An entry is skipped where it is read. -/
theorem skipEntry_of_readEntry {e : BootstrapEntry} (h : BootstrapTable.readEntry c = .ok (e, c')) :
    skipEntry c = .ok ((), c') := by
  rw [skipEntry_eq]
  exact bind_eq_ok_iff.2 ⟨e, c', h, rfl⟩

/-- An entry fails to be skipped as it fails to be read. -/
theorem skipEntry_of_error {f : Fault} (h : BootstrapTable.readEntry c = .error f) :
    skipEntry c = .error f := by
  rw [skipEntry_eq]
  exact bind_eq_error_iff.2 (.inl h)

/-- An entry is read at an offset of the buffer. -/
def StandsAt (data : Array UInt8) (e : BootstrapEntry) (offset : Nat) : Prop :=
  ∃ c', BootstrapTable.readEntry ⟨data, offset⟩ = .ok (e, c')

/-- Where the entries are read, the walk that skips them finds the offset of each. -/
theorem locate_of_readEntries (found : Array Nat)
    (h : BootstrapTable.readEntries count left before c = .ok (after, c')) :
    ∃ (es : List BootstrapEntry) (offsets : List Nat), after = before ++ es ∧
      locate count left found c = .ok (found ++ offsets, c') ∧
      List.Forall₂ (StandsAt c.data) es offsets := by
  induction left generalizing before found c with
  | zero =>
    obtain ⟨rfl, rfl⟩ := pure_eq_ok_iff.1 h
    exact ⟨[], [], by simp, pure_eq_ok_iff.2 ⟨by simp, rfl⟩, .nil⟩
  | succ left ih =>
    obtain ⟨e, c₁, hentry, h⟩ := bind_eq_ok_iff.1 h
    have hread := mapFault_eq_ok_iff.1 hentry
    have hskip := skipEntry_of_readEntry hread
    obtain ⟨es, offsets, rfl, hlocate, hall⟩ := ih (found.push c.pos) h
    rw [(readEntry_eq_ok_iff.1 hread).2.data_eq] at hall
    refine ⟨e :: es, c.pos :: offsets, by simp, ?_, .cons ⟨c₁, hread⟩ hall⟩
    refine bind_eq_ok_iff.2 ⟨c, c, get_eq_ok_iff.2 ⟨rfl, rfl⟩, ?_⟩
    refine bind_eq_ok_iff.2 ⟨(), c₁, mapFault_eq_ok_iff.2 hskip, ?_⟩
    simpa using hlocate

/-- Where the entries are not read, the walk that skips them gives the same error. -/
theorem locate_of_error (h : BootstrapTable.readEntries count left before c = .error e) :
    locate count left found c = .error e := by
  induction left generalizing before found c with
  | zero => cases h
  | succ left ih =>
    refine bind_eq_error_iff.2 (.inr ⟨c, c, get_eq_ok_iff.2 ⟨rfl, rfl⟩, ?_⟩)
    rcases bind_eq_error_iff.1 h with h | ⟨entry, c₁, hentry, h⟩
    · obtain ⟨f, hf, rfl⟩ := mapFault_eq_error_iff.1 h
      exact bind_eq_error_iff.2 (.inl (mapFault_eq_error_iff.2 ⟨f, skipEntry_of_error hf, rfl⟩))
    · have hskip := skipEntry_of_readEntry (mapFault_eq_ok_iff.1 hentry)
      exact bind_eq_error_iff.2 (.inr ⟨(), c₁, mapFault_eq_ok_iff.2 hskip, ih h⟩)

end Locate

section View

variable {data : Bytes} {table : BootstrapTable} {e : BootstrapTable.Error}

/-- A table is scanned as its number of entries and their places, behind which nothing remains. -/
theorem scan_eq : scan = (do
    let count ← u2.mapFault .short
    let offsets ← locate count count #[]
    BootstrapTable.finish count offsets) := rfl

/-- The offsets at which the entries of a table are read in some bytes. -/
def Offsets (data : Bytes) (table : BootstrapTable) (offsets : List Nat) : Prop :=
  List.Forall₂ (StandsAt data.toArray) table.entries.toList offsets

/-- The bytes of a table are viewed with the offsets of its entries. -/
theorem ofBytes_of_decode (h : BootstrapTable.decode data = .ok table) :
    ∃ offsets : List Nat, ofBytes data = .ok ⟨data, offsets.toArray⟩ ∧
      Offsets data table offsets := by
  obtain ⟨⟨_, c'⟩, hread, rfl⟩ := except_map_eq_ok.1 h
  rw [BootstrapTable.read_eq] at hread
  obtain ⟨count, c₁, hcount, hread⟩ := bind_eq_ok_iff.1 hread
  obtain ⟨entries, c₂, hentries, hread⟩ := bind_eq_ok_iff.1 hread
  obtain ⟨hextra, rfl, rfl⟩ := BootstrapTable.finish_eq_ok_iff.1 hread
  obtain ⟨es, offsets, rfl, hlocate, hall⟩ := locate_of_readEntries #[] hentries
  have hdata : c₁.data = data.toArray := (u2_eq_ok_iff.1 (mapFault_eq_ok_iff.1 hcount)).2.data_eq
  have hoffsets : (#[] : Array Nat) ++ offsets = offsets.toArray := by simp
  rw [hdata] at hall
  rw [hoffsets] at hlocate
  have hscan : scan (.ofBytes data) = .ok (offsets.toArray, c₂) := by
    rw [scan_eq]
    refine bind_eq_ok_iff.2 ⟨count, c₁, hcount, bind_eq_ok_iff.2 ⟨_, c₂, hlocate, ?_⟩⟩
    exact BootstrapTable.finish_eq_ok_iff.2 ⟨hextra, rfl, rfl⟩
  refine ⟨offsets, except_map_eq_ok.2 ⟨_, hscan, rfl⟩, ?_⟩
  simpa [Offsets] using hall

/-- Bytes that are refused by the decoder are refused with the same error. -/
theorem ofBytes_of_error (h : BootstrapTable.decode data = .error e) :
    ofBytes data = .error e := by
  have hread := except_map_eq_error.1 h
  rw [BootstrapTable.read_eq] at hread
  refine except_map_eq_error.2 ?_
  rw [scan_eq]
  rcases bind_eq_error_iff.1 hread with hcount | ⟨count, c₁, hcount, hread⟩
  · exact bind_eq_error_iff.2 (.inl hcount)
  · refine bind_eq_error_iff.2 (.inr ⟨count, c₁, hcount, ?_⟩)
    rcases bind_eq_error_iff.1 hread with hentries | ⟨entries, c₂, hentries, hread⟩
    · exact bind_eq_error_iff.2 (.inl (locate_of_error hentries))
    · obtain ⟨hextra, rfl⟩ := BootstrapTable.finish_eq_error_iff.1 hread
      obtain ⟨es, offsets, -, hlocate, -⟩ := locate_of_readEntries #[] hentries
      refine bind_eq_error_iff.2 (.inr ⟨_, c₂, hlocate, ?_⟩)
      exact BootstrapTable.finish_eq_error_iff.2 ⟨hextra, rfl⟩

/-- A view gives the entries of a table: their number, each of them by its index, all of them in
order, and an error for every other index. -/
structure Shows (v : BootstrapView) (table : BootstrapTable) : Prop where
  size_eq : v.size = table.size
  entry_eq : ∀ (index : Nat) (h : index < table.size), v.entry index = .ok table.entries[index]
  entries_eq : v.entries = .ok table.entries.toList
  entry_outOfRange : ∀ index : Int, index < 0 ∨ table.size ≤ index →
    v.entry index = .error (.malformed (.outOfRange index table.size))

/-- There is one offset for each entry. -/
theorem Offsets.length_eq {offsets : List Nat} (h : Offsets data table offsets) :
    offsets.length = table.size := by
  rw [BootstrapTable.size, ← Array.length_toList]
  exact (List.Forall₂.length_eq h).symm

/-- An entry is read at its offset. -/
theorem entry_of_offsets {offsets : List Nat} (h : Offsets data table offsets) {index : Nat}
    (hindex : index < table.entries.size) :
    entry ⟨data, offsets.toArray⟩ index = .ok table.entries[index] := by
  have hoffset : index < offsets.length := h.length_eq ▸ hindex
  have hlookup : offsets.toArray[index]? = some offsets[index] := by
    rw [List.getElem?_toArray, List.getElem?_eq_getElem hoffset]
  obtain ⟨c', hread⟩ := h.get (by simpa using hindex) hoffset
  simp only [List.get_eq_getElem, Array.getElem_toList] at hread
  simp only [entry, Int.toNat_natCast, Int.natCast_nonneg, if_true, hlookup, hread]
  rfl

/-- From its offsets the entries of a table are read. -/
theorem entries_of_offsets {offsets : List Nat} (h : Offsets data table offsets) :
    entries ⟨data, offsets.toArray⟩ = .ok table.entries.toList := by
  have hentry : ∀ i ∈ List.finRange table.entries.toList.length,
      entry ⟨data, offsets.toArray⟩ (i.1 : Nat) = .ok table.entries.toList[i.1] := by
    intro i _
    exact entry_of_offsets h (by simp)
  have hmap := mapM_map_eq_ok (f := fun index : Nat => entry ⟨data, offsets.toArray⟩ index) hentry
  rw [List.map_coe_finRange_eq_range, List.map_getElem_finRange, Array.length_toList] at hmap
  rw [entries, size, List.size_toArray, h.length_eq]
  exact hmap

/-- No other index is the index of an entry. -/
theorem entry_of_outOfRange {v : BootstrapView} {index : Int}
    (h : index < 0 ∨ v.size ≤ index) :
    v.entry index = .error (.malformed (.outOfRange index v.size)) := by
  unfold entry
  split
  · have hnone : v.offsets[index.toNat]? = none := by
      refine Array.getElem?_eq_none ?_
      simp only [size] at h
      omega
    rw [hnone]
  · rfl

/-- The view of a table through its offsets shows the table. -/
theorem shows_of_offsets {offsets : List Nat} (h : Offsets data table offsets) :
    Shows ⟨data, offsets.toArray⟩ table where
  size_eq := h.length_eq
  entry_eq _ hindex := entry_of_offsets h hindex
  entries_eq := entries_of_offsets h
  entry_outOfRange index hindex := by
    have hsize : size ⟨data, offsets.toArray⟩ = table.size := h.length_eq
    rw [← hsize] at hindex ⊢
    exact entry_of_outOfRange hindex

/-- **Exactly what the writer writes is read.** Bytes are either written for some table, which
fits, is the only one, and is shown entry by entry by the view of the bytes; or they are written for
none, and are refused with an error that explains why. -/
theorem accepts_exactly_written (data : Bytes) :
    (∃ (table : BootstrapTable) (v : BootstrapView), table.Fits ∧ table.encode = data ∧
        (∀ other : BootstrapTable, other.Fits → other.encode = data → other = table) ∧
        (∀ b : ClassBuilder, b.encodeBootstrap = .ok data ↔
          b.bootstrap.toList = table.entries.toList.map BootstrapEntry.draft) ∧
        BootstrapTable.decode data = .ok table ∧ ofBytes data = .ok v ∧ v.Shows table) ∨
      (∃ error : BootstrapTable.Error,
        (∀ table : BootstrapTable, table.Fits → table.encode ≠ data) ∧
        (∀ b : ClassBuilder, b.encodeBootstrap ≠ .ok data) ∧
        BootstrapTable.decode data = .error error ∧ ofBytes data = .error error ∧
        error.Explains data) := by
  cases hdecode : BootstrapTable.decode data with
  | ok table =>
    obtain ⟨hfits, hencode⟩ := BootstrapTable.decode_eq_ok_iff.1 hdecode
    obtain ⟨offsets, hview, hoffsets⟩ := ofBytes_of_decode hdecode
    have honly : ∀ other : BootstrapTable, other.Fits → other.encode = data → other = table := by
      intro other hother hsame
      rw [BootstrapTable.decode_eq_ok_iff.2 ⟨hother, hsame⟩] at hdecode
      exact Except.ok.inj hdecode
    refine .inl ⟨table, _, hfits, hencode, honly, ?_, rfl, hview, shows_of_offsets hoffsets⟩
    intro b
    rw [ClassBuilder.encodeBootstrap_eq_ok_iff]
    constructor
    · rintro ⟨other, hentries, hother, hsame⟩
      rw [honly other hother hsame] at hentries
      exact hentries.symm
    · intro hentries
      exact ⟨table, hentries.symm, hfits, hencode⟩
  | error error =>
    have hnone : ∀ table : BootstrapTable, table.Fits → table.encode ≠ data := by
      intro table hfits hencode
      rw [BootstrapTable.decode_eq_ok_iff.2 ⟨hfits, hencode⟩] at hdecode
      cases hdecode
    refine .inr ⟨error, hnone, ?_, rfl, ofBytes_of_error hdecode,
      BootstrapTable.explains_of_decode hdecode⟩
    intro b hb
    obtain ⟨table, -, hfits, hencode⟩ := ClassBuilder.encodeBootstrap_eq_ok_iff.1 hb
    exact hnone table hfits hencode

end View

end BootstrapView

end Forwarder
