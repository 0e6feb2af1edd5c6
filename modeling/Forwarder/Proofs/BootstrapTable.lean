import Forwarder.Assembler.Class
import Forwarder.Proofs.Cursor.Block
import Forwarder.Proofs.Except

/-!
# Bootstrap tables read back

A table whose numbers all `Fits` into their fields is read back from its bytes
(`BootstrapTable.decode_encode`). The writer of a class under construction writes the bytes of such
a table (`ClassBuilder.encodeBootstrap_spec`).
-/

namespace Forwarder

open Cursor

/-- The numbers of an entry fit into fields of two bytes. -/
structure BootstrapEntry.Fits (e : BootstrapEntry) : Prop where
  method : e.method < Bytes.capacity 2
  count : e.arguments.length < Bytes.capacity 2
  arguments : ∀ a ∈ e.arguments, a < Bytes.capacity 2

/-- The numbers of a table fit into fields of two bytes. -/
structure BootstrapTable.Fits (table : BootstrapTable) : Prop where
  count : table.size < Bytes.capacity 2
  entries : ∀ e ∈ table.entries.toList, e.Fits

/-- The draft that an entry is the writing of. -/
def BootstrapEntry.draft (e : BootstrapEntry) : BootstrapDraft :=
  ⟨e.method, e.arguments.map fun a : Nat => (a : Int)⟩

section Read

variable {e : BootstrapEntry} {es : List BootstrapEntry} {table : BootstrapTable}

/-- An entry is read back from its bytes. -/
theorem reads_entry (h : e.Fits) : Reads BootstrapTable.readEntry e.encode e := by
  unfold BootstrapEntry.encode
  rw [List.append_assoc]
  exact (reads_ofNat h.method).bind ((reads_ofNat h.count).bind
    ((reads_u2Array h.arguments).map (BootstrapEntry.mk e.method)))

/-- The entries of a table are read back in order, behind those that are there already. -/
theorem reads_entries (count : Nat) (h : ∀ e ∈ es, e.Fits) (before : Array BootstrapEntry) :
    Reads (BootstrapTable.readEntries count es.length before)
      (es.flatMap BootstrapEntry.encode) (before ++ es) := by
  induction es generalizing before with
  | nil =>
    have hnone : before ++ ([] : List BootstrapEntry) = before := by simp
    rw [hnone]
    exact reads_pure before
  | cons e es ih =>
    have hrest := ih (fun d hd => h d (List.mem_cons_of_mem _ hd)) (before.push e)
    rw [List.flatMap_cons]
    refine ((reads_entry (h e List.mem_cons_self)).mapFault _).bind ?_
    simpa using hrest

/-- **A table whose numbers fit is read back from its bytes.** -/
theorem BootstrapTable.decode_encode (h : table.Fits) : decode table.encode = .ok table := by
  have hcount : Reads (Cursor.u2.mapFault Error.short) (Bytes.ofNat 2 table.size) table.size :=
    (reads_ofNat h.count).mapFault Error.short
  have hentries := reads_entries table.size h.entries #[]
  have htable : (#[] : Array BootstrapEntry) ++ table.entries.toList = table.entries := by simp
  rw [htable, Array.length_toList] at hentries
  obtain ⟨c, hc, hc'⟩ := (advances_atEnd table.encode).split
  have hread : read (.ofBytes table.encode) = .ok (table, atEnd table.encode) := by
    refine bind_eq_ok_iff.2 ⟨_, c, hcount hc, bind_eq_ok_iff.2 ⟨_, _, hentries hc', ?_⟩⟩
    refine bind_eq_ok_iff.2 ⟨_, _, get_eq_ok_iff.2 ⟨rfl, rfl⟩, ?_⟩
    have hextra : (atEnd table.encode).remaining = 0 := by simp [remaining, length, atEnd]
    dsimp only
    rw [if_neg (by simp [hextra])]
    rfl
  rw [decode, hread]
  rfl

end Read

section Write

variable {ε α β : Type} {d : BootstrapDraft} {bs : Bytes}

/-- If whatever is written for an element is the writing of a value that it is the view of, then a
list is written as the writings of such values, one behind the other. -/
theorem exists_of_mapM {f : α → Except ε Bytes} {view : β → α} {P : β → Prop} {write : β → Bytes}
    (hf : ∀ a bs, f a = .ok bs → ∃ b, view b = a ∧ P b ∧ bs = write b) {l : List α}
    {parts : List Bytes} (h : l.mapM f = .ok parts) :
    ∃ values : List β, values.map view = l ∧ (∀ b ∈ values, P b) ∧
      parts.flatten = values.flatMap write := by
  have hparts := forall₂_of_mapM h
  clear h
  induction hparts with
  | nil => exact ⟨[], rfl, by simp, rfl⟩
  | cons ha _ ih =>
    obtain ⟨b, rfl, hb, rfl⟩ := hf _ _ ha
    obtain ⟨values, rfl, hvalues, hflat⟩ := ih
    refine ⟨b :: values, rfl, ?_, ?_⟩
    · simpa using ⟨hb, hvalues⟩
    · rw [List.flatten_cons, hflat, List.flatMap_cons]

/-- The bytes of a bootstrap method are those of an entry. -/
theorem BootstrapDraft.encode_spec (h : d.encode = .ok bs) :
    ∃ e : BootstrapEntry, e.draft = d ∧ e.Fits ∧ bs = e.encode := by
  unfold BootstrapDraft.encode at h
  obtain ⟨method, hmethod, h⟩ := except_bind_eq_ok.1 h
  obtain ⟨count, hcount, h⟩ := except_bind_eq_ok.1 h
  obtain ⟨parts, hparts, h⟩ := except_bind_eq_ok.1 h
  cases h
  obtain ⟨m, hm, hmlt, rfl⟩ := exists_of_unsigned hmethod
  obtain ⟨n, hn, hnlt, rfl⟩ := exists_of_unsigned hcount
  obtain ⟨args, hargs, hall, hflat⟩ := exists_of_mapM (fun _ _ => exists_of_unsigned) hparts
  have hlength : n = args.length := by
    rw [← hargs, List.length_map] at hn
    exact Int.ofNat.inj hn
  subst hlength
  exact ⟨⟨m, args⟩, by rw [BootstrapEntry.draft, hm, hargs], ⟨hmlt, hnlt, hall⟩,
    by rw [BootstrapEntry.encode, hflat]⟩

/-- The bytes of a bootstrap table under construction are those of a table of its entries. -/
theorem ClassBuilder.encodeBootstrap_spec {b : ClassBuilder} (h : b.encodeBootstrap = .ok bs) :
    ∃ table : BootstrapTable, table.entries.toList.map BootstrapEntry.draft = b.bootstrap.toList ∧
      table.Fits ∧ bs = table.encode := by
  unfold ClassBuilder.encodeBootstrap at h
  obtain ⟨count, hcount, h⟩ := except_bind_eq_ok.1 h
  obtain ⟨parts, hparts, h⟩ := except_bind_eq_ok.1 h
  cases h
  obtain ⟨n, hn, hnlt, rfl⟩ := exists_of_unsigned hcount
  obtain ⟨es, hes, hall, hflat⟩ := exists_of_mapM (fun _ _ => BootstrapDraft.encode_spec) hparts
  have hsize : n = es.length := by
    have hlength : es.length = b.bootstrap.size := by simpa using congrArg List.length hes
    omega
  subst hsize
  exact ⟨⟨es.toArray⟩, by simpa using hes, ⟨by simpa [BootstrapTable.size] using hnlt,
    by simpa using hall⟩, by simp [BootstrapTable.encode, BootstrapTable.size, hflat]⟩

end Write

end Forwarder
