import Forwarder.Proofs.ClassFile.Names

/-!
# How a class file spells code

The bytes of a code are the depth of its stack and the number of its variables, its instructions
behind their length, its handlers of eight bytes each behind their number, and its attributes behind
theirs (`Code.SpelledBy`). An attribute is the index of its name, the length of its body and the body
(`ClassFile.AttributeSpelledBy`); a line number table has as its body the number of its entries and
then these, each with its offset and its line (`LineEntry.TabulatedBy`). The reader accepts exactly
what is spelled, and sorts the entries of all line number tables (`ClassFile.within_readCode_eq_ok_iff`).
-/

namespace Forwarder

open Cursor ClassFile

/-! ## The bytes of a code -/

namespace LineEntry

/-- The bytes of an entry are those of its offset and of its line. -/
inductive SpelledBy : LineEntry → Bytes → Prop where
  | intro {pc line : Nat} (hpc : pc < Bytes.capacity 2) (hline : line < Bytes.capacity 2) :
      SpelledBy ⟨pc, line⟩ (Bytes.ofNat 2 pc ++ Bytes.ofNat 2 line)

/-- The body of a line number table is the number of its entries and these, one behind the other. What
stands behind them does not matter. -/
inductive TabulatedBy : List LineEntry → Bytes → Prop where
  | intro {entries : List LineEntry} {parts : List Bytes} {more : Bytes}
      (hcount : entries.length < Bytes.capacity 2) (h : List.Forall₂ SpelledBy entries parts) :
      TabulatedBy entries (Bytes.ofNat 2 entries.length ++ parts.flatten ++ more)

end LineEntry

namespace ClassFile

/-- The bytes of an attribute are the index of the text constant that names it, the length of its body
and the body. -/
inductive AttributeSpelledBy (pool : ConstantPool) : String → Bytes → Bytes → Prop where
  | intro {index : Nat} {name : String} {body : Bytes} (hpos : 0 < index)
      (hindex : index < Bytes.capacity 2) (hname : pool.slots[index]? = some (some (.utf8 name)))
      (hbody : body.length < Bytes.capacity 4) :
      AttributeSpelledBy pool name body (Bytes.ofNat 2 index ++ Bytes.ofNat 4 body.length ++ body)

/-- An attribute of a code holds the entries that it tabulates if it is a line number table; any other
attribute holds none. -/
inductive HoldsLines (pool : ConstantPool) : List LineEntry → Bytes → Prop where
  | table {entries : List LineEntry} {body bs : Bytes}
      (h : AttributeSpelledBy pool "LineNumberTable" body bs)
      (htable : LineEntry.TabulatedBy entries body) : HoldsLines pool entries bs
  | other {name : String} {body bs : Bytes} (h : AttributeSpelledBy pool name body bs)
      (hname : name ≠ "LineNumberTable") : HoldsLines pool [] bs

end ClassFile

/-- The bytes of a code, each of whose attributes holds one of the tables. The lines are the entries of
all of them in the order in which they stand there. What stands behind the attributes does not
matter. -/
inductive Code.SpelledBy (pool : ConstantPool) : Code → Bytes → Prop where
  | intro {maxStack maxLocals handlerCount : Nat} {bytes handlers more : Bytes}
      {attributes : List Bytes} {tables : List (List LineEntry)}
      (hmaxStack : maxStack < Bytes.capacity 2) (hmaxLocals : maxLocals < Bytes.capacity 2)
      (hbytes : bytes.length < Bytes.capacity 4) (hhandlerCount : handlerCount < Bytes.capacity 2)
      (hhandlers : handlers.length = 8 * handlerCount) (hcount : tables.length < Bytes.capacity 2)
      (hattributes : List.Forall₂ (HoldsLines pool) tables attributes) :
      SpelledBy pool ⟨maxStack, maxLocals, bytes, tables.flatten⟩
        (Bytes.ofNat 2 maxStack ++ Bytes.ofNat 2 maxLocals ++ Bytes.ofNat 4 bytes.length ++ bytes ++
          Bytes.ofNat 2 handlerCount ++ handlers ++ Bytes.ofNat 2 tables.length ++
          attributes.flatten ++ more)

section Reading

variable {pool : ConstantPool} {name : String} {body bs data : Bytes} {e : LineEntry}
  {entries : List LineEntry} {n : Nat} {c c' : Cursor} {raw code : Code}

/-! ## Repeated readers -/

namespace ClassFile

section Times

variable {α : Type} {r : Part α} {as : List α}

/-- What is read one by one is read by repeating the reader. -/
theorem reads_times {parts : List Bytes} (h : List.Forall₂ (fun a bs => Reads r bs a) as parts) :
    Reads (times r as.length) parts.flatten as := by
  induction h with
  | nil => exact reads_pure []
  | cons h _ ih => exact h.bind (ih.map (_ :: ·))

/-- If what a reader reads is spelled by the bytes that the cursor advances past, so is what it reads
by being repeated. -/
theorem exists_parts_of_times {P : α → Bytes → Prop}
    (h : ∀ ⦃c a c'⦄, r c = .ok (a, c') → ∃ bs, c.Advances bs c' ∧ P a bs) (hp : c.pos ≤ c.length)
    (hread : times r n c = .ok (as, c')) :
    as.length = n ∧ ∃ parts, c.Advances parts.flatten c' ∧ List.Forall₂ P as parts := by
  induction n generalizing c as with
  | zero =>
    obtain ⟨rfl, rfl⟩ := pure_eq_ok_iff.1 hread
    exact ⟨rfl, [], .refl hp, .nil⟩
  | succ n ih =>
    obtain ⟨a, c₁, ha, hread⟩ := bind_eq_ok_iff.1 hread
    obtain ⟨rest, c₂, hrest, hread⟩ := bind_eq_ok_iff.1 hread
    obtain ⟨rfl, rfl⟩ := pure_eq_ok_iff.1 hread
    obtain ⟨bs, hadvances, hspelled⟩ := h ha
    obtain ⟨rfl, parts, hadvances', hall⟩ := ih (hadvances.length_eq ▸ hadvances.pos_le) hrest
    exact ⟨rfl, bs :: parts, hadvances.trans hadvances', .cons hspelled hall⟩

end Times

end ClassFile

/-! ## Line number tables -/

namespace LineEntry

/-- An entry is read from the bytes that spell it. -/
theorem SpelledBy.reads (h : e.SpelledBy bs) : Reads readLine bs e := by
  obtain @⟨pc, line, hpc, hline⟩ := h
  have hlineRead := (reads_step (reads_ofNat hline)).map fun line : Nat => LineEntry.mk pc line
  exact (reads_step (reads_ofNat hpc)).bind hlineRead

/-- An entry that is read is spelled by the bytes that the cursor advances past. -/
theorem exists_spelledBy (h : readLine c = .ok (e, c')) :
    ∃ bs, c.Advances bs c' ∧ e.SpelledBy bs := by
  obtain ⟨pc, c₁, hpc, h⟩ := bind_eq_ok_iff.1 h
  obtain ⟨line, c₂, hline, h⟩ := bind_eq_ok_iff.1 h
  obtain ⟨rfl, rfl⟩ := pure_eq_ok_iff.1 h
  obtain ⟨hpc, hadvances⟩ := step_unsigned_iff.1 hpc
  obtain ⟨hline, hadvances'⟩ := step_unsigned_iff.1 hline
  exact ⟨_, hadvances.trans hadvances', .intro hpc hline⟩

end LineEntry

namespace ClassFile

/-- Exactly the body of a line number table is read as its entries. -/
theorem within_readLines_eq_ok_iff :
    within body readLines = .ok entries ↔ LineEntry.TabulatedBy entries body := by
  constructor
  · intro h
    obtain ⟨⟨_, c⟩, hread, rfl⟩ := except_map_eq_ok.1 h
    obtain ⟨count, c₁, hcount, h⟩ := bind_eq_ok_iff.1 hread
    obtain ⟨hlt, hadvances⟩ := step_unsigned_iff.1 hcount
    obtain ⟨rfl, parts, hadvances', hall⟩ := exists_parts_of_times
      (fun _ _ _ => LineEntry.exists_spelledBy) (hadvances.length_eq ▸ hadvances.pos_le) h
    have hbody := (hadvances.trans hadvances').rest_eq
    rw [rest_ofBytes] at hbody
    rw [hbody]
    exact .intro hlt hall
  · rintro ⟨hlt, hall⟩
    have hentries := reads_times (hall.imp fun _ _ => LineEntry.SpelledBy.reads)
    exact ((reads_step (reads_ofNat hlt)).bind hentries).run_append _

/-! ## Attributes -/

/-- An attribute is read from the bytes that spell it. -/
theorem AttributeSpelledBy.reads (h : AttributeSpelledBy pool name body bs) :
    Reads (readAttribute pool) bs (name, body) := by
  obtain @⟨index, _, _, hpos, hindex, hname, hbody⟩ := h
  have hentry : pool.entry index = .ok (.utf8 name) :=
    ConstantPool.entry_eq_ok_iff.2 ⟨by omega, hname⟩
  have htext := utf8_eq_ok_iff.2 (ConstantPool.utf8_eq_ok_iff.2 hentry)
  rw [List.append_assoc]
  refine (reads_step (reads_ofNat hindex)).bind (reads_lift_bind htext ?_)
  refine (reads_step (reads_ofNat hbody)).bind ?_
  exact (reads_step (reads_take body)).map (name, ·)

/-- An attribute that is read is spelled by the bytes that the cursor advances past. -/
theorem exists_attributeSpelledBy (h : readAttribute pool c = .ok ((name, body), c')) :
    ∃ bs, c.Advances bs c' ∧ AttributeSpelledBy pool name body bs := by
  obtain ⟨index, c₁, hindex, h⟩ := bind_eq_ok_iff.1 h
  obtain ⟨text, c₂, htext, h⟩ := bind_eq_ok_iff.1 h
  obtain ⟨length, c₃, hlength, h⟩ := bind_eq_ok_iff.1 h
  obtain ⟨data, c₄, hdata, h⟩ := bind_eq_ok_iff.1 h
  obtain ⟨hpair, rfl⟩ := pure_eq_ok_iff.1 h
  obtain ⟨rfl, rfl⟩ := Prod.mk.inj hpair
  obtain ⟨hlookup, rfl⟩ := lift_eq_ok_iff.1 htext
  obtain ⟨hindex, hadvances⟩ := step_unsigned_iff.1 hindex
  obtain ⟨hlength, hadvances'⟩ := step_unsigned_iff.1 hlength
  obtain ⟨hsize, hadvances''⟩ := step_take_iff.1 hdata
  obtain rfl := Int.ofNat.inj hsize
  have hentry := ConstantPool.utf8_eq_ok_iff.1 (utf8_eq_ok_iff.1 hlookup)
  obtain ⟨hpos, hname⟩ := ConstantPool.entry_eq_ok_iff.1 hentry
  exact ⟨_, (hadvances.trans hadvances').trans hadvances'',
    .intro (by omega) hindex hname hlength⟩

/-- The entries that an attribute of a code holds are read from it. -/
theorem HoldsLines.reads (h : HoldsLines pool entries bs) :
    Reads (readCodeAttribute pool) bs entries := by
  cases h with
  | table h htable =>
    refine h.reads.bind_nil ?_
    have hname : "LineNumberTable" = lineTableName := rfl
    dsimp only
    rw [if_pos hname, within_readLines_eq_ok_iff.2 htable]
    exact reads_pure entries
  | other h hname =>
    refine h.reads.bind_nil ?_
    dsimp only
    rw [if_neg (show _ ≠ lineTableName from hname)]
    exact reads_pure []

/-- What is read of an attribute of a code is what it holds. -/
theorem exists_holdsLines (h : readCodeAttribute pool c = .ok (entries, c')) :
    ∃ bs, c.Advances bs c' ∧ HoldsLines pool entries bs := by
  obtain ⟨⟨name, body⟩, c₁, hattribute, h⟩ := bind_eq_ok_iff.1 h
  obtain ⟨bs, hadvances, hspelled⟩ := exists_attributeSpelledBy hattribute
  dsimp only at h
  by_cases hname : name = lineTableName
  · rw [if_pos hname] at h
    obtain ⟨htable, rfl⟩ := lift_eq_ok_iff.1 h
    rw [hname] at hspelled
    exact ⟨bs, hadvances, .table hspelled (within_readLines_eq_ok_iff.1 htable)⟩
  · rw [if_neg hname] at h
    obtain ⟨rfl, rfl⟩ := pure_eq_ok_iff.1 h
    exact ⟨bs, hadvances, .other hspelled hname⟩

/-! ## Codes -/

/-- The code at the cursor, with its lines in the order in which they stand in its tables. -/
def readUnsorted (pool : ConstantPool) : Part Code := do
  let maxStack ← Cursor.u2
  let maxLocals ← Cursor.u2
  let length ← Cursor.u4
  let bytes ← Cursor.take length
  let handlers ← Cursor.u2
  Cursor.skip (8 * handlers)
  let count ← Cursor.u2
  let tables ← times (readCodeAttribute pool) count
  return ⟨maxStack, maxLocals, bytes, tables.flatten⟩

/-- What is made of what is read is read exactly if that is. -/
theorem within_map_eq_ok_iff {α β : Type} {f : α → β} {r : Part α} {b : β} :
    within data (do return f (← r)) = .ok b ↔ ∃ a, within data r = .ok a ∧ b = f a := by
  constructor
  · intro h
    obtain ⟨⟨_, c⟩, hread, rfl⟩ := except_map_eq_ok.1 h
    obtain ⟨a, c₁, ha, h⟩ := bind_eq_ok_iff.1 hread
    obtain ⟨rfl, rfl⟩ := pure_eq_ok_iff.1 h
    exact ⟨a, except_map_eq_ok.2 ⟨_, ha, rfl⟩, rfl⟩
  · rintro ⟨a, ha, rfl⟩
    obtain ⟨⟨a, c⟩, hread, rfl⟩ := except_map_eq_ok.1 ha
    refine except_map_eq_ok.2 ⟨(f a, c), ?_, rfl⟩
    exact bind_eq_ok_iff.2 ⟨_, c, hread, pure_eq_ok_iff.2 ⟨rfl, rfl⟩⟩

/-- A code is read with its lines as they stand, and then they are sorted. -/
theorem readCode_eq (pool : ConstantPool) :
    readCode pool = do
      let raw ← readUnsorted pool
      return { raw with lines := raw.lines.mergeSort LineEntry.ble } := by
  simp only [readCode, readUnsorted, bind_assoc, pure_bind]

/-- A code is read from the bytes that spell it. -/
theorem within_readUnsorted (h : raw.SpelledBy pool data) :
    within data (readUnsorted pool) = .ok raw := by
  obtain @⟨maxStack, maxLocals, handlerCount, bytes, handlers, more, attributes, tables,
    hmaxStack, hmaxLocals, hbytes, hhandlerCount, hhandlers, hcount, hattributes⟩ := h
  have htables := reads_times (hattributes.imp fun _ _ => HoldsLines.reads)
  have hskip : Reads (Cursor.skip (8 * handlerCount)) handlers () := by
    have hskip := reads_skip handlers
    rwa [hhandlers, Int.natCast_mul] at hskip
  have hread : Reads (readUnsorted pool)
      (Bytes.ofNat 2 maxStack ++ (Bytes.ofNat 2 maxLocals ++ (Bytes.ofNat 4 bytes.length ++ (bytes ++
        (Bytes.ofNat 2 handlerCount ++ (handlers ++ (Bytes.ofNat 2 tables.length ++
          attributes.flatten)))))))
      ⟨maxStack, maxLocals, bytes, tables.flatten⟩ := by
    refine (reads_step (reads_ofNat hmaxStack)).bind ?_
    refine (reads_step (reads_ofNat hmaxLocals)).bind ?_
    refine (reads_step (reads_ofNat hbytes)).bind ?_
    refine (reads_step (reads_take bytes)).bind ?_
    refine (reads_step (reads_ofNat hhandlerCount)).bind ?_
    refine (reads_step hskip).bind ?_
    refine (reads_step (reads_ofNat hcount)).bind ?_
    exact htables.map fun tables => Code.mk maxStack maxLocals bytes tables.flatten
  have hrun := hread.run_append more
  simp only [List.append_assoc] at hrun ⊢
  exact hrun

/-- A code that is read is spelled by its bytes. -/
theorem spelledBy_of_within (h : within data (readUnsorted pool) = .ok raw) :
    raw.SpelledBy pool data := by
  obtain ⟨⟨_, c⟩, hread, rfl⟩ := except_map_eq_ok.1 h
  obtain ⟨maxStack, c₁, hmaxStack, h⟩ := bind_eq_ok_iff.1 hread
  obtain ⟨maxLocals, c₂, hmaxLocals, h⟩ := bind_eq_ok_iff.1 h
  obtain ⟨length, c₃, hlength, h⟩ := bind_eq_ok_iff.1 h
  obtain ⟨bytes, c₄, hbytes, h⟩ := bind_eq_ok_iff.1 h
  obtain ⟨handlerCount, c₅, hhandlerCount, h⟩ := bind_eq_ok_iff.1 h
  obtain ⟨_, c₆, hskip, h⟩ := bind_eq_ok_iff.1 h
  obtain ⟨count, c₇, hcount, h⟩ := bind_eq_ok_iff.1 h
  obtain ⟨tables, c₈, htables, h⟩ := bind_eq_ok_iff.1 h
  obtain ⟨rfl, rfl⟩ := pure_eq_ok_iff.1 h
  -- each part is what the bytes spell that the cursor advances past
  obtain ⟨hmaxStack, h₁⟩ := step_unsigned_iff.1 hmaxStack
  obtain ⟨hmaxLocals, h₂⟩ := step_unsigned_iff.1 hmaxLocals
  obtain ⟨hlength, h₃⟩ := step_unsigned_iff.1 hlength
  obtain ⟨hsize, h₄⟩ := step_take_iff.1 hbytes
  obtain rfl := Int.ofNat.inj hsize
  obtain ⟨hhandlerCount, h₅⟩ := step_unsigned_iff.1 hhandlerCount
  obtain ⟨handlers, hhandlers, h₆⟩ := skip_eq_ok.1 (mapFault_eq_ok_iff.1 hskip)
  obtain ⟨hcount, h₇⟩ := step_unsigned_iff.1 hcount
  obtain ⟨rfl, attributes, h₈, hall⟩ := exists_parts_of_times
    (fun _ _ _ => exists_holdsLines) (h₇.length_eq ▸ h₇.pos_le) htables
  have hadvances := ((((((h₁.trans h₂).trans h₃).trans h₄).trans h₅).trans h₆).trans h₇).trans h₈
  have hdata := hadvances.rest_eq
  rw [rest_ofBytes] at hdata
  rw [hdata]
  exact .intro hmaxStack hmaxLocals hlength hhandlerCount (by omega) hcount hall

/-- **Exactly the bytes that spell a code are read as one,** with its lines sorted. -/
theorem within_readCode_eq_ok_iff :
    within data (readCode pool) = .ok code ↔
      ∃ raw : Code, raw.SpelledBy pool data ∧
        code = { raw with lines := raw.lines.mergeSort LineEntry.ble } := by
  rw [readCode_eq, within_map_eq_ok_iff]
  constructor
  · rintro ⟨raw, hraw, rfl⟩
    exact ⟨raw, spelledBy_of_within hraw, rfl⟩
  · rintro ⟨raw, hraw, rfl⟩
    exact ⟨raw, within_readUnsorted hraw, rfl⟩

end ClassFile

/-- Bytes spell at most one code. -/
theorem Code.SpelledBy.unique {raw' : Code} (h : raw.SpelledBy pool data)
    (h' : raw'.SpelledBy pool data) : raw = raw' :=
  Except.ok.inj ((within_readUnsorted h).symm.trans (within_readUnsorted h'))

end Reading

end Forwarder
