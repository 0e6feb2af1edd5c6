import Forwarder.Proofs.Assembler.Extent

/-!
# Writing a class twice

`ClassBuilder.encode_again`: a class that has been written is written again as the same bytes, and
the second time nothing is added to its pool. The first time only appends to the pool. So an index
denotes in the written file what it denoted before (`ConstantPool.Retains`), wherever it stands: in
code, in the bootstrap table, or in another constant. This is said of the pool that the file begins
with (`ClassFile.poolOf`), since nothing is asked of what stands behind it.
-/

namespace Forwarder

open Cursor ClassFile Encoding

/-! ## Pools that keep what another one has -/

namespace ConstantPool

/-- An index denotes in `pool'` what it denotes in `pool`: the constant that stands there, and what a
lookup makes of it. Of a constant that is none of the format's kinds, what it is written as stands
there. -/
structure Retains (pool pool' : ConstantPool) : Prop where
  entry : ∀ {i c}, pool.entry i = .ok c → ∃ d, pool'.entry i = .ok d ∧ c.Stands d
  utf8 : ∀ {i text}, pool.utf8 i = .ok text → pool'.utf8 i = .ok text
  className : ∀ {i name}, pool.className i = .ok name → pool'.className i = .ok name
  nameAndType : ∀ {i texts}, pool.nameAndType i = .ok texts → pool'.nameAndType i = .ok texts
  member : ∀ {i member}, pool.member i = .ok member → pool'.member i = .ok member
  methodHandle : ∀ {i handle}, pool.methodHandle i = .ok handle → pool'.methodHandle i = .ok handle
  dynamicCall : ∀ {i call}, pool.dynamicCall i = .ok call → pool'.dynamicCall i = .ok call

section Retains

variable {pool pool' : ConstantPool}
  (h : ∀ {i c}, pool.entry i = .ok c → ∃ d, pool'.entry i = .ok d ∧ c.Stands d)

include h

/-- Whatever a lookup makes of constants, it makes the same of the same constants. -/
theorem retains_of_entry : pool.Retains pool' := by
  have hentry : ∀ {i c}, c.IsStandard → pool.entry i = .ok c → pool'.entry i = .ok c := by
    intro i c hc hi
    obtain ⟨d, hd, hstands⟩ := h hi
    rw [hd, hstands.eq_of_standard hc]
  have hutf8 : ∀ {i text}, pool.utf8 i = .ok text → pool'.utf8 i = .ok text :=
    fun hi => utf8_eq_ok_iff.2 (hentry nofun (utf8_eq_ok_iff.1 hi))
  have hclass : ∀ {i name}, pool.className i = .ok name → pool'.className i = .ok name := by
    intro i name hi
    obtain ⟨j, hi, hj⟩ := className_eq_ok_iff.1 hi
    exact className_eq_ok_iff.2 ⟨j, hentry nofun hi, hutf8 hj⟩
  have hpair : ∀ {i texts}, pool.nameAndType i = .ok texts → pool'.nameAndType i = .ok texts := by
    intro i texts hi
    obtain ⟨j, k, hi, hj, hk⟩ := nameAndType_eq_ok_iff.1 hi
    exact nameAndType_eq_ok_iff.2 ⟨j, k, hentry nofun hi, hutf8 hj, hutf8 hk⟩
  have hmember : ∀ {i member}, pool.member i = .ok member → pool'.member i = .ok member := by
    intro i member hi
    obtain ⟨j, k, hi, hj, hk⟩ := member_eq_ok_iff.1 hi
    exact member_eq_ok_iff.2 ⟨j, k, hentry nofun hi, hclass hj, hpair hk⟩
  have hhandle : ∀ {i handle}, pool.methodHandle i = .ok handle →
      pool'.methodHandle i = .ok handle := by
    intro i handle hi
    obtain ⟨number, j, hi, hkind, hj⟩ := methodHandle_eq_ok_iff.1 hi
    exact methodHandle_eq_ok_iff.2 ⟨number, j, hentry nofun hi, hkind, hmember hj⟩
  have hcall : ∀ {i call}, pool.dynamicCall i = .ok call → pool'.dynamicCall i = .ok call := by
    intro i call hi
    obtain ⟨j, hi, hj⟩ := dynamicCall_eq_ok_iff.1 hi
    exact dynamicCall_eq_ok_iff.2 ⟨j, hentry nofun hi, hpair hj⟩
  exact ⟨h, hutf8, hclass, hpair, hmember, hhandle, hcall⟩

end Retains

end ConstantPool

namespace PoolBuilder

variable {p q : PoolBuilder} {pool : ConstantPool}

/-- A pool is retained by one that is read from the bytes of an extension of it. -/
theorem Extends.retains (hext : p.Extends q)
    (h : List.Forall₂ (Option.Rel Constant.Stands) q.slots.toList pool.slots.toList) :
    p.pool.Retains pool := by
  refine ConstantPool.retains_of_entry fun {i c} hi => ?_
  obtain ⟨hpos, hslot⟩ := ConstantPool.entry_eq_ok_iff.1 hi
  have hholds : p.Holds i.toNat c := hslot
  have hq : q.slots.toList[i.toNat]? = some (some c) := by
    rw [Array.getElem?_toList]
    exact hholds.mono hext
  obtain ⟨hlt, hget⟩ := List.getElem?_eq_some_iff.1 hq
  have hlt' : i.toNat < pool.slots.toList.length := h.length_eq ▸ hlt
  have hrel := List.Forall₂.get h hlt hlt'
  rw [List.get_eq_getElem, List.get_eq_getElem, hget] at hrel
  cases hd : pool.slots.toList[i.toNat] with
  | none =>
    rw [hd] at hrel
    cases hrel
  | some d =>
    rw [hd] at hrel
    have hslot' : pool.slots[i.toNat]? = some (some d) := by
      rw [← Array.getElem?_toList, List.getElem?_eq_getElem hlt', hd]
    cases hrel with
    | some hstands => exact ⟨d, ConstantPool.entry_eq_ok_iff.2 ⟨hpos, hslot'⟩, hstands⟩

end PoolBuilder

/-! ## The pool at the front of a class file -/

namespace ClassFile

/-- The constant pool that a byte string begins with as a class file, whatever follows it. -/
def poolOf (data : Bytes) : Except FormatError ConstantPool :=
  within data (ClassBuilder.readFront fun _ _ pool => return pool)

variable {data : Bytes} {cls : ClassFile}

/-- A class that is read behind its pool has that pool. -/
theorem pool_eq_of_readBody {minor major : Nat} {pool : ConstantPool} {c c' : Cursor}
    (h : ClassBuilder.readBody minor major pool c = .ok (cls, c')) : cls.pool = pool := by
  simp only [ClassBuilder.readBody, bind_eq_ok_iff, pure_eq_ok_iff] at h
  obtain ⟨_, _, -, _, _, -, _, _, -, _, _, -, _, _, -, _, _, -, _, _, -, _, _, -, _, _, -, _, _, -,
    _, _, -, rfl, -⟩ := h
  rfl

/-- The pool of a decoded class is the one that its bytes begin with. -/
theorem poolOf_of_decode (h : decode data = .ok cls) : poolOf data = .ok cls.pool := by
  obtain ⟨c, hc⟩ := decode_eq_ok_iff.1 h
  rw [ClassBuilder.read_eq, ClassBuilder.readFront_eq] at hc
  obtain ⟨⟨minor, major, pool⟩, c₁, hfront, hbody⟩ := bind_eq_ok_iff.1 hc
  have hpool : ClassBuilder.readFront (fun _ _ pool => return pool) (.ofBytes data) =
      .ok (pool, c₁) := by
    rw [ClassBuilder.readFront_eq]
    exact bind_eq_ok_iff.2 ⟨_, c₁, hfront, rfl⟩
  rw [poolOf, within, hpool, pool_eq_of_readBody hbody]
  rfl

end ClassFile

/-! ## The class -/

namespace ClassBuilder

section Class

variable {b : ClassBuilder} {bs : Bytes} {p' : PoolBuilder}

/-- Writing a class only appends to its pool. -/
theorem extends_of_writes (hw : Writes b.encodePooling b.pool bs p') : b.pool.Extends p' := by
  obtain ⟨_, _, _, _, body, hbody, -⟩ := writes_encodePooling_iff.1 hw
  exact interns_encodeBody.extends_pool hbody

/-- A class that has been written is written again with the pool that writing has left, as the same
bytes and without another constant. -/
theorem writes_again (hw : Writes b.encodePooling b.pool bs p') :
    Writes b.encodePooling p' bs p' := by
  obtain ⟨first, minor, major, constants, body, hbody, hparts⟩ := writes_encodePooling_iff.1 hw
  exact writes_encodePooling_iff.2
    ⟨first, minor, major, constants, body, interns_encodeBody.replays hbody, hparts⟩

/-- What is written for a class begins with a pool that retains the one of the class. -/
theorem exists_poolOf_of_writes (hp : b.pool.Filled)
    (hw : Writes b.encodePooling b.pool bs p') :
    ∃ pool, poolOf bs = .ok pool ∧ b.pool.pool.Retains pool := by
  obtain ⟨first, minor, major, constants, body, hbody, hfirst, hminor, hmajor, hconstants, rfl⟩ :=
    writes_encodePooling_iff.1 hw
  obtain ⟨m, -, hminor⟩ := reads_of_unsigned hminor
  obtain ⟨n, -, hmajor⟩ := reads_of_unsigned hmajor
  obtain ⟨pool, hpool, hstands⟩ := (interns_encodeBody.filled hbody hp).exists_reads hconstants
  -- the rest of the file is left over
  have hfront : Reads (readFront fun _ _ pool => return pool)
      (first ++ minor ++ major ++ constants ++ []) pool :=
    reads_front hfirst hminor hmajor hpool (reads_pure pool)
  rw [List.append_nil] at hfront
  obtain ⟨c, hc, -⟩ := (advances_atEnd (first ++ minor ++ major ++ constants ++ body)).split
  refine ⟨pool, ?_, (extends_of_writes hw).retains hstands⟩
  rw [poolOf, within, hfront hc]
  rfl

/-- **Writing a class twice is writing it once.** Where a class can be written at all it can be
written again, as the same bytes, and its pool stays as the first time has left it. The first time
only appends to the pool, and keeps the index of every constant that is there. So what an index of
the pool denoted before it denotes in the file, whether or not the rest of the file can be read. -/
theorem encode_again (h : b.encode.1 = .ok bs) :
    b.encode.2.encode = (.ok bs, b.encode.2) ∧
      b.pool.slots.toList <+: b.encode.2.pool.slots.toList ∧
      b.encode.2.pool.Recalls b.pool ∧
      (b.pool.Filled → ∃ pool, poolOf bs = .ok pool ∧
        (∀ cls, ClassFile.decode bs = .ok cls → cls.pool = pool) ∧ b.pool.pool.Retains pool) := by
  have hw : Writes b.encodePooling b.pool bs b.encode.2.pool := encode_eq_ok_iff.1 ⟨h, rfl⟩
  have hext := extends_of_writes hw
  refine ⟨?_, hext.keeps, hext.recalls, fun hp => ?_⟩
  · -- the first time has changed nothing in the class but its pool
    have hagain := writes_again hw
    obtain ⟨hbs, hpool⟩ := (@encode_eq_ok_iff b.encode.2 _ _).2 hagain
    refine Prod.ext hbs ?_
    show { b.encode.2 with pool := b.encode.2.encode.2.pool } = b.encode.2
    rw [hpool]
  · obtain ⟨pool, hpool, hretains⟩ := exists_poolOf_of_writes hp hw
    refine ⟨pool, hpool, fun cls hcls => ?_, hretains⟩
    exact Except.ok.inj ((poolOf_of_decode hcls).symm.trans hpool)

end Class

/-- A small class is written twice; the number that was in its pool before is in the file where it
was. -/
theorem encode_again_widget : Widget.builder.encode.2.encode.1 = .ok Widget.bytes ∧
    ∃ pool, poolOf Widget.bytes = .ok pool ∧ pool.entry 1 = .ok (.long 7) := by
  obtain ⟨hagain, -, -, hpool⟩ := encode_again Widget.encode_builder
  obtain ⟨pool, hpool, -, hretains⟩ := hpool (.intern (.long 7) .empty)
  have hlong : Widget.builder.pool.pool.entry 1 = .ok (.long 7) := by
    rw [Widget.pool_eq]
    rfl
  obtain ⟨d, hd, hstands⟩ := hretains.entry hlong
  rw [hstands.eq_of_standard nofun] at hd
  exact ⟨congrArg Prod.fst hagain, pool, hpool, hd⟩

end ClassBuilder

end Forwarder
