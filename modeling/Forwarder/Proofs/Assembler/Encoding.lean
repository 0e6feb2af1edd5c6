import Forwarder.Assembler.Class
import Forwarder.Proofs.Assembler.Constant
import Forwarder.Proofs.ClassFile.CodeSpelling
import Forwarder.Proofs.Run

/-!
# Writers and their readers

`Encoding.Writes` is a successful run of a writer, taken apart by `writes_bind_iff`. What a writer
owes is `Encoding.ReadBy`: it only makes the pool grow, and its bytes are read back by the matching
reader in whatever pool comes out in the end. The writers of attributes and class names have that
property, and lists of writers inherit it (`ReadBy.mapM`).
-/

namespace Forwarder

open Cursor ClassFile

namespace Encoding

variable {α β : Type} {p p₁ p' : PoolBuilder}

/-- A writer succeeds on a pool with a result and leaves a pool. -/
def Writes (m : Encoding α) (p : PoolBuilder) (a : α) (p' : PoolBuilder) : Prop :=
  m.run.run p = (.ok a, p')

section Writes

variable {m : Encoding α} {f : α → Encoding β} {a a' : α} {b : β}

/-- A sequence succeeds exactly when both of its parts do, the second on the pool that the first
leaves. -/
theorem writes_bind_iff :
    Writes (m >>= f) p b p' ↔ ∃ a p₁, Writes m p a p₁ ∧ Writes (f a) p₁ b p' :=
  runs_bind_iff

/-- What is given without writing is given on the same pool. -/
theorem writes_pure_iff : Writes (pure a) p a' p' ↔ a = a' ∧ p = p' := runs_pure_iff

/-- A check succeeds exactly with its result, on the same pool. -/
theorem writes_ofExcept_iff {e : Except EncodeError α} :
    Writes (ofExcept e) p a p' ↔ e = .ok a ∧ p = p' :=
  runs_ofExcept_iff

/-- An addition to the pool always succeeds. -/
theorem writes_lift_iff {m : Pooling α} :
    Writes (liftM m : Encoding α) p a p' ↔ (m p).1 = a ∧ (m p).2 = p' :=
  runs_lift_iff

theorem writes_get_iff {q : PoolBuilder} :
    Writes (get : Encoding PoolBuilder) p q p' ↔ p = q ∧ p = p' :=
  runs_get_iff

/-- No elements are written without any bytes, on the same pool. -/
theorem writes_mapM_nil_iff {g : β → Encoding α} {as : List α} :
    Writes ([].mapM g) p as p' ↔ [] = as ∧ p = p' := by
  rw [List.mapM_nil, writes_pure_iff]

/-- The elements of a list are written one after the other. -/
theorem writes_mapM_cons_iff {g : β → Encoding α} {l : List β} {as : List α} :
    Writes ((b :: l).mapM g) p as p' ↔
      ∃ a p₁ tail, Writes (g b) p a p₁ ∧ Writes (l.mapM g) p₁ tail p' ∧ a :: tail = as := by
  rw [List.mapM_cons, writes_bind_iff]
  constructor
  · rintro ⟨a, p₁, ha, h⟩
    obtain ⟨tail, p₂, htail, h⟩ := writes_bind_iff.1 h
    obtain ⟨rfl, rfl⟩ := writes_pure_iff.1 h
    exact ⟨a, p₁, tail, ha, htail, rfl⟩
  · rintro ⟨a, p₁, tail, ha, htail, rfl⟩
    exact ⟨a, p₁, ha, writes_bind_iff.2 ⟨tail, p', htail, writes_pure_iff.2 ⟨rfl, rfl⟩⟩⟩

/-! The same in the other direction, for runs that are put together. -/

/-- A writer and the one behind it succeed one after the other. -/
theorem Writes.bind (h : Writes m p a p₁) (h' : Writes (f a) p₁ b p') : Writes (m >>= f) p b p' :=
  writes_bind_iff.2 ⟨a, p₁, h, h'⟩

theorem writes_pure (a : α) : Writes (pure a) p a p := writes_pure_iff.2 ⟨rfl, rfl⟩

/-- A check that gives a result gives it to the writer. -/
theorem writes_ok {e : Except EncodeError α} (h : e = .ok a) : Writes (ofExcept e) p a p :=
  writes_ofExcept_iff.2 ⟨h, rfl⟩

/-- What the pool gives is given to the writer. -/
theorem writes_lift {m : Pooling α} (h : m p = (a, p')) : Writes (liftM m) p a p' :=
  writes_lift_iff.2 ⟨congrArg Prod.fst h, congrArg Prod.snd h⟩

theorem writes_nil {g : β → Encoding α} : Writes ([].mapM g) p [] p :=
  writes_mapM_nil_iff.2 ⟨rfl, rfl⟩

/-- An element is written in front of the others. -/
theorem Writes.cons {g : β → Encoding α} {l : List β} {as : List α} (h : Writes (g b) p a p₁)
    (h' : Writes (l.mapM g) p₁ as p') : Writes ((b :: l).mapM g) p (a :: as) p' :=
  writes_mapM_cons_iff.2 ⟨a, p₁, as, h, h', rfl⟩

/-- The index of a constant is written as the number that the pool gives for it. -/
theorem writes_index {m : Pooling Nat} {i : Nat} {bs : Bytes} (h : m p = (i, p'))
    (hi : Encode.u2 i = .ok bs) : Writes (encodeIndex m) p bs p' :=
  (writes_lift h).bind (writes_ok hi)

/-- An attribute is written as the index of its name, the length of its body and the body. -/
theorem writes_attribute {name : String} {data : Bytes} {p p' : PoolBuilder} {i : Nat}
    {index length : Bytes} (h : PoolBuilder.utf8 name p = (i, p')) (hi : Encode.u2 i = .ok index)
    (hlength : Encode.u4 data.length = .ok length) :
    Writes (encodeAttribute name data) p (index ++ length ++ data) p' :=
  (writes_index h hi).bind ((writes_ok hlength).bind (writes_pure _))

/-- The head of a member is written as its flags and the indices of its name and its descriptor. -/
theorem writes_member {flags : Int} {name descriptor : String} {i j : Nat} {x y z : Bytes}
    (h : PoolBuilder.utf8 name p = (i, p₁)) (h' : PoolBuilder.utf8 descriptor p₁ = (j, p'))
    (hx : Encode.u2 flags = .ok x) (hy : Encode.u2 i = .ok y) (hz : Encode.u2 j = .ok z) :
    Writes (encodeMember flags name descriptor) p (x ++ y ++ z) p' := by
  refine (writes_lift h).bind ?_
  refine (writes_lift h').bind ?_
  refine (writes_ok hx).bind ?_
  refine (writes_ok hy).bind ?_
  exact (writes_ok hz).bind (writes_pure _)

/-- A code is written when its numbers fit and its attributes are written. -/
theorem writes_code {d : CodeDraft} {maxStack maxLocals length attributes bs : Bytes}
    (hmaxStack : Encode.u2 d.maxStack = .ok maxStack)
    (hmaxLocals : Encode.u2 d.maxLocals = .ok maxLocals)
    (hlength : Encode.u4 d.bytes.length = .ok length)
    (hattributes : Writes d.encodeAttributes p attributes p₁)
    (hcode : Writes (encodeAttribute codeName
      (maxStack ++ maxLocals ++ length ++ d.bytes ++ [0, 0] ++ attributes)) p₁ bs p') :
    Writes d.encode p bs p' := by
  refine (writes_ok hmaxStack).bind ?_
  refine (writes_ok hmaxLocals).bind ?_
  refine (writes_ok hlength).bind ?_
  refine (writes_ok (a := [0, 0]) rfl).bind ?_
  exact hattributes.bind hcode

/-- A method with code is written as its head, the number of its attributes and its code. -/
theorem writes_method {d : MethodDraft} {code : CodeDraft} {head bs : Bytes}
    (hcode : d.code = some code)
    (hhead : Writes (encodeMember d.accessFlags d.name d.descriptor) p head p₁)
    (hw : Writes code.encode p₁ bs p') : Writes d.encode p (head ++ [0, 1] ++ bs) p' := by
  refine hhead.bind ?_
  rw [hcode]
  refine (writes_ok (a := [0, 1]) rfl).bind ?_
  exact hw.bind (writes_pure _)

end Writes

/-- Whatever `m` writes into a sound pool is read by `r` as one of the values in `P`, in every pool
that the pool behind it grows to. -/
def ReadBy (m : Encoding Bytes) (r : ConstantPool → ClassFile.Part α) (P : α → Prop) : Prop :=
  ∀ ⦃p bs p'⦄, Writes m p bs p' → p.Sound →
    p.Grows p' ∧ ∃ a, P a ∧ ∀ ⦃q : PoolBuilder⦄, p'.Grows q → Reads (r q.pool) bs a

section ReadBy

variable {m : Encoding Bytes} {r : ConstantPool → ClassFile.Part α} {P : α → Prop}

/-- A list of writers is read by repeating their reader. -/
theorem ReadBy.mapM {l : List β} {f : β → Encoding Bytes} {P : β → α → Prop}
    (h : ∀ b, ReadBy (f b) r (P b)) {parts : List Bytes} (hw : Writes (l.mapM f) p parts p')
    (hp : p.Sound) :
    p.Grows p' ∧ ∃ as, List.Forall₂ P l as ∧
      ∀ ⦃q : PoolBuilder⦄, p'.Grows q → Reads (times (r q.pool) l.length) parts.flatten as := by
  induction l generalizing p parts with
  | nil =>
    obtain ⟨rfl, rfl⟩ := writes_mapM_nil_iff.1 hw
    exact ⟨.refl p, [], .nil, fun _ _ => reads_pure _⟩
  | cons b l ih =>
    obtain ⟨bs, p₁, tail, hhead, htail, rfl⟩ := writes_mapM_cons_iff.1 hw
    obtain ⟨hg, a, ha, hread⟩ := h b hhead hp
    obtain ⟨hg', as, has, hreads⟩ := ih htail (hg.sound hp)
    refine ⟨hg.trans hg', a :: as, .cons ha has, fun q hq => ?_⟩
    exact (hread (hg'.trans hq)).bind ((hreads hq).map (a :: ·))

/-- The index of a text is read as that text. -/
theorem utf8_eq {q : PoolBuilder} {i : Nat} {text : String} (hq : q.Consistent)
    (h : q.Holds i (.utf8 text)) : ClassFile.utf8 q.pool i = .ok text := by
  rw [ClassFile.utf8, hq.entry_eq h]

/-- The index of a class is read as its name. -/
theorem className_eq {q : PoolBuilder} {i j : Nat} {name : String} (hq : q.Consistent)
    (hj : q.Holds j (.utf8 name)) (hi : q.Holds i (.classRef j)) :
    ClassFile.className q.pool i = .ok (some name) := by
  have hzero := hq.ne_zero hi
  rw [className, if_neg (by omega), hq.entry_eq hi]
  show (ClassFile.utf8 q.pool j).map some = _
  rw [utf8_eq hq hj]
  rfl

/-- An index is written as the number that the pool gives. -/
theorem writes_index_iff {m : Pooling Nat} {bs : Bytes} :
    Writes (encodeIndex m) p bs p' ↔ Encode.u2 (m p).1 = .ok bs ∧ (m p).2 = p' := by
  unfold encodeIndex
  constructor
  · intro h
    obtain ⟨i, p₁, hi, h⟩ := writes_bind_iff.1 h
    obtain ⟨hbs, rfl⟩ := writes_ofExcept_iff.1 h
    obtain ⟨rfl, rfl⟩ := writes_lift_iff.1 hi
    exact ⟨hbs, rfl⟩
  · rintro ⟨hbs, rfl⟩
    exact writes_bind_iff.2 ⟨_, _, writes_lift_iff.2 ⟨rfl, rfl⟩, writes_ofExcept_iff.2 ⟨hbs, rfl⟩⟩

/-- The index of a class is read by the reader of class names. -/
theorem readBy_className (name : String) :
    ReadBy (encodeIndex (PoolBuilder.classRef name)) readClassName (some name = ·) := by
  intro p bs p' hw hp
  obtain ⟨hbs, rfl⟩ := writes_index_iff.1 hw
  obtain ⟨hg, hclass⟩ := PoolBuilder.classRef_spec name p
  obtain ⟨j, hname, hclass⟩ := hclass hp.consistent
  refine ⟨hg, some name, rfl, fun q hq => ?_⟩
  have hlookup := className_eq (hq.sound (hg.sound hp)).consistent (hname.mono hq.toExtends)
    (hclass.mono hq.toExtends)
  exact (reads_step (reads_of_unsigned_natCast hbs)).lookup hlookup

/-- What is written for an attribute spells it in every pool that comes out in the end. -/
theorem spelledBy_attribute {name : String} {data bs : Bytes}
    (hw : Writes (encodeAttribute name data) p bs p') (hp : p.Sound) :
    p.Grows p' ∧ ∀ ⦃q : PoolBuilder⦄, p'.Grows q → AttributeSpelledBy q.pool name data bs := by
  obtain ⟨index, p₁, hwindex, hw⟩ := writes_bind_iff.1 hw
  obtain ⟨length, p₂, hwlength, hw⟩ := writes_bind_iff.1 hw
  obtain ⟨rfl, rfl⟩ := writes_pure_iff.1 hw
  obtain ⟨hlength, rfl⟩ := writes_ofExcept_iff.1 hwlength
  obtain ⟨hindex, rfl⟩ := writes_index_iff.1 hwindex
  obtain ⟨hg, hname⟩ := PoolBuilder.utf8_spec name p
  obtain ⟨hindexLt, rfl⟩ := of_unsigned_natCast hindex
  obtain ⟨hlengthLt, rfl⟩ := of_unsigned_natCast hlength
  refine ⟨hg, fun q hq => ?_⟩
  have hholds := (hname hp.consistent).mono hq.toExtends
  have hentry := (hq.sound (hg.sound hp)).consistent.entry_eq hholds
  obtain ⟨hpos, hslot⟩ := ConstantPool.entry_eq_ok_iff.1 hentry
  exact .intro (by omega) hindexLt hslot hlengthLt

/-- An attribute is read with its name and its bytes. -/
theorem readBy_attribute (name : String) (data : Bytes) :
    ReadBy (encodeAttribute name data) readAttribute ((name, data) = ·) := by
  intro p bs p' hw hp
  obtain ⟨hg, hspelled⟩ := spelledBy_attribute hw hp
  exact ⟨hg, (name, data), rfl, fun q hq => (hspelled hq).reads⟩

end ReadBy

end Encoding

end Forwarder
