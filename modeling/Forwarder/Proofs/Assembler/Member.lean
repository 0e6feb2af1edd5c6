import Mathlib.Data.List.Forall2
import Mathlib.Data.List.Induction
import Forwarder.Proofs.Assembler.Encoding
import Forwarder.Proofs.ClassFile.Lines

/-!
# Methods and fields read back

`MethodDraft.Describes` relates a method under construction to one that was read, and
`CodeDraft.Describes` their code. `MethodDraft.readBy_encode` says that the one is read from what is
written for the other, and `FieldDraft.readBy_encode` that a field is skipped.
-/

namespace Forwarder

open Cursor ClassFile Encoding

/-! ## Attributes -/

namespace Attributes

/-- The attributes of a list; a later one replaces an earlier one of its name. -/
def ofList (l : List (String × Bytes)) : Attributes :=
  l.foldl (fun attributes (name, data) => attributes.insert name data) .empty

variable {name : String} {data : Bytes} {l before after : List (String × Bytes)}

/-- What is inserted is found under its key, and everything else as before. -/
theorem lookup_insertInto (key : String) (entries : List (String × Bytes)) :
    (insertInto key data entries).lookup name =
      if name = key then some data else entries.lookup name := by
  induction entries with
  | nil =>
    rw [insertInto, List.lookup_cons, List.lookup_nil]
    by_cases h : name = key
    · simp [h]
    · simp [h, beq_false_of_ne h]
  | cons entry entries ih =>
    obtain ⟨n, d⟩ := entry
    unfold insertInto
    split
    · rename_i hn
      subst hn
      rw [List.lookup_cons, List.lookup_cons]
      by_cases h : name = n
      · simp [h]
      · simp [h, beq_false_of_ne h]
    · rename_i hn
      rw [List.lookup_cons, List.lookup_cons, ih]
      by_cases h : name = n
      · subst h
        simp [hn]
      · simp [beq_false_of_ne h]

/-- An attribute that is added is found under its name, and the others as before. -/
theorem find?_insert (attributes : Attributes) (key : String) :
    (attributes.insert key data).find? name =
      if name = key then some data else attributes.find? name :=
  lookup_insertInto key attributes.entries

/-- The last element of a list is inserted behind the others. -/
theorem ofList_append (l : List (String × Bytes)) (key : String) (data : Bytes) :
    ofList (l ++ [(key, data)]) = (ofList l).insert key data := by
  rw [ofList, List.foldl_append]
  rfl

/-- A name is missing exactly if no element of the list has it. -/
theorem find?_ofList_eq_none_iff : (ofList l).find? name = none ↔ ∀ d, (name, d) ∉ l := by
  induction l using List.reverseRecOn with
  | nil => simp [ofList, find?, empty]
  | append_singleton l entry ih =>
    obtain ⟨key, d⟩ := entry
    rw [ofList_append, find?_insert]
    by_cases h : name = key
    · rw [if_pos h, h]
      exact ⟨nofun, fun hall => absurd (List.mem_append_right _ List.mem_cons_self) (hall d)⟩
    · simp [h, ih]

/-- The last element of a name is found under it. -/
theorem find?_ofList (h : ∀ d, (name, d) ∉ after) :
    (ofList (before ++ (name, data) :: after)).find? name = some data := by
  induction after using List.reverseRecOn with
  | nil => rw [ofList_append, find?_insert, if_pos rfl]
  | append_singleton after entry ih =>
    obtain ⟨key, d⟩ := entry
    have hkey : name ≠ key := by
      rintro rfl
      exact h d (by simp)
    rw [← List.cons_append, ← List.append_assoc, ofList_append, find?_insert, if_neg hkey]
    exact ih fun d hd => h d (List.mem_append_left _ hd)

end Attributes

section Attributes

variable {p p' : PoolBuilder} {values : List (String × Bytes)} {parts : List Bytes} {count : Bytes}

/-- Attributes behind their number are read by the reader of attributes. -/
theorem reads_attributes {pool : ConstantPool} {bs : Bytes}
    (hcount : Encode.u2 values.length = .ok count)
    (h : Reads (times (readAttribute pool) values.length) bs values) :
    Reads (readAttributes pool) (count ++ bs) (Attributes.ofList values) :=
  (reads_step (reads_of_unsigned_natCast hcount)).bind (h.map Attributes.ofList)

/-- Attributes that are written one behind the other are read one behind the other. -/
theorem reads_of_writes_attributes
    (h : Writes (values.mapM fun (name, data) => encodeAttribute name data) p parts p')
    (hp : p.Sound) :
    p.Grows p' ∧ ∀ ⦃q : PoolBuilder⦄, p'.Grows q →
      Reads (times (readAttribute q.pool) values.length) parts.flatten values := by
  obtain ⟨hg, read, hread, hreads⟩ := ReadBy.mapM (P := Eq)
    (fun value => readBy_attribute value.1 value.2) h hp
  rw [List.forall₂_eq_eq_eq] at hread
  subst hread
  exact ⟨hg, hreads⟩

end Attributes

/-! ## Fields -/

section Member

variable {p p' : PoolBuilder} {bs : Bytes} {flags : Int} {name descriptor : String}

/-- The flags and the indices of the name and the descriptor of a member are written one behind the
other. -/
theorem exists_parts_of_writes_member (h : Writes (encodeMember flags name descriptor) p bs p') :
    ∃ x y z, Encode.u2 flags = .ok x ∧ Encode.u2 (PoolBuilder.utf8 name p).1 = .ok y ∧
      Encode.u2 (PoolBuilder.utf8 descriptor (PoolBuilder.utf8 name p).2).1 = .ok z ∧
      (PoolBuilder.utf8 descriptor (PoolBuilder.utf8 name p).2).2 = p' ∧ bs = x ++ y ++ z := by
  obtain ⟨i, p₁, hi, h⟩ := writes_bind_iff.1 h
  obtain ⟨j, p₂, hj, h⟩ := writes_bind_iff.1 h
  obtain ⟨x, p₃, hwx, h⟩ := writes_bind_iff.1 h
  obtain ⟨y, p₄, hwy, h⟩ := writes_bind_iff.1 h
  obtain ⟨z, p₅, hwz, h⟩ := writes_bind_iff.1 h
  obtain ⟨hx, rfl⟩ := writes_ofExcept_iff.1 hwx
  obtain ⟨hy, rfl⟩ := writes_ofExcept_iff.1 hwy
  obtain ⟨hz, rfl⟩ := writes_ofExcept_iff.1 hwz
  obtain ⟨hbs, rfl⟩ := writes_pure_iff.1 h
  obtain ⟨rfl, rfl⟩ := writes_lift_iff.1 hi
  obtain ⟨rfl, rfl⟩ := writes_lift_iff.1 hj
  exact ⟨x, y, z, hx, hy, hz, rfl, hbs.symm⟩

/-- The head of a member takes six bytes. -/
theorem length_of_writes_member (h : Writes (encodeMember flags name descriptor) p bs p') :
    bs.length = 6 := by
  obtain ⟨x, y, z, hx, hy, hz, -, rfl⟩ := exists_parts_of_writes_member h
  rw [List.length_append, List.length_append, length_of_unsigned hx, length_of_unsigned hy,
    length_of_unsigned hz]

/-- A member begins with three numbers: its flags and the indices of its name and its descriptor. -/
theorem encodeMember_spec (h : Writes (encodeMember flags name descriptor) p bs p')
    (hp : p.Sound) :
    p.Grows p' ∧ ∃ (a i j : Nat) (x y z : Bytes), (a : Int) = flags ∧
      p'.Holds i (.utf8 name) ∧ p'.Holds j (.utf8 descriptor) ∧
      Reads Cursor.u2 x a ∧ Reads Cursor.u2 y i ∧ Reads Cursor.u2 z j ∧ bs = x ++ y ++ z := by
  obtain ⟨x, y, z, hx, hy, hz, rfl, rfl⟩ := exists_parts_of_writes_member h
  obtain ⟨hg, hname⟩ := PoolBuilder.utf8_spec name p
  obtain ⟨hg', hdescriptor⟩ := PoolBuilder.utf8_spec descriptor (PoolBuilder.utf8 name p).2
  obtain ⟨a, ha, hflags⟩ := reads_of_unsigned hx
  exact ⟨hg.trans hg', a, _, _, x, y, z, ha, (hname hp.consistent).mono hg'.toExtends,
    hdescriptor (hg.sound hp).consistent, hflags, reads_of_unsigned_natCast hy,
    reads_of_unsigned_natCast hz, rfl⟩

/-- A field is skipped. -/
theorem FieldDraft.readBy_encode (f : FieldDraft) : ReadBy f.encode skipField fun _ => True := by
  intro p bs p' h hp
  obtain ⟨head, p₁, hhead, h⟩ := writes_bind_iff.1 h
  obtain ⟨count, p₂, hcount, h⟩ := writes_bind_iff.1 h
  obtain ⟨rfl, rfl⟩ := writes_pure_iff.1 h
  obtain ⟨hzero, rfl⟩ := writes_ofExcept_iff.1 hcount
  obtain ⟨hg, -⟩ := encodeMember_spec hhead hp
  refine ⟨hg, (), trivial, fun q hq => ?_⟩
  have hskip : Reads (Cursor.skip 6) head () := by
    have hskip := reads_skip head
    rwa [length_of_writes_member hhead] at hskip
  have hnone := @reads_attributes [] count q.pool [] hzero (reads_pure _)
  rw [List.append_nil] at hnone
  exact (reads_step hskip).bind (hnone.map fun _ => ())

end Member

/-! ## Code -/

/-- Code that was read is the code under construction: the same numbers and bytes, and the same
lines, sorted. -/
structure CodeDraft.Describes (d : CodeDraft) (code : Code) : Prop where
  maxStack : (code.maxStack : Int) = d.maxStack
  maxLocals : (code.maxLocals : Int) = d.maxLocals
  bytes : code.bytes = d.bytes
  lines : code.lines.Perm d.lines
  sorted : code.lines.Pairwise fun a b => a.ble b

section Code

variable {p p' : PoolBuilder} {bs : Bytes} {lines : List LineEntry}

/-- What is written for a line entry spells it. -/
theorem spelledBy_line {e : LineEntry} {x y : Bytes} (hx : Encode.u2 e.startPc = .ok x)
    (hy : Encode.u2 e.line = .ok y) : e.SpelledBy (x ++ y) := by
  obtain ⟨startPc, hstartPc, hlt, rfl⟩ := exists_of_unsigned hx
  obtain ⟨line, hline, hlt', rfl⟩ := exists_of_unsigned hy
  have he : (⟨startPc, line⟩ : LineEntry) = e := by rw [hstartPc, hline]
  rw [← he]
  exact .intro hlt hlt'

/-- A line number table is written as its body. -/
theorem tabulatedBy_lines (h : CodeDraft.encodeLines lines = .ok bs) :
    LineEntry.TabulatedBy lines bs := by
  obtain ⟨count, hcount, h⟩ := except_bind_eq_ok.1 h
  obtain ⟨parts, hparts, h⟩ := except_bind_eq_ok.1 h
  cases h
  obtain ⟨hlt, rfl⟩ := of_unsigned_natCast hcount
  have hentries : List.Forall₂ LineEntry.SpelledBy lines parts := by
    refine (forall₂_of_mapM hparts).imp fun e part he => ?_
    obtain ⟨x, hx, he⟩ := except_bind_eq_ok.1 he
    obtain ⟨y, hy, he⟩ := except_bind_eq_ok.1 he
    cases he
    exact spelledBy_line hx hy
  have hbody := @LineEntry.TabulatedBy.intro lines parts [] hlt hentries
  rwa [List.append_nil] at hbody

/-- The attributes that are written for a code stand behind their number and hold its lines. -/
theorem CodeDraft.holdsLines_encodeAttributes {d : CodeDraft}
    (h : Writes d.encodeAttributes p bs p') (hp : p.Sound) :
    p.Grows p' ∧ ∃ (tables : List (List LineEntry)) (attributes : List Bytes),
      tables.flatten = d.lines ∧ tables.length < Bytes.capacity 2 ∧
      bs = Bytes.ofNat 2 tables.length ++ attributes.flatten ∧
      ∀ ⦃q : PoolBuilder⦄, p'.Grows q → List.Forall₂ (HoldsLines q.pool) tables attributes := by
  unfold encodeAttributes at h
  split at h
  · rename_i hlines
    obtain ⟨hcount, rfl⟩ := writes_ofExcept_iff.1 h
    obtain ⟨hlt, rfl⟩ := @of_unsigned_natCast 2 bs 0 hcount
    exact ⟨.refl p, [], [], (List.isEmpty_iff.1 hlines).symm, hlt, rfl, fun q _ => .nil⟩
  · obtain ⟨table, p₁, hwtable, h⟩ := writes_bind_iff.1 h
    obtain ⟨count, p₂, hwcount, h⟩ := writes_bind_iff.1 h
    obtain ⟨part, p₃, hpart, h⟩ := writes_bind_iff.1 h
    obtain ⟨rfl, rfl⟩ := writes_pure_iff.1 h
    obtain ⟨htable, rfl⟩ := writes_ofExcept_iff.1 hwtable
    obtain ⟨hcount, rfl⟩ := writes_ofExcept_iff.1 hwcount
    obtain ⟨hlt, rfl⟩ := @of_unsigned_natCast 2 count 1 hcount
    obtain ⟨hg, hspelled⟩ := spelledBy_attribute hpart hp
    refine ⟨hg, [d.lines], [part], List.flatten_singleton, hlt, ?_, fun q hq => ?_⟩
    · rw [List.flatten_singleton]
      rfl
    · exact .cons (.table (hspelled hq) (tabulatedBy_lines htable)) .nil

/-- The code of a method is written as an attribute, whose bytes are read as that code. -/
theorem CodeDraft.encode_spec {d : CodeDraft} (h : Writes d.encode p bs p') (hp : p.Sound) :
    p.Grows p' ∧ ∃ data code, d.Describes code ∧ ∀ ⦃q : PoolBuilder⦄, p'.Grows q →
      Reads (readAttribute q.pool) bs (codeName, data) ∧
        within data (readCode q.pool) = .ok code := by
  obtain ⟨stack, p₁, hwstack, h⟩ := writes_bind_iff.1 h
  obtain ⟨locals, p₂, hwlocals, h⟩ := writes_bind_iff.1 h
  obtain ⟨length, p₃, hwlength, h⟩ := writes_bind_iff.1 h
  obtain ⟨handlers, p₄, hwhandlers, h⟩ := writes_bind_iff.1 h
  obtain ⟨attributes, p₅, hattributes, hcode⟩ := writes_bind_iff.1 h
  obtain ⟨hstack, rfl⟩ := writes_ofExcept_iff.1 hwstack
  obtain ⟨hlocals, rfl⟩ := writes_ofExcept_iff.1 hwlocals
  obtain ⟨hlength, rfl⟩ := writes_ofExcept_iff.1 hwlength
  obtain ⟨hhandlers, rfl⟩ := writes_ofExcept_iff.1 hwhandlers
  obtain ⟨maxStack, hmaxStack, hstackLt, rfl⟩ := exists_of_unsigned hstack
  obtain ⟨maxLocals, hmaxLocals, hlocalsLt, rfl⟩ := exists_of_unsigned hlocals
  obtain ⟨hlengthLt, rfl⟩ := of_unsigned_natCast hlength
  obtain ⟨hzero, rfl⟩ := @of_unsigned_natCast 2 handlers 0 hhandlers
  obtain ⟨hg, tables, parts, hlines, hcount, rfl, hhold⟩ :=
    holdsLines_encodeAttributes hattributes hp
  obtain ⟨hg', hattribute⟩ := spelledBy_attribute hcode (hg.sound hp)
  refine ⟨hg.trans hg', _, ⟨maxStack, maxLocals, d.bytes, d.lines.mergeSort LineEntry.ble⟩,
    ⟨hmaxStack, hmaxLocals, rfl, List.mergeSort_perm .., ?_⟩,
    fun q hq => ⟨(hattribute hq).reads, ?_⟩⟩
  · exact List.pairwise_mergeSort LineEntry.ble_trans LineEntry.ble_total _
  · have hspelled := @Code.SpelledBy.intro q.pool _ _ 0 _ [] [] _ _ hstackLt hlocalsLt
      hlengthLt hzero rfl hcount (hhold (hg'.trans hq))
    rw [hlines] at hspelled
    simp only [List.append_nil, List.append_assoc] at hspelled ⊢
    exact within_readCode_eq_ok_iff.2 ⟨_, hspelled, rfl⟩

end Code

/-! ## Methods -/

/-- A method that was read is the method under construction; it has code exactly if that has. -/
structure MethodDraft.Describes (d : MethodDraft) (m : Method) : Prop where
  accessFlags : (m.accessFlags : Int) = d.accessFlags
  name : m.name = d.name
  descriptor : m.descriptor = d.descriptor
  code : Option.Rel CodeDraft.Describes d.code m.code

/-- A method that was read has code if the method under construction does. -/
theorem MethodDraft.Describes.exists_code {d : MethodDraft} {m : Method} {draft : CodeDraft}
    (h : d.Describes m) (hcode : d.code = some draft) :
    ∃ code, m.code = some code ∧ draft.Describes code := by
  have hrel := h.code
  rw [hcode] at hrel
  cases hread : m.code with
  | none =>
    rw [hread] at hrel
    cases hrel
  | some code =>
    rw [hread] at hrel
    cases hrel with
    | some hdraft => exact ⟨code, rfl, hdraft⟩

section Method

variable {pool : ConstantPool} {x y z bs : Bytes} {a i j : Nat} {name descriptor : String}

/-- A method is read as its three numbers, the texts behind the last two, and its attributes, which
decide on its code. -/
theorem reads_method {attributes : Attributes} {code : Option Code} (hx : Reads Cursor.u2 x a)
    (hy : Reads Cursor.u2 y i) (hz : Reads Cursor.u2 z j)
    (hattributes : Reads (readAttributes pool) bs attributes)
    (hname : ClassFile.utf8 pool i = .ok name)
    (hdescriptor : ClassFile.utf8 pool j = .ok descriptor)
    (hcode : match attributes.find? codeName with
      | some data => ∃ c, within data (readCode pool) = .ok c ∧ code = some c
      | none => code = none) :
    Reads (readMethod pool) (x ++ y ++ z ++ bs) ⟨a, name, descriptor, attributes, code⟩ := by
  have htail : Reads (do
      let name ← ClassFile.utf8 pool i
      let descriptor ← ClassFile.utf8 pool j
      let code ← match attributes.find? codeName with
        | some data => some <$> within data (readCode pool)
        | none => pure none
      return ⟨a, name, descriptor, attributes, code⟩ : ClassFile.Part Method) []
      ⟨a, name, descriptor, attributes, code⟩ := by
    refine reads_lift_bind hname (reads_lift_bind hdescriptor ?_)
    cases hfind : attributes.find? codeName with
    | none =>
      rw [hfind] at hcode
      cases hcode
      exact reads_pure _
    | some data =>
      rw [hfind] at hcode
      obtain ⟨c, hc, rfl⟩ := hcode
      simp only [hc]
      exact reads_pure _
  rw [List.append_assoc, List.append_assoc]
  refine (reads_step hx).bind ?_
  refine (reads_step hy).bind ?_
  refine (reads_step hz).bind ?_
  exact hattributes.bind_nil htail

/-- **A method is read as the method under construction.** -/
theorem MethodDraft.readBy_encode (d : MethodDraft) : ReadBy d.encode readMethod d.Describes := by
  intro p bs p' h hp
  obtain ⟨head, p₁, hhead, h⟩ := writes_bind_iff.1 h
  obtain ⟨hg, a, i, j, x, y, z, ha, hname, hdescriptor, hx, hy, hz, rfl⟩ :=
    encodeMember_spec hhead hp
  cases hcode : d.code with
  | none =>
    rw [hcode] at h
    obtain ⟨count, p₂, hwcount, h⟩ := writes_bind_iff.1 h
    obtain ⟨rfl, rfl⟩ := writes_pure_iff.1 h
    obtain ⟨hcount, rfl⟩ := writes_ofExcept_iff.1 hwcount
    refine ⟨hg, ⟨a, d.name, d.descriptor, .ofList [], none⟩, ⟨ha, rfl, rfl, ?_⟩, fun q hq => ?_⟩
    · rw [hcode]
      exact .none
    have hconsistent := (hq.sound (hg.sound hp)).consistent
    have hattributes := @reads_attributes [] count q.pool [] hcount (reads_pure _)
    rw [List.append_nil] at hattributes
    exact reads_method hx hy hz hattributes (utf8_eq hconsistent (hname.mono hq.toExtends))
      (utf8_eq hconsistent (hdescriptor.mono hq.toExtends)) rfl
  | some draft =>
    rw [hcode] at h
    obtain ⟨count, p₂, hwcount, h⟩ := writes_bind_iff.1 h
    obtain ⟨bytes, p₃, hattribute, hlast⟩ := writes_bind_iff.1 h
    obtain ⟨rfl, rfl⟩ := writes_pure_iff.1 hlast
    obtain ⟨hcount, rfl⟩ := writes_ofExcept_iff.1 hwcount
    obtain ⟨hg', data, code, hdescribes, hread⟩ :=
      CodeDraft.encode_spec hattribute (hg.sound hp)
    refine ⟨hg.trans hg', ⟨a, d.name, d.descriptor, .ofList [(codeName, data)], some code⟩,
      ⟨ha, rfl, rfl, ?_⟩, fun q hq => ?_⟩
    · rw [hcode]
      exact .some hdescribes
    have hconsistent := (hq.sound (hg'.sound (hg.sound hp))).consistent
    have hext := hg'.toExtends.trans hq.toExtends
    obtain ⟨hone, hwithin⟩ := hread hq
    have hattributes := @reads_attributes [(codeName, data)] count q.pool bytes hcount
      (hone.map fun value => [value])
    rw [List.append_assoc]
    exact reads_method hx hy hz hattributes (utf8_eq hconsistent (hname.mono hext))
      (utf8_eq hconsistent (hdescriptor.mono hext)) ⟨code, hwithin, rfl⟩

end Method

end Forwarder
