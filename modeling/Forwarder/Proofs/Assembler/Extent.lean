import Forwarder.Proofs.Assembler.Interning
import Forwarder.Proofs.Assembler.RoundTrip
import Forwarder.Proofs.ClassFile.Extent

/-!
# A written class file ends where its class ends

`ClassFile.decode_extent` is the law of truncation for class files: of the bytes that hold a class a
front is needed in full and nothing else matters, and of the bytes that are written for a class every
one is needed. For the latter nothing is asked of the class under construction, whose names and
attributes may be anything, and little of its pool, which may hold constants of any tag
(`PoolBuilder.Filled`). So a written class need not be one that is read back, and
`Encoding.SpannedBy` only says where a reader stops that accepts it.
-/

namespace Forwarder

open Cursor ClassFile Encoding

/-! ## Constants of any tag -/

/-- An operand can be written into a field. -/
def Field.Takes (f : Field) (o : Operand) : Prop := ∃ bs, f.encode o = .ok bs

section Takes

variable {f f' : Field} {o : Operand} {operands : List Operand}

/-- A field of a number takes a number. -/
theorem Field.Takes.exists_number (hf : f ≠ .text) (h : f.Takes o) : ∃ n, o = .number n := by
  obtain ⟨bs, h⟩ := h
  cases o with
  | number n => exact ⟨n, rfl⟩
  | text s =>
    cases f with
    | text => exact absurd rfl hf
    | unsigned | signed => cases h

/-- The field of a text takes a text. -/
theorem exists_eq_text (h : List.Forall₂ Field.Takes [.text] operands) :
    ∃ s, operands = [.text s] := by
  obtain _ | ⟨⟨bs, ho⟩, _ | _⟩ := h
  rename_i o
  cases o with
  | number n => cases ho
  | text s => exact ⟨s, rfl⟩

/-- One field that is no text takes one number. -/
theorem exists_eq_number (hf : f ≠ .text) (h : List.Forall₂ Field.Takes [f] operands) :
    ∃ n, operands = [.number n] := by
  obtain _ | ⟨ho, _ | _⟩ := h
  obtain ⟨n, rfl⟩ := ho.exists_number hf
  exact ⟨n, rfl⟩

/-- Two fields that are no texts take two numbers. -/
theorem exists_eq_numbers (hf : f ≠ .text) (hf' : f' ≠ .text)
    (h : List.Forall₂ Field.Takes [f, f'] operands) : ∃ i j, operands = [.number i, .number j] := by
  obtain _ | ⟨ho, htail⟩ := h
  obtain ⟨i, rfl⟩ := ho.exists_number hf
  obtain ⟨j, rfl⟩ := exists_eq_number hf' htail
  exact ⟨i, j, rfl⟩

end Takes

namespace Constant

section Stands

variable {c d : Constant} {fields : List Field} {rest : List Operand} {bs : Bytes}

/-- Two constants are written alike if they have one tag and agree in the operands that fill its
fields. -/
theorem encode_congr (hfields : (Tag.ofNumber? c.tag).bind Tag.fields? = some fields)
    (htag : d.tag = c.tag) (hoperands : c.operands = d.operands ++ rest)
    (hlength : d.operands.length = fields.length) : d.encode = c.encode := by
  have hzip : fields.zip c.operands = fields.zip d.operands := by
    have happend := @List.zip_append _ _ fields [] d.operands rest hlength.symm
    rwa [List.append_nil, List.zip_nil_left, List.append_nil, ← hoperands] at happend
  have hshort : ¬ d.operands.length < fields.length := by omega
  have hshort' : ¬ c.operands.length < fields.length := by
    rw [hoperands, List.length_append]
    omega
  rw [encode, encode, encodeOperands, encodeOperands, htag, hfields]
  simp only [if_neg hshort, if_neg hshort', hzip]

/-- The first operands of a constant that is written fill its fields, one each. -/
theorem exists_operands (hfields : (Tag.ofNumber? c.tag).bind Tag.fields? = some fields)
    (h : c.encode = .ok bs) :
    ∃ front rest, c.operands = front ++ rest ∧ List.Forall₂ Field.Takes fields front := by
  unfold encode at h
  obtain ⟨tag, -, h⟩ := except_bind_eq_ok.1 h
  obtain ⟨data, hdata, -⟩ := except_bind_eq_ok.1 h
  rw [encodeOperands, hfields] at hdata
  simp only at hdata
  split at hdata
  · cases hdata
  rename_i hlength
  obtain ⟨parts, hparts, -⟩ := except_bind_eq_ok.1 hdata
  have hall := forall₂_of_mapM hparts
  clear hparts hdata hfields
  generalize c.operands = operands at hlength hall
  induction fields generalizing operands parts with
  | nil => exact ⟨[], operands, rfl, .nil⟩
  | cons f fields ih =>
    cases operands with
    | nil => exact absurd (Nat.zero_lt_succ _) hlength
    | cons o operands =>
      rw [List.zip_cons_cons] at hall
      cases hall with
      | cons hpart hall =>
        obtain ⟨front, rest, rfl, hfront⟩ :=
          ih _ operands (fun hlt => hlength (Nat.succ_lt_succ hlt)) hall
        exact ⟨o :: front, rest, rfl, .cons ⟨_, hpart⟩ hfront⟩

/-- A constant of one of the format's kinds is written as `c` is, and is `c` if that is one, too. -/
structure Stands (c d : Constant) : Prop where
  standard : d.IsStandard
  tag_eq : d.tag = c.tag
  encode_eq : d.encode = c.encode
  eq_of_standard : c.IsStandard → d = c

/-- What fills the fields of a tag spells a constant of that kind. -/
theorem ofOperands_spec {t : Tag} {front : List Operand} (hfields : t.fields? = some fields)
    (hfront : List.Forall₂ Field.Takes fields front) :
    (ofOperands t.number front).IsStandard ∧ (ofOperands t.number front).tag = t.number ∧
      (ofOperands t.number front).operands = front := by
  unfold ofOperands
  rw [Tag.ofNumber?_number]
  cases t with
  | float | double | dynamic | moduleRef | packageRef => cases hfields
  | utf8 =>
    cases hfields
    obtain ⟨s, rfl⟩ := exists_eq_text hfront
    exact ⟨by simp [IsStandard], rfl, rfl⟩
  | integer | long | classRef | string | methodType =>
    cases hfields
    obtain ⟨n, rfl⟩ := exists_eq_number (by decide) hfront
    exact ⟨by simp [IsStandard], rfl, rfl⟩
  | member | nameAndType | methodHandle | invokeDynamic =>
    cases hfields
    obtain ⟨i, j, rfl⟩ := exists_eq_numbers (by decide) (by decide) hfront
    exact ⟨by simp [IsStandard], rfl, rfl⟩

/-- Whatever is written for a constant is written for one of the format's kinds. -/
theorem exists_stands (h : c.encode = .ok bs) : ∃ d, Stands c d := by
  rcases Classical.em c.IsStandard with hc | hc
  · exact ⟨c, hc, rfl, rfl, fun _ => rfl⟩
  cases hfields : (Tag.ofNumber? c.tag).bind Tag.fields? with
  | none => exact absurd h (encode_ne_ok hfields)
  | some fields =>
    obtain ⟨t, ht, hsome⟩ := Option.bind_eq_some_iff.1 hfields
    have htag : (t.number : Int) = c.tag := by simpa using List.find?_some ht
    obtain ⟨front, rest, hoperands, hfront⟩ := exists_operands hfields h
    obtain ⟨hstandard, htag', hfront'⟩ := ofOperands_spec hsome hfront
    refine ⟨ofOperands t.number front, hstandard, htag'.trans htag, ?_, fun h => absurd h hc⟩
    refine encode_congr hfields (htag'.trans htag) (hfront'.symm ▸ hoperands) ?_
    rw [hfront', hfront.length_eq]

/-- A constant that stands for another one fills its cells. -/
theorem Stands.cells (h : Stands c d) :
    List.Forall₂ (Option.Rel Stands) c.cells d.cells := by
  have hwidth : d.width = c.width := by rw [width, width, h.tag_eq]
  unfold Constant.cells
  rw [hwidth]
  split
  · exact .cons (.some h) (.cons .none .nil)
  · exact .cons (.some h) .nil

/-- What is written for a list of constants is written for one of the format's kinds. -/
theorem exists_standard {cs : List Constant} {parts : List Bytes}
    (h : List.Forall₂ (fun c part => Constant.encode c = .ok part) cs parts) :
    ∃ ds : List Constant, List.Forall₂ Stands cs ds ∧ (∀ d ∈ ds, d.IsStandard) ∧
      List.Forall₂ (fun d part => Constant.encode d = .ok part) ds parts := by
  induction h with
  | nil => exact ⟨[], .nil, by simp, .nil⟩
  | cons hc _ ih =>
    obtain ⟨d, hd⟩ := exists_stands hc
    obtain ⟨ds, hds, hstandard, hparts⟩ := ih
    exact ⟨d :: ds, .cons hd hds, List.forall_mem_cons.2 ⟨hd.standard, hstandard⟩,
      .cons (hd.encode_eq.trans hc) hparts⟩

/-- Constants that stand for others fill their cells. -/
theorem forall₂_cells {cs ds : List Constant} (h : List.Forall₂ Stands cs ds) :
    List.Forall₂ (Option.Rel Stands) (cs.flatMap cells) (ds.flatMap cells) := by
  induction h with
  | nil => exact .nil
  | cons hd _ ih => exact List.rel_append hd.cells ih

end Stands

end Constant

/-! ## Pools -/

namespace PoolBuilder

section Filled

variable {p : PoolBuilder}

/-- The bytes of a pool are read as a pool whose constants stand for those of that one, slot by
slot. -/
theorem Filled.exists_reads {bs : Bytes} (hp : p.Filled) (h : p.encode = .ok bs) :
    ∃ pool, Reads readPool bs pool ∧
      List.Forall₂ (Option.Rel Constant.Stands) p.slots.toList pool.slots.toList := by
  obtain ⟨cs, hcs⟩ := hp.layout
  obtain ⟨count, parts, hcount, hparts, rfl⟩ := exists_parts_of_encode hcs h
  obtain ⟨ds, hds, hstandard, hparts⟩ := Constant.exists_standard hparts
  have hcells := Constant.forall₂_cells hds
  rw [hcells.length_eq] at hcount
  refine ⟨⟨(none :: ds.flatMap Constant.cells).toArray⟩,
    reads_pool_of_constants hcount hparts hstandard rfl, ?_⟩
  rw [hcs]
  exact .cons .none hcells

end Filled

end PoolBuilder

/-! ## Readers stop where writers do -/

section Spans

variable {α β : Type} {r : Cursor.Reader Fault α} {bs count : Bytes} {n : Nat} {pool : ConstantPool}

/-- A cursor's reader spans the same bytes in a class file. -/
theorem spans_step (h : Spans r bs) : Spans (liftM r : ClassFile.Part α) bs :=
  h.mapFault FormatError.truncated

/-- A number that is written into a field is read as a number of that width. -/
theorem spans_of_unsigned {width : Nat} {i : Int} (h : Encode.unsigned width i = .ok bs) :
    Spans (liftM (Cursor.unsigned width) : ClassFile.Part Nat) bs := by
  obtain ⟨n, -, hn⟩ := reads_of_unsigned h
  exact spans_step hn.spans

/-- Attributes behind their number take up what these do. -/
theorem spans_attributes (hcount : Encode.u2 n = .ok count)
    (h : Spans (times (readAttribute pool) n) bs) : Spans (readAttributes pool) (count ++ bs) :=
  (reads_step (reads_of_unsigned_natCast hcount)).bind_spans
    (h.bind_nil fun _ => spans_pure _)

end Spans

namespace Encoding

variable {α β : Type} {m : Encoding Bytes} {r : ConstantPool → ClassFile.Part α}

/-- Where `r` accepts what `m` writes it consumes that and no more, whatever the pool. -/
def SpannedBy (m : Encoding Bytes) (r : ConstantPool → ClassFile.Part α) : Prop :=
  ∀ ⦃p bs p'⦄, Writes m p bs p' → ∀ pool, Spans (r pool) bs

/-- A list of writers is spanned by repeating their reader. -/
theorem SpannedBy.mapM {f : β → Encoding Bytes} (h : ∀ b, SpannedBy (f b) r) {l : List β}
    {p p' : PoolBuilder} {parts : List Bytes} (hw : Writes (l.mapM f) p parts p')
    (pool : ConstantPool) : Spans (times (r pool) l.length) parts.flatten := by
  induction l generalizing p parts with
  | nil =>
    obtain ⟨rfl, rfl⟩ := writes_mapM_nil_iff.1 hw
    exact spans_pure []
  | cons b l ih =>
    obtain ⟨bs, p₁, tail, hhead, htail, rfl⟩ := writes_mapM_cons_iff.1 hw
    exact (h b hhead pool).bind fun a => (ih htail).bind_nil fun as => spans_pure (a :: as)

theorem spannedBy_className (name : String) :
    SpannedBy (encodeIndex (PoolBuilder.classRef name)) readClassName := by
  intro p bs p' hw pool
  obtain ⟨hbs, -⟩ := writes_index_iff.1 hw
  exact (spans_of_unsigned hbs).bind_nil fun n => spans_lift (className pool n)

/-- The length of an attribute is read back, so its bytes are, too. -/
theorem spannedBy_attribute (name : String) (data : Bytes) :
    SpannedBy (encodeAttribute name data) readAttribute := by
  intro p bs p' hw pool
  obtain ⟨index, p₁, hwindex, hw⟩ := writes_bind_iff.1 hw
  obtain ⟨length, p₂, hwlength, hw⟩ := writes_bind_iff.1 hw
  obtain ⟨rfl, rfl⟩ := writes_pure_iff.1 hw
  obtain ⟨hlength, rfl⟩ := writes_ofExcept_iff.1 hwlength
  obtain ⟨hindex, rfl⟩ := writes_index_iff.1 hwindex
  rw [List.append_assoc]
  refine (spans_of_unsigned hindex).bind fun n => ?_
  refine (spans_lift (utf8 pool n)).bind fun name => ?_
  refine (reads_step (reads_of_unsigned_natCast hlength)).bind_spans ?_
  exact ((reads_step (reads_take data)).map (name, ·)).spans

/-- Attributes that are written one behind the other take up their bytes. -/
theorem spans_of_writes_attributes {values : List (String × Bytes)} {p p' : PoolBuilder}
    {parts : List Bytes}
    (hw : Writes (values.mapM fun (name, data) => encodeAttribute name data) p parts p')
    (pool : ConstantPool) : Spans (times (readAttribute pool) values.length) parts.flatten :=
  SpannedBy.mapM (fun (name, data) => spannedBy_attribute name data) hw pool

end Encoding

/-- The code of a method is one attribute. -/
theorem CodeDraft.spannedBy_encode (d : CodeDraft) : SpannedBy d.encode readAttribute := by
  intro p bs p' hw pool
  obtain ⟨stack, p₁, -, hw⟩ := writes_bind_iff.1 hw
  obtain ⟨locals, p₂, -, hw⟩ := writes_bind_iff.1 hw
  obtain ⟨length, p₃, -, hw⟩ := writes_bind_iff.1 hw
  obtain ⟨handlers, p₄, -, hw⟩ := writes_bind_iff.1 hw
  obtain ⟨attributes, p₅, -, hw⟩ := writes_bind_iff.1 hw
  exact spannedBy_attribute codeName _ hw pool

theorem FieldDraft.spannedBy_encode (f : FieldDraft) : SpannedBy f.encode skipField := by
  intro p bs p' hw pool
  obtain ⟨head, p₁, hhead, hw⟩ := writes_bind_iff.1 hw
  obtain ⟨count, p₂, hwcount, hw⟩ := writes_bind_iff.1 hw
  obtain ⟨rfl, rfl⟩ := writes_pure_iff.1 hw
  obtain ⟨hcount, rfl⟩ := writes_ofExcept_iff.1 hwcount
  have hskip : Reads (Cursor.skip 6) head () := by
    have hskip := reads_skip head
    rwa [length_of_writes_member hhead] at hskip
  have hnone : Spans (readAttributes pool) (count ++ []) :=
    spans_attributes (n := 0) hcount (spans_pure [])
  rw [List.append_nil] at hnone
  exact (spans_step hskip.spans).bind fun _ => hnone.bind_nil fun _ => spans_pure ()

/-- A method takes up its three numbers and its attributes. -/
theorem spans_method {pool : ConstantPool} {flags : Int} {name descriptor : String}
    {p p' : PoolBuilder} {head bs : Bytes}
    (hhead : Writes (encodeMember flags name descriptor) p head p')
    (h : Spans (readAttributes pool) bs) : Spans (readMethod pool) (head ++ bs) := by
  obtain ⟨x, y, z, hx, hy, hz, -, rfl⟩ := exists_parts_of_writes_member hhead
  rw [List.append_assoc, List.append_assoc]
  refine (spans_of_unsigned hx).bind fun flags => ?_
  refine (spans_of_unsigned hy).bind fun nameIndex => ?_
  refine (spans_of_unsigned hz).bind fun descriptorIndex => ?_
  refine h.bind_nil fun attributes => ?_
  refine (spans_lift _).bind_nil fun name => ?_
  refine (spans_lift _).bind_nil fun descriptor => ?_
  cases attributes.find? codeName with
  | none => exact spans_pure _
  | some data =>
    have hcode : Spans (some <$> liftM (within data (readCode pool)) : ClassFile.Part (Option Code))
        [] := (spans_lift (within data (readCode pool))).bind_nil fun code => spans_pure (some code)
    exact hcode.bind_nil fun code => spans_pure _

/-- A method takes up all of its bytes. -/
theorem MethodDraft.spannedBy_encode (d : MethodDraft) : SpannedBy d.encode readMethod := by
  intro p bs p' hw pool
  obtain ⟨head, p₁, hhead, hw⟩ := writes_bind_iff.1 hw
  cases hcode : d.code with
  | none =>
    rw [hcode] at hw
    obtain ⟨count, p₂, hwcount, hw⟩ := writes_bind_iff.1 hw
    obtain ⟨rfl, rfl⟩ := writes_pure_iff.1 hw
    obtain ⟨hcount, rfl⟩ := writes_ofExcept_iff.1 hwcount
    have hnone : Spans (readAttributes pool) (count ++ []) :=
      spans_attributes (n := 0) hcount (spans_pure [])
    rw [List.append_nil] at hnone
    exact spans_method hhead hnone
  | some code =>
    rw [hcode] at hw
    obtain ⟨count, p₂, hwcount, hw⟩ := writes_bind_iff.1 hw
    obtain ⟨bytes, p₃, hbytes, hw⟩ := writes_bind_iff.1 hw
    obtain ⟨rfl, rfl⟩ := writes_pure_iff.1 hw
    obtain ⟨hcount, rfl⟩ := writes_ofExcept_iff.1 hwcount
    have hone : Spans (times (readAttribute pool) 1) bytes :=
      (code.spannedBy_encode hbytes pool).bind_nil fun value =>
        (spans_pure []).bind_nil fun _ => spans_pure _
    rw [List.append_assoc]
    exact spans_method hhead (spans_attributes (n := 1) hcount hone)

namespace ClassBuilder

section Class

variable {b : ClassBuilder} {p p' : PoolBuilder} {bs : Bytes}

/-- The class behind its pool takes up all of its bytes. -/
theorem spans_body (h : Writes b.encodeBody p bs p') (minor major : Nat) (pool : ConstantPool) :
    Spans (readBody minor major pool) bs := by
  obtain ⟨flags, p₁, hflags, h⟩ := writes_bind_iff.1 h
  obtain ⟨name, p₂, hname, h⟩ := writes_bind_iff.1 h
  obtain ⟨super, p₃, hsuper, h⟩ := writes_bind_iff.1 h
  obtain ⟨interfaceCount, p₄, hinterfaceCount, h⟩ := writes_bind_iff.1 h
  obtain ⟨interfaces, p₅, hinterfaces, h⟩ := writes_bind_iff.1 h
  obtain ⟨fieldCount, p₆, hfieldCount, h⟩ := writes_bind_iff.1 h
  obtain ⟨fields, p₇, hfields, h⟩ := writes_bind_iff.1 h
  obtain ⟨methodCount, p₈, hmethodCount, h⟩ := writes_bind_iff.1 h
  obtain ⟨methods, p₉, hmethods, h⟩ := writes_bind_iff.1 h
  obtain ⟨source, p₁₀, -, h⟩ := writes_bind_iff.1 h
  obtain ⟨bootstrap, p₁₁, -, h⟩ := writes_bind_iff.1 h
  obtain ⟨attributeCount, p₁₂, hattributeCount, h⟩ := writes_bind_iff.1 h
  obtain ⟨attributes, p₁₃, hattributes, h⟩ := writes_bind_iff.1 h
  obtain ⟨rfl, rfl⟩ := writes_pure_iff.1 h
  have hflags := spans_of_unsigned (writes_ofExcept_iff.1 hflags).1
  have hinterfaceCount := reads_of_unsigned_natCast (writes_ofExcept_iff.1 hinterfaceCount).1
  have hfieldCount := reads_of_unsigned_natCast (writes_ofExcept_iff.1 hfieldCount).1
  have hmethodCount := reads_of_unsigned_natCast (writes_ofExcept_iff.1 hmethodCount).1
  have hinterfaces := SpannedBy.mapM spannedBy_className hinterfaces pool
  have hfields := SpannedBy.mapM FieldDraft.spannedBy_encode hfields pool
  have hmethods := SpannedBy.mapM MethodDraft.spannedBy_encode hmethods pool
  have hattributes := spans_attributes (writes_ofExcept_iff.1 hattributeCount).1
    (spans_of_writes_attributes hattributes pool)
  simp only [List.append_assoc]
  refine hflags.bind fun _ => ?_
  refine (spannedBy_className _ hname pool).bind fun _ => ?_
  refine (spannedBy_className _ hsuper pool).bind fun _ => ?_
  refine (reads_step hinterfaceCount).bind_spans ?_
  refine hinterfaces.bind fun _ => ?_
  refine (reads_step hfieldCount).bind_spans ?_
  refine hfields.bind fun _ => ?_
  refine (reads_step hmethodCount).bind_spans ?_
  refine hmethods.bind fun _ => ?_
  refine hattributes.bind_nil fun _ => ?_
  exact (spans_lift _).bind_nil fun _ => spans_pure _

/-- A class that is read out of the bytes that are written for one takes up all of them. -/
theorem spans_read (hp : b.pool.Filled) (h : Writes b.encodePooling b.pool bs p') :
    Spans ClassFile.read bs := by
  obtain ⟨first, minor, major, constants, body, hbody, hfirst, hminor, hmajor, hconstants, rfl⟩ :=
    writes_encodePooling_iff.1 h
  obtain ⟨pool, hpool, -⟩ := (interns_encodeBody.filled hbody hp).exists_reads hconstants
  have hmagic : Reads Cursor.u4 first magic := reads_of_unsigned_natCast hfirst
  rw [read_eq]
  simp only [List.append_assoc]
  refine (reads_step hmagic).bind_spans ?_
  rw [if_neg (by simp)]
  refine (spans_of_unsigned hminor).bind fun minor => ?_
  refine (spans_of_unsigned hmajor).bind fun major => ?_
  exact hpool.bind_spans (spans_body hbody minor major pool)

end Class

end ClassBuilder

/-- **Of a class file every byte up to its end is needed, and nothing behind that matters.** A byte
string that is decoded begins with exactly one class file: no shorter front is decoded, and whatever
begins with it is decoded to the same class. A byte string that is written for a class, and decoded,
is a class file as a whole. -/
theorem ClassFile.decode_extent :
    (∀ data cls, decode data = .ok cls → ∃! n, Extent data cls n) ∧
      ∀ (b : ClassBuilder) (bs : Bytes) (cls : ClassFile), b.pool.Filled → b.encode.1 = .ok bs →
        decode bs = .ok cls → Extent bs cls bs.length := by
  constructor
  · intro data cls h
    obtain ⟨c, hc⟩ := decode_eq_ok_iff.1 h
    exact ⟨c.pos, extent_of_read hc, fun n hn => hn.unique (extent_of_read hc)⟩
  · intro b bs cls hp hbs h
    obtain ⟨c, hc⟩ := decode_eq_ok_iff.1 h
    have hspans := ClassBuilder.spans_read hp (ClassBuilder.encode_eq_ok_iff.1 ⟨hbs, rfl⟩)
    have hextent := extent_of_read hc
    rwa [hspans (advances_atEnd bs) hc] at hextent

/-- The bytes of a small class are a class file as a whole: they are one in front of another byte,
and they are none without their last. -/
theorem ClassFile.decode_extent_widget : ∃ cls, decode ClassBuilder.Widget.bytes = .ok cls ∧
    (∃! n, Extent (ClassBuilder.Widget.bytes ++ [0]) cls n) ∧
    Extent ClassBuilder.Widget.bytes cls ClassBuilder.Widget.bytes.length ∧
    ∃ e, decode ClassBuilder.Widget.bytes.dropLast = .error e := by
  obtain ⟨exists_extent, extent_of_encode⟩ := decode_extent
  have hbuilt : ClassBuilder.Widget.builder.pool.Built := .add (.long 7) .empty
  obtain ⟨-, cls, hcls, -⟩ := ClassBuilder.exists_decode_of_writes hbuilt.sound
    (by simp [ClassBuilder.Widget.builder, sourceFileName])
    (by simp [ClassBuilder.Widget.builder, BootstrapTable.attributeName])
    (ClassBuilder.encode_eq_ok_iff.1 ⟨ClassBuilder.Widget.encode_builder, rfl⟩)
  have hextent := extent_of_encode ClassBuilder.Widget.builder _ cls (.intern (.long 7) .empty)
    ClassBuilder.Widget.encode_builder hcls
  have hlonger : decode (ClassBuilder.Widget.bytes ++ [0]) = .ok cls :=
    hextent.accepts _ (by rw [List.take_length]; exact List.prefix_append _ _)
  have hpos : 0 < ClassBuilder.Widget.bytes.length := by simp [ClassBuilder.Widget.bytes]
  have hshorter := hextent.rejects _ (Nat.sub_lt hpos Nat.one_pos)
  rw [← List.dropLast_eq_take] at hshorter
  exact ⟨cls, hcls, exists_extent _ cls hlonger, hextent, hshorter⟩

end Forwarder
