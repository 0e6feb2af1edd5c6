import Forwarder.Proofs.Assembler.Member
import Forwarder.Proofs.BootstrapTable
import Forwarder.Proofs.ClassFile.Extent
import Mathlib

/-!
# What is written for a class reads back as that class

`ClassBuilder.Describes` relates a class under construction to a class that was read.
`ClassBuilder.encode_reads_back` says that the bytes that are written for the one are read as
the other, with the pool that writing has left. Everything behind the pool is written first and
makes the pool grow, so each part is read in a pool that has grown since it was written.
-/

namespace Forwarder

open Cursor ClassFile Encoding

/-! ## The attributes of a class -/

namespace Attributes

/-- The attributes that a class is written with: its source file and its bootstrap table, where it
has them, and further ones. -/
def written (source table : Option Bytes) (further : List (String × Bytes)) :
    List (String × Bytes) :=
  source.toList.map (sourceFileName, ·) ++ table.toList.map (BootstrapTable.attributeName, ·) ++
    further

variable {source table : Option Bytes} {further : List (String × Bytes)}

/-- An attribute of one name is not one of another name. -/
theorem not_mem_toList_map {name key : String} (h : name ≠ key) (found : Option Bytes) (d : Bytes) :
    (name, d) ∉ found.toList.map (key, ·) := by
  intro hd
  obtain ⟨_, -, hpair⟩ := List.mem_map.1 hd
  exact h (congrArg Prod.fst hpair).symm

/-- An attribute that stands at most once in a list is found exactly if it is there. -/
theorem find?_ofList_toList {name : String} {found : Option Bytes}
    {before after : List (String × Bytes)} (hbefore : ∀ d, (name, d) ∉ before)
    (hafter : ∀ d, (name, d) ∉ after) :
    (ofList (before ++ found.toList.map (name, ·) ++ after)).find? name = found := by
  cases found with
  | none =>
    rw [find?_ofList_eq_none_iff]
    intro d hd
    rcases List.mem_append.1 hd with hd | hd
    · exact hbefore d (by simpa using hd)
    · exact hafter d hd
  | some data =>
    rw [List.append_assoc]
    exact find?_ofList hafter

/-- The source file is found among the attributes that are written. -/
theorem find?_written_source (h : ∀ d, (sourceFileName, d) ∉ further) :
    (ofList (written source table further)).find? sourceFileName = source := by
  have hafter (d : Bytes) : (sourceFileName, d) ∉
      table.toList.map (BootstrapTable.attributeName, ·) ++ further := by
    rw [List.mem_append, not_or]
    exact ⟨not_mem_toList_map (by decide) table d, h d⟩
  rw [written, List.append_assoc]
  exact @find?_ofList_toList _ _ [] _ (fun _ => List.not_mem_nil) hafter

/-- The bootstrap table is found among the attributes that are written. -/
theorem find?_written_table (h : ∀ d, (BootstrapTable.attributeName, d) ∉ further) :
    (ofList (written source table further)).find? BootstrapTable.attributeName = table :=
  find?_ofList_toList (not_mem_toList_map (by decide) source) h

/-- The last further attribute of a name is found among the attributes that are written. -/
theorem find?_written_further {name : String} {data : Bytes}
    {before after : List (String × Bytes)} (h : further = before ++ (name, data) :: after)
    (hafter : ∀ d, (name, d) ∉ after) :
    (ofList (written source table further)).find? name = some data := by
  rw [written, h, ← List.append_assoc]
  exact find?_ofList hafter

end Attributes

namespace ClassBuilder

/-- The source file that a class under construction names; an empty name is none. -/
def source (b : ClassBuilder) : Option String := b.sourceFile.filter fun name => !name.isEmpty

/-- A class that was read is the class under construction: the same numbers and names, methods that
its methods describe, the last attribute of every name, and the bootstrap table, unless that is
empty. -/
structure Describes (b : ClassBuilder) (cls : ClassFile) : Prop where
  major : (cls.major : Int) = b.major
  minor : (cls.minor : Int) = b.minor
  accessFlags : (cls.accessFlags : Int) = b.accessFlags
  name : cls.name = some b.name
  superName : cls.superName = some b.superName
  interfaces : cls.interfaces = b.interfaces.toList.map some
  methods : List.Forall₂ MethodDraft.Describes b.methods.toList cls.methods
  sourceFile : cls.sourceFile = b.source
  attributes : ∀ {before name data after},
    b.attributes.toList = before ++ (name, data) :: after → (∀ d, (name, d) ∉ after) →
      cls.attributes.find? name = some data
  noBootstrap : cls.attributes.find? BootstrapTable.attributeName = none ↔ b.bootstrap.toList = []
  bootstrap : ∀ {data}, cls.attributes.find? BootstrapTable.attributeName = some data →
    ∃ table, BootstrapTable.decode data = .ok table ∧
      table.entries.toList.map BootstrapEntry.draft = b.bootstrap.toList

section Values

variable {b : ClassBuilder} {p p' : PoolBuilder} {values : List (String × Bytes)}
  {pool : ConstantPool} {attributes : Attributes}

/-- A class without the attribute has no source file. -/
theorem sourceFileOf_of_none (h : attributes.find? sourceFileName = none) :
    sourceFileOf pool attributes = .ok none := by
  rw [sourceFileOf, h]
  rfl

/-- The source file is the text that the attribute has the index of. -/
theorem sourceFileOf_of_some {data : Bytes} {i : Nat} {name : String}
    (h : attributes.find? sourceFileName = some data) (hdata : Reads Cursor.u2 data i)
    (hname : ClassFile.utf8 pool i = .ok name) :
    sourceFileOf pool attributes = .ok (some name) := by
  have hindex : within data (liftM Cursor.u2) = .ok i := (reads_step hdata).run
  rw [sourceFileOf, h]
  simp only [hindex, hname, bind, Except.bind, pure, Except.pure]

/-- The source file is written as an attribute from which it is read, if there is one. -/
theorem sourceAttribute_spec (h : Writes b.sourceAttribute p values p') (hp : p.Sound) :
    p.Grows p' ∧ ∃ found : Option Bytes, values = found.toList.map (sourceFileName, ·) ∧
      ∀ ⦃q : PoolBuilder⦄ ⦃attributes : Attributes⦄, p'.Grows q →
        attributes.find? sourceFileName = found →
        sourceFileOf q.pool attributes = .ok b.source := by
  unfold sourceAttribute at h
  split at h
  · rename_i hfile
    obtain ⟨rfl, rfl⟩ := writes_pure_iff.1 h
    have hsource : b.source = none := by rw [source, hfile, Option.filter_none]
    rw [hsource]
    exact ⟨.refl p, none, rfl, fun q attributes _ => sourceFileOf_of_none⟩
  · rename_i name hfile
    split at h
    · rename_i hempty
      obtain ⟨rfl, rfl⟩ := writes_pure_iff.1 h
      have hsource : b.source = none := by
        rw [source, hfile, Option.filter_some, if_neg (by rw [hempty]; decide)]
      rw [hsource]
      exact ⟨.refl p, none, rfl, fun q attributes _ => sourceFileOf_of_none⟩
    · rename_i hempty
      obtain ⟨data, p₁, hwdata, h⟩ := writes_bind_iff.1 h
      obtain ⟨rfl, rfl⟩ := writes_pure_iff.1 h
      obtain ⟨hdata, rfl⟩ := writes_index_iff.1 hwdata
      obtain ⟨hg, hname⟩ := PoolBuilder.utf8_spec name p
      have hsource : b.source = some name := by
        rw [source, hfile, Option.filter_some, if_pos (by simpa using hempty)]
      rw [hsource]
      exact ⟨hg, some data, rfl, fun q attributes hq hfind => sourceFileOf_of_some hfind
        (reads_of_unsigned_natCast hdata) (utf8_eq (hq.sound (hg.sound hp)).consistent
          ((hname hp.consistent).mono hq.toExtends))⟩

/-- The bootstrap table is written as an attribute that decodes to its entries, unless it is
empty. -/
theorem bootstrapAttribute_spec (h : Writes b.bootstrapAttribute p values p') :
    p = p' ∧ ∃ found : Option Bytes,
      values = found.toList.map (BootstrapTable.attributeName, ·) ∧
      (found = none ↔ b.bootstrap.toList = []) ∧
      ∀ data, found = some data → ∃ table, BootstrapTable.decode data = .ok table ∧
        table.entries.toList.map BootstrapEntry.draft = b.bootstrap.toList := by
  unfold bootstrapAttribute at h
  split at h
  · rename_i hempty
    obtain ⟨rfl, rfl⟩ := writes_pure_iff.1 h
    exact ⟨rfl, none, rfl, by simpa using hempty, nofun⟩
  · rename_i hempty
    obtain ⟨data, p₁, hwdata, h⟩ := writes_bind_iff.1 h
    obtain ⟨rfl, rfl⟩ := writes_pure_iff.1 h
    obtain ⟨hdata, rfl⟩ := writes_ofExcept_iff.1 hwdata
    obtain ⟨table, hentries, hfits, rfl⟩ := encodeBootstrap_spec hdata
    refine ⟨rfl, some _, rfl, by simpa using hempty, ?_⟩
    rintro _ ⟨⟩
    exact ⟨table, BootstrapTable.decode_encode hfits, hentries⟩

end Values

/-! ## The class -/

/-- The part of a class file behind its constant pool. -/
def readBody (minor major : Nat) (pool : ConstantPool) : ClassFile.Part ClassFile := do
  let accessFlags ← Cursor.u2
  let name ← readClassName pool
  let superName ← readClassName pool
  let interfaces ← times (readClassName pool) (← Cursor.u2)
  let _ ← times (skipField pool) (← Cursor.u2)
  let methods ← times (readMethod pool) (← Cursor.u2)
  let attributes ← readAttributes pool
  let sourceFile ← sourceFileOf pool attributes
  return {
    major, minor, accessFlags, name, superName, interfaces, methods, pool, attributes, sourceFile }

/-- Reads what a class file begins with, its magic number, its version and its constant pool, and
then the rest. -/
def readFront {α : Type} (rest : Nat → Nat → ConstantPool → ClassFile.Part α) :
    ClassFile.Part α := do
  let found ← Cursor.u4
  if found ≠ magic then throw (.badMagic found)
  let minor ← Cursor.u2
  let major ← Cursor.u2
  rest minor major (← readPool)

theorem read_eq : ClassFile.read = readFront readBody := rfl

/-- The rest of a class file is read behind its magic number, its version and its pool. -/
theorem reads_front {α : Type} {rest : Nat → Nat → ConstantPool → ClassFile.Part α} {a : α}
    {first minor major constants body : Bytes} {m n : Nat} {pool : ConstantPool}
    (hfirst : Encode.u4 magic = .ok first) (hminor : Reads Cursor.u2 minor m)
    (hmajor : Reads Cursor.u2 major n) (hpool : Reads readPool constants pool)
    (hbody : Reads (rest m n pool) body a) :
    Reads (readFront rest) (first ++ minor ++ major ++ constants ++ body) a := by
  have hmagic : Reads Cursor.u4 first magic := reads_of_unsigned_natCast hfirst
  simp only [List.append_assoc]
  refine (reads_step hmagic).bind ?_
  rw [if_neg (by simp)]
  exact (reads_step hminor).bind ((reads_step hmajor).bind (hpool.bind hbody))

/-- The rest of a class file is read behind its front. -/
theorem readFront_eq {α : Type} (rest : Nat → Nat → ConstantPool → ClassFile.Part α) :
    readFront rest = (readFront fun minor major pool => return (minor, major, pool)) >>=
      fun (minor, major, pool) => rest minor major pool := by
  unfold readFront
  rw [bind_assoc]
  congr 1
  funext found
  split
  · rfl
  · simp only [bind_assoc, pure_bind]

/-- What a class file holds between its pool and its attributes. -/
structure Head where
  accessFlags : Nat
  name : Option String
  superName : Option String
  interfaces : List (Option String)
  methods : List Method

/-- The part of a class file between its pool and its attributes. -/
def readHead (pool : ConstantPool) : ClassFile.Part Head := do
  let accessFlags ← Cursor.u2
  let name ← readClassName pool
  let superName ← readClassName pool
  let interfaces ← times (readClassName pool) (← Cursor.u2)
  let _ ← times (skipField pool) (← Cursor.u2)
  let methods ← times (readMethod pool) (← Cursor.u2)
  return { accessFlags, name, superName, interfaces, methods }

/-- Behind the pool stand the head and the attributes. -/
theorem readBody_eq (minor major : Nat) (pool : ConstantPool) :
    readBody minor major pool = (do
      let head ← readHead pool
      let attributes ← readAttributes pool
      let sourceFile ← sourceFileOf pool attributes
      return {
        major, minor, accessFlags := head.accessFlags, name := head.name
        superName := head.superName, interfaces := head.interfaces, methods := head.methods
        pool, attributes, sourceFile }) := by
  simp only [readBody, readHead, bind_assoc, pure_bind]

/-- What is written between the pool and the attributes. -/
def encodeHead (b : ClassBuilder) : Encoding Bytes := do
  let accessFlags ← ofExcept (Encode.u2 b.accessFlags)
  let name ← encodeIndex (PoolBuilder.classRef b.name)
  let superName ← encodeIndex (PoolBuilder.classRef b.superName)
  let interfaceCount ← ofExcept (Encode.u2 b.interfaces.size)
  let interfaces ← b.interfaces.toList.mapM fun i => encodeIndex (PoolBuilder.classRef i)
  let fieldCount ← ofExcept (Encode.u2 b.fields.size)
  let fields ← b.fields.toList.mapM FieldDraft.encode
  let methodCount ← ofExcept (Encode.u2 b.methods.size)
  let methods ← b.methods.toList.mapM MethodDraft.encode
  return accessFlags ++ name ++ superName ++ interfaceCount ++ interfaces.flatten ++ fieldCount
    ++ fields.flatten ++ methodCount ++ methods.flatten

/-- What is written for the attributes. -/
def encodeTail (b : ClassBuilder) : Encoding Bytes := do
  let source ← b.sourceAttribute
  let bootstrap ← b.bootstrapAttribute
  let values := source ++ bootstrap ++ b.attributes.toList
  let count ← ofExcept (Encode.u2 values.length)
  let attributes ← values.mapM fun (name, data) => encodeAttribute name data
  return count ++ attributes.flatten

/-- Behind the pool the head is written, and then the attributes. -/
theorem encodeBody_eq (b : ClassBuilder) :
    b.encodeBody = (do return (← b.encodeHead) ++ (← b.encodeTail)) := by
  simp only [encodeBody, encodeHead, encodeTail, bind_assoc, pure_bind, List.append_assoc]

section Class

variable {b : ClassBuilder} {p p' : PoolBuilder} {bs : Bytes} {minor major : Nat}

/-- What stands between the pool and the attributes of a class file is that of a class under
construction. -/
structure DescribesHead (b : ClassBuilder) (head : Head) : Prop where
  accessFlags : (head.accessFlags : Int) = b.accessFlags
  name : head.name = some b.name
  superName : head.superName = some b.superName
  interfaces : head.interfaces = b.interfaces.toList.map some
  methods : List.Forall₂ MethodDraft.Describes b.methods.toList head.methods

/-- What is written between the pool and the attributes is read back. -/
theorem readBy_encodeHead : ReadBy b.encodeHead readHead b.DescribesHead := by
  intro p bs p' h hp
  obtain ⟨flags, p₁, hwflags, h⟩ := writes_bind_iff.1 h
  obtain ⟨name, p₂, hwname, h⟩ := writes_bind_iff.1 h
  obtain ⟨super, p₃, hwsuper, h⟩ := writes_bind_iff.1 h
  obtain ⟨interfaceCount, p₄, hwinterfaceCount, h⟩ := writes_bind_iff.1 h
  obtain ⟨interfaces, p₅, hwinterfaces, h⟩ := writes_bind_iff.1 h
  obtain ⟨fieldCount, p₆, hwfieldCount, h⟩ := writes_bind_iff.1 h
  obtain ⟨fields, p₇, hwfields, h⟩ := writes_bind_iff.1 h
  obtain ⟨methodCount, p₈, hwmethodCount, h⟩ := writes_bind_iff.1 h
  obtain ⟨methods, p₉, hwmethods, h⟩ := writes_bind_iff.1 h
  obtain ⟨rfl, rfl⟩ := writes_pure_iff.1 h
  obtain ⟨hflags, rfl⟩ := writes_ofExcept_iff.1 hwflags
  obtain ⟨hinterfaceCount, rfl⟩ := writes_ofExcept_iff.1 hwinterfaceCount
  obtain ⟨hfieldCount, rfl⟩ := writes_ofExcept_iff.1 hwfieldCount
  obtain ⟨hmethodCount, rfl⟩ := writes_ofExcept_iff.1 hwmethodCount
  obtain ⟨accessFlags, haccessFlags, hflags⟩ := reads_of_unsigned hflags
  -- every pool is sound, and grows to the next one
  obtain ⟨hgname, _, rfl, hname⟩ := readBy_className b.name hwname hp
  have hp₂ := hgname.sound hp
  obtain ⟨hgsuper, _, rfl, hsuper⟩ := readBy_className b.superName hwsuper hp₂
  have hp₃ := hgsuper.sound hp₂
  obtain ⟨hginterfaces, interfaceNames, hnames, hinterfaces⟩ :=
    ReadBy.mapM readBy_className hwinterfaces hp₃
  have hp₅ := hginterfaces.sound hp₃
  obtain ⟨hgfields, _, -, hfields⟩ := ReadBy.mapM FieldDraft.readBy_encode hwfields hp₅
  have hp₇ := hgfields.sound hp₅
  obtain ⟨hgmethods, readMethods, hdescribes, hmethods⟩ :=
    ReadBy.mapM MethodDraft.readBy_encode hwmethods hp₇
  have hgfields' := hgfields.trans hgmethods
  have hginterfaces' := hginterfaces.trans hgfields'
  have hgsuper' := hgsuper.trans hginterfaces'
  have hnames : interfaceNames = b.interfaces.toList.map some := by
    rw [← List.forall₂_map_left_iff, List.forall₂_eq_eq_eq] at hnames
    exact hnames.symm
  refine ⟨hgname.trans hgsuper', ⟨accessFlags, some b.name, some b.superName, interfaceNames,
    readMethods⟩, ⟨haccessFlags, rfl, rfl, hnames, hdescribes⟩, fun q hq => ?_⟩
  have hmethods := (hmethods hq).map
    (Head.mk accessFlags (some b.name) (some b.superName) interfaceNames)
  simp only [List.append_assoc]
  refine (reads_step hflags).bind ?_
  refine (hname (hgsuper'.trans hq)).bind ?_
  refine (hsuper (hginterfaces'.trans hq)).bind ?_
  refine (reads_step (reads_of_unsigned_natCast hinterfaceCount)).bind ?_
  refine (hinterfaces (hgfields'.trans hq)).bind ?_
  refine (reads_step (reads_of_unsigned_natCast hfieldCount)).bind ?_
  refine (hfields (hgmethods.trans hq)).bind ?_
  exact (reads_step (reads_of_unsigned_natCast hmethodCount)).bind hmethods

/-- The attributes of a class are read as a list with the last attribute of every name and with the
bootstrap table, which gives its source file. -/
theorem encodeTail_spec (h : Writes b.encodeTail p bs p') (hp : p.Sound) :
    p.Grows p' ∧ ((∀ d, (sourceFileName, d) ∉ b.attributes.toList) →
      (∀ d, (BootstrapTable.attributeName, d) ∉ b.attributes.toList) → ∃ attributes : Attributes,
        Reads (readAttributes p'.pool) bs attributes ∧
        sourceFileOf p'.pool attributes = .ok b.source ∧
        (∀ before name data after, b.attributes.toList = before ++ (name, data) :: after →
          (∀ d, (name, d) ∉ after) → attributes.find? name = some data) ∧
        (attributes.find? BootstrapTable.attributeName = none ↔ b.bootstrap.toList = []) ∧
        ∀ data, attributes.find? BootstrapTable.attributeName = some data →
          ∃ table, BootstrapTable.decode data = .ok table ∧
            table.entries.toList.map BootstrapEntry.draft = b.bootstrap.toList) := by
  obtain ⟨source, p₁, hsource, h⟩ := writes_bind_iff.1 h
  obtain ⟨table, p₂, htable, h⟩ := writes_bind_iff.1 h
  obtain ⟨count, p₃, hwcount, h⟩ := writes_bind_iff.1 h
  obtain ⟨parts, p₄, hparts, h⟩ := writes_bind_iff.1 h
  obtain ⟨rfl, rfl⟩ := writes_pure_iff.1 h
  obtain ⟨hcount, rfl⟩ := writes_ofExcept_iff.1 hwcount
  obtain ⟨hgsource, foundSource, rfl, hfile⟩ := sourceAttribute_spec hsource hp
  obtain ⟨rfl, foundTable, rfl, hempty, hdecode⟩ := bootstrapAttribute_spec htable
  obtain ⟨hgparts, hreads⟩ := reads_of_writes_attributes hparts (hgsource.sound hp)
  refine ⟨hgsource.trans hgparts, fun hnoSource hnoBootstrap => ?_⟩
  have hfindSource := @Attributes.find?_written_source foundSource foundTable _ hnoSource
  have hfindTable := @Attributes.find?_written_table foundSource foundTable _ hnoBootstrap
  refine ⟨Attributes.ofList (Attributes.written foundSource foundTable b.attributes.toList),
    reads_attributes hcount (hreads (.refl _)), hfile hgparts hfindSource, ?_, ?_, ?_⟩
  · intro before name data after hsplit hafter
    exact Attributes.find?_written_further hsplit hafter
  · rw [hfindTable, hempty]
  · intro data hdata
    rw [hfindTable] at hdata
    exact hdecode data hdata

/-- What is written behind the pool is what is written in front of the attributes, and these. -/
theorem writes_encodeBody_iff :
    Writes b.encodeBody p bs p' ↔ ∃ head q tail, Writes b.encodeHead p head q ∧
      Writes b.encodeTail q tail p' ∧ bs = head ++ tail := by
  rw [encodeBody_eq, writes_bind_iff]
  constructor
  · rintro ⟨head, q, hhead, h⟩
    obtain ⟨tail, p₁, htail, h⟩ := writes_bind_iff.1 h
    obtain ⟨rfl, rfl⟩ := writes_pure_iff.1 h
    exact ⟨head, q, tail, hhead, htail, rfl⟩
  · rintro ⟨head, q, tail, hhead, htail, rfl⟩
    exact ⟨head, q, hhead, htail.bind (writes_pure _)⟩

/-- The head of a class without interfaces and fields is written when its names and its methods
are. -/
theorem writes_head {flags name super count : Bytes} {methods : List Bytes} {p₁ p₂ : PoolBuilder}
    (hinterfaces : b.interfaces = #[]) (hfields : b.fields = #[])
    (hflags : Encode.u2 b.accessFlags = .ok flags)
    (hname : Writes (encodeIndex (PoolBuilder.classRef b.name)) p name p₁)
    (hsuper : Writes (encodeIndex (PoolBuilder.classRef b.superName)) p₁ super p₂)
    (hcount : Encode.u2 b.methods.size = .ok count)
    (hmethods : Writes (b.methods.toList.mapM MethodDraft.encode) p₂ methods p') :
    Writes b.encodeHead p (flags ++ name ++ super ++ [0, 0, 0, 0] ++ count ++ methods.flatten) p' := by
  have hnone : Encode.u2 (0 : Nat) = .ok [0, 0] := rfl
  unfold encodeHead
  rw [hinterfaces, hfields]
  refine (writes_ok hflags).bind ?_
  refine hname.bind ?_
  refine hsuper.bind ?_
  refine (writes_ok hnone).bind ?_
  refine writes_nil.bind ?_
  refine (writes_ok hnone).bind ?_
  refine writes_nil.bind ?_
  refine (writes_ok hcount).bind ?_
  refine hmethods.bind ?_
  simp only [List.flatten_nil, List.append_assoc]
  exact writes_pure _

/-- The attributes of a class are written behind their number. -/
theorem writes_tail {source bootstrap : List (String × Bytes)} {count : Bytes} {parts : List Bytes}
    {p₁ p₂ : PoolBuilder} (hsource : Writes b.sourceAttribute p source p₁)
    (hbootstrap : Writes b.bootstrapAttribute p₁ bootstrap p₂)
    (hcount : Encode.u2 (source ++ bootstrap ++ b.attributes.toList).length = .ok count)
    (hparts : Writes ((source ++ bootstrap ++ b.attributes.toList).mapM fun (name, data) =>
      encodeAttribute name data) p₂ parts p') :
    Writes b.encodeTail p (count ++ parts.flatten) p' := by
  refine hsource.bind ?_
  refine hbootstrap.bind ?_
  refine (writes_ok hcount).bind ?_
  exact hparts.bind (writes_pure _)

/-- What is written behind the pool is read as the class under construction. -/
theorem encodeBody_spec (hsource : ∀ d, (sourceFileName, d) ∉ b.attributes.toList)
    (hbootstrap : ∀ d, (BootstrapTable.attributeName, d) ∉ b.attributes.toList)
    (hminor : (minor : Int) = b.minor) (hmajor : (major : Int) = b.major)
    (h : Writes b.encodeBody p bs p') (hp : p.Sound) :
    p.Grows p' ∧ ∃ cls, b.Describes cls ∧ cls.pool = p'.pool ∧
      Reads (readBody minor major p'.pool) bs cls := by
  obtain ⟨headBytes, q, tail, hwhead, hwtail, rfl⟩ := writes_encodeBody_iff.1 h
  obtain ⟨hghead, head, hdescribes, hhead⟩ := readBy_encodeHead hwhead hp
  obtain ⟨hgtail, htail⟩ := encodeTail_spec hwtail (hghead.sound hp)
  obtain ⟨attributes, hattributes, hfile, hfurther, hempty, hdecode⟩ := htail hsource hbootstrap
  refine ⟨hghead.trans hgtail, ⟨major, minor, head.accessFlags, head.name, head.superName,
    head.interfaces, head.methods, p'.pool, attributes, b.source⟩, ?_, rfl, ?_⟩
  · exact {
      major := hmajor
      minor := hminor
      accessFlags := hdescribes.accessFlags
      name := hdescribes.name
      superName := hdescribes.superName
      interfaces := hdescribes.interfaces
      methods := hdescribes.methods
      sourceFile := rfl
      attributes := hfurther _ _ _ _
      noBootstrap := hempty
      bootstrap := hdecode _ }
  · rw [readBody_eq]
    exact (hhead hgtail).bind (hattributes.bind_nil (reads_lift_bind hfile (reads_pure _)))

/-- Writing a class is a run of its writer on its pool. -/
theorem encode_eq_ok_iff :
    b.encode.1 = .ok bs ∧ b.encode.2.pool = p' ↔ Writes b.encodePooling b.pool bs p' :=
  ⟨fun h => Prod.ext h.1 h.2, fun h => ⟨congrArg Prod.fst h, congrArg Prod.snd h⟩⟩

/-- A class is written as its magic number, its version, the pool that writing has left, and what
refers to that. -/
theorem writes_encodePooling_iff :
    Writes b.encodePooling p bs p' ↔
      ∃ first minor major constants body, Writes b.encodeBody p body p' ∧
        Encode.u4 ClassFile.magic = .ok first ∧ Encode.u2 b.minor = .ok minor ∧
        Encode.u2 b.major = .ok major ∧ p'.encode = .ok constants ∧
        bs = first ++ minor ++ major ++ constants ++ body := by
  constructor
  · intro hw
    obtain ⟨body, p₁, hwbody, hw⟩ := writes_bind_iff.1 hw
    obtain ⟨first, p₂, hwfirst, hw⟩ := writes_bind_iff.1 hw
    obtain ⟨minor, p₃, hwminor, hw⟩ := writes_bind_iff.1 hw
    obtain ⟨major, p₄, hwmajor, hw⟩ := writes_bind_iff.1 hw
    obtain ⟨q, p₅, hwget, hw⟩ := writes_bind_iff.1 hw
    obtain ⟨constants, p₆, hwconstants, hw⟩ := writes_bind_iff.1 hw
    obtain ⟨rfl, rfl⟩ := writes_pure_iff.1 hw
    obtain ⟨hfirst, rfl⟩ := writes_ofExcept_iff.1 hwfirst
    obtain ⟨hminor, rfl⟩ := writes_ofExcept_iff.1 hwminor
    obtain ⟨hmajor, rfl⟩ := writes_ofExcept_iff.1 hwmajor
    obtain ⟨rfl, rfl⟩ := writes_get_iff.1 hwget
    obtain ⟨hconstants, rfl⟩ := writes_ofExcept_iff.1 hwconstants
    exact ⟨first, minor, major, constants, body, hwbody, hfirst, hminor, hmajor, hconstants, rfl⟩
  · rintro ⟨first, minor, major, constants, body, hbody, hfirst, hminor, hmajor, hconstants, rfl⟩
    refine hbody.bind ?_
    refine (writes_ok hfirst).bind ?_
    refine (writes_ok hminor).bind ?_
    refine (writes_ok hmajor).bind ?_
    refine Writes.bind (writes_get_iff.2 ⟨rfl, rfl⟩) ?_
    exact (writes_ok hconstants).bind (writes_pure _)

/-- A class is written when its version and the pool that its body leaves are. -/
theorem exists_encode_of_body {body minor major : Bytes} (hbody : Writes b.encodeBody b.pool body p')
    (hminor : Encode.u2 b.minor = .ok minor) (hmajor : Encode.u2 b.major = .ok major)
    (hpool : p'.encode.isOk = true) : ∃ bs, b.encode.1 = .ok bs := by
  cases hconstants : p'.encode with
  | error e =>
    rw [hconstants] at hpool
    cases hpool
  | ok constants =>
    have hmagic : Encode.u4 ClassFile.magic = .ok [0xCA, 0xFE, 0xBA, 0xBE] := by cbv
    have hw := writes_encodePooling_iff.2
      ⟨_, minor, major, constants, body, hbody, hmagic, hminor, hmajor, hconstants, rfl⟩
    exact ⟨_, (encode_eq_ok_iff.2 hw).1⟩

/-- The bytes that are written for a class on a sound pool decode to a class that it describes, with
the pool that writing leaves. -/
theorem exists_decode_of_writes (hp : b.pool.Sound)
    (hsource : ∀ d, (sourceFileName, d) ∉ b.attributes.toList)
    (hbootstrap : ∀ d, (BootstrapTable.attributeName, d) ∉ b.attributes.toList)
    (hw : Writes b.encodePooling b.pool bs p') :
    b.pool.Grows p' ∧ ∃ cls, ClassFile.decode bs = .ok cls ∧ b.Describes cls ∧
      cls.pool = p'.pool := by
  obtain ⟨first, minor, major, constants, body, hwbody, hfirst, hminor, hmajor, hconstants, rfl⟩ :=
    writes_encodePooling_iff.1 hw
  obtain ⟨m, hm, hminor⟩ := reads_of_unsigned hminor
  obtain ⟨n, hn, hmajor⟩ := reads_of_unsigned hmajor
  obtain ⟨hg, cls, hdescribes, hcls, hbody⟩ :=
    encodeBody_spec hsource hbootstrap hm hn hwbody hp
  have hread : Reads ClassFile.read (first ++ minor ++ major ++ constants ++ body) cls :=
    reads_front hfirst hminor hmajor (PoolBuilder.reads_pool (hg.sound hp) hconstants) hbody
  exact ⟨hg, cls, hread.run, hdescribes, hcls⟩

/-- A class that is read from the bytes that are written for one on a sound pool has the methods of
that one, whatever its further attributes are. -/
theorem methods_of_decode {cls : ClassFile} (hp : b.pool.Sound)
    (hw : Writes b.encodePooling b.pool bs p') (h : ClassFile.decode bs = .ok cls) :
    List.Forall₂ MethodDraft.Describes b.methods.toList cls.methods := by
  obtain ⟨first, minor, major, constants, body, hwbody, hfirst, hminor, hmajor, hconstants, rfl⟩ :=
    writes_encodePooling_iff.1 hw
  obtain ⟨headBytes, q, tail, hwhead, hwtail, rfl⟩ := writes_encodeBody_iff.1 hwbody
  obtain ⟨hghead, head, hdescribes, hhead⟩ := readBy_encodeHead hwhead hp
  obtain ⟨hgtail, -⟩ := encodeTail_spec hwtail (hghead.sound hp)
  obtain ⟨m, hm, hminor⟩ := reads_of_unsigned hminor
  obtain ⟨n, hn, hmajor⟩ := reads_of_unsigned hmajor
  have hpool := PoolBuilder.reads_pool ((hghead.trans hgtail).sound hp) hconstants
  have hfront : Reads (readFront fun minor major pool => return (minor, major, pool))
      (first ++ minor ++ major ++ constants ++ []) (m, n, p'.pool) :=
    reads_front hfirst hminor hmajor hpool (reads_pure _)
  obtain ⟨c, hread⟩ := ClassFile.decode_eq_ok_iff.1 h
  rw [read_eq, readFront_eq] at hread
  obtain ⟨⟨m', n', pool⟩, c₁, hreadFront, hbody⟩ := bind_eq_ok_iff.1 hread
  have hahead : (ofBytes (first ++ minor ++ major ++ constants ++ (headBytes ++ tail))).rest =
      (first ++ minor ++ major ++ constants ++ []) ++ (headBytes ++ tail) := by
    rw [rest_ofBytes, List.append_nil]
  obtain ⟨hvalue, hadvances⟩ := hfront.eq_of_rest (Nat.zero_le _) hahead hreadFront
  cases hvalue
  have hrest : c₁.rest = headBytes ++ tail :=
    (List.append_cancel_left (hahead.symm.trans hadvances.rest_eq)).symm
  have hbody : readBody m n p'.pool c₁ = .ok (cls, c) := hbody
  rw [readBody_eq] at hbody
  obtain ⟨head', c₂, hreadHead, hbody⟩ := bind_eq_ok_iff.1 hbody
  obtain ⟨attributes, c₃, -, hbody⟩ := bind_eq_ok_iff.1 hbody
  obtain ⟨sourceFile, c₄, -, hbody⟩ := bind_eq_ok_iff.1 hbody
  obtain ⟨rfl, -⟩ := pure_eq_ok_iff.1 hbody
  obtain ⟨rfl, -⟩ := (hhead hgtail).eq_of_rest (hadvances.length_eq ▸ hadvances.pos_le)
    hrest hreadHead
  exact hdescribes.methods

/-- **What is written for a class reads back as that class.** Writing may fail, where a number or a
text does not fit its field. Where it does not, its bytes are a class file: with the numbers and
names of the class under construction, with its methods in order, with the last attribute of every
name and its bootstrap table, and with the pool that writing has left, slot by slot. -/
theorem encode_reads_back (hpool : b.pool.Built)
    (hsource : ∀ d, (sourceFileName, d) ∉ b.attributes.toList)
    (hbootstrap : ∀ d, (BootstrapTable.attributeName, d) ∉ b.attributes.toList)
    (h : b.encode.1 = .ok bs) :
    ∃ cls, ClassFile.decode bs = .ok cls ∧ b.Describes cls ∧
      cls.pool.slots = b.encode.2.pool.slots := by
  obtain ⟨-, cls, hcls, hdescribes, hslots⟩ :=
    exists_decode_of_writes hpool.sound hsource hbootstrap (encode_eq_ok_iff.1 ⟨h, rfl⟩)
  exact ⟨cls, hcls, hdescribes, by rw [hslots, PoolBuilder.pool]⟩

end Class

namespace Widget
open PoolBuilder (Addition ofList slotIn intern intern_ofList_take classRef)

/-- A static method that returns at once, with one line. -/
def code : CodeDraft := ⟨0, 1, [0xB1], [⟨0, 7⟩]⟩

/-- A class with a constant of two slots in its pool, a method with code and two further attributes
of one name. -/
def builder : ClassBuilder where
  major := 52
  minor := 0
  accessFlags := 0x21
  name := "A"
  superName := "A"
  interfaces := #[]
  fields := #[]
  methods := #[⟨9, "A", "A", some code⟩]
  sourceFile := some "A"
  bootstrap := #[]
  attributes := #[("A", [1]), ("A", [2])]
  pool := ((Addition.long 7).perform .empty).2

/-- The constants of the class, in the order in which they are added. -/
def constants : List Constant :=
  [.long 7, .utf8 "A", .classRef 3, .utf8 "LineNumberTable", .utf8 "Code", .utf8 "SourceFile"]

/-- The pool with the first constants of the class. -/
def stage (n : Nat) : PoolBuilder := ofList (constants.take n)

/-- The next constant of the class gets the slot behind the others, and one that is there its own.
-/
theorem intern_stage {c : Constant} {n k i : Nat}
    (h : slotIn c (constants.take n) 1 = i ∧
      (if c ∈ constants.take n then constants.take n else constants.take n ++ [c]) =
        constants.take k) : intern c (stage n) = (i, stage k) :=
  intern_ofList_take (by decide) h.1 h.2

/-- The name of the class is written as the index of its constant. -/
theorem writes_className {n j k : Nat} (h : intern (.utf8 "A") (stage n) = (3, stage j))
    (h' : intern (.classRef 3) (stage j) = (4, stage k)) :
    Writes (encodeIndex (classRef "A")) (stage n) [0, 4] (stage k) := by
  refine writes_index (i := 4) ?_ (by decide)
  show intern (.classRef (intern (.utf8 "A") (stage n)).1) (intern (.utf8 "A") (stage n)).2 = _
  rw [h]
  exact h'

/-- The code of the method, as an attribute. -/
def codeBytes : Bytes :=
  [0, 6, 0, 0, 0, 25, 0, 0, 0, 1, 0, 0, 0, 1, 0xB1, 0, 0, 0, 1, 0, 5, 0, 0, 0, 6, 0, 1, 0, 0, 0, 7]

/-- The code is written with the name of its line number table and its own. -/
theorem writes_code : Writes code.encode (stage 3) codeBytes (stage 5) := by
  have hlines : Writes (encodeAttribute lineTableName [0, 1, 0, 0, 0, 7]) (stage 3)
      [0, 5, 0, 0, 0, 6, 0, 1, 0, 0, 0, 7] (stage 4) :=
    @writes_attribute _ _ _ _ 5 [0, 5] [0, 0, 0, 6] (intern_stage (by decide)) (by decide)
      (by decide)
  have hattributes : Writes code.encodeAttributes (stage 3)
      [0, 1, 0, 5, 0, 0, 0, 6, 0, 1, 0, 0, 0, 7] (stage 4) := by
    refine writes_bind_iff.2 ⟨[0, 1, 0, 0, 0, 7], _, writes_ok (by cbv), ?_⟩
    refine writes_bind_iff.2 ⟨[0, 1], _, writes_ok rfl, ?_⟩
    exact writes_bind_iff.2 ⟨_, _, hlines, writes_pure_iff.2 ⟨rfl, rfl⟩⟩
  have hcode : Writes (encodeAttribute codeName
      [0, 0, 0, 1, 0, 0, 0, 1, 0xB1, 0, 0, 0, 1, 0, 5, 0, 0, 0, 6, 0, 1, 0, 0, 0, 7]) (stage 4)
      codeBytes (stage 5) :=
    @writes_attribute _ _ _ _ 6 [0, 6] [0, 0, 0, 25] (intern_stage (by decide)) (by decide)
      (by decide)
  exact @Encoding.writes_code _ _ _ code [0, 0] [0, 1] [0, 0, 0, 1] _ _ rfl rfl (by cbv) hattributes
    hcode

/-- The method is written as its head and its code. -/
theorem writes_method : Writes (MethodDraft.encode ⟨9, "A", "A", some code⟩) (stage 3)
    ([0, 9, 0, 3, 0, 3, 0, 1] ++ codeBytes) (stage 5) := by
  have hname : PoolBuilder.utf8 "A" (stage 3) = (3, stage 3) := intern_stage (by decide)
  have hhead : Writes (encodeMember 9 "A" "A") (stage 3) [0, 9, 0, 3, 0, 3] (stage 3) :=
    @writes_member _ _ _ 9 _ _ _ _ [0, 9] [0, 3] [0, 3] hname hname rfl rfl rfl
  have hmethod := Encoding.writes_method (d := ⟨9, "A", "A", some code⟩) rfl hhead writes_code
  exact hmethod

/-- The bytes of the class behind its pool. -/
def body : Bytes :=
  [0, 0x21, 0, 4, 0, 4, 0, 0, 0, 0, 0, 1, 0, 9, 0, 3, 0, 3, 0, 1] ++ codeBytes ++
    [0, 3, 0, 7, 0, 0, 0, 2, 0, 3, 0, 3, 0, 0, 0, 1, 1, 0, 3, 0, 0, 0, 1, 2]

/-- The attributes of the class are written with the names that are in the pool and a new one. -/
theorem writes_attributes : Writes
    ([(sourceFileName, [0, 3]), ("A", [1]), ("A", [2])].mapM fun (name, data) =>
      encodeAttribute name data) (stage 5)
    [[0, 7, 0, 0, 0, 2, 0, 3], [0, 3, 0, 0, 0, 1, 1], [0, 3, 0, 0, 0, 1, 2]] (stage 6) := by
  refine writes_mapM_cons_iff.2 ⟨_, stage 6, _, ?_, ?_, rfl⟩
  · exact @writes_attribute _ _ _ _ 7 [0, 7] [0, 0, 0, 2] (intern_stage (by decide)) (by decide)
      (by decide)
  refine writes_mapM_cons_iff.2 ⟨_, stage 6, _, ?_, ?_, rfl⟩
  · exact @writes_attribute _ _ _ _ 3 [0, 3] [0, 0, 0, 1] (intern_stage (by decide)) (by decide)
      (by decide)
  refine writes_mapM_cons_iff.2 ⟨_, stage 6, _, ?_, ?_, rfl⟩
  · exact @writes_attribute _ _ _ _ 3 [0, 3] [0, 0, 0, 1] (intern_stage (by decide)) (by decide)
      (by decide)
  exact writes_mapM_nil_iff.2 ⟨rfl, rfl⟩

/-- The class starts with the first constant. -/
theorem pool_eq : builder.pool = stage 1 :=
  congrArg Prod.snd (@intern_stage (.long 7) 0 1 1 (by decide))

/-- The class without its pool is written: its head, then its attributes. -/
theorem writes_body : Writes builder.encodeBody builder.pool body (stage 6) := by
  have hname : Writes (encodeIndex (classRef "A")) (stage 1) [0, 4] (stage 3) :=
    @writes_className 1 2 3 (intern_stage (by decide)) (intern_stage (by decide))
  have hsuper : Writes (encodeIndex (classRef "A")) (stage 3) [0, 4] (stage 3) :=
    @writes_className 3 3 3 (intern_stage (by decide)) (intern_stage (by decide))
  have hflags : Encode.u2 builder.accessFlags = .ok [0, 0x21] := rfl
  have hone : Encode.u2 (1 : Nat) = .ok [0, 1] := rfl
  have hhead := writes_head rfl rfl hflags hname hsuper hone (writes_method.cons writes_nil)
  have hsource : Writes builder.sourceAttribute (stage 5) [(sourceFileName, [0, 3])] (stage 5) := by
    refine Writes.bind ?_ (writes_pure _)
    exact writes_index (i := 3) (intern_stage (by decide)) (by decide)
  have hbootstrap : Writes builder.bootstrapAttribute (stage 5) [] (stage 5) := writes_pure _
  have hthree : Encode.u2 (3 : Nat) = .ok [0, 3] := by cbv
  have htail := writes_tail hsource hbootstrap hthree writes_attributes
  rw [pool_eq]
  exact writes_encodeBody_iff.2 ⟨_, _, _, hhead, htail, rfl⟩

/-- The bytes of the pool. -/
def poolBytes : Bytes :=
  [0, 8, 5, 0, 0, 0, 0, 0, 0, 0, 7, 1, 0, 1, 0x41, 7, 0, 3] ++
    (1 :: 0 :: 15 :: Utf8.encode "LineNumberTable") ++ (1 :: 0 :: 4 :: Utf8.encode "Code") ++
    (1 :: 0 :: 10 :: Utf8.encode "SourceFile")

/-- The pool of the class is written as these bytes. -/
theorem encode_pool : (stage 6).encode = .ok poolBytes := by decide +kernel

/-- The bytes of the class. -/
def bytes : Bytes := [0xCA, 0xFE, 0xBA, 0xBE, 0, 0, 0, 52] ++ poolBytes ++ body

/-- The class is written as these bytes. -/
theorem encode_builder : builder.encode.1 = .ok bytes := by
  have hw : Writes builder.encodePooling builder.pool bytes (stage 6) :=
    writes_encodePooling_iff.2 ⟨[0xCA, 0xFE, 0xBA, 0xBE], [0, 0], [0, 52], poolBytes, body,
      writes_body, by cbv, rfl, rfl, encode_pool, by rw [bytes]; rfl⟩
  exact (encode_eq_ok_iff.2 hw).1

end Widget

/-- The bytes of a small class read back as that class; of its two attributes of one name the last
one counts. -/
theorem encode_reads_back_widget : ∃ cls, ClassFile.decode Widget.bytes = .ok cls ∧
    Widget.builder.Describes cls ∧ cls.attributes.find? "A" = some [2] ∧
    cls.pool.slots = Widget.builder.encode.2.pool.slots := by
  obtain ⟨cls, hcls, hdescribes, hpool⟩ := encode_reads_back (b := Widget.builder)
    (.add (.long 7) .empty) (by simp [Widget.builder, ClassFile.sourceFileName])
    (by simp [Widget.builder, BootstrapTable.attributeName]) Widget.encode_builder
  exact ⟨cls, hcls, hdescribes, @hdescribes.attributes [("A", [1])] _ _ [] rfl (by simp), hpool⟩

end ClassBuilder

end Forwarder
