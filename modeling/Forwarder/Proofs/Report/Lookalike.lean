import Forwarder.Proofs.ClassFile.Pool
import Forwarder.Proofs.Report
import Forwarder.Proofs.Text.ModifiedUtf8
import Mathlib

/-!
# Names that are read alike

The analysis compares names as the strings that they are read as: the owner of a handle with the
class, and what the handle refers to with the synthetic methods. The reader takes texts for UTF-8,
so names of different bytes may be read as one string, but only as one with a replacement character
(`names_told_apart`). `Lookalike.source` is a class with such a name, one of whose calls is reported
although it is linked to a method of another class (`foreign_handle_reported`).
-/

namespace Forwarder

open Utf8 (replacement)
open ModifiedUtf8 (encode shown Alike)

namespace ClassFile

/-! ## The texts behind names -/

/-- The class constant of an index names a text constant. -/
inductive ClassTextAt (data : Bytes) (pool : ConstantPool) (index : Int) (text : Bytes) : Prop where
  | intro {slot : Nat} (hclass : pool.entry index = .ok (.classRef slot))
      (htext : TextAt data slot text)

/-- The method handle of an index leads to three text constants: those of the owner, the name and
the descriptor of the member that it refers to. -/
inductive HandleTextsAt (data : Bytes) (pool : ConstantPool) (index : Int)
    (owner name descriptor : Bytes) : Prop where
  | intro {kind reference ownerIndex nameAndType : Int} {memberKind : MemberKind}
      {nameSlot descriptorSlot : Nat}
      (hhandle : pool.entry index = .ok (.methodHandle kind reference))
      (hmember : pool.entry reference = .ok (.member memberKind ownerIndex nameAndType))
      (howner : ClassTextAt data pool ownerIndex owner)
      (hpair : pool.entry nameAndType = .ok (.nameAndType nameSlot descriptorSlot))
      (hname : TextAt data nameSlot name) (hdescriptor : TextAt data descriptorSlot descriptor)

section Texts

variable {data : Bytes} {cls : ClassFile} {index : Int} {name : String}

/-- A string of a decoded pool comes from a text constant. -/
theorem exists_textAt (h : decode data = .ok cls) (hname : cls.pool.utf8 index = .ok name) :
    ∃ (slot : Nat) (text : Bytes), index = slot ∧ TextAt data slot text ∧
      name = Utf8.decode text := by
  have hpos := (ConstantPool.entry_eq_ok_iff.1 (ConstantPool.utf8_eq_ok_iff.1 hname)).1
  obtain ⟨slot, rfl⟩ := Int.eq_ofNat_of_zero_le (Int.le_of_lt hpos)
  obtain ⟨text, htext, hdecode⟩ := (utf8_eq_ok_iff_textAt h slot).1 hname
  exact ⟨slot, text, rfl, htext, hdecode⟩

/-- A text constant that is read as another text is like that text. -/
theorem exists_textAt_alike {slot : Nat} {text : Bytes} (h : decode data = .ok cls)
    (hname : cls.pool.utf8 slot = .ok name) (htext : name = Utf8.decode text) :
    ∃ text', TextAt data slot text' ∧ Alike text text' := by
  obtain ⟨text', htext', hdecode⟩ := (utf8_eq_ok_iff_textAt h slot).1 hname
  exact ⟨text', htext', ModifiedUtf8.alike_of_decode_eq (htext.symm.trans hdecode)⟩

/-- The name of a class of a decoded pool comes from a text constant. -/
theorem exists_classTextAt (h : decode data = .ok cls)
    (hname : cls.pool.className index = .ok name) :
    ∃ text, ClassTextAt data cls.pool index text ∧ name = Utf8.decode text := by
  obtain ⟨j, hclass, hj⟩ := ConstantPool.className_eq_ok_iff.1 hname
  obtain ⟨slot, text, rfl, htext, hdecode⟩ := exists_textAt h hj
  exact ⟨text, .intro hclass htext, hdecode⟩

/-- The texts of a handle of a decoded pool come from text constants. -/
theorem exists_handleTextsAt {handle : MethodHandle} (h : decode data = .ok cls)
    (hhandle : cls.pool.methodHandle index = .ok handle) :
    ∃ owner name descriptor, HandleTextsAt data cls.pool index owner name descriptor ∧
      handle.member.owner = Utf8.decode owner ∧ handle.member.name = Utf8.decode name ∧
      handle.member.descriptor = Utf8.decode descriptor := by
  obtain ⟨number, reference, hentry, -, hmember⟩ := ConstantPool.methodHandle_eq_ok_iff.1 hhandle
  obtain ⟨ownerIndex, nameAndType, hentry', howner, hpair⟩ :=
    ConstantPool.member_eq_ok_iff.1 hmember
  obtain ⟨j, k, hentry'', hj, hk⟩ := ConstantPool.nameAndType_eq_ok_iff.1 hpair
  obtain ⟨owner, howner, hownerDecode⟩ := exists_classTextAt h howner
  obtain ⟨nameSlot, name, rfl, hname, hnameDecode⟩ := exists_textAt h hj
  obtain ⟨descriptorSlot, descriptor, rfl, hdescriptor, hdescriptorDecode⟩ := exists_textAt h hk
  exact ⟨owner, name, descriptor, .intro hentry hentry' howner hentry'' hname hdescriptor,
    hownerDecode, hnameDecode, hdescriptorDecode⟩

end Texts

end ClassFile

/-! ## What the comparisons tell apart -/

open ClassFile (TextAt ClassTextAt HandleTextsAt)

/-- **Comparisons tell names apart up to what is shown of them.** The string of a text of a class
file is what is shown of its units. So two texts have the same string exactly if the same is shown
of them, and texts of different bytes have different strings unless a replacement character is
shown. If a handle is taken to point at a body, its owner and the class have names that are alike in
this sense, and so have the body and every synthetic method that is taken for it. -/
theorem names_told_apart {data : Bytes} {cls : ClassFile} (h : ClassFile.decode data = .ok cls) :
    (∀ i us, TextAt data i (encode us) →
      cls.pool.utf8 i = .ok (String.ofList (us.flatMap shown))) ∧
    (∀ i j us vs, TextAt data i (encode us) → TextAt data j (encode vs) →
      ∃ s t, cls.pool.utf8 i = .ok s ∧ cls.pool.utf8 j = .ok t ∧
        (s = t ↔ us.flatMap shown = vs.flatMap shown) ∧
        (encode us ≠ encode vs → replacement ∉ s.toList → s ≠ t)) ∧
    ∃ indices, ClassFile.within data ClassFile.readIndices = .ok indices ∧ ∀ index handle key,
      cls.pool.methodHandle index = .ok handle →
      handle.lambdaTarget cls.name = .ok (some key) →
        ∃ owner name descriptor own, HandleTextsAt data cls.pool index owner name descriptor ∧
          ClassTextAt data cls.pool indices.own own ∧ Alike owner own ∧
          ∀ (k : Nat) (m : Method), cls.methods[k]? = some m → m.IsBodyOf key →
            ∃ (i j : Nat) (name' descriptor' : Bytes), indices.methods[k]? = some (i, j) ∧
              TextAt data i name' ∧ TextAt data j descriptor' ∧
              Alike name name' ∧ Alike descriptor descriptor' := by
  refine ⟨fun i us hi => ?_, fun i j us vs hi hj => ?_, ?_⟩
  · rw [← ModifiedUtf8.decode_encode]
    exact (ClassFile.utf8_eq_ok_iff_textAt h i).2 ⟨_, hi, rfl⟩
  · exact ⟨_, _, (ClassFile.utf8_eq_ok_iff_textAt h i).2 ⟨_, hi, rfl⟩,
      (ClassFile.utf8_eq_ok_iff_textAt h j).2 ⟨_, hj, rfl⟩, ModifiedUtf8.decode_eq_iff,
      fun hne hnot heq => hne (ModifiedUtf8.encode_eq_of_decode_eq heq hnot)⟩
  · obtain ⟨c, hread⟩ := ClassFile.decode_eq_ok_iff.1 h
    obtain ⟨head, c₁, c₂, indices, c₃, hhead, hlength, hpool, hindices, hown, hmethods⟩ :=
      ClassFile.exists_indices_of_read hread
    refine ⟨indices, by rw [ClassFile.within, hindices]; rfl, ?_⟩
    intro index handle key hhandle htarget
    have hpoints := MethodHandle.lambdaTarget_eq_some_iff.1 htarget
    obtain ⟨owner, name, descriptor, htexts, howner, hname, hdescriptor⟩ :=
      ClassFile.exists_handleTextsAt h hhandle
    rw [hpoints.owner_eq] at hown
    obtain ⟨own, hownText, hownDecode⟩ :=
      ClassFile.exists_classTextAt h (ClassFile.className_eq_some_iff.1 hown).2
    refine ⟨owner, name, descriptor, own, htexts, hownText,
      ModifiedUtf8.alike_of_decode_eq (howner.symm.trans hownDecode), fun k m hm hbody => ?_⟩
    obtain ⟨hk, rfl⟩ := List.getElem?_eq_some_iff.1 hm
    have hk' : k < indices.methods.length := hmethods.length_eq ▸ hk
    obtain ⟨hutf8, hutf8'⟩ := hmethods.get hk hk'
    have hkey : cls.methods[k].key = ⟨Utf8.decode name, Utf8.decode descriptor⟩ := by
      rw [← hname, ← hdescriptor]
      exact hbody.2.trans hpoints.key_eq
    obtain ⟨hnames, hdescriptors⟩ := MethodKey.mk.inj hkey
    obtain ⟨name', hnameText, hnameAlike⟩ := ClassFile.exists_textAt_alike h hutf8 hnames
    obtain ⟨descriptor', hdescriptorText, hdescriptorAlike⟩ :=
      ClassFile.exists_textAt_alike h hutf8' hdescriptors
    exact ⟨_, _, name', descriptor', List.getElem?_eq_getElem hk', hnameText, hdescriptorText,
      hnameAlike, hdescriptorAlike⟩

/-! ## A class whose name is read as that of another one -/

namespace Lookalike

/-- The UTF-16 units of the class's name, U+1F600. -/
def own : List UInt16 := [0xD83D, 0xDE00]

/-- The UTF-16 units of another name, U+1F601. -/
def foreign : List UInt16 := [0xD83D, 0xDE01]

/-- The class file of a class named `own`, with a method `m` that makes a function of the method `l`
of a class named `foreign`, and a lambda `l` of its own, which is `s -> s.length()`. -/
def source : Source where
  origin := "A.class"
  data := [0xCA, 0xFE, 0xBA, 0xBE, 0x00, 0x00, 0x00, 0x34, 0x00, 0x1A, 0x01, 0x00, 0x06, 0xED, 0xA0,
    0xBD, 0xED, 0xB8, 0x80, 0x01, 0x00, 0x06, 0xED, 0xA0, 0xBD, 0xED, 0xB8, 0x81, 0x07, 0x00, 0x01,
    0x07, 0x00, 0x02, 0x01, 0x00, 0x01, 0x6C, 0x01, 0x00, 0x06, 0x28, 0x4C, 0x53, 0x3B, 0x29, 0x49,
    0x0C, 0x00, 0x05, 0x00, 0x06, 0x0A, 0x00, 0x04, 0x00, 0x07, 0x0F, 0x06, 0x00, 0x08, 0x01, 0x00,
    0x01, 0x53, 0x07, 0x00, 0x0A, 0x01, 0x00, 0x06, 0x6C, 0x65, 0x6E, 0x67, 0x74, 0x68, 0x01, 0x00,
    0x03, 0x28, 0x29, 0x49, 0x0C, 0x00, 0x0C, 0x00, 0x0D, 0x0A, 0x00, 0x0B, 0x00, 0x0E, 0x01, 0x00,
    0x01, 0x66, 0x01, 0x00, 0x05, 0x28, 0x29, 0x4C, 0x46, 0x3B, 0x0C, 0x00, 0x10, 0x00, 0x11, 0x12,
    0x00, 0x00, 0x00, 0x12, 0x01, 0x00, 0x04, 0x43, 0x6F, 0x64, 0x65, 0x01, 0x00, 0x01, 0x6D, 0x01,
    0x00, 0x03, 0x28, 0x29, 0x56, 0x01, 0x00, 0x10, 0x42, 0x6F, 0x6F, 0x74, 0x73, 0x74, 0x72, 0x61,
    0x70, 0x4D, 0x65, 0x74, 0x68, 0x6F, 0x64, 0x73, 0x01, 0x00, 0x10, 0x6A, 0x61, 0x76, 0x61, 0x2F,
    0x6C, 0x61, 0x6E, 0x67, 0x2F, 0x4F, 0x62, 0x6A, 0x65, 0x63, 0x74, 0x07, 0x00, 0x18, 0x00, 0x21,
    0x00, 0x03, 0x00, 0x19, 0x00, 0x00, 0x00, 0x00, 0x00, 0x02, 0x00, 0x09, 0x00, 0x15, 0x00, 0x16,
    0x00, 0x01, 0x00, 0x14, 0x00, 0x00, 0x00, 0x13, 0x00, 0x01, 0x00, 0x00, 0x00, 0x00, 0x00, 0x07,
    0xBA, 0x00, 0x13, 0x00, 0x00, 0x57, 0xB1, 0x00, 0x00, 0x00, 0x00, 0x10, 0x0A, 0x00, 0x05, 0x00,
    0x06, 0x00, 0x01, 0x00, 0x14, 0x00, 0x00, 0x00, 0x11, 0x00, 0x01, 0x00, 0x01, 0x00, 0x00, 0x00,
    0x05, 0x2A, 0xB6, 0x00, 0x0F, 0xAC, 0x00, 0x00, 0x00, 0x00, 0x00, 0x01, 0x00, 0x17, 0x00, 0x00,
    0x00, 0x08, 0x00, 0x01, 0x00, 0x09, 0x00, 0x01, 0x00, 0x09]

/-- The string that both names are read as. -/
def name : String := "\uFFFD\uFFFD\uFFFD\uFFFD\uFFFD\uFFFD"

/-- The lambda `l`. -/
def body : Method where
  accessFlags := 0x100A
  name := "l"
  descriptor := "(LS;)I"
  attributes := ⟨[("Code", [0, 1, 0, 1, 0, 0, 0, 5, 0x2A, 0xB6, 0, 15, 0xAC, 0, 0, 0, 0])]⟩
  code := some ⟨1, 1, [0x2A, 0xB6, 0, 15, 0xAC], []⟩

/-- The method `m`. -/
def caller : Method where
  accessFlags := 9
  name := "m"
  descriptor := "()V"
  attributes := ⟨[("Code", [0, 1, 0, 0, 0, 0, 0, 7, 0xBA, 0, 19, 0, 0, 0x57, 0xB1, 0, 0, 0, 0])]⟩
  code := some ⟨1, 0, [0xBA, 0, 19, 0, 0, 0x57, 0xB1], []⟩

/-- The class. -/
def cls : ClassFile where
  major := 52
  minor := 0
  accessFlags := 0x0021
  name := some name
  superName := some "java/lang/Object"
  interfaces := []
  methods := [caller, body]
  pool := ⟨#[none, some (.utf8 name), some (.utf8 name), some (.classRef 1), some (.classRef 2),
    some (.utf8 "l"), some (.utf8 "(LS;)I"), some (.nameAndType 5 6), some (.member .method 4 7),
    some (.methodHandle 6 8), some (.utf8 "S"), some (.classRef 10), some (.utf8 "length"),
    some (.utf8 "()I"), some (.nameAndType 12 13), some (.member .method 11 14), some (.utf8 "f"),
    some (.utf8 "()LF;"), some (.nameAndType 16 17), some (.invokeDynamic 0 18),
    some (.utf8 "Code"), some (.utf8 "m"), some (.utf8 "()V"), some (.utf8 "BootstrapMethods"),
    some (.utf8 "java/lang/Object"), some (.classRef 24)]⟩
  attributes := ⟨[("BootstrapMethods", [0, 1, 0, 9, 0, 1, 0, 9])]⟩
  sourceFile := none

/-- The handle that `m` makes a function of. -/
def handle : MethodHandle := ⟨.invokeStatic, ⟨.method, name, "l", "(LS;)I"⟩⟩

theorem decode_source : ClassFile.decode source.data = .ok cls := by decide +kernel

/-- The handle is taken to point at `l`. -/
theorem lambdaTarget_handle : handle.lambdaTarget cls.name = .ok (some body.key) := by
  decide +kernel

/-- The call of the foreign handle is reported. -/
theorem result_visit :
    (cls.visit 52).result = .ok [⟨.normal, name, "m", "()V", 0, none, none, some "l"⟩] := by
  cbv

/-- The analysis of its bytes reports the same. -/
theorem result_analyse : (source.analyse 52).result =
    .ok (some [⟨.normal, name, "m", "()V", 0, none, none, some "l"⟩]) := by
  simp only [Source.analyse, decode_source, result_visit]
  rfl

open ClassFile (textConstant readsConstant_text)

/-- The first constant is the name of the class. -/
theorem textAt_own : TextAt source.data 1 (encode own) := by
  have hdata : source.data = source.data.take 8 ++ (Bytes.ofNat 2 26 ++
      (([] : List (Bytes × Constant)).flatMap Prod.fst ++
        (textConstant (encode own) ++ source.data.drop 19))) := by
    decide +kernel
  exact .intro hdata (by decide) (by decide) nofun (by decide) rfl (by decide)

/-- The first constant of the class file. -/
def first : Bytes × Constant := (textConstant (encode own), .utf8 (Utf8.decode (encode own)))

/-- The second constant is the name of the owner of the handle. -/
theorem textAt_foreign : TextAt source.data 2 (encode foreign) := by
  have hdata : source.data = source.data.take 8 ++ (Bytes.ofNat 2 26 ++
      ([first].flatMap Prod.fst ++ (textConstant (encode foreign) ++ source.data.drop 28))) := by
    decide +kernel
  exact .intro hdata (by decide) (by decide)
    (List.forall_mem_singleton.2 (readsConstant_text (by decide))) (by decide) rfl (by decide)

/-- The class constant of the class is the one in slot 3. -/
theorem indices_source :
    ClassFile.within source.data ClassFile.readIndices = .ok ⟨3, [(21, 22), (5, 6)]⟩ := by
  decide +kernel

/-- The handle's owner is the class named `foreign`. -/
theorem handleTextsAt_source :
    ∃ name descriptor, HandleTextsAt source.data cls.pool 9 (encode foreign) name descriptor := by
  obtain ⟨name, hname, -⟩ :=
    (ClassFile.utf8_eq_ok_iff_textAt decode_source 5).1 (by decide : cls.pool.utf8 5 = .ok "l")
  obtain ⟨descriptor, hdescriptor, -⟩ := (ClassFile.utf8_eq_ok_iff_textAt decode_source 6).1
    (by decide : cls.pool.utf8 6 = .ok "(LS;)I")
  exact ⟨name, descriptor, .intro (rfl : cls.pool.entry 9 = .ok (.methodHandle 6 8)) rfl
    (.intro rfl textAt_foreign) rfl hname hdescriptor⟩

end Lookalike

/-- The theorem at the handle of that class: its owner and the class have names that are alike, and
so have the target and the method `l`. -/
theorem names_told_apart_lookalike :
    ∃ owner name descriptor own, HandleTextsAt Lookalike.source.data Lookalike.cls.pool 9 owner
        name descriptor ∧
      ClassTextAt Lookalike.source.data Lookalike.cls.pool 3 own ∧ Alike owner own ∧
      ∃ name' descriptor', TextAt Lookalike.source.data 5 name' ∧
        TextAt Lookalike.source.data 6 descriptor' ∧ Alike name name' ∧
        Alike descriptor descriptor' := by
  obtain ⟨-, -, indices, hindices, hcompared⟩ := names_told_apart Lookalike.decode_source
  cases Lookalike.indices_source.symm.trans hindices
  obtain ⟨owner, name, descriptor, own, hhandle, hown, howner, hmethods⟩ :=
    hcompared 9 Lookalike.handle Lookalike.body.key (by decide) Lookalike.lambdaTarget_handle
  obtain ⟨i, j, name', descriptor', hindices, htexts⟩ :=
    hmethods 1 Lookalike.body rfl ⟨by decide, rfl⟩
  cases hindices
  exact ⟨owner, name, descriptor, own, hhandle, hown, howner, name', descriptor', htexts⟩

/-- **Different names may be read as one string, and then a handle of another class is taken for one
of the class.** Two text constants of `Lookalike.source` are modified UTF-8 of different bytes and
have the same string. One of them is the name of the class, the other one that of the owner of a
handle. The handle is taken to point at a body of the class, and the call that is linked to it is
reported. -/
theorem foreign_handle_reported :
    TextAt Lookalike.source.data 1 (encode Lookalike.own) ∧
      TextAt Lookalike.source.data 2 (encode Lookalike.foreign) ∧
      encode Lookalike.own ≠ encode Lookalike.foreign ∧
      ∃ cls, ClassFile.decode Lookalike.source.data = .ok cls ∧
        cls.pool.utf8 1 = .ok Lookalike.name ∧ cls.pool.utf8 2 = .ok Lookalike.name ∧
        (∃ indices, ClassFile.within Lookalike.source.data ClassFile.readIndices = .ok indices ∧
          ClassTextAt Lookalike.source.data cls.pool indices.own (encode Lookalike.own)) ∧
        (∃ name descriptor, HandleTextsAt Lookalike.source.data cls.pool 9
          (encode Lookalike.foreign) name descriptor) ∧
        (∃ handle key, cls.pool.methodHandle 9 = .ok handle ∧
          handle.lambdaTarget cls.name = .ok (some key)) ∧
        (Lookalike.source.analyse 52).result =
          .ok (some [⟨.normal, Lookalike.name, "m", "()V", 0, none, none, some "l"⟩]) :=
  ⟨Lookalike.textAt_own, Lookalike.textAt_foreign, by decide, Lookalike.cls,
    Lookalike.decode_source, rfl, rfl,
    ⟨_, Lookalike.indices_source, .intro rfl Lookalike.textAt_own⟩,
    Lookalike.handleTextsAt_source, ⟨Lookalike.handle, _, rfl, Lookalike.lambdaTarget_handle⟩,
    Lookalike.result_analyse⟩

end Forwarder
