import Forwarder.Proofs.Assembler.Plan
import Forwarder.Proofs.Assembler.RoundTrip
import Forwarder.Proofs.CallSite.Link

/-!
# An assembled class reads back

`ClassPlan.ReadAs` relates the plan of a class to a class that was read: its methods have the code
that the calls of the plan leave, and its bootstrap methods have the bodies of the lambdas. The
bytes of an assembled class decode to such a class (`Assembled.exists_decode`).
-/

namespace Forwarder

open CodeBuilder (Outline)

/-- A method that was read is the one that was planned, with the outline of its calls as its code
and with its lines in order. -/
structure MethodPlan.ReadAs (m : MethodPlan) (pool : ConstantPool) (method : Method) : Prop where
  isSynthetic_eq : method.isSynthetic = m.accessFlags.toNat.testBit 12
  key_eq : method.key = m.key
  code : ∃ code instrs lines, method.code = some code ∧ code.bytes = Instruction.bytesOf instrs ∧
    Outline pool 0 m.calls instrs lines ∧ code.lines.Perm lines ∧
    code.lines.Pairwise fun a b => a.ble b

/-- The bootstrap methods of a table are those of the lambdas of a class, in order. -/
def BootstrapTable.Links (table : BootstrapTable) (className : String) (pool : ConstantPool)
    (lambdas : List LambdaPlan) : Prop :=
  List.Forall₂ (fun lambda entry => entry.FirstHandle pool (lambda.handle className)) lambdas
    table.entries.toList

/-- A class that was read is the one that was planned, under a name. -/
structure ClassPlan.ReadAs (plan : ClassPlan) (className : String) (cls : ClassFile) : Prop where
  name : cls.name = some className
  methods : List.Forall₂ (fun m method => m.ReadAs cls.pool method)
    (plan.parts.filterMap Part.method?) cls.methods
  noBootstrap : cls.attributes.find? BootstrapTable.attributeName = none ↔ plan.lambdas = []
  bootstrap : ∀ {data}, cls.attributes.find? BootstrapTable.attributeName = some data →
    ∃ table, BootstrapTable.decode data = .ok table ∧ table.Links className cls.pool plan.lambdas

section Lists

variable {α β γ : Type} {R : α → β → Prop} {S : β → γ → Prop} {T : α → γ → Prop}

/-- Lists that are related element by element to the same list are related to each other. -/
theorem forall₂_trans (hT : ∀ a b c, R a b → S b c → T a c) {l : List α} {l' : List β}
    {l'' : List γ} (h : List.Forall₂ R l l') (h' : List.Forall₂ S l' l'') :
    List.Forall₂ T l l'' := by
  induction h generalizing l'' with
  | nil =>
    cases h' with
    | nil => exact .nil
  | cons hR _ ih =>
    cases h' with
    | cons hS h' => exact .cons (hT _ _ _ hR hS) (ih h')

/-- An element of the second list is related to one of the first. -/
theorem forall₂_mem_right {l : List α} {l' : List β} (h : List.Forall₂ R l l') {b : β}
    (hb : b ∈ l') : ∃ a ∈ l, R a b := by
  induction h with
  | nil => cases hb
  | @cons a _ l _ hR _ ih =>
    rcases List.mem_cons.1 hb with rfl | hb
    · exact ⟨a, List.mem_cons_self, hR⟩
    · obtain ⟨a', ha', hR'⟩ := ih hb
      exact ⟨a', List.mem_cons_of_mem a ha', hR'⟩

end Lists

/-- What describes a planned method under construction is that method. -/
theorem MethodPlan.Drafts.readAs {m : MethodPlan} {pool : ConstantPool} {draft : MethodDraft}
    {method : Method} (h : m.Drafts pool draft) (hread : draft.Describes method) :
    m.ReadAs pool method := by
  obtain ⟨code, instrs, hcode, hbytes, houtline⟩ := h.code
  obtain ⟨read, hmethod, hrel⟩ := hread.exists_code hcode
  refine ⟨?_, ?_, read, instrs, _, hmethod, hrel.bytes.trans hbytes, houtline, hrel.lines,
    hrel.sorted⟩
  · rw [Method.isSynthetic, ← h.accessFlags, ← hread.accessFlags, Int.toNat_natCast]
  · rw [Method.key, MethodPlan.key, hread.name, h.name, hread.descriptor, h.descriptor]

/-- The first method handle of a lambda's bootstrap method is that of its body. -/
theorem LambdaPlan.Drafts.firstHandle {lambda : LambdaPlan} {className : String}
    {pool : ConstantPool} {entry : BootstrapEntry} (h : lambda.Drafts className pool entry.draft) :
    entry.FirstHandle pool (lambda.handle className) := by
  obtain ⟨interfaceType, handle, instantiated, harguments, ⟨text, htext⟩, hhandle⟩ := h.arguments
  have hentry : entry.arguments = [interfaceType, handle, instantiated] :=
    List.map_injective_iff.2 (fun _ _ => Int.ofNat.inj) harguments
  refine ⟨[interfaceType], handle, [instantiated], hentry, fun a ha => ?_, hhandle⟩
  rw [List.mem_singleton.1 ha]
  exact ⟨_, htext, nofun⟩

section Assembled

variable {b : ClassBuilder} {plan : ClassPlan} {w : Workspace} {bs : Bytes}

/-- **The bytes of an assembled class decode to the class that was planned.** -/
theorem Assembled.exists_decode (ha : Assembled b plan.parts w) (hp : b.pool.Sound)
    (hattributes : b.attributes = #[]) (hbytes : w.cls.encode.1 = .ok bs) :
    ∃ cls, ClassFile.decode bs = .ok cls ∧ plan.ReadAs b.name cls ∧ (cls.major : Int) = b.major ∧
      cls.sourceFile = b.source := by
  have hnone : w.cls.attributes = #[] := (congrArg ClassBuilder.attributes ha.cls).trans hattributes
  have hfree (name : String) (d : Bytes) : (name, d) ∉ w.cls.attributes.toList := by
    rw [hnone]
    exact List.not_mem_nil
  obtain ⟨hg, cls, hcls, hdescribes, hpool⟩ := ClassBuilder.exists_decode_of_writes
    (ha.grows.sound hp) (hfree _) (hfree _) (ClassBuilder.encode_eq_ok_iff.1 ⟨hbytes, rfl⟩)
  refine ⟨cls, hcls, ⟨?_, ?_, ?_, ?_⟩, ?_, ?_⟩
  · exact hdescribes.name.trans (congrArg (fun b => some b.name) ha.cls)
  · rw [hpool]
    exact forall₂_trans (fun _ _ _ hdrafts hread => hdrafts.readAs hread) (ha.methods _ hg)
      hdescribes.methods
  · rw [hdescribes.noBootstrap, ← List.length_eq_zero_iff, ← List.length_eq_zero_iff,
      ← (ha.bootstrap _ hg).length_eq]
    rfl
  · intro data hdata
    obtain ⟨table, htable, hentries⟩ := hdescribes.bootstrap hdata
    have hdrafts := ha.bootstrap _ hg
    rw [← hentries, List.forall₂_map_right_iff, ← hpool] at hdrafts
    exact ⟨table, htable, hdrafts.imp fun _ _ h => h.firstHandle⟩
  · rw [hdescribes.major, ha.cls]
  · rw [hdescribes.sourceFile, ha.cls]
    rfl

end Assembled

end Forwarder
