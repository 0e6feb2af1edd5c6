import Forwarder.Proofs.Assembler.Encoding

/-!
# Writers intern their constants

All that a writer does to its pool is to intern constants in it, and it looks at nothing else of the
pool: `Encoding.Interns` says so, with one lemma for each writer, up to
`ClassBuilder.interns_encodeBody`. So a writer keeps what interning keeps (`Interns.filled`,
`Interns.extends_pool`), and if it runs again on the pool that it has left, or on one that recalls
its index, it finds every constant in its place, writes the same and adds nothing
(`Interns.replays`).
-/

namespace Forwarder

open ClassFile Encoding

namespace PoolBuilder

/-- A pool that constants have been interned in, of any tag and with any operands. -/
inductive Filled : PoolBuilder → Prop
  | empty : Filled empty
  | intern {p : PoolBuilder} (c : Constant) : Filled p → Filled (intern c p).2

section Filled

variable {p : PoolBuilder}

/-- The slots behind the first one are those of some constants. -/
theorem Filled.layout (h : p.Filled) :
    ∃ cs : List Constant, p.slots.toList = none :: cs.flatMap Constant.cells := by
  induction h with
  | empty => exact ⟨[], rfl⟩
  | @intern p c _ ih =>
    obtain ⟨cs, hcs⟩ := ih
    unfold PoolBuilder.intern
    split
    · exact ⟨cs, hcs⟩
    · refine ⟨cs ++ [c], ?_⟩
      rw [toList_slots_append, hcs, List.flatMap_append, List.flatMap_singleton, List.cons_append]

/-- A pool that more constants are interned in is still filled by interning. -/
theorem Filled.internAll (h : p.Filled) (cs : List Constant) : (p.internAll cs).Filled := by
  induction cs generalizing p with
  | nil => exact h
  | cons c cs ih => exact ih (.intern c h)

end Filled

end PoolBuilder

namespace Encoding

section Interns

variable {α β : Type} {m : Encoding α} {f : α → Encoding β}

/-- A writer interns constants in its pool. It does the same, and leaves the pool as it is, on a pool
that recalls what the writer has left. -/
def Interns (m : Encoding α) : Prop :=
  ∀ ⦃p a p'⦄, Writes m p a p' →
    (∃ cs, p' = p.internAll cs) ∧ ∀ ⦃q : PoolBuilder⦄, q.Recalls p' → Writes m q a q

/-- What two writers intern is interned by one after the other. -/
theorem Interns.bind (h : Interns m) (h' : ∀ a, Interns (f a)) : Interns (m >>= f) := by
  intro p b p' hw
  obtain ⟨a, p₁, hm, hf⟩ := writes_bind_iff.1 hw
  obtain ⟨⟨cs, rfl⟩, hreplay⟩ := h hm
  obtain ⟨⟨ds, rfl⟩, hreplay'⟩ := h' a hf
  refine ⟨⟨cs ++ ds, (List.foldl_append ..).symm⟩, fun q hq => ?_⟩
  have hfirst : q.Recalls (p.internAll cs) := fun c i hc =>
    hq ((PoolBuilder.extends_internAll _ ds).recalls hc)
  exact (hreplay hfirst).bind (hreplay' hq)

section Interns

variable {p p' : PoolBuilder} {a : α} (h : Interns m) (hw : Writes m p a p')

include h hw

/-- What an interning writer leaves of a pool that is filled by interning is filled by it, too. -/
theorem Interns.filled (hp : p.Filled) : p'.Filled := by
  obtain ⟨⟨cs, rfl⟩, -⟩ := h hw
  exact hp.internAll cs

/-- An interning writer only extends the pool. -/
theorem Interns.extends_pool : p.Extends p' := by
  obtain ⟨⟨cs, rfl⟩, -⟩ := h hw
  exact PoolBuilder.extends_internAll p cs

/-- A writer that runs again on the pool that it has left does the same, and leaves that pool. -/
theorem Interns.replays : Writes m p' a p' := (h hw).2 fun _ _ => id

end Interns

/-- What does not depend on the pool does nothing to it. -/
theorem interns_ofExcept (e : Except EncodeError α) : Interns (ofExcept e) := by
  intro p a p' hw
  obtain ⟨he, rfl⟩ := writes_ofExcept_iff.1 hw
  exact ⟨⟨[], rfl⟩, fun q _ => writes_ok he⟩

/-- What is given interns nothing. -/
theorem interns_pure (a : α) : Interns (pure a) := by
  intro p a' p' hw
  obtain ⟨rfl, rfl⟩ := writes_pure_iff.1 hw
  exact ⟨⟨[], rfl⟩, fun q _ => writes_pure a⟩

/-- A list of interning writers interns what each of them does. -/
theorem interns_mapM {g : β → Encoding α} (h : ∀ b, Interns (g b)) (l : List β) :
    Interns (l.mapM g) := by
  induction l with
  | nil => exact interns_pure []
  | cons b l ih =>
    rw [List.mapM_cons]
    exact (h b).bind fun a => ih.bind fun as => interns_pure (a :: as)

/-- A constant that has been interned is found where it was put. -/
theorem interns_intern (c : Constant) : Interns (liftM (PoolBuilder.intern c)) := by
  intro p i p' hw
  obtain ⟨rfl, rfl⟩ := writes_lift_iff.1 hw
  exact ⟨⟨[c], rfl⟩, fun q hq => writes_lift (PoolBuilder.intern_of_recalls hq)⟩

/-- The index of a text is interned with it. -/
theorem interns_utf8Index (text : String) : Interns (encodeIndex (PoolBuilder.utf8 text)) :=
  (interns_intern (.utf8 text)).bind fun _ => interns_ofExcept _

theorem interns_classIndex (name : String) : Interns (encodeIndex (PoolBuilder.classRef name)) := by
  have hclass : Interns (do
      let text ← liftM (PoolBuilder.utf8 name)
      liftM (PoolBuilder.intern (.classRef (text : Nat))) : Encoding Nat) :=
    (interns_intern (.utf8 name)).bind fun text => interns_intern (.classRef text)
  exact hclass.bind fun _ => interns_ofExcept _

/-- An attribute interns its name. -/
theorem interns_attribute (name : String) (data : Bytes) : Interns (encodeAttribute name data) :=
  (interns_utf8Index name).bind fun _ => (interns_ofExcept _).bind fun _ => interns_pure _

theorem interns_attributes (values : List (String × Bytes)) :
    Interns (values.mapM fun (name, data) => encodeAttribute name data) :=
  interns_mapM (fun (name, data) => interns_attribute name data) values

/-- A member interns its name and its descriptor. -/
theorem interns_member (flags : Int) (name descriptor : String) :
    Interns (encodeMember flags name descriptor) :=
  (interns_intern (.utf8 name)).bind fun _ => (interns_intern (.utf8 descriptor)).bind fun _ =>
    (interns_ofExcept _).bind fun _ => (interns_ofExcept _).bind fun _ =>
      (interns_ofExcept _).bind fun _ => interns_pure _

end Interns

end Encoding

/-- The attributes of a code intern the name of the line number table, if there is one. -/
theorem CodeDraft.interns_encodeAttributes (d : CodeDraft) : Interns d.encodeAttributes := by
  unfold encodeAttributes
  split
  · exact interns_ofExcept _
  · exact (interns_ofExcept _).bind fun _ => (interns_ofExcept _).bind fun _ =>
      (interns_attribute _ _).bind fun _ => interns_pure _

/-- A code interns the names of its attributes and of itself. -/
theorem CodeDraft.interns_encode (d : CodeDraft) : Interns d.encode :=
  (interns_ofExcept _).bind fun _ => (interns_ofExcept _).bind fun _ =>
    (interns_ofExcept _).bind fun _ => (interns_ofExcept _).bind fun _ =>
      d.interns_encodeAttributes.bind fun _ => interns_attribute _ _

theorem FieldDraft.interns_encode (f : FieldDraft) : Interns f.encode :=
  (interns_member _ _ _).bind fun _ => (interns_ofExcept _).bind fun _ => interns_pure _

/-- A method interns its name, its descriptor and what its code interns. -/
theorem MethodDraft.interns_encode (m : MethodDraft) : Interns m.encode := by
  refine (interns_member _ _ _).bind fun head => ?_
  split
  · exact (interns_ofExcept _).bind fun _ => interns_pure _
  · exact (interns_ofExcept _).bind fun _ => (CodeDraft.interns_encode _).bind fun _ =>
      interns_pure _

namespace ClassBuilder

variable {b : ClassBuilder}

/-- The name of the source file is interned, if there is one. -/
theorem interns_sourceAttribute : Interns b.sourceAttribute := by
  unfold sourceAttribute
  split
  · exact interns_pure _
  · split
    · exact interns_pure _
    · exact (interns_utf8Index _).bind fun _ => interns_pure _

/-- The bootstrap table interns nothing. -/
theorem interns_bootstrapAttribute : Interns b.bootstrapAttribute := by
  unfold bootstrapAttribute
  split
  · exact interns_pure _
  · exact (interns_ofExcept _).bind fun _ => interns_pure _

/-- What is written behind the pool of a class interns constants and does nothing else to the
pool. -/
theorem interns_encodeBody : Interns b.encodeBody :=
  (interns_ofExcept _).bind fun _ => (interns_classIndex _).bind fun _ =>
    (interns_classIndex _).bind fun _ => (interns_ofExcept _).bind fun _ =>
      (interns_mapM interns_classIndex _).bind fun _ => (interns_ofExcept _).bind fun _ =>
        (interns_mapM FieldDraft.interns_encode _).bind fun _ => (interns_ofExcept _).bind fun _ =>
          (interns_mapM MethodDraft.interns_encode _).bind fun _ =>
            interns_sourceAttribute.bind fun _ => interns_bootstrapAttribute.bind fun _ =>
              (interns_ofExcept _).bind fun _ =>
                (interns_attributes _).bind fun _ => interns_pure _

end ClassBuilder

end Forwarder
