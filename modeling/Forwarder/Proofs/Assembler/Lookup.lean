import Forwarder.Assembler.Class
import Forwarder.Proofs.Assembler.Pool

/-!
# Additions are looked up again

The index that an addition to a pool hands out resolves to what was added, in whatever pool comes
out in the end and whatever the pool held before: `PoolBuilder.Yields` says this of a computation on
pools, and composes along the sequences that additions are made of (`Yields.bind`). `yields_member`,
`yields_invokeDynamic` and `yields_lambdaConstants` are what code and bootstrap methods refer to.
-/

namespace Forwarder

namespace PoolBuilder

/-- A computation makes a pool grow, and what it gives has a property in every extension of the pool
behind it, if the pool before it is consistent. -/
def Yields {α : Type} (m : Pooling α) (P : α → ConstantPool → Prop) : Prop :=
  ∀ p : PoolBuilder, p.Grows (m p).2 ∧
    (p.Consistent → ∀ q : PoolBuilder, (m p).2.Extends q → P (m p).1 q.pool)

section Yields

variable {α β : Type} {m : Pooling α} {f : α → Pooling β} {P P' : α → ConstantPool → Prop}
  {Q : α → β → ConstantPool → Prop}

/-- A sequence gives what its second part gives for something that the first part gives. -/
theorem Yields.bind (h : Yields m P) (h' : ∀ a, Yields (f a) (Q a)) :
    Yields (m >>= f) fun b pool => ∃ a, P a pool ∧ Q a b pool := by
  intro p
  obtain ⟨hg, hfirst⟩ := h p
  obtain ⟨hg', hsecond⟩ := h' (m p).1 (m p).2
  refine ⟨hg.trans hg', fun hp q hq => ⟨(m p).1, hfirst hp q (hg'.toExtends.trans hq), ?_⟩⟩
  exact hsecond (hg.consistent hp) q hq

/-- What a computation yields is also what it yields by every weaker condition. -/
theorem Yields.mono (h : Yields m P) (hP : ∀ a pool, P a pool → P' a pool) : Yields m P' :=
  fun p => ⟨(h p).1, fun hp q hq => hP _ _ ((h p).2 hp q hq)⟩

/-- What is given is yielded as it is. -/
theorem yields_pure (a : α) : Yields (pure a) fun b _ => b = a :=
  fun p => ⟨.refl p, fun _ _ _ => rfl⟩

/-- The index of a constant resolves to it. -/
theorem yields_intern {c : Constant} (hc : c.IsStandard) :
    Yields (intern c) fun i pool => pool.entry i = .ok c := by
  intro p
  obtain ⟨hg, hholds⟩ := intern_spec hc p
  refine ⟨hg, fun hp q hq => ?_⟩
  exact (hq.consistent (hg.consistent hp)).entry_eq ((hholds hp).mono hq)

/-- The index of a text resolves to it. -/
theorem yields_utf8 (text : String) :
    Yields (utf8 text) fun i pool => pool.utf8 i = .ok text := by
  exact (yields_intern (c := .utf8 text) nofun).mono fun i pool => ConstantPool.utf8_eq_ok_iff.2

/-- The index of a class resolves to its name. -/
theorem yields_classRef (name : String) :
    Yields (classRef name) fun i pool => pool.className i = .ok name := by
  refine ((yields_utf8 name).bind fun j => yields_intern (c := .classRef j) nofun).mono ?_
  rintro i pool ⟨j, hj, hi⟩
  exact ConstantPool.className_eq_ok_iff.2 ⟨j, hi, hj⟩

/-- The index of a name with a descriptor resolves to both of them. -/
theorem yields_nameAndType (name descriptor : String) :
    Yields (nameAndType name descriptor) fun i pool =>
      pool.nameAndType i = .ok (name, descriptor) := by
  refine ((yields_utf8 name).bind fun j => (yields_utf8 descriptor).bind fun k =>
    yields_intern (c := .nameAndType j k) nofun).mono ?_
  rintro i pool ⟨j, hj, k, hk, hi⟩
  exact ConstantPool.nameAndType_eq_ok_iff.2 ⟨j, k, hi, hj, hk⟩

/-- The index of a member resolves to it. -/
theorem yields_member (kind : MemberKind) (owner name descriptor : String) :
    Yields (member kind owner name descriptor) fun i pool =>
      pool.member i = .ok ⟨kind, owner, name, descriptor⟩ := by
  refine ((yields_classRef owner).bind fun j => (yields_nameAndType name descriptor).bind fun k =>
    yields_intern (c := .member kind j k) nofun).mono ?_
  rintro i pool ⟨j, hj, k, hk, hi⟩
  exact ConstantPool.member_eq_ok_iff.2 ⟨j, k, hi, hj, hk⟩

/-- The index of a dynamic call resolves to it. -/
theorem yields_invokeDynamic (bootstrap : Int) (name descriptor : String) :
    Yields (invokeDynamic bootstrap name descriptor) fun i pool =>
      pool.dynamicCall i = .ok ⟨bootstrap, name, descriptor⟩ := by
  refine ((yields_nameAndType name descriptor).bind fun j =>
    yields_intern (c := .invokeDynamic bootstrap j) nofun).mono ?_
  rintro i pool ⟨j, hj, hi⟩
  exact ConstantPool.dynamicCall_eq_ok_iff.2 ⟨j, hi, hj⟩

/-- The index of a method handle resolves to it, if that of its member does. -/
theorem yields_methodHandle (kind : HandleKind) (reference : Nat) :
    Yields (methodHandle kind.number reference) fun i pool =>
      ∀ member, pool.member reference = .ok member →
        pool.methodHandle i = .ok ⟨kind, member⟩ := by
  refine (yields_intern (c := .methodHandle kind.number reference) nofun).mono ?_
  intro i pool hi member hmember
  exact ConstantPool.methodHandle_eq_ok_iff.2
    ⟨_, _, hi, HandleKind.ofNumber?_number kind, hmember⟩

/-- The index of a method type resolves to a constant of that kind with its text. -/
theorem yields_methodType (descriptor : String) :
    Yields (methodType descriptor) fun i pool =>
      ∃ text, pool.entry i = .ok (.methodType text) ∧ pool.utf8 text = .ok descriptor := by
  refine ((yields_utf8 descriptor).bind fun j => yields_intern (c := .methodType j) nofun).mono ?_
  rintro i pool ⟨j, hj, hi⟩
  exact ⟨j, hi, hj⟩

/-- The arguments of a lambda's bootstrap method are a method type, the handle of the lambda's body
and another method type. -/
theorem yields_lambdaConstants (owner name descriptor interfaceDescriptor : String) :
    Yields (ClassBuilder.lambdaConstants owner name descriptor interfaceDescriptor
      HandleKind.invokeStatic.number) fun draft pool =>
        ∃ interfaceType handle instantiated : Nat,
          draft.arguments = [(interfaceType : Int), handle, instantiated] ∧
          (∃ text, pool.entry interfaceType = .ok (.methodType text)) ∧
          pool.methodHandle handle = .ok ⟨.invokeStatic, ⟨.method, owner, name, descriptor⟩⟩ := by
  refine ((yields_member _ _ _ _).bind fun factory =>
    (yields_methodHandle .invokeStatic factory).bind fun method =>
    (yields_methodType interfaceDescriptor).bind fun interfaceType =>
    (yields_member .method owner name descriptor).bind fun body =>
    (yields_methodHandle .invokeStatic body).bind fun handle =>
    (yields_methodType descriptor).bind fun instantiated => yields_pure _).mono ?_
  rintro draft pool ⟨_, -, _, -, interfaceType, ⟨text, htype, -⟩, body, hbody, handle, hhandle,
    instantiated, -, rfl⟩
  exact ⟨interfaceType, handle, instantiated, rfl, ⟨text, htype⟩, hhandle _ hbody⟩

end Yields

end PoolBuilder

end Forwarder
