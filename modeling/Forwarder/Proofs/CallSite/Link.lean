import Forwarder.CallSite
import Forwarder.Proofs.ConstantPool
import Forwarder.Proofs.Decoding
import Forwarder.Proofs.Descriptor

/-!
# What a dynamic call is linked to

`LinkedTo` says without reference to any lookup order which body the dynamic call of a constant is
linked to, as a candidate: the call resolves, the first method handle among the arguments of its
bootstrap entry resolves, and it points at a static method of the class that returns something.
`link_eq_some_iff` says that `CallSite.link` finds exactly this, `link_eq_table_error` when it fails
at the bootstrap table.
-/

namespace Forwarder

namespace BootstrapEntry

/-- A method handle is the first one among the arguments of a bootstrap entry: the arguments before
it resolve to other constants. -/
def FirstHandle (pool : ConstantPool) (e : BootstrapEntry) (handle : MethodHandle) : Prop :=
  ∃ (before : List Nat) (arg : Nat) (after : List Nat), e.arguments = before ++ arg :: after ∧
    (∀ a ∈ before, ∃ c, pool.entry a = .ok c ∧ ∀ kind ref, c ≠ .methodHandle kind ref) ∧
    pool.methodHandle arg = .ok handle

/-- What resolves as a method handle is a constant of that kind. -/
theorem entry_of_methodHandle {pool : ConstantPool} {index : Int} {handle : MethodHandle}
    (h : pool.methodHandle index = .ok handle) :
    ∃ kind ref, pool.entry index = .ok (.methodHandle kind ref) := by
  obtain ⟨number, ref, hentry, -⟩ := ConstantPool.methodHandle_eq_ok_iff.1 h
  exact ⟨number, ref, hentry⟩

/-- A first argument that is a handle is the first handle. -/
theorem firstHandle_cons_handle {pool : ConstantPool} {arg : Nat} {args : List Nat} {kind ref : Int}
    (h : pool.entry arg = .ok (.methodHandle kind ref)) :
    firstHandle pool (arg :: args) = (pool.methodHandle arg).map some := by
  simp only [firstHandle, h, bind, Except.bind]
  cases pool.methodHandle arg <;> rfl

/-- A first argument that is no handle is passed over. -/
theorem firstHandle_cons_other {pool : ConstantPool} {arg : Nat} {args : List Nat} {c : Constant}
    (h : pool.entry arg = .ok c) (hc : ∀ kind ref, c ≠ .methodHandle kind ref) :
    firstHandle pool (arg :: args) = firstHandle pool args := by
  simp only [firstHandle, h, bind, Except.bind]

/-- The search among the arguments finds exactly the first method handle. -/
theorem firstHandle_eq_some_iff {pool : ConstantPool} {args : List Nat} {handle : MethodHandle} :
    firstHandle pool args = .ok (some handle) ↔
      ∃ (before : List Nat) (arg : Nat) (after : List Nat), args = before ++ arg :: after ∧
        (∀ a ∈ before, ∃ c, pool.entry a = .ok c ∧ ∀ kind ref, c ≠ .methodHandle kind ref) ∧
        pool.methodHandle arg = .ok handle := by
  induction args with
  | nil => simp [firstHandle]
  | cons arg args ih =>
    constructor
    · intro h
      obtain ⟨c, hc, -⟩ := except_bind_eq_ok.1 h
      by_cases hk : ∃ kind ref, c = .methodHandle kind ref
      · obtain ⟨kind, ref, rfl⟩ := hk
        rw [firstHandle_cons_handle hc] at h
        cases hm : pool.methodHandle arg with
        | error e => simp [hm, Except.map] at h
        | ok handle' =>
          simp only [hm, Except.map, Except.ok.injEq, Option.some.injEq] at h
          subst h
          exact ⟨[], arg, args, rfl, by simp, hm⟩
      · have hk : ∀ kind ref, c ≠ .methodHandle kind ref := fun kind ref h => hk ⟨kind, ref, h⟩
        rw [firstHandle_cons_other hc hk] at h
        obtain ⟨before, arg', after, rfl, hbefore, hm⟩ := ih.1 h
        refine ⟨arg :: before, arg', after, rfl, fun a ha => ?_, hm⟩
        rcases List.mem_cons.1 ha with rfl | ha
        · exact ⟨c, hc, hk⟩
        · exact hbefore a ha
    · rintro ⟨before, arg', after, happ, hbefore, hm⟩
      cases before with
      | nil =>
        obtain ⟨rfl, rfl⟩ := List.cons.inj happ
        obtain ⟨kind, ref, hentry⟩ := entry_of_methodHandle hm
        rw [firstHandle_cons_handle hentry, hm]
        rfl
      | cons a before =>
        obtain ⟨rfl, rfl⟩ := List.cons.inj happ
        obtain ⟨c, hc, hk⟩ := hbefore arg List.mem_cons_self
        rw [firstHandle_cons_other hc hk]
        exact ih.2 ⟨before, arg', after, rfl,
          fun a ha => hbefore a (List.mem_cons_of_mem _ ha), hm⟩

end BootstrapEntry

/-- A handle points at the static method of a key in a class, and the descriptor of the method is
the text of a descriptor that returns something. -/
structure MethodHandle.PointsAt (handle : MethodHandle) (owner : Option String) (key : MethodKey) :
    Prop where
  kind_eq : handle.kind = .invokeStatic
  owner_eq : owner = some handle.member.owner
  returns : ∃ d : MethodDescriptor, d.WellFormed ∧ handle.member.descriptor = d.toString ∧
    d.returnType.isSome
  key_eq : key = ⟨handle.member.name, handle.member.descriptor⟩

/-- A text is parsed exactly as the well-formed descriptor that spells it. -/
theorem MethodDescriptor.parse_eq_ok {text : String} {d : MethodDescriptor} :
    MethodDescriptor.parse text = .ok d ↔ d.WellFormed ∧ text = d.toString := by
  rw [← parse?_eq_some_iff]
  unfold MethodDescriptor.parse
  cases parse? text <;> simp

/-- A handle has a body as its target exactly if it points at it. -/
theorem MethodHandle.lambdaTarget_eq_some_iff {handle : MethodHandle} {owner : Option String}
    {key : MethodKey} :
    handle.lambdaTarget owner = .ok (some key) ↔ handle.PointsAt owner key := by
  unfold lambdaTarget
  constructor
  · intro h
    split at h
    · cases h
    · rename_i hkind
      split at h
      · cases h
      · rename_i howner
        split at h
        · cases h
        · rename_i d hd
          split at h
          · cases h
          · rename_i hvoid
            cases h
            obtain ⟨hwf, htext⟩ := MethodDescriptor.parse_eq_ok.1 hd
            refine ⟨by simpa using hkind, ?_, ⟨d, hwf, htext, ?_⟩, rfl⟩
            · exact (Decidable.not_not.1 howner).symm
            · simpa [MethodDescriptor.isVoid, Option.isSome_iff_ne_none] using hvoid
  · rintro ⟨hkind, rfl, ⟨d, hwf, htext, hret⟩, rfl⟩
    have hd := MethodDescriptor.parse_eq_ok.2 ⟨hwf, htext⟩
    have hvoid : d.isVoid = false := by
      unfold MethodDescriptor.isVoid
      cases hr : d.returnType with
      | none => simp [hr] at hret
      | some t => rfl
    rw [if_neg (by simp [hkind]), if_neg (by simp), hd]
    simp only [hvoid, Bool.false_eq_true, if_false]

namespace CallSite

variable {cls : ClassFile} {table : BootstrapTable} {index : Nat} {key : MethodKey}

/-- The dynamic call of a constant is linked to the body of a key as a candidate. -/
def LinkedTo (cls : ClassFile) (table : BootstrapTable) (index : Nat) (key : MethodKey) : Prop :=
  ∃ call entry handle, cls.pool.dynamicCall index = .ok call ∧
    table.entry call.bootstrapIndex = .ok entry ∧ entry.FirstHandle cls.pool handle ∧
    handle.PointsAt cls.name key

/-- The lookup of a dynamic call finds exactly the body that it is linked to. -/
theorem link_eq_some_iff :
    link cls table index = .ok (some key) ↔ LinkedTo cls table index key := by
  unfold link LinkedTo
  constructor
  · intro h
    obtain ⟨call, hcall, h⟩ := except_bind_eq_ok.1 h
    obtain ⟨entry, hentry, h⟩ := except_bind_eq_ok.1 h
    obtain ⟨found, hfound, h⟩ := except_bind_eq_ok.1 h
    rw [mapError_eq_ok] at hcall hentry hfound
    cases found with
    | none => cases h
    | some handle =>
      exact ⟨call, entry, handle, hcall, hentry, BootstrapEntry.firstHandle_eq_some_iff.1 hfound,
        MethodHandle.lambdaTarget_eq_some_iff.1 (mapError_eq_ok.1 h)⟩
  · rintro ⟨call, entry, handle, hcall, hentry, hhandle, hpoints⟩
    refine except_bind_eq_ok.2 ⟨call, mapError_eq_ok.2 hcall, ?_⟩
    refine except_bind_eq_ok.2 ⟨entry, mapError_eq_ok.2 hentry, ?_⟩
    refine except_bind_eq_ok.2 ⟨some handle, mapError_eq_ok.2 ?_, ?_⟩
    · exact BootstrapEntry.firstHandle_eq_some_iff.2 hhandle
    · exact mapError_eq_ok.2 (MethodHandle.lambdaTarget_eq_some_iff.2 hpoints)

/-- The lookup of a dynamic call fails at the bootstrap table exactly if the call resolves and the
table has no entry for it. -/
theorem link_eq_table_error {e : BootstrapTable.Error} :
    link cls table index = .error (.table e) ↔
      ∃ call, cls.pool.dynamicCall index = .ok call ∧
        table.entry call.bootstrapIndex = .error e := by
  unfold link
  constructor
  · intro h
    rcases except_bind_eq_error.1 h with h | ⟨call, hcall, h⟩
    · obtain ⟨_, -, h⟩ := mapError_eq_error.1 h
      cases h
    rcases except_bind_eq_error.1 h with h | ⟨entry, -, h⟩
    · obtain ⟨e', he, h⟩ := mapError_eq_error.1 h
      cases h
      exact ⟨call, mapError_eq_ok.1 hcall, he⟩
    rcases except_bind_eq_error.1 h with h | ⟨found, -, h⟩
    · obtain ⟨_, -, h⟩ := mapError_eq_error.1 h
      cases h
    cases found with
    | none => cases h
    | some handle =>
      obtain ⟨_, -, h⟩ := mapError_eq_error.1 h
      cases h
  · rintro ⟨call, hcall, he⟩
    refine except_bind_eq_error.2 (.inr ⟨call, mapError_eq_ok.2 hcall, ?_⟩)
    exact except_bind_eq_error.2 (.inl (mapError_eq_error.2 ⟨e, he, rfl⟩))

end CallSite

/-- The table has an entry at exactly the indices below its size. -/
theorem BootstrapTable.entry_eq_error_iff {table : BootstrapTable} {index : Int}
    {e : BootstrapTable.Error} :
    table.entry index = .error e ↔
      ¬ (0 ≤ index ∧ index < table.size) ∧ e = .outOfRange index table.size := by
  unfold entry
  split
  · rename_i h0
    cases h : table.entries[index.toNat]? with
    | none =>
      rw [Array.getElem?_eq_none_iff] at h
      have : ¬ index < table.size := by
        unfold size
        omega
      simp [this, eq_comm]
    | some entry =>
      obtain ⟨hlt, -⟩ := Array.getElem?_eq_some_iff.1 h
      have : index < table.size := by
        unfold size
        omega
      simp [h0, this]
  · rename_i h0
    simp [h0, eq_comm]

end Forwarder
