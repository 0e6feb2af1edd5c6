import Forwarder.Proofs.Assembler.Constant
import Forwarder.Proofs.Assembler.Lookup

/-!
# Constants keep their identity

`PoolBuilder.additions_resolve`: after any sequence of additions whose pool can be written, every
index that was handed out resolves to what was added, in the pool that is read back from the bytes.
Behind a lookup stands the constant that the index denotes, which `ConstantPool.Spells` what was
added. It spells nothing else, and nothing else spells that, since no constant stands in two slots
(`ConstantPool.Distinct`). So additions are equal exactly if their indices are.
-/

namespace Forwarder

open PoolBuilder (Addition)

namespace ConstantPool

/-- An index resolves to what an addition adds. -/
def Resolves (pool : ConstantPool) (i : Int) : Addition → Prop
  | .utf8 text => pool.utf8 i = .ok text
  | .integer value => pool.entry i = .ok (.integer value)
  | .long value => pool.entry i = .ok (.long value)
  | .classRef name => pool.className i = .ok name
  | .string text => ∃ j, pool.entry i = .ok (.string j) ∧ pool.utf8 j = .ok text
  | .nameAndType name descriptor => pool.nameAndType i = .ok (name, descriptor)
  | .member kind owner name descriptor => pool.member i = .ok ⟨kind, owner, name, descriptor⟩
  | .methodHandle kind reference => pool.entry i = .ok (.methodHandle kind reference)
  | .methodType descriptor => ∃ j, pool.entry i = .ok (.methodType j) ∧ pool.utf8 j = .ok descriptor
  | .invokeDynamic bootstrap name descriptor => pool.dynamicCall i = .ok ⟨bootstrap, name, descriptor⟩

/-- A constant spells what an addition adds, with the texts that it refers to. -/
inductive Spells (pool : ConstantPool) : Constant → Addition → Prop
  | utf8 (text) : Spells pool (.utf8 text) (.utf8 text)
  | integer (value) : Spells pool (.integer value) (.integer value)
  | long (value) : Spells pool (.long value) (.long value)
  | classRef {j name} : pool.utf8 j = .ok name → Spells pool (.classRef j) (.classRef name)
  | string {j text} : pool.utf8 j = .ok text → Spells pool (.string j) (.string text)
  | nameAndType {j k name descriptor} : pool.utf8 j = .ok name → pool.utf8 k = .ok descriptor →
      Spells pool (.nameAndType j k) (.nameAndType name descriptor)
  | member {kind j k owner name descriptor} : pool.className j = .ok owner →
      pool.nameAndType k = .ok (name, descriptor) →
      Spells pool (.member kind j k) (.member kind owner name descriptor)
  | methodHandle (kind reference) :
      Spells pool (.methodHandle kind reference) (.methodHandle kind reference)
  | methodType {j descriptor} : pool.utf8 j = .ok descriptor →
      Spells pool (.methodType j) (.methodType descriptor)
  | invokeDynamic {bootstrap j name descriptor} : pool.nameAndType j = .ok (name, descriptor) →
      Spells pool (.invokeDynamic bootstrap j) (.invokeDynamic bootstrap name descriptor)

/-- No two slots hold the same constant. -/
def Distinct (pool : ConstantPool) : Prop :=
  ∀ ⦃i j : Nat⦄ ⦃c⦄, pool.slots[i]? = some (some c) → pool.slots[j]? = some (some c) → i = j

variable {pool : ConstantPool} {i j : Int} {a a' : Addition} {c c' : Constant}

/-- The constant that an index denotes spells what the index resolves to. -/
theorem Resolves.exists_spells (h : pool.Resolves i a) :
    ∃ c, pool.entry i = .ok c ∧ pool.Spells c a := by
  cases a with
  | utf8 text => exact ⟨_, utf8_eq_ok_iff.1 h, .utf8 text⟩
  | integer value => exact ⟨_, h, .integer value⟩
  | long value => exact ⟨_, h, .long value⟩
  | classRef name =>
    obtain ⟨j, hi, hj⟩ := className_eq_ok_iff.1 h
    exact ⟨_, hi, .classRef hj⟩
  | string text =>
    obtain ⟨j, hi, hj⟩ := h
    exact ⟨_, hi, .string hj⟩
  | nameAndType name descriptor =>
    obtain ⟨j, k, hi, hj, hk⟩ := nameAndType_eq_ok_iff.1 h
    exact ⟨_, hi, .nameAndType hj hk⟩
  | member kind owner name descriptor =>
    obtain ⟨j, k, hi, hj, hk⟩ := member_eq_ok_iff.1 h
    exact ⟨_, hi, .member hj hk⟩
  | methodHandle kind reference => exact ⟨_, h, .methodHandle kind reference⟩
  | methodType descriptor =>
    obtain ⟨j, hi, hj⟩ := h
    exact ⟨_, hi, .methodType hj⟩
  | invokeDynamic bootstrap name descriptor =>
    obtain ⟨j, hi, hj⟩ := dynamicCall_eq_ok_iff.1 h
    exact ⟨_, hi, .invokeDynamic hj⟩

/-- A constant spells one thing. -/
theorem Spells.unique (h : pool.Spells c a) (h' : pool.Spells c a') : a = a' := by
  cases h with
  | utf8 | integer | long | methodHandle =>
    cases h'
    rfl
  | classRef hj | string hj | methodType hj =>
    cases h' with
    | _ hj' =>
      cases hj.symm.trans hj'
      rfl
  | nameAndType hj hk =>
    cases h' with
    | nameAndType hj' hk' =>
      cases hj.symm.trans hj'
      cases hk.symm.trans hk'
      rfl
  | member hj hk =>
    cases h' with
    | member hj' hk' =>
      cases hj.symm.trans hj'
      cases hk.symm.trans hk'
      rfl
  | invokeDynamic hj =>
    cases h' with
    | invokeDynamic hj' =>
      cases hj.symm.trans hj'
      rfl

/-- An index resolves to one thing. -/
theorem Resolves.unique (h : pool.Resolves i a) (h' : pool.Resolves i a') : a = a' := by
  obtain ⟨c, hi, hc⟩ := h.exists_spells
  obtain ⟨c', hi', hc'⟩ := h'.exists_spells
  cases hi.symm.trans hi'
  exact hc.unique hc'

namespace Distinct

variable (hpool : pool.Distinct)

include hpool

/-- A constant is denoted by one index. -/
theorem entry_inj (hi : pool.entry i = .ok c) (hj : pool.entry j = .ok c) : i = j := by
  obtain ⟨hpos, hi⟩ := entry_eq_ok_iff.1 hi
  obtain ⟨hpos', hj⟩ := entry_eq_ok_iff.1 hj
  have := hpool hi hj
  omega

/-- A text has one index in a pool in which no constant comes twice. -/
theorem utf8_inj {text : String} (hi : pool.utf8 i = .ok text) (hj : pool.utf8 j = .ok text) :
    i = j :=
  hpool.entry_inj (utf8_eq_ok_iff.1 hi) (utf8_eq_ok_iff.1 hj)

/-- A class has one index in such a pool. -/
theorem className_inj {name : String} (hi : pool.className i = .ok name)
    (hj : pool.className j = .ok name) : i = j := by
  obtain ⟨k, hi, hk⟩ := className_eq_ok_iff.1 hi
  obtain ⟨k', hj, hk'⟩ := className_eq_ok_iff.1 hj
  cases hpool.utf8_inj hk hk'
  exact hpool.entry_inj hi hj

/-- A name with a descriptor has one index in such a pool. -/
theorem nameAndType_inj {texts : String × String} (hi : pool.nameAndType i = .ok texts)
    (hj : pool.nameAndType j = .ok texts) : i = j := by
  obtain ⟨k, l, hi, hk, hl⟩ := nameAndType_eq_ok_iff.1 hi
  obtain ⟨k', l', hj, hk', hl'⟩ := nameAndType_eq_ok_iff.1 hj
  cases hpool.utf8_inj hk hk'
  cases hpool.utf8_inj hl hl'
  exact hpool.entry_inj hi hj

/-- One constant spells an addition. -/
theorem spells_inj (h : pool.Spells c a) (h' : pool.Spells c' a) : c = c' := by
  cases h with
  | utf8 | integer | long | methodHandle =>
    cases h'
    rfl
  | classRef hj | string hj | methodType hj =>
    cases h' with
    | _ hj' =>
      cases hpool.utf8_inj hj hj'
      rfl
  | nameAndType hj hk =>
    cases h' with
    | nameAndType hj' hk' =>
      cases hpool.utf8_inj hj hj'
      cases hpool.utf8_inj hk hk'
      rfl
  | member hj hk =>
    cases h' with
    | member hj' hk' =>
      cases hpool.className_inj hj hj'
      cases hpool.nameAndType_inj hk hk'
      rfl
  | invokeDynamic hj =>
    cases h' with
    | invokeDynamic hj' =>
      cases hpool.nameAndType_inj hj hj'
      rfl

/-- One index resolves to an addition. -/
theorem resolves_inj (h : pool.Resolves i a) (h' : pool.Resolves j a) : i = j := by
  obtain ⟨c, hi, hc⟩ := h.exists_spells
  obtain ⟨c', hj, hc'⟩ := h'.exists_spells
  cases hpool.spells_inj hc hc'
  exact hpool.entry_inj hi hj

end Distinct

end ConstantPool

namespace PoolBuilder

/-- No two slots of a complete pool hold the same constant. -/
theorem Complete.distinct {p : PoolBuilder} (hp : p.Complete) : p.pool.Distinct :=
  fun _ _ _ hi hj => hp.eq_of_holds hi hj

/-- The index of an addition resolves to what it adds. -/
theorem Addition.yields (a : Addition) :
    Yields a.perform fun i pool => pool.Resolves (i : Nat) a := by
  cases a with
  | utf8 text => exact yields_utf8 text
  | integer value => exact yields_intern nofun
  | long value => exact yields_intern nofun
  | classRef name => exact yields_classRef name
  | string text =>
    refine ((yields_utf8 text).bind fun j => yields_intern (c := .string j) nofun).mono ?_
    rintro i pool ⟨j, hj, hi⟩
    exact ⟨j, hi, hj⟩
  | nameAndType name descriptor => exact yields_nameAndType name descriptor
  | member kind owner name descriptor => exact yields_member kind owner name descriptor
  | methodHandle kind reference => exact yields_intern nofun
  | methodType descriptor => exact yields_methodType descriptor
  | invokeDynamic bootstrap name descriptor => exact yields_invokeDynamic bootstrap name descriptor

/-- The indices of a sequence of additions resolve to what they add, one by one. -/
theorem yields_additions (as : List Addition) :
    Yields (as.mapM Addition.perform) fun is pool =>
      List.Forall₂ (fun (i : Nat) a => pool.Resolves i a) is as := by
  induction as with
  | nil => exact (yields_pure []).mono fun is pool h => h ▸ .nil
  | cons a as ih =>
    rw [List.mapM_cons]
    refine (a.yields.bind fun i => ih.bind fun is => yields_pure (i :: is)).mono ?_
    rintro _ pool ⟨i, hi, is, his, rfl⟩
    exact .cons hi his

section Additions

variable {as : List Addition} {is : List Nat} {p : PoolBuilder} {bs : Bytes}

/-- **Constants keep their identity.** Whatever is added to a pool, one thing after the other, if it
can be written it is read back as a pool in which every index resolves to what was added under it; the
index of a method handle over the index of a member resolves to that kind and that member. Two
additions have the same index exactly if they are the same, and no two slots hold the same
constant. -/
theorem additions_resolve (hrun : as.mapM Addition.perform empty = (is, p))
    (hbs : p.encode = .ok bs) :
    ∃ pool, Cursor.Reads ClassFile.readPool bs pool ∧
      List.Forall₂ (fun (i : Nat) a => pool.Resolves i a) is as ∧
      (∀ i reference k kind owner name descriptor,
        (i, .methodHandle (HandleKind.number k) (reference : Nat)) ∈ is.zip as →
          (reference, .member kind owner name descriptor) ∈ is.zip as →
            pool.methodHandle i = .ok ⟨k, kind, owner, name, descriptor⟩) ∧
      (∀ x ∈ is.zip as, ∀ y ∈ is.zip as, x.1 = y.1 ↔ x.2 = y.2) ∧ pool.Distinct := by
  obtain ⟨hg, hresolves⟩ := yields_additions as empty
  rw [hrun] at hg hresolves
  have hresolves := hresolves sound_empty.consistent p (.refl p)
  have hdistinct := (hg.complete complete_empty).distinct
  have hzip : ∀ x ∈ is.zip as, p.pool.Resolves x.1 x.2 :=
    fun x hx => (List.forall₂_iff_zip.1 hresolves).2 hx
  refine ⟨p.pool, reads_pool (hg.sound sound_empty) hbs, hresolves, ?_, ?_, hdistinct⟩
  · intro i reference k kind owner name descriptor hi hreference
    exact ConstantPool.methodHandle_eq_ok_iff.2
      ⟨_, _, hzip _ hi, HandleKind.ofNumber?_number k, hzip _ hreference⟩
  · rintro ⟨i, a⟩ hi ⟨j, a'⟩ hj
    constructor
    · rintro rfl
      exact (hzip _ hi).unique (hzip _ hj)
    · rintro rfl
      exact Int.ofNat.inj (hdistinct.resolves_inj (hzip _ hi) (hzip _ hj))

end Additions

namespace Handle

/-- A number in two slots, a method, a handle of it, a method of the same name in an interface, and
the number again. -/
def additions : List Addition :=
  [.long 7, .member .method "A" "f" "f", .methodHandle 6 7, .member .interfaceMethod "A" "f" "f",
    .long 7]

/-- The constants of these additions, in the order in which they are added. -/
def constants : List Constant :=
  [.long 7, .utf8 "A", .classRef 3, .utf8 "f", .nameAndType 5 5, .member .method 4 6,
    .methodHandle 6 7, .member .interfaceMethod 4 6]

/-- The pool with the first of these constants. -/
def stage (n : Nat) : PoolBuilder := ofList (constants.take n)

/-- What is interned in the pool with the first constants gets the slot of its constant. -/
theorem intern_stage {c : Constant} {n k i : Nat} (hslot : slotIn c (constants.take n) 1 = i)
    (htake : (if c ∈ constants.take n then constants.take n else constants.take n ++ [c]) =
      constants.take k) : intern c (stage n) = (i, stage k) :=
  intern_ofList_take (by decide) hslot htake

/-- A member whose class, name and descriptor are there already adds one constant. -/
theorem mapM_additions : additions.mapM Addition.perform empty = ([1, 7, 8, 9, 1], stage 8) := by
  have howner : classRef "A" (stage 1) = (4, stage 3) :=
    run_classRef (@intern_stage _ 1 2 3 rfl rfl) (intern_stage rfl rfl)
  have hpair : nameAndType "f" "f" (stage 3) = (6, stage 5) :=
    run_nameAndType (@intern_stage _ 3 4 5 rfl rfl) (@intern_stage _ 4 4 5 rfl rfl)
      (intern_stage rfl rfl)
  have hmethod : (Addition.member .method "A" "f" "f").perform (stage 1) = (7, stage 6) :=
    run_member howner hpair (intern_stage rfl rfl)
  have howner' : classRef "A" (stage 7) = (4, stage 7) :=
    run_classRef (@intern_stage _ 7 7 3 rfl rfl) (intern_stage rfl rfl)
  have hpair' : nameAndType "f" "f" (stage 7) = (6, stage 7) :=
    run_nameAndType (@intern_stage _ 7 7 5 rfl rfl) (@intern_stage _ 7 7 5 rfl rfl)
      (intern_stage rfl rfl)
  have hinterface :
      (Addition.member .interfaceMethod "A" "f" "f").perform (stage 7) = (9, stage 8) :=
    run_member howner' hpair' (intern_stage rfl rfl)
  simp only [additions, List.mapM_cons, List.mapM_nil]
  refine run_bind (a := 1) (q := stage 1) (@intern_stage _ 0 1 1 rfl rfl) (run_bind ?_ rfl)
  refine run_bind hmethod (run_bind ?_ rfl)
  refine run_bind (a := 8) (q := stage 7) (intern_stage rfl rfl) (run_bind ?_ rfl)
  refine run_bind hinterface (run_bind ?_ rfl)
  exact run_bind (a := 1) (q := stage 8) (intern_stage rfl rfl) rfl

/-- The bytes of the pool. -/
def bytes : Bytes :=
  [0, 10, 5, 0, 0, 0, 0, 0, 0, 0, 7, 1, 0, 1, 0x41, 7, 0, 3, 1, 0, 1, 0x66, 12, 0, 5, 0, 5,
    10, 0, 4, 0, 6, 15, 6, 0, 7, 11, 0, 4, 0, 6]

/-- The pool of the additions is written as these bytes. -/
theorem encode_stage : (stage 8).encode = .ok bytes := by decide +kernel

end Handle

/-- The handle of a method is read back with the method, which has another index than the method of
the same name in an interface; the number that was added twice has one index. -/
theorem additions_resolve_handle : ∃ pool, Cursor.Reads ClassFile.readPool Handle.bytes pool ∧
    pool.methodHandle 8 = .ok ⟨.invokeStatic, .method, "A", "f", "f"⟩ ∧
    pool.member 9 = .ok ⟨.interfaceMethod, "A", "f", "f"⟩ ∧ pool.entry 1 = .ok (.long 7) := by
  obtain ⟨pool, hreads, hresolves, hhandle, -⟩ :=
    additions_resolve Handle.mapM_additions Handle.encode_stage
  obtain ⟨-, hresolves⟩ := List.forall₂_iff_zip.1 hresolves
  refine ⟨pool, hreads, ?_, ?_, ?_⟩
  · exact hhandle 8 7 .invokeStatic .method "A" "f" "f" (by decide) (by decide)
  · exact @hresolves 9 (.member .interfaceMethod "A" "f" "f") (by decide)
  · exact @hresolves 1 (.long 7) (by decide)

end PoolBuilder

end Forwarder
