import Forwarder.Proofs.Containment

/-!
# What a visit of any class reports

A visit walks to its end exactly if the class is `Surveyed`: it is recent enough, has a bootstrap
table, its methods that are not synthetic can be decoded and its dynamic calls stay inside the
table. `ClassFile.Reports` says which dynamic calls are then reported, and `exists_reported` that
every named class has exactly the diagnostics of these, whatever its bytes are.
-/

namespace Forwarder

namespace ClassFile

/-- A visit of the class walks to its end, with a bootstrap table. -/
structure Surveyed (cls : ClassFile) (minMajor : Int) (table : BootstrapTable) : Prop where
  recent : minMajor ≤ cls.major
  table_eq : ∃ data, cls.attributes.find? BootstrapTable.attributeName = some data ∧
    BootstrapTable.decode data = .ok table
  decoded : ∀ m ∈ cls.methods, ∀ code, m.code = some code → m.isSynthetic = false →
    (Decoded.ofBytes code.bytes).fault = none
  linkable : ∀ o : Occurrence, o.In cls → ∀ index e, o.instruction.constantIndex = .ok index →
    CallSite.link cls table index ≠ .error (.table e)

/-- A visit of the class reports a dynamic call, whose lambda has a key. -/
structure Reports (cls : ClassFile) (minMajor : Int) (o : Occurrence) (key : MethodKey) : Prop where
  occurs : o.In cls
  linked : ∃ table index, cls.Surveyed minMajor table ∧ o.instruction.constantIndex = .ok index ∧
    CallSite.LinkedTo cls table index key
  forwards : cls.Forwards key

/-- A visit walks to its end with one bootstrap table only. -/
theorem Surveyed.unique {cls : ClassFile} {minMajor : Int} {table table' : BootstrapTable}
    (h : cls.Surveyed minMajor table) (h' : cls.Surveyed minMajor table') : table = table' := by
  obtain ⟨data, hdata, htable⟩ := h.table_eq
  obtain ⟨data', hdata', htable'⟩ := h'.table_eq
  cases hdata.symm.trans hdata'
  exact Except.ok.inj (htable.symm.trans htable')

/-- Whether a class forwards a key can be found out by looking at its methods. -/
instance (cls : ClassFile) (key : MethodKey) : Decidable (cls.Forwards key) :=
  decidable_of_iff
    ((∃ m ∈ cls.methods, m.isSynthetic = true ∧ m.key = key) ∧
      ∀ m ∈ cls.methods, m.isSynthetic = true ∧ m.key = key → Body.forwards cls.pool m = true)
    ⟨fun ⟨h, h'⟩ => ⟨h, h'⟩, fun ⟨h, h'⟩ => ⟨h, h'⟩⟩

end ClassFile

section Report

variable {cls : ClassFile} {table : BootstrapTable} {minMajor : Int}

/-- The walk over a method that meets no fault decodes it and leaves no dynamic call beyond the
bootstrap table. -/
theorem no_fault_of_scanMethod {m : Method} {code : Code} (hcode : m.code = some code)
    (hsyn : m.isSynthetic = false) (h : (CallSite.scanMethod cls table m).fault = none) :
    (Decoded.ofBytes code.bytes).fault = none ∧
      ∀ ins ∈ (Decoded.ofBytes code.bytes).instructions, ins.opcode = .invokedynamic →
        ∀ index e, ins.constantIndex = .ok index →
          CallSite.link cls table index ≠ .error (.table e) := by
  rw [CallSite.scanMethod_eq hcode hsyn, CallSite.scanCode] at h
  cases hwalk : (CallSite.Scan.concat ((Decoded.ofBytes code.bytes).instructions.map
      (CallSite.scanInstruction cls table m code))).fault with
  | some fault =>
    rw [CallSite.Scan.append_of_fault hwalk, hwalk] at h
    cases h
  | none =>
    rw [CallSite.Scan.append_of_no_fault hwalk] at h
    refine ⟨Option.map_eq_none_iff.1 h, ?_⟩
    intro ins hins hop index e hindex hlink
    have hinstruction := CallSite.Scan.fault_concat_eq_none.1 hwalk _ (List.mem_map_of_mem hins)
    rw [CallSite.scanInstruction_of_index hop hindex, hlink] at hinstruction
    cases hinstruction

/-- The walk over a class meets no fault exactly if its methods that are not synthetic can be
decoded and its dynamic calls stay inside the bootstrap table. -/
theorem scan_fault_eq_none_iff :
    (CallSite.scan cls table).fault = none ↔
      (∀ m ∈ cls.methods, ∀ code, m.code = some code → m.isSynthetic = false →
        (Decoded.ofBytes code.bytes).fault = none) ∧
      ∀ o : Occurrence, o.In cls → ∀ index e, o.instruction.constantIndex = .ok index →
        CallSite.link cls table index ≠ .error (.table e) := by
  constructor
  · intro h
    have hmethod : ∀ m ∈ cls.methods, (CallSite.scanMethod cls table m).fault = none :=
      fun m hm => CallSite.Scan.fault_concat_eq_none.1 h _ (List.mem_map_of_mem hm)
    refine ⟨fun m hm code hcode hsyn => (no_fault_of_scanMethod hcode hsyn (hmethod m hm)).1, ?_⟩
    intro o ho
    have hm := hmethod o.method (List.mem_of_getElem? ho.method_eq)
    exact (no_fault_of_scanMethod ho.code_eq ho.not_synthetic hm).2 o.instruction ho.decoded
      ho.dynamic
  · rintro ⟨hdecoded, hlink⟩
    exact (CallSite.scan_sites hdecoded hlink).1

/-- The call sites of a walk that meets no fault are those of the linked dynamic calls. -/
theorem sites_scan_eq (hfault : (CallSite.scan cls table).fault = none) :
    (CallSite.scan cls table).sites = (cls.linked table).map fun r => r.1.site r.2 := by
  obtain ⟨hdecoded, hlinkable⟩ := scan_fault_eq_none_iff.1 hfault
  rw [map_site_linked]
  exact (CallSite.scan_sites hdecoded hlinkable).2

/-- A class is surveyed exactly if it is recent enough, has a table that is decoded, and no walk
fails. -/
theorem surveyed_iff :
    cls.Surveyed minMajor table ↔
      minMajor ≤ cls.major ∧
        (∃ data, cls.attributes.find? BootstrapTable.attributeName = some data ∧
          BootstrapTable.decode data = .ok table) ∧
        (CallSite.scan cls table).fault = none := by
  rw [scan_fault_eq_none_iff]
  exact ⟨fun h => ⟨h.recent, h.table_eq, h.decoded, h.linkable⟩,
    fun ⟨hrecent, htable, hdecoded, hlinkable⟩ => ⟨hrecent, htable, hdecoded, hlinkable⟩⟩

/-- A visit that does not walk to its end reports nothing. -/
theorem diagnostics_of_not_surveyed (h : ∀ table, ¬ cls.Surveyed minMajor table) :
    (cls.visit minMajor).diagnostics = [] := by
  unfold ClassFile.visit
  split
  · rfl
  · rename_i hrecent
    split
    · rfl
    · rename_i data hdata
      split
      · rfl
      · rename_i table htable
        dsimp only
        cases hfault : (CallSite.scan cls table).fault with
        | some fault => cases fault <;> rfl
        | none =>
          exact absurd (surveyed_iff.2 ⟨by omega, ⟨data, hdata, htable⟩, hfault⟩) (h table)

/-- The targets of all call sites are examined, so one of them is confirmed exactly if the class
forwards it. -/
theorem contains_confirmed {sites : List CallSite} {s : CallSite} (hs : s ∈ sites) :
    (Confirmation.confirmed (cls.examine (sites.map CallSite.target))).contains s.target =
      decide (cls.Forwards s.target) := by
  have hpending : s.target ∈ sites.map CallSite.target := List.mem_map_of_mem hs
  rw [Bool.eq_iff_iff, List.contains_iff_mem, ClassFile.examine, Confirmation.mem_confirmed,
    decide_eq_true_iff]
  exact and_iff_right hpending

/-- A visit that walks to its end reports the linked dynamic calls whose lambda forwards, in the
order of their targets. -/
theorem exists_reported_of_surveyed {name : String} (hname : cls.name = some name)
    (h : cls.Surveyed minMajor table) :
    ∃ reported : List (Occurrence × MethodKey),
      (cls.visit minMajor).diagnostics =
          reported.map (fun r => (r.1.site r.2).diagnostic name cls.sourceFile) ∧
        reported.Perm ((cls.linked table).filter fun r => cls.Forwards r.2) := by
  obtain ⟨data, hdata, htable⟩ := h.table_eq
  obtain ⟨-, -, hfault⟩ := surveyed_iff.1 h
  have hsites := sites_scan_eq hfault
  obtain ⟨reported, hreported, hperm⟩ := exists_regroup_eq cls table
    (Confirmation.confirmed (cls.examine ((CallSite.scan cls table).sites.map CallSite.target)))
  refine ⟨reported, ?_, ?_⟩
  · rw [visit_of_scan h.recent hdata htable hfault]
    simp only [ClassFile.report, hname]
    rw [hsites] at hreported ⊢
    rw [hreported, List.map_map]
    rfl
  · refine hperm.trans (.of_eq (List.filter_congr fun r hr => ?_))
    have hsite : r.1.site r.2 ∈ (CallSite.scan cls table).sites := by
      rw [hsites]
      exact List.mem_map_of_mem hr
    exact contains_confirmed hsite

/-- What a visit gives, if anything, are its diagnostics. -/
theorem diagnostics_of_result {v : Visit} {ds : List Diagnostic} (h : v.result = .ok ds) :
    v.diagnostics = ds := by
  unfold Visit.result resultOf at h
  split at h
  · exact Except.ok.inj h
  · cases h

/-- The visit of a class with a name gives its diagnostics. -/
theorem result_visit_eq {name : String} (minMajor : Int) (hname : cls.name = some name) :
    (cls.visit minMajor).result = .ok (cls.visit minMajor).diagnostics := by
  obtain ⟨ds, hds⟩ := result_visit_of_named minMajor hname
  rw [diagnostics_of_result hds, hds]

/-- **Every named class has exactly the diagnostics of the dynamic calls that are reported**, each
of them once. -/
theorem exists_reported {name : String} (minMajor : Int) (hname : cls.name = some name) :
    ∃ reported : List (Occurrence × MethodKey),
      (cls.visit minMajor).result =
          .ok (reported.map fun r => (r.1.site r.2).diagnostic name cls.sourceFile) ∧
        (reported.map fun r => (r.1.place, r.1.instruction.pc)).Nodup ∧
        ∀ o key, (o, key) ∈ reported ↔ cls.Reports minMajor o key := by
  rcases Classical.em (∃ table, cls.Surveyed minMajor table) with ⟨table, hsurveyed⟩ | hnone
  · obtain ⟨reported, hdiagnostics, hperm⟩ := exists_reported_of_surveyed hname hsurveyed
    refine ⟨reported, ?_, ?_, ?_⟩
    · rw [result_visit_eq minMajor hname, hdiagnostics]
    · have hnodup : ((cls.linked table).map fun r => (r.1.place, r.1.instruction.pc)).Nodup := by
        rw [List.nodup_iff_pairwise_ne, List.pairwise_map]
        refine pairwise_linked.imp fun {r s} hbefore heq => ?_
        obtain ⟨hplace, hpc⟩ := Prod.mk.inj heq
        rcases hbefore with hlt | ⟨-, hlt⟩ <;> omega
      exact (hperm.map _).nodup_iff.2 (hnodup.sublist (List.filter_sublist.map _))
    · intro o key
      rw [hperm.mem_iff, List.mem_filter, mem_linked, Occurrence.target?_eq_some_iff,
        decide_eq_true_iff]
      constructor
      · rintro ⟨⟨ho, index, hindex, hlinked⟩, hforwards⟩
        exact ⟨ho, ⟨table, index, hsurveyed, hindex, hlinked⟩, hforwards⟩
      · rintro ⟨ho, ⟨table', index, hsurveyed', hindex, hlinked⟩, hforwards⟩
        obtain rfl := hsurveyed.unique hsurveyed'
        exact ⟨⟨ho, index, hindex, hlinked⟩, hforwards⟩
  · have hnot : ∀ table, ¬ cls.Surveyed minMajor table := fun table h => hnone ⟨table, h⟩
    refine ⟨[], ?_, .nil, ?_⟩
    · rw [result_visit_eq minMajor hname, diagnostics_of_not_surveyed hnot]
      rfl
    · intro o key
      refine ⟨fun h => (List.not_mem_nil h).elim, fun h => ?_⟩
      obtain ⟨table, -, hsurveyed, -⟩ := h.linked
      exact absurd hsurveyed (hnot table)

/-- The diagnostics that a visit gives are those of the dynamic calls that are reported. -/
theorem mem_result_iff {ds : List Diagnostic} (h : (cls.visit minMajor).result = .ok ds)
    (d : Diagnostic) :
    d ∈ ds ↔ ∃ name o key, cls.name = some name ∧ cls.Reports minMajor o key ∧
      d = (o.site key).diagnostic name cls.sourceFile := by
  cases hname : cls.name with
  | none =>
    rcases result_visit_of_unnamed minMajor hname with ⟨herror, -⟩ | ⟨hnil, -⟩
    · cases h.symm.trans herror
    · cases h.symm.trans hnil
      simp
  | some name =>
    obtain ⟨reported, hreported, -, hmem⟩ := exists_reported minMajor hname
    cases h.symm.trans hreported
    constructor
    · intro hd
      obtain ⟨⟨o, key⟩, hr, rfl⟩ := List.mem_map.1 hd
      exact ⟨name, o, key, rfl, (hmem o key).1 hr, rfl⟩
    · rintro ⟨_, o, key, hname', hr, rfl⟩
      cases hname'
      exact List.mem_map.2 ⟨(o, key), (hmem o key).2 hr, rfl⟩

/-- Bytes that cannot be read have no diagnostics. -/
theorem Source.result_of_error {source : Source} {e : ClassFile.FormatError}
    (h : ClassFile.decode source.data = .error e) :
    (source.analyse minMajor).result = .ok none := by
  simp only [Source.analyse, h]

/-- The diagnostics of a class file are those of the visit of its class. -/
theorem Source.result_of_ok {source : Source} (h : ClassFile.decode source.data = .ok cls) :
    (source.analyse minMajor).result = (cls.visit minMajor).result.map some := by
  simp only [Source.analyse, h]

/-- The analysis of a class file gives what a visit of the class gives. -/
theorem visit_of_analyse {source : Source} {ds : List Diagnostic}
    (h : (source.analyse minMajor).result = .ok (some ds)) :
    ∃ cls, ClassFile.decode source.data = .ok cls ∧ (cls.visit minMajor).result = .ok ds := by
  cases hcls : ClassFile.decode source.data with
  | error e => cases h.symm.trans (Source.result_of_error hcls)
  | ok cls =>
    obtain ⟨ds', hds', hsome⟩ := except_map_eq_ok.1 ((Source.result_of_ok hcls).symm.trans h)
    cases hsome
    exact ⟨cls, rfl, hds'⟩

/-- A property holds of every dynamic call that is reported in any class file, and of the key of its
lambda. -/
def EveryReported (P : ClassFile → Occurrence → MethodKey → Prop) : Prop :=
  ∀ (minMajor : Int) (source : Source) (cls : ClassFile) (ds : List Diagnostic),
    ClassFile.decode source.data = .ok cls → (source.analyse minMajor).result = .ok (some ds) →
    ∀ (name : String) (o : Occurrence) (key : MethodKey), cls.name = some name →
      (o.site key).diagnostic name cls.sourceFile ∈ ds → cls.Reports minMajor o key → P cls o key

/-- What holds of every reported dynamic call holds of one behind each diagnostic. -/
theorem EveryReported.exists_of_mem {P : ClassFile → Occurrence → MethodKey → Prop}
    (h : EveryReported P) {source : Source} {ds : List Diagnostic}
    (hcls : ClassFile.decode source.data = .ok cls)
    (hresult : (cls.visit minMajor).result = .ok ds) {d : Diagnostic} (hd : d ∈ ds) :
    ∃ o key, cls.Reports minMajor o key ∧ P cls o key := by
  have hanalyse : (source.analyse minMajor).result = .ok (some ds) := by
    rw [Source.result_of_ok hcls, hresult]
    rfl
  obtain ⟨name, o, key, hname, hreports, rfl⟩ := (mem_result_iff hresult d).1 hd
  exact ⟨o, key, hreports, h minMajor source cls ds hcls hanalyse name o key hname hd hreports⟩

end Report

end Forwarder
