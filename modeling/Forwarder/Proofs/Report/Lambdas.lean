import Forwarder.Proofs.Assembler.Caller
import Forwarder.Proofs.Assembler.Reading
import Forwarder.Proofs.Report
import Mathlib

/-!
# What is reported of an assembled class

`ClassPlan.diagnostics` lists what is to be reported of a class with lambdas, by nothing but its
plan: the dynamic calls of those lambdas that return something and whose calls forward.
`assembled_lambdas_reported` says that this is what the analysis of the bytes of the class gives.
-/

namespace Forwarder

open CodeBuilder (Outline Renders)

/-! ## What is to be reported -/

/-- Whether the descriptor of a lambda is that of a method which returns something. -/
def LambdaPlan.returnsValue (lambda : LambdaPlan) : Bool :=
  (MethodDescriptor.parse? lambda.body.descriptor).any fun d => !d.isVoid

/-- Whether the dynamic calls of a lambda are to be reported. -/
def LambdaPlan.isReported (lambda : LambdaPlan) : Bool :=
  lambda.returnsValue && CodeBuilder.forwards lambda.body.calls

/-- The diagnostic of a dynamic call of a lambda in a caller, at a place. -/
def CallerPlan.diagnostic (c : CallerPlan) (className : String) (sourceFile : Option String)
    (r : SitePlan × Nat) (lambda : LambdaPlan) : Diagnostic where
  priority := .normal
  className := className
  methodName := c.name
  methodDescriptor := c.descriptor
  pc := 6 * r.2
  line := some r.1.line
  sourceFile := sourceFile
  target := some lambda.body.name

/-- The diagnostic of a dynamic call of a caller at a place, if it is to be reported. -/
def CallerPlan.diagnostic? (c : CallerPlan) (className : String) (sourceFile : Option String)
    (lambdas : List LambdaPlan) (r : SitePlan × Nat) : Option Diagnostic :=
  (lambdas[r.1.lambda]?.filter LambdaPlan.isReported).map (c.diagnostic className sourceFile r)

/-- The diagnostics of the dynamic calls of a plan that are to be reported. -/
def ClassPlan.diagnostics (plan : ClassPlan) (className : String) (sourceFile : Option String) :
    List Diagnostic :=
  (plan.parts.filterMap Part.caller?).flatMap fun c =>
    c.sites.zipIdx.filterMap (c.diagnostic? className sourceFile plan.lambdas)

/-! ## The dynamic calls of the methods -/

/-- A dynamic call that was read is the one of a caller at a place. -/
structure CallerPlan.CallsSite (c : CallerPlan) (pool : ConstantPool) (r : SitePlan × Nat)
    (o : Occurrence) : Prop where
  key_eq : o.method.key = c.method.key
  pc_eq : (o.instruction.pc : Int) = 6 * (r.2 : Int)
  line_eq : lineOf o.code.lines o.instruction.pc = some r.1.line
  call_eq : ∃ index, o.instruction.constantIndex = .ok index ∧
    pool.dynamicCall index = .ok ⟨r.1.lambda, r.1.name, r.1.descriptor⟩

section Occurrences

variable {pool : ConstantPool} {method : Method}

/-- A caller has the dynamic calls that were planned, in order. -/
theorem CallerPlan.forall₂_occurrences {c : CallerPlan} (h : c.method.ReadAs pool method)
    (place : Nat) :
    List.Forall₂ (c.CallsSite pool) c.sites.zipIdx (method.occurrences place) := by
  obtain ⟨code, instrs, lines, hcode, hbytes, houtline, hperm, hsorted⟩ := h.code
  have hsynthetic : method.isSynthetic = false := h.isSynthetic_eq.trans c.notSynthetic
  obtain ⟨head, rest, restLines, hinstrs, hlines, -, hsites, hrest⟩ := houtline.of_sites (k := 0)
  -- behind the dynamic calls there is only the return
  have hreturn : rest.filter (·.opcode = .invokedynamic) = [] ∧ restLines = [] := by
    cases hrest with
    | emit _ _ hins hnil =>
      cases hnil
      cases hins
      exact ⟨rfl, rfl⟩
  have hoccurrences : method.occurrences place =
      (head.filter (·.opcode = .invokedynamic)).map (Occurrence.mk place method code) := by
    rw [Method.occurrences, hcode]
    simp only [hsynthetic, Bool.false_eq_true, if_false]
    rw [hbytes, houtline.decoded, hinstrs, List.filter_append, hreturn.1, List.append_nil]
  rw [hlines, hreturn.2, List.append_nil] at hperm
  rw [hoccurrences, List.forall₂_map_right_iff]
  refine (List.forall₂_and_left _ _ |>.2 ⟨fun r hr => hr, hsites⟩).imp ?_
  rintro ⟨s, i⟩ ins ⟨hmem, hpc, hcall⟩
  cases hcall with
  | invokeDynamic hindex hcall =>
    have hpc : (_ : Int) = 6 * (i : Int) := congrArg Nat.cast hpc
    exact ⟨h.key_eq, hpc, hpc ▸ lineOf_eq hperm hsorted hmem,
      _, Instruction.constantIndex_ofNat (by decide) (by decide) hindex, hcall⟩

/-- The body of a lambda is passed over. -/
theorem LambdaPlan.occurrences_eq_nil {lambda : LambdaPlan}
    (h : lambda.body.ReadAs pool method) (place : Nat) : method.occurrences place = [] := by
  have hsynthetic : method.isSynthetic = true := h.isSynthetic_eq.trans lambda.synthetic
  rw [Method.occurrences]
  cases method.code with
  | none => rfl
  | some code => simp only [hsynthetic, if_true]

end Occurrences

/-! ## What the dynamic calls are linked to -/

section Link

variable {table : BootstrapTable} {className : String} {pool : ConstantPool}
  {lambdas : List LambdaPlan} {lambda : LambdaPlan} {key : MethodKey} {i : Nat}

/-- There is one entry for each lambda. -/
theorem BootstrapTable.Links.size_eq (h : table.Links className pool lambdas) :
    table.size = lambdas.length := by
  rw [BootstrapTable.size, ← Array.length_toList, List.Forall₂.length_eq h]

/-- A table has an entry for every lambda. -/
theorem BootstrapTable.Links.exists_entry (h : table.Links className pool lambdas)
    (hlambda : lambdas[i]? = some lambda) :
    ∃ entry, table.entry i = .ok entry ∧ entry.FirstHandle pool (lambda.handle className) := by
  obtain ⟨hlt, rfl⟩ := List.getElem?_eq_some_iff.1 hlambda
  have hlt' : i < table.entries.toList.length := List.Forall₂.length_eq h ▸ hlt
  refine ⟨table.entries.toList[i], ?_, h.get hlt hlt'⟩
  rw [BootstrapTable.entry, if_pos (Int.natCast_nonneg i), Int.toNat_natCast,
    ← Array.getElem?_toList, List.getElem?_eq_getElem hlt']

/-- Every entry of a table is that of a lambda. -/
theorem BootstrapTable.Links.exists_lambda {entry : BootstrapEntry}
    (h : table.Links className pool lambdas) (hentry : table.entry i = .ok entry) :
    ∃ lambda, lambdas[i]? = some lambda ∧
      entry.FirstHandle pool (lambda.handle className) := by
  cases hlambda : lambdas[i]? with
  | none =>
    rw [List.getElem?_eq_none_iff, ← h.size_eq] at hlambda
    have hbeyond : ¬ (0 ≤ (i : Int) ∧ (i : Int) < table.size) := by omega
    cases hentry.symm.trans (BootstrapTable.entry_eq_error_iff.2 ⟨hbeyond, rfl⟩)
  | some lambda =>
    obtain ⟨entry', hentry', hfirst⟩ := h.exists_entry hlambda
    cases hentry.symm.trans hentry'
    exact ⟨lambda, rfl, hfirst⟩

/-- The handle of a lambda points at its body, if that returns something. -/
theorem LambdaPlan.pointsAt_iff :
    (lambda.handle className).PointsAt (some className) key ↔
      lambda.returnsValue = true ∧ lambda.body.key = key := by
  rw [returnsValue, Option.any_eq_true]
  constructor
  · rintro ⟨-, -, ⟨d, hwf, hdescriptor, hreturn⟩, rfl⟩
    refine ⟨⟨d, MethodDescriptor.parse?_eq_some_iff.2 ⟨hwf, hdescriptor⟩, ?_⟩, rfl⟩
    simpa [MethodDescriptor.isVoid, Option.isSome_iff_ne_none] using hreturn
  · rintro ⟨⟨d, hd, hvoid⟩, rfl⟩
    obtain ⟨hwf, hdescriptor⟩ := MethodDescriptor.parse?_eq_some_iff.1 hd
    refine ⟨rfl, rfl, ⟨d, hwf, hdescriptor, ?_⟩, rfl⟩
    simpa [MethodDescriptor.isVoid, Option.isSome_iff_ne_none] using hvoid

/-- A dynamic call is linked to the body of its lambda, if that returns something. -/
theorem CallerPlan.CallsSite.target?_eq {c : CallerPlan} {r : SitePlan × Nat} {o : Occurrence}
    {cls : ClassFile} (ho : c.CallsSite cls.pool r o) (hname : cls.name = some className)
    (htable : table.Links className cls.pool lambdas) :
    o.target? cls table =
      (lambdas[r.1.lambda]?.filter LambdaPlan.returnsValue).map fun lambda => lambda.body.key := by
  obtain ⟨index, hindex, hcall⟩ := ho.call_eq
  refine Option.ext fun key => ?_
  rw [Occurrence.target?_eq_some_iff, Option.map_eq_some_iff]
  constructor
  · rintro ⟨index', hindex', call, entry, handle, hcall', hentry, hhandle, hpoints⟩
    cases hindex.symm.trans hindex'
    cases hcall.symm.trans hcall'
    obtain ⟨lambda, hlambda, hfirst⟩ := htable.exists_lambda hentry
    have hhandle := BootstrapEntry.firstHandle_eq_some_iff.2 hhandle
    have hfirst := BootstrapEntry.firstHandle_eq_some_iff.2 hfirst
    cases hhandle.symm.trans hfirst
    rw [hname] at hpoints
    obtain ⟨hreturns, hkey⟩ := LambdaPlan.pointsAt_iff.1 hpoints
    exact ⟨lambda, by rw [hlambda, Option.filter_some, if_pos hreturns], hkey⟩
  · rintro ⟨lambda, hfilter, hkey⟩
    obtain ⟨hlambda, hreturns⟩ := Option.filter_eq_some_iff.1 hfilter
    obtain ⟨entry, hentry, hfirst⟩ := htable.exists_entry hlambda
    refine ⟨index, hindex, _, entry, _, hcall, hentry, hfirst, ?_⟩
    rw [hname]
    exact LambdaPlan.pointsAt_iff.2 ⟨hreturns, hkey⟩

end Link

section Class

variable {plan : ClassPlan} {className : String} {cls : ClassFile} {table : BootstrapTable}
  {c : CallerPlan} {r : SitePlan × Nat} {o : Occurrence} {lambda : LambdaPlan}

/-- Every method of the class is the body of a lambda or a caller. -/
theorem ClassPlan.ReadAs.exists_part (h : plan.ReadAs className cls) {method : Method}
    (hm : method ∈ cls.methods) :
    (∃ lambda ∈ plan.lambdas, lambda.body.ReadAs cls.pool method) ∨
      ∃ c ∈ plan.parts.filterMap Part.caller?, c.method.ReadAs cls.pool method := by
  obtain ⟨m, hmem, hread⟩ := forall₂_mem_right h.methods hm
  obtain ⟨part, hpart, hmethod⟩ := List.mem_filterMap.1 hmem
  cases part with
  | link lambda => cases hmethod
  | body lambda =>
    cases hmethod
    exact .inl ⟨lambda, plan.paired.mem_iff.1 (List.mem_filterMap.2 ⟨_, hpart, rfl⟩), hread⟩
  | caller c =>
    cases hmethod
    exact .inr ⟨c, List.mem_filterMap.2 ⟨_, hpart, rfl⟩, hread⟩

/-- The class has the body of every lambda. -/
theorem ClassPlan.ReadAs.exists_body (h : plan.ReadAs className cls)
    (hlambda : lambda ∈ plan.lambdas) :
    ∃ method ∈ cls.methods, lambda.body.ReadAs cls.pool method := by
  obtain ⟨part, hpart, hbody⟩ := List.mem_filterMap.1 (plan.paired.mem_iff.2 hlambda)
  cases part with
  | body lambda =>
    cases hbody
    have hmethods := h.methods.flip
    exact forall₂_mem_right hmethods (List.mem_filterMap.2 ⟨_, hpart, rfl⟩)
  | link | caller => cases hbody

/-- Every dynamic call of the class is one of a caller. -/
theorem ClassPlan.ReadAs.exists_site (h : plan.ReadAs className cls) (ho : o.In cls) :
    ∃ c ∈ plan.parts.filterMap Part.caller?, ∃ r ∈ c.sites.zipIdx, c.CallsSite cls.pool r o := by
  have hmem : o ∈ o.method.occurrences o.place :=
    mem_occurrences_method.2 ⟨rfl, rfl, ho.not_synthetic, ho.code_eq, ho.decoded, ho.dynamic⟩
  rcases h.exists_part (List.mem_of_getElem? ho.method_eq) with ⟨lambda, -, hread⟩ | ⟨c, hc, hread⟩
  · rw [lambda.occurrences_eq_nil hread] at hmem
    cases hmem
  · exact ⟨c, hc, forall₂_mem_right (c.forall₂_occurrences hread o.place) hmem⟩

/-- The class forwards the key of a lambda exactly if the calls of its body do. -/
theorem ClassPlan.ReadAs.forwards_iff (h : plan.ReadAs className cls)
    (hlambda : lambda ∈ plan.lambdas) :
    cls.Forwards lambda.body.key ↔ CodeBuilder.forwards lambda.body.calls = true := by
  -- the only method that is a body of the key is that of the lambda
  have hbody {method : Method} (hm : method ∈ cls.methods)
      (hkey : method.IsBodyOf lambda.body.key) : lambda.body.ReadAs cls.pool method := by
    rcases h.exists_part hm with ⟨lambda', hlambda', hread⟩ | ⟨c, -, hread⟩
    · obtain rfl : lambda' = lambda := by
        refine List.inj_on_of_nodup_map plan.distinct hlambda' hlambda ?_
        exact hread.key_eq.symm.trans hkey.2
      exact hread
    · have hsynthetic := hread.isSynthetic_eq.symm.trans hkey.1
      cases c.notSynthetic.symm.trans hsynthetic
  have hforwards {method : Method} (hread : lambda.body.ReadAs cls.pool method) :
      Body.forwards cls.pool method = CodeBuilder.forwards lambda.body.calls := by
    obtain ⟨code, instrs, lines, hcode, hbytes, houtline, -⟩ := hread.code
    exact houtline.forwards_eq hcode hbytes
  constructor
  · rintro ⟨⟨method, hm, hkey⟩, hall⟩
    rw [← hforwards (hbody hm hkey)]
    exact hall method hm hkey
  · intro hcalls
    refine ⟨?_, fun method hm hkey => (hforwards (hbody hm hkey)).trans hcalls⟩
    obtain ⟨method, hm, hread⟩ := h.exists_body hlambda
    exact ⟨method, hm, hread.isSynthetic_eq.trans lambda.synthetic, hread.key_eq⟩

/-! ## What is reported -/

/-- A visit of the class walks to its end, if there is a bootstrap table. -/
theorem ClassPlan.ReadAs.surveyed {minMajor : Int} {data : Bytes} (h : plan.ReadAs className cls)
    (hmajor : minMajor ≤ cls.major)
    (hdata : cls.attributes.find? BootstrapTable.attributeName = some data)
    (hdecode : BootstrapTable.decode data = .ok table)
    (htable : table.Links className cls.pool plan.lambdas) : cls.Surveyed minMajor table where
  recent := hmajor
  table_eq := ⟨data, hdata, hdecode⟩
  decoded method hm code hcode _ := by
    obtain ⟨m, -, hread⟩ := forall₂_mem_right h.methods hm
    obtain ⟨code', instrs, lines, hcode', hbytes, houtline, -⟩ := hread.code
    cases hcode.symm.trans hcode'
    rw [hbytes, houtline.decoded]
  linkable o ho index e hindex hlink := by
    obtain ⟨c, hc, ⟨s, place⟩, hr, hsite⟩ := h.exists_site ho
    obtain ⟨index', hindex', hcall⟩ := hsite.call_eq
    obtain ⟨call, hcall', hentry⟩ := CallSite.link_eq_table_error.1 hlink
    cases hindex.symm.trans hindex'
    cases hcall.symm.trans hcall'
    have hlambda := plan.linked c hc s (List.fst_mem_of_mem_zipIdx hr)
    obtain ⟨hbeyond, -⟩ := BootstrapTable.entry_eq_error_iff.1 hentry
    refine hbeyond ⟨Int.natCast_nonneg s.lambda, ?_⟩
    rw [htable.size_eq]
    exact Int.ofNat_lt.2 hlambda

/-- The diagnostic of a dynamic call of a class, if it is linked to a candidate that the class
forwards. -/
def Occurrence.diagnostic? (cls : ClassFile) (table : BootstrapTable) (className : String)
    (o : Occurrence) : Option Diagnostic :=
  ((o.target? cls table).filter fun key => cls.Forwards key).map fun key =>
    (o.site key).diagnostic className cls.sourceFile

/-- A linked dynamic call has the diagnostic that was planned. -/
theorem CallerPlan.CallsSite.diagnostic_eq (ho : c.CallsSite cls.pool r o)
    (sourceFile : Option String) (lambda : LambdaPlan) :
    (o.site lambda.body.key).diagnostic className sourceFile =
      c.diagnostic className sourceFile r lambda := by
  rw [Occurrence.site, CallSite.diagnostic, ho.key_eq, ho.line_eq]
  dsimp only
  rw [ho.pc_eq]
  rfl

/-- A dynamic call has a diagnostic exactly if one was planned. -/
theorem CallerPlan.CallsSite.diagnostic?_eq (ho : c.CallsSite cls.pool r o)
    (h : plan.ReadAs className cls) (htable : table.Links className cls.pool plan.lambdas) :
    o.diagnostic? cls table className =
      c.diagnostic? className cls.sourceFile plan.lambdas r := by
  rw [Occurrence.diagnostic?, CallerPlan.diagnostic?, ho.target?_eq h.name htable]
  cases hlambda : plan.lambdas[r.1.lambda]? with
  | none => rfl
  | some lambda =>
    have hforwards : decide (cls.Forwards lambda.body.key) =
        CodeBuilder.forwards lambda.body.calls := by
      rw [Bool.eq_iff_iff, decide_eq_true_iff]
      exact h.forwards_iff (List.mem_of_getElem? hlambda)
    rw [Option.filter_some, Option.filter_some, LambdaPlan.isReported, ← hforwards]
    cases lambda.returnsValue with
    | false => rfl
    | true =>
      rw [if_pos rfl, Option.map_some, Option.filter_some, Bool.true_and]
      split
      · exact congrArg some (ho.diagnostic_eq cls.sourceFile lambda)
      · rfl

/-- Lists whose elements give the same, one by one, give the same. -/
theorem filterMap_eq_of_forall₂ {α β γ : Type} {R : α → β → Prop} {f : α → Option γ}
    {g : β → Option γ} (hR : ∀ a b, R a b → f a = g b) {l : List α} {l' : List β}
    (h : List.Forall₂ R l l') : l.filterMap f = l'.filterMap g := by
  induction h with
  | nil => rfl
  | cons hab _ ih => rw [List.filterMap_cons, List.filterMap_cons, hR _ _ hab, ih]

/-- The methods of some parts have the diagnostics that were planned, in order. -/
theorem ClassPlan.ReadAs.flatMap_diagnostics {parts : List Part} {methods : List Method} {k : Nat}
    (h : plan.ReadAs className cls) (htable : table.Links className cls.pool plan.lambdas)
    (hmethods : List.Forall₂ (fun m method => m.ReadAs cls.pool method)
      (parts.filterMap Part.method?) methods) :
    ((methods.zipIdx k).flatMap fun p =>
        (p.1.occurrences p.2).filterMap (Occurrence.diagnostic? cls table className)) =
      (parts.filterMap Part.caller?).flatMap fun c =>
        c.sites.zipIdx.filterMap (c.diagnostic? className cls.sourceFile plan.lambdas) := by
  induction parts generalizing methods k with
  | nil =>
    cases hmethods
    rfl
  | cons part parts ih =>
    cases part with
    | link lambda => exact ih hmethods
    | body lambda =>
      obtain ⟨method, methods, hread, hrest, rfl⟩ := List.forall₂_cons_left_iff.1 hmethods
      rw [List.zipIdx_cons, List.flatMap_cons, lambda.occurrences_eq_nil hread]
      exact ih hrest
    | caller c =>
      obtain ⟨method, methods, hread, hrest, rfl⟩ := List.forall₂_cons_left_iff.1 hmethods
      have hsites := filterMap_eq_of_forall₂ (fun _ _ hsite => (hsite.diagnostic?_eq h htable).symm)
        (c.forall₂_occurrences hread k)
      rw [List.zipIdx_cons, List.flatMap_cons, ih hrest, ← hsites]
      rfl

/-- The linked dynamic calls that the class forwards have the diagnostics that were planned. -/
theorem ClassPlan.ReadAs.map_linked (h : plan.ReadAs className cls)
    (htable : table.Links className cls.pool plan.lambdas) :
    ((cls.linked table).filter fun r => cls.Forwards r.2).map
        (fun r => (r.1.site r.2).diagnostic className cls.sourceFile) =
      plan.diagnostics className cls.sourceFile := by
  have hpointwise (o : Occurrence) : o.diagnostic? cls table className =
      (((o.target? cls table).map (Prod.mk o)).filter fun r => cls.Forwards r.2).map
        fun r => (r.1.site r.2).diagnostic className cls.sourceFile := by
    rw [Occurrence.diagnostic?]
    cases o.target? cls table with
    | none => rfl
    | some key =>
      rw [Option.map_some, Option.filter_some, Option.filter_some]
      split <;> rfl
  have hoccurrences := h.flatMap_diagnostics (k := 0) htable h.methods
  rw [← List.filterMap_flatMap] at hoccurrences
  rw [ClassPlan.diagnostics, ← hoccurrences, ClassFile.linked, List.filter_filterMap,
    List.map_filterMap]
  exact List.filterMap_congr fun o _ => (hpointwise o).symm

/-- **A visit of the class reports what was planned.** -/
theorem ClassPlan.ReadAs.diagnostics_perm {minMajor : Int} (h : plan.ReadAs className cls)
    (hmajor : minMajor ≤ cls.major) :
    (cls.visit minMajor).diagnostics.Perm (plan.diagnostics className cls.sourceFile) := by
  cases hdata : cls.attributes.find? BootstrapTable.attributeName with
  | none =>
    -- without lambdas there is no table, and nothing to report
    have hlambdas := h.noBootstrap.1 hdata
    have hnone : plan.diagnostics className cls.sourceFile = [] := by
      rw [ClassPlan.diagnostics, List.flatMap_eq_nil_iff]
      intro c _
      rw [List.filterMap_eq_nil_iff]
      intro r _
      rw [CallerPlan.diagnostic?, hlambdas]
      rfl
    have hnot (table : BootstrapTable) : ¬ cls.Surveyed minMajor table := by
      rintro ⟨-, ⟨data, hdata', -⟩, -, -⟩
      cases hdata.symm.trans hdata'
    rw [hnone, diagnostics_of_not_surveyed hnot]
  | some data =>
    obtain ⟨table, hdecode, htable⟩ := h.bootstrap hdata
    obtain ⟨reported, hreported, hperm⟩ :=
      exists_reported_of_surveyed h.name (h.surveyed hmajor hdata hdecode htable)
    rw [hreported, ← h.map_linked htable]
    exact hperm.map _

end Class

/-! ## From the steps of a plan to the report -/

section Assembly

variable {b : ClassBuilder} {plan : ClassPlan} {minMajor : Int} {bs : Bytes}

/-- **What is reported of an assembled class is what its plan says.** Take a class under
construction without methods, bootstrap methods and further attributes, and carry out the steps of a
plan. If they succeed and the class can be written, then the analysis of its bytes gives the
diagnostics of the plan, each as often as it is planned: one for each dynamic call of a caller whose
lambda returns something and has a body that begins with a load of the first local variable, a call
of a method without parameters and a return. The offset of each is that at which the code builder
stood when the call was made, and its lambda is the one whose bootstrap method was added with the
index that the call has. -/
theorem assembled_lambdas_reported (hpool : b.pool.Built) (hmajor : minMajor ≤ b.major)
    (hmethods : b.methods = #[]) (hbootstrap : b.bootstrap = #[]) (hattributes : b.attributes = #[])
    (hsteps : Workspace.Succeeds ⟨b, none⟩ (plan.steps b.name))
    (hbytes : (Workspace.after ⟨b, none⟩ (plan.steps b.name)).cls.encode.1 = .ok bs) :
    (∀ origin, ∃ ds, (Source.analyse minMajor ⟨origin, bs⟩).result = .ok (some ds) ∧
      ds.Perm (plan.diagnostics b.name b.source)) ∧
    (∀ before c behind k s, plan.parts = before ++ .caller c :: behind → c.sites[k]? = some s →
      ∃ code, (Workspace.after ⟨b, none⟩ (before.flatMap (Part.steps b.name) ++
          .code c.maxLocals :: (c.callsBefore k s).map .call)).code = some code ∧
        code.position = 6 * k) ∧
    ∀ before lambda behind, plan.parts = before ++ .link lambda :: behind → ∃ i,
      (Workspace.perform (Workspace.after ⟨b, none⟩ (before.flatMap (Part.steps b.name)))
        (lambda.linkStep b.name)).1 = .ok (.number i) ∧ plan.lambdas[i]? = some lambda := by
  have hp := hpool.sound
  have hnil : Assembled b [] ⟨b, none⟩ := .nil hmethods hbootstrap
  refine ⟨?_, ?_, ?_⟩
  · intro origin
    obtain ⟨cls, hcls, hread, hclsMajor, hsource⟩ :=
      (hnil.after_parts hp hsteps).exists_decode hp hattributes hbytes
    refine ⟨(cls.visit minMajor).diagnostics, ?_, ?_⟩
    · rw [Source.analyse, hcls]
      dsimp only
      rw [result_visit_eq minMajor hread.name]
      rfl
    · rw [← hsource]
      exact hread.diagnostics_perm (hclsMajor ▸ hmajor)
  · intro before c behind k s hparts hsite
    rw [ClassPlan.steps, hparts, List.flatMap_append, List.flatMap_cons] at hsteps
    obtain ⟨hbefore, hsteps⟩ := Workspace.succeeds_append_iff.1 hsteps
    obtain ⟨hcaller, -⟩ := Workspace.succeeds_append_iff.1 hsteps
    have hgrows := (hnil.after_parts hp hbefore).grows
    rw [Workspace.after_append]
    exact c.position_eq hsite (hgrows.sound hp) hcaller
  · intro before lambda behind hparts
    rw [ClassPlan.steps, hparts, List.flatMap_append] at hsteps
    obtain ⟨hbefore, -⟩ := Workspace.succeeds_append_iff.1 hsteps
    refine ⟨_, (hnil.after_parts hp hbefore).perform_link lambda, ?_⟩
    rw [ClassPlan.lambdas, hparts, List.filterMap_append, List.nil_append,
      List.getElem?_append_right (Nat.le_refl _), Nat.sub_self]
    rfl

end Assembly

/-! ## A class with one lambda -/

namespace Getter
open PoolBuilder (ofList intern intern_take intern_take_of_lt run_bind run_classRef run_nameAndType
  run_member)
open ClassBuilder (metafactoryOwner metafactoryName metafactoryDescriptor)
open Encoding (Writes writes_ok writes_pure writes_nil writes_index writes_attribute writes_member
  writes_code writes_method)
open Workspace (Leads)

/-- The body of the lambda is a synthetic static method, which calls `f` on its parameter. -/
def lambda : LambdaPlan where
  body := ⟨0x100A, "l", "(LA;)I", 1, [.aload 0, .invoke .virtual "A" "f" "()I" 0 1, .ireturn]⟩
  interfaceDescriptor := "(LA;)I"
  synthetic := rfl
  regular call h := by
    simp only [List.mem_cons, List.not_mem_nil, or_false] at h
    rcases h with rfl | rfl | rfl
    · exact Int.le_refl 0
    · trivial
    · trivial

/-- The caller makes the lambda and drops it. -/
def caller : CallerPlan where
  accessFlags := 9
  name := "m"
  descriptor := "()V"
  maxLocals := 0
  sites := [⟨7, 0, "f", "()LF;", 0, 1⟩]
  notSynthetic := rfl

def plan : ClassPlan where
  parts := [.link lambda, .body lambda, .caller caller]
  paired := .refl _
  distinct := List.nodup_singleton _
  linked := by decide

def builder : ClassBuilder := .new "A" "java/lang/Object" 52 0

/-- The constants of the class, in the order in which they are added. -/
def constants : List Constant :=
  [.utf8 metafactoryOwner, .classRef 1, .utf8 metafactoryName, .utf8 metafactoryDescriptor,
    .nameAndType 3 4, .member .method 2 5, .methodHandle 6 6, .utf8 "(LA;)I", .methodType 8,
    .utf8 "A", .classRef 10, .utf8 "l", .nameAndType 12 8, .member .method 11 13,
    .methodHandle 6 14, .utf8 "f", .utf8 "()I", .nameAndType 16 17, .member .method 11 18,
    .utf8 "()LF;", .nameAndType 16 20, .invokeDynamic 0 21, .utf8 "java/lang/Object",
    .classRef 23, .utf8 "Code", .utf8 "m", .utf8 "()V", .utf8 "LineNumberTable",
    .utf8 "BootstrapMethods"]

theorem nodup_constants : constants.Nodup := by decide +kernel

theorem narrow_constants : ∀ c ∈ constants, c.cells.length = 1 := by decide

/-- The pool with the first constants of the class. -/
def stage (n : Nat) : PoolBuilder := ofList (constants.take n)

theorem intern_next {c : Constant} (n : Nat) (h : constants[n]? = some c) :
    intern c (stage n) = (n + 1, stage (n + 1)) :=
  intern_take nodup_constants narrow_constants h

theorem intern_again {c : Constant} {n : Nat} (j : Nat) (h : constants[j]? = some c)
    (hlt : j < n) : intern c (stage n) = (j + 1, stage n) :=
  intern_take_of_lt nodup_constants narrow_constants h hlt

/-- The class with the bootstrap method of the lambda, some methods and the first constants. -/
def cls (methods : Array MethodDraft) (n : Nat) : ClassBuilder :=
  { builder with methods, bootstrap := #[⟨7, [9, 15, 9]⟩], pool := stage n }

/-! The bootstrap method of the lambda. -/

/-- The factory of lambdas is added with its class and its descriptor. -/
theorem factory_eq :
    PoolBuilder.member .method metafactoryOwner metafactoryName metafactoryDescriptor (stage 0) =
      (6, stage 6) := by
  have howner := run_classRef (intern_next 0 rfl) (intern_next 1 rfl)
  have hpair := run_nameAndType (intern_next 2 rfl) (intern_next 3 rfl) (intern_next 4 rfl)
  exact run_member howner hpair (intern_next 5 rfl)

/-- The body of the lambda is added behind the factory, with its class. -/
theorem body_eq : PoolBuilder.member .method "A" "l" "(LA;)I" (stage 9) = (14, stage 14) := by
  have howner := run_classRef (intern_next 9 rfl) (intern_next 10 rfl)
  have hpair := run_nameAndType (intern_next 11 rfl) (intern_again 7 rfl (by decide))
    (intern_next 12 rfl)
  exact run_member howner hpair (intern_next 13 rfl)

/-- The link of the lambda adds the first 15 constants. -/
theorem lambdaConstants_eq : ClassBuilder.lambdaConstants "A" "l" "(LA;)I" "(LA;)I"
    HandleKind.invokeStatic.number (stage 0) = (⟨7, [9, 15, 9]⟩, stage 15) := by
  have hinterface : PoolBuilder.methodType "(LA;)I" (stage 7) = (9, stage 9) :=
    run_bind (intern_next 7 rfl) (intern_next 8 rfl)
  have hinstantiated : PoolBuilder.methodType "(LA;)I" (stage 15) = (9, stage 15) :=
    run_bind (intern_again 7 rfl (by decide)) (intern_again 8 rfl (by decide))
  refine run_bind factory_eq ?_
  refine run_bind (intern_next 6 rfl) ?_
  refine run_bind hinterface ?_
  refine run_bind body_eq ?_
  refine run_bind (intern_next 14 rfl) ?_
  exact run_bind hinstantiated rfl

/-- The link leaves a class without methods whose table has one entry. -/
theorem leads_link : Leads ⟨builder, none⟩ (Part.steps "A" (.link lambda)) ⟨cls #[] 15, none⟩ := by
  have hpool : builder.pool = stage 0 := rfl
  have hperform : Workspace.perform ⟨builder, none⟩ (.lambda "A" "l" "(LA;)I" "(LA;)I"
      HandleKind.invokeStatic.number) = (.ok (.number 0), ⟨cls #[] 15, none⟩) := by
    simp only [Workspace.perform, ClassBuilder.addLambda, hpool, lambdaConstants_eq,
      ClassBuilder.addBootstrap]
    rfl
  exact .cons hperform .nil

/-! The body of the lambda. -/

def bodyDraft : MethodDraft :=
  ⟨0x100A, "l", "(LA;)I", some ⟨1, 1, [0x2A, 0xB6, 0, 19, 0xAC], []⟩⟩

/-- The body loads its parameter. -/
theorem runs_aload : Runs (CodeBuilder.Call.aload 0).perform ⟨stage 15, .empty 1⟩ ()
    ⟨stage 15, ⟨#[0x2A], 1, 1, 1, #[]⟩⟩ := by
  have hbyte : Encode.byte (Opcode.aload0.code + 0) = .ok 0x2A := by decide
  have hemit : Runs (CodeBuilder.emitByte (Opcode.aload0.code + 0)) ⟨stage 15, .empty 1⟩ ()
      ⟨stage 15, ⟨#[0x2A], 0, 1, 0, #[]⟩⟩ :=
    Runs.bind (runs_ofExcept_iff.2 ⟨hbyte, rfl⟩) (CodeBuilder.runs_change_iff.2 rfl)
  exact hemit.bind rfl

theorem member_eq : PoolBuilder.member .method "A" "f" "()I" (stage 15) = (19, stage 19) := by
  have howner : PoolBuilder.classRef "A" (stage 15) = (11, stage 15) :=
    run_classRef (intern_again 9 rfl (by decide)) (intern_again 10 rfl (by decide))
  have hpair := run_nameAndType (intern_next 15 rfl) (intern_next 16 rfl) (intern_next 17 rfl)
  exact run_member howner hpair (intern_next 18 rfl)

/-- Then it calls the method. -/
theorem runs_invoke : Runs (CodeBuilder.Call.invoke .virtual "A" "f" "()I" 0 1).perform
    ⟨stage 15, ⟨#[0x2A], 1, 1, 1, #[]⟩⟩ () ⟨stage 19, ⟨#[0x2A, 0xB6, 0, 19], 1, 1, 1, #[]⟩⟩ :=
  (CodeBuilder.runs_pooling _ member_eq).bind rfl

/-- The body is built and added. -/
theorem leads_body :
    Leads ⟨cls #[] 15, none⟩ (Part.steps "A" (.body lambda)) ⟨cls #[bodyDraft] 19, none⟩ :=
  .cons rfl (.cons (Workspace.perform_call runs_aload) (.cons (Workspace.perform_call runs_invoke)
    (.cons rfl (.cons rfl .nil))))

/-! The caller. -/

def callerDraft : MethodDraft :=
  ⟨9, "m", "()V", some ⟨1, 0, [0xBA, 0, 22, 0, 0, 0x57, 0xB1], [⟨0, 7⟩]⟩⟩

theorem dynamicCall_eq : PoolBuilder.invokeDynamic 0 "f" "()LF;" (stage 19) = (22, stage 22) := by
  have hpair : PoolBuilder.nameAndType "f" "()LF;" (stage 19) = (21, stage 21) :=
    run_nameAndType (intern_again 15 rfl (by decide)) (intern_next 19 rfl) (intern_next 20 rfl)
  exact run_bind hpair (intern_next 21 rfl)

/-- The caller makes the lambda. -/
theorem runs_dynamicCall : Runs (CodeBuilder.Call.invokeDynamic 0 "f" "()LF;" 0 1).perform
    ⟨stage 19, ⟨#[], 0, 0, 0, #[⟨0, 7⟩]⟩⟩ ()
    ⟨stage 22, ⟨#[0xBA, 0, 22, 0, 0], 1, 0, 1, #[⟨0, 7⟩]⟩⟩ :=
  (CodeBuilder.runs_pooling _ dynamicCall_eq).bind rfl

/-- The caller is built and added behind the body. -/
theorem leads_caller : Leads ⟨cls #[bodyDraft] 19, none⟩ (Part.steps "A" (.caller caller))
    ⟨cls #[bodyDraft, callerDraft] 22, none⟩ :=
  .cons rfl (.cons rfl (.cons (Workspace.perform_call runs_dynamicCall)
    (.cons rfl (.cons rfl (.cons rfl .nil)))))

/-- All parts of the plan leave the class with both methods. -/
theorem leads : Leads ⟨builder, none⟩ (plan.steps builder.name)
    ⟨cls #[bodyDraft, callerDraft] 22, none⟩ :=
  leads_link.append (leads_body.append (leads_caller.append .nil))

/-! The bytes of the class. -/

/-- The body of the lambda is written. -/
theorem writes_bodyDraft : ∃ bs, Writes bodyDraft.encode (stage 24) bs (stage 25) := by
  have hmember : Writes (encodeMember 0x100A "l" "(LA;)I") (stage 24) _ (stage 24) :=
    writes_member (intern_again 11 rfl (by decide)) (intern_again 7 rfl (by decide)) rfl rfl rfl
  have hcode : Writes (CodeDraft.encode ⟨1, 1, [0x2A, 0xB6, 0, 19, 0xAC], []⟩) (stage 24) _
      (stage 25) :=
    writes_code rfl rfl rfl (writes_ok rfl) (writes_attribute (intern_next 24 rfl) rfl rfl)
  exact ⟨_, writes_method rfl hmember hcode⟩

/-- The caller is written, with its line. -/
theorem writes_callerDraft : ∃ bs, Writes callerDraft.encode (stage 25) bs (stage 28) := by
  have hmember : Writes (encodeMember 9 "m" "()V") (stage 25) _ (stage 27) :=
    writes_member (intern_next 25 rfl) (intern_next 26 rfl) rfl rfl rfl
  have htable : CodeDraft.encodeLines [⟨0, 7⟩] = .ok [0, 1, 0, 0, 0, 7] := by cbv
  have hlines : Writes (encodeAttribute ClassFile.lineTableName [0, 1, 0, 0, 0, 7]) (stage 27) _
      (stage 28) := writes_attribute (intern_next 27 rfl) rfl rfl
  have hone : Encode.u2 1 = .ok [0, 1] := rfl
  have hattributes : Writes (CodeDraft.encodeAttributes
      ⟨1, 0, [0xBA, 0, 22, 0, 0, 0x57, 0xB1], [⟨0, 7⟩]⟩) (stage 27) _ (stage 28) :=
    (writes_ok htable).bind ((writes_ok hone).bind (hlines.bind (writes_pure _)))
  have hcode : Writes (CodeDraft.encode ⟨1, 0, [0xBA, 0, 22, 0, 0, 0x57, 0xB1], [⟨0, 7⟩]⟩)
      (stage 27) _ (stage 28) :=
    writes_code rfl rfl rfl hattributes (writes_attribute (intern_again 24 rfl (by decide)) rfl rfl)
  exact ⟨_, writes_method rfl hmember hcode⟩

/-- The bootstrap table with the one lambda. -/
def tableBytes : Bytes := [0, 1, 0, 7, 0, 3, 0, 9, 0, 15, 0, 9]

/-- The class is written behind its pool: its head, then its attributes. -/
theorem writes_body :
    ∃ bs, Writes (cls #[bodyDraft, callerDraft] 22).encodeBody (stage 22) bs (stage 29) := by
  obtain ⟨body, hbody⟩ := writes_bodyDraft
  obtain ⟨caller, hcaller⟩ := writes_callerDraft
  have hname : Writes (encodeIndex (PoolBuilder.classRef "A")) (stage 22) [0, 11] (stage 22) :=
    writes_index (run_classRef (intern_again 9 rfl (by decide)) (intern_again 10 rfl (by decide)))
      rfl
  have hsuper : Writes (encodeIndex (PoolBuilder.classRef "java/lang/Object")) (stage 22) [0, 24]
      (stage 24) :=
    writes_index (run_classRef (intern_next 22 rfl) (intern_next 23 rfl)) rfl
  have hmethods : Writes ([bodyDraft, callerDraft].mapM MethodDraft.encode) (stage 24)
      [body, caller] (stage 28) := hbody.cons (hcaller.cons writes_nil)
  have htable : Writes (ClassBuilder.bootstrapAttribute (cls #[bodyDraft, callerDraft] 22))
      (stage 28) [(BootstrapTable.attributeName, tableBytes)] (stage 28) :=
    (writes_ok (by cbv)).bind (writes_pure _)
  have hattribute : Writes (encodeAttribute BootstrapTable.attributeName tableBytes) (stage 28) _
      (stage 29) := writes_attribute (intern_next 28 rfl) rfl rfl
  have hone : Encode.u2 (1 : Nat) = .ok [0, 1] := rfl
  have htwo : Encode.u2 (2 : Nat) = .ok [0, 2] := rfl
  have hhead : Writes (cls #[bodyDraft, callerDraft] 22).encodeHead (stage 22) _ (stage 28) :=
    ClassBuilder.writes_head rfl rfl rfl hname hsuper htwo hmethods
  have htail : Writes (cls #[bodyDraft, callerDraft] 22).encodeTail (stage 28) _ (stage 29) :=
    ClassBuilder.writes_tail (writes_pure _) htable hone (Writes.cons hattribute writes_nil)
  exact ⟨_, ClassBuilder.writes_encodeBody_iff.2 ⟨_, _, _, hhead, htail, rfl⟩⟩

/-- The class is written. -/
theorem exists_encode :
    ∃ bs, (cls #[bodyDraft, callerDraft] 22).encode.1 = .ok bs := by
  obtain ⟨body, hbody⟩ := writes_body
  exact ClassBuilder.exists_encode_of_body hbody rfl rfl (by decide +kernel)

end Getter

/-- The one lambda of a class is reported where it is made. -/
theorem assembled_lambdas_reported_getter :
    ∃ bs ds,
      (Workspace.after ⟨Getter.builder, none⟩ (Getter.plan.steps "A")).cls.encode.1 = .ok bs ∧
      (Source.analyse 52 ⟨"A.class", bs⟩).result = .ok (some ds) ∧
      ds = [⟨.normal, "A", "m", "()V", 0, some 7, none, some "l"⟩] := by
  obtain ⟨bs, hbs⟩ := Getter.exists_encode
  obtain ⟨hsteps, hafter⟩ := Getter.leads
  have hbytes : (Workspace.after ⟨Getter.builder, none⟩
      (Getter.plan.steps Getter.builder.name)).cls.encode.1 = .ok bs := by
    rw [hafter]
    exact hbs
  have hmajor : (52 : Int) ≤ Getter.builder.major := Int.le_refl 52
  obtain ⟨hreport, -⟩ :=
    assembled_lambdas_reported .empty hmajor rfl rfl rfl hsteps hbytes
  obtain ⟨ds, hds, hperm⟩ := hreport "A.class"
  have hplan : Getter.plan.diagnostics Getter.builder.name Getter.builder.source =
      [⟨.normal, "A", "m", "()V", 0, some 7, none, some "l"⟩] := by cbv
  rw [hplan, List.perm_singleton] at hperm
  exact ⟨bs, ds, hbytes, hds, hperm⟩

end Forwarder
