import Forwarder.Assembler.Workspace
import Forwarder.Proofs.Assembler.Emission

/-!
# Classes assembled from lambdas and their callers

A `ClassPlan` says how a class with lambdas is assembled in a workspace: bootstrap methods of
lambdas, bodies of lambdas and callers, in any order. `Part.steps` are the steps that add a part.
What a workspace holds after some parts is `Assembled`; one part keeps it up
(`Assembled.after_part`), and so do all parts of a plan (`Assembled.after_parts`).
-/

namespace Forwarder

open CodeBuilder (Builds Call Outline)

namespace Workspace

/-- The workspace behind some steps. -/
def after (w : Workspace) : List Step → Workspace
  | [] => w
  | step :: steps => (w.perform step).2.after steps

/-- Every step succeeds, each on the workspace that the steps before it leave. -/
def Succeeds (w : Workspace) (steps : List Step) : Prop :=
  ∀ r ∈ w.run steps, ∃ answer, r.1 = .ok answer

section Steps

variable {w : Workspace} {step : Step} {steps before behind : List Step}

/-- Steps behind others start in the workspace that these leave. -/
theorem after_append : w.after (before ++ behind) = (w.after before).after behind := by
  induction before generalizing w with
  | nil => rfl
  | cons step before ih => exact ih

/-- The answers of steps behind others come behind theirs. -/
theorem run_append : w.run (before ++ behind) = w.run before ++ (w.after before).run behind := by
  induction before generalizing w with
  | nil => rfl
  | cons step before ih => exact congrArg (_ :: ·) ih

/-- Steps succeed if the first one does and the others do behind it. -/
theorem succeeds_cons_iff :
    w.Succeeds (step :: steps) ↔
      (∃ answer, (w.perform step).1 = .ok answer) ∧ (w.perform step).2.Succeeds steps := by
  unfold Succeeds
  rw [run]
  exact List.forall_mem_cons

/-- Steps succeed if those in front do and the others do behind them. -/
theorem succeeds_append_iff :
    w.Succeeds (before ++ behind) ↔ w.Succeeds before ∧ (w.after before).Succeeds behind := by
  unfold Succeeds
  rw [run_append]
  exact List.forall_mem_append

/-- Steps succeed and lead from one workspace to another. -/
def Leads (w : Workspace) (steps : List Step) (w' : Workspace) : Prop :=
  w.Succeeds steps ∧ w.after steps = w'

theorem Leads.nil : w.Leads [] w := ⟨nofun, rfl⟩

/-- A step that succeeds leads to where the others go on. -/
theorem Leads.cons {w₁ w' : Workspace} {answer : Answer} (h : w.perform step = (.ok answer, w₁))
    (h' : w₁.Leads steps w') : w.Leads (step :: steps) w' := by
  rw [Leads, succeeds_cons_iff, after, h]
  exact ⟨⟨⟨answer, rfl⟩, h'.1⟩, h'.2⟩

/-- Steps lead on from where others have led. -/
theorem Leads.append {w₁ w' : Workspace} (h : w.Leads before w₁) (h' : w₁.Leads behind w') :
    w.Leads (before ++ behind) w' := by
  rw [Leads, succeeds_append_iff, after_append, h.2]
  exact ⟨⟨h.1, h'.1⟩, h'.2⟩

/-- A call that runs on the code and on the pool of the class succeeds. -/
theorem perform_call {cls : ClassBuilder} {code : CodeBuilder} {call : Call}
    {e : CodeBuilder.Emission} (h : Runs call.perform ⟨cls.pool, code⟩ () e) :
    perform ⟨cls, some code⟩ (.call call) =
      (.ok .done, ⟨{ cls with pool := e.pool }, some e.code⟩) := by
  have hrun : call.perform.run ⟨cls.pool, code⟩ = (.ok (), e) := h
  simp only [perform, perform.call, hrun]
  rfl

/-- A call that succeeds is carried out on the code and on the pool of the class. -/
theorem exists_runs {cls : ClassBuilder} {code : CodeBuilder} {call : Call} {answer : Answer}
    (h : (perform ⟨cls, some code⟩ (.call call)).1 = .ok answer) :
    ∃ e : CodeBuilder.Emission, Runs call.perform ⟨cls.pool, code⟩ () e ∧
      (perform ⟨cls, some code⟩ (.call call)).2 = ⟨{ cls with pool := e.pool }, some e.code⟩ := by
  rcases hrun : call.perform.run ⟨cls.pool, code⟩ with ⟨result, e⟩
  simp only [perform, perform.call, hrun] at h ⊢
  cases result with
  | error error => cases h
  | ok u => exact ⟨e, hrun, rfl⟩

/-- Calls that succeed build code, and change nothing of the class but its pool. -/
theorem exists_builds {cls : ClassBuilder} {code : CodeBuilder} {calls : List Call}
    (h : Succeeds ⟨cls, some code⟩ (calls.map .call)) :
    ∃ e : CodeBuilder.Emission, Builds calls ⟨cls.pool, code⟩ e ∧
      after ⟨cls, some code⟩ (calls.map .call) = ⟨{ cls with pool := e.pool }, some e.code⟩ := by
  induction calls generalizing cls code with
  | nil => exact ⟨⟨cls.pool, code⟩, .nil, rfl⟩
  | cons call calls ih =>
    obtain ⟨⟨answer, hanswer⟩, hrest⟩ := succeeds_cons_iff.1 h
    obtain ⟨e₁, hcall, hnext⟩ := exists_runs hanswer
    rw [hnext] at hrest
    obtain ⟨e, hbuilds, hafter⟩ := ih hrest
    refine ⟨e, .cons hcall hbuilds, ?_⟩
    rw [List.map_cons, after, hnext]
    exact hafter

end Steps

end Workspace

/-! ## Plans -/

/-- A method that is to be built, with code that a sequence of calls builds. -/
structure MethodPlan where
  accessFlags : Int
  name : String
  descriptor : String
  maxLocals : Int
  calls : List Call

/-- What identifies a method that is to be built. -/
def MethodPlan.key (m : MethodPlan) : MethodKey := ⟨m.name, m.descriptor⟩

/-- The steps that build a method and add it to the class. -/
def MethodPlan.steps (m : MethodPlan) : List Workspace.Step :=
  .code m.maxLocals :: (m.calls.map .call ++ [.method m.accessFlags m.name m.descriptor])

/-- A lambda: its body, a synthetic method that any regular calls build, and the descriptor of the
interface method that it implements. -/
structure LambdaPlan where
  body : MethodPlan
  interfaceDescriptor : String
  synthetic : body.accessFlags.toNat.testBit 12 = true
  regular : ∀ call ∈ body.calls, call.IsRegular

/-- The handle of a lambda's body, a static method of a class. -/
def LambdaPlan.handle (lambda : LambdaPlan) (className : String) : MethodHandle :=
  ⟨.invokeStatic, ⟨.method, className, lambda.body.name, lambda.body.descriptor⟩⟩

/-- The step that adds the bootstrap method of a lambda to a class of a name. -/
def LambdaPlan.linkStep (lambda : LambdaPlan) (className : String) : Workspace.Step :=
  .lambda className lambda.body.name lambda.body.descriptor lambda.interfaceDescriptor
    HandleKind.invokeStatic.number

/-- A dynamic call of a lambda, the result of which is dropped: its line, the index of the lambda's
bootstrap method, and its name and descriptor with the sizes of its arguments and results. -/
structure SitePlan where
  line : Int
  lambda : Nat
  name : String
  descriptor : String
  arguments : Int
  results : Int

/-- The call of a code builder for a dynamic call. -/
def SitePlan.call (s : SitePlan) : Call :=
  .invokeDynamic s.lambda s.name s.descriptor s.arguments s.results

/-- The calls of a code builder that make a dynamic call and drop its result. -/
def SitePlan.calls (s : SitePlan) : List Call := [.line s.line, s.call, .pop]

/-- A method that is not synthetic, and makes dynamic calls of lambdas before it returns. -/
structure CallerPlan where
  accessFlags : Int
  name : String
  descriptor : String
  maxLocals : Int
  sites : List SitePlan
  notSynthetic : accessFlags.toNat.testBit 12 = false

/-- The method of a caller. -/
def CallerPlan.method (c : CallerPlan) : MethodPlan :=
  ⟨c.accessFlags, c.name, c.descriptor, c.maxLocals,
    c.sites.flatMap SitePlan.calls ++ [.vreturn]⟩

/-- The calls of a code builder that come before the dynamic call of a site at a place. -/
def CallerPlan.callsBefore (c : CallerPlan) (k : Nat) (s : SitePlan) : List Call :=
  (c.sites.take k).flatMap SitePlan.calls ++ [.line s.line]

/-- A part of a class with lambdas. -/
inductive Part where
  /-- The bootstrap method of a lambda. -/
  | link (lambda : LambdaPlan)
  /-- The body of a lambda. -/
  | body (lambda : LambdaPlan)
  | caller (caller : CallerPlan)

namespace Part

/-- The lambda whose bootstrap method a part is. -/
def linked? : Part → Option LambdaPlan
  | link lambda => some lambda
  | _ => none

/-- The lambda whose body a part is. -/
def body? : Part → Option LambdaPlan
  | body lambda => some lambda
  | _ => none

/-- The caller that a part is. -/
def caller? : Part → Option CallerPlan
  | caller c => some c
  | _ => none

/-- The method that a part is. -/
def method? : Part → Option MethodPlan
  | link _ => none
  | body lambda => some lambda.body
  | caller c => some c.method

/-- The steps that add a part to a class of a name. -/
def steps (className : String) : Part → List Workspace.Step
  | link lambda => [lambda.linkStep className]
  | body lambda => lambda.body.steps
  | caller c => c.method.steps

end Part

/-- A class with lambdas: every one of its lambdas has a bootstrap method and a body, no two of them
the same key, and the dynamic calls name lambdas by the indices of their bootstrap methods. -/
structure ClassPlan where
  parts : List Part
  paired : (parts.filterMap Part.body?).Perm (parts.filterMap Part.linked?)
  distinct : ((parts.filterMap Part.linked?).map fun lambda => lambda.body.key).Nodup
  linked : ∀ c ∈ parts.filterMap Part.caller?, ∀ s ∈ c.sites,
    s.lambda < (parts.filterMap Part.linked?).length

/-- The lambdas of a plan, in the order of their bootstrap methods. -/
def ClassPlan.lambdas (plan : ClassPlan) : List LambdaPlan := plan.parts.filterMap Part.linked?

/-- The steps that assemble a class of a name. -/
def ClassPlan.steps (plan : ClassPlan) (className : String) : List Workspace.Step :=
  plan.parts.flatMap (Part.steps className)

/-! ## What the steps of a plan leave -/

/-- A method under construction is the one that was planned, with the outline of its calls as its
code. -/
structure MethodPlan.Drafts (m : MethodPlan) (pool : ConstantPool) (draft : MethodDraft) :
    Prop where
  accessFlags : draft.accessFlags = m.accessFlags
  name : draft.name = m.name
  descriptor : draft.descriptor = m.descriptor
  code : ∃ code instrs, draft.code = some code ∧ code.bytes = Instruction.bytesOf instrs ∧
    Outline pool 0 m.calls instrs code.lines

/-- A bootstrap method under construction has the handle of a lambda's body, as the first one among
its arguments. -/
structure LambdaPlan.Drafts (lambda : LambdaPlan) (className : String) (pool : ConstantPool)
    (draft : BootstrapDraft) : Prop where
  arguments : ∃ interfaceType handle instantiated : Nat,
    draft.arguments = [(interfaceType : Int), handle, instantiated] ∧
    (∃ text, pool.entry interfaceType = .ok (.methodType text)) ∧
    pool.methodHandle handle = .ok (lambda.handle className)

/-- A workspace holds a class to which parts have been added, and no code under construction. -/
structure Assembled (b : ClassBuilder) (parts : List Part) (w : Workspace) : Prop where
  code : w.code = none
  cls : w.cls =
    { b with methods := w.cls.methods, bootstrap := w.cls.bootstrap, pool := w.cls.pool }
  grows : b.pool.Grows w.cls.pool
  methods : ∀ q : PoolBuilder, w.cls.pool.Grows q →
    List.Forall₂ (fun m draft => m.Drafts q.pool draft) (parts.filterMap Part.method?)
      w.cls.methods.toList
  bootstrap : ∀ q : PoolBuilder, w.cls.pool.Grows q →
    List.Forall₂ (fun lambda draft => lambda.Drafts b.name q.pool draft)
      (parts.filterMap Part.linked?) w.cls.bootstrap.toList

section Assembled

variable {b : ClassBuilder} {parts : List Part} {w : Workspace}

/-- The steps of a method add it. -/
theorem MethodPlan.exists_draft {m : MethodPlan} (hregular : ∀ call ∈ m.calls, call.IsRegular)
    (hp : w.cls.pool.Sound) (h : w.Succeeds m.steps) :
    ∃ (pool : PoolBuilder) (draft : MethodDraft), w.cls.pool.Grows pool ∧
      w.after m.steps =
        ⟨{ w.cls with pool := pool, methods := w.cls.methods.push draft }, none⟩ ∧
      ∀ q : PoolBuilder, pool.Grows q → m.Drafts q.pool draft := by
  obtain ⟨-, h⟩ := Workspace.succeeds_cons_iff.1 h
  obtain ⟨hcalls, -⟩ := Workspace.succeeds_append_iff.1 h
  obtain ⟨e, hbuilds, hafter⟩ := Workspace.exists_builds hcalls
  obtain ⟨hg, houtline⟩ := hbuilds.exists_outline hregular hp.consistent
  refine ⟨e.pool, ⟨m.accessFlags, m.name, m.descriptor, some e.code.build⟩, hg, ?_, ?_⟩
  · have hsteps : w.after m.steps =
        Workspace.after ⟨w.cls, some (.empty m.maxLocals)⟩
          (m.calls.map .call ++ [.method m.accessFlags m.name m.descriptor]) := rfl
    rw [hsteps, Workspace.after_append, hafter]
    rfl
  · intro q hq
    obtain ⟨instrs, lines, hcode, hlines, houtline⟩ := houtline q hq.toExtends
    refine ⟨rfl, rfl, rfl, e.code.build, instrs, rfl, hcode, ?_⟩
    rw [CodeBuilder.build, hlines]
    exact houtline

/-- The calls that make a caller are regular. -/
theorem CallerPlan.regular (c : CallerPlan) : ∀ call ∈ c.method.calls, call.IsRegular := by
  intro call hcall
  rcases List.mem_append.1 hcall with hcall | hcall
  · obtain ⟨s, -, hs⟩ := List.mem_flatMap.1 hcall
    simp only [SitePlan.calls, List.mem_cons, List.not_mem_nil, or_false] at hs
    rcases hs with rfl | rfl | rfl <;> trivial
  · rw [List.mem_singleton.1 hcall]
    trivial

/-- Nothing has been added yet. -/
theorem Assembled.nil (hmethods : b.methods = #[]) (hbootstrap : b.bootstrap = #[]) :
    Assembled b [] ⟨b, none⟩ where
  code := rfl
  cls := rfl
  grows := .refl b.pool
  methods _ _ := by rw [hmethods]; exact .nil
  bootstrap _ _ := by rw [hbootstrap]; exact .nil

/-- A method that is added stands behind the others. -/
theorem Assembled.after_method {m : MethodPlan} {part : Part} (hmethod : part.method? = some m)
    (hlinked : part.linked? = none) (hregular : ∀ call ∈ m.calls, call.IsRegular)
    (ha : Assembled b parts w) (hp : b.pool.Sound) (h : w.Succeeds m.steps) :
    Assembled b (parts ++ [part]) (w.after m.steps) := by
  obtain ⟨pool, draft, hg, hafter, hdrafts⟩ :=
    MethodPlan.exists_draft hregular (ha.grows.sound hp) h
  rw [hafter]
  refine ⟨rfl, ?_, ha.grows.trans hg, fun q hq => ?_, fun q hq => ?_⟩
  · show ({ w.cls with pool := pool, methods := w.cls.methods.push draft } : ClassBuilder) = _
    rw [ha.cls]
  · rw [List.filterMap_append, Array.toList_push]
    refine List.rel_append (ha.methods q (hg.trans hq)) ?_
    rw [List.filterMap_cons_some hmethod]
    exact .cons (hdrafts q hq) .nil
  · rw [List.filterMap_append, List.filterMap_cons_none hlinked, List.filterMap_nil,
      List.append_nil]
    exact ha.bootstrap q (hg.trans hq)

/-- A bootstrap method that is added stands behind the others. -/
theorem Assembled.after_link {lambda : LambdaPlan} (ha : Assembled b parts w)
    (hp : b.pool.Sound) :
    Assembled b (parts ++ [.link lambda]) (w.after (Part.steps b.name (.link lambda))) := by
  have hyields := PoolBuilder.yields_lambdaConstants b.name lambda.body.name
    lambda.body.descriptor lambda.interfaceDescriptor w.cls.pool
  rcases hconstants : ClassBuilder.lambdaConstants b.name lambda.body.name lambda.body.descriptor
    lambda.interfaceDescriptor HandleKind.invokeStatic.number w.cls.pool with ⟨draft, pool⟩
  rw [hconstants] at hyields
  obtain ⟨hg, hdrafts⟩ := hyields
  have hafter : w.after (Part.steps b.name (.link lambda)) =
      ⟨{ w.cls with pool := pool, bootstrap := w.cls.bootstrap.push draft }, w.code⟩ := by
    simp only [Part.steps, LambdaPlan.linkStep, Workspace.after, Workspace.perform,
      ClassBuilder.addLambda, hconstants, ClassBuilder.addBootstrap]
  rw [hafter]
  refine ⟨ha.code, ?_, ha.grows.trans hg, fun q hq => ?_, fun q hq => ?_⟩
  · show ({ w.cls with pool := pool, bootstrap := w.cls.bootstrap.push draft } : ClassBuilder) = _
    rw [ha.cls]
  · rw [List.filterMap_append, List.filterMap_cons_none rfl, List.filterMap_nil, List.append_nil]
    exact ha.methods q (hg.trans hq)
  · rw [List.filterMap_append, Array.toList_push]
    refine List.rel_append (ha.bootstrap q (hg.trans hq)) (.cons ⟨?_⟩ .nil)
    exact hdrafts (ha.grows.sound hp).consistent q hq.toExtends

/-- Adding a bootstrap method gives the number of those before it. -/
theorem Assembled.perform_link (ha : Assembled b parts w) (lambda : LambdaPlan) :
    (w.perform (lambda.linkStep b.name)).1 =
      .ok (.number (parts.filterMap Part.linked?).length) := by
  rw [(ha.bootstrap w.cls.pool (.refl _)).length_eq, Array.length_toList]
  rcases hconstants : ClassBuilder.lambdaConstants b.name lambda.body.name lambda.body.descriptor
    lambda.interfaceDescriptor HandleKind.invokeStatic.number w.cls.pool with ⟨draft, pool⟩
  simp only [LambdaPlan.linkStep, Workspace.perform, ClassBuilder.addLambda, hconstants,
    ClassBuilder.addBootstrap]

/-- **The steps of a part add it.** -/
theorem Assembled.after_part {part : Part} (ha : Assembled b parts w) (hp : b.pool.Sound)
    (h : w.Succeeds (part.steps b.name)) :
    Assembled b (parts ++ [part]) (w.after (part.steps b.name)) := by
  cases part with
  | link lambda => exact ha.after_link hp
  | body lambda => exact ha.after_method rfl rfl lambda.regular hp h
  | caller c => exact ha.after_method rfl rfl c.regular hp h

/-- The steps of some parts add them. -/
theorem Assembled.after_parts {added : List Part} (ha : Assembled b parts w) (hp : b.pool.Sound)
    (h : w.Succeeds (added.flatMap (Part.steps b.name))) :
    Assembled b (parts ++ added) (w.after (added.flatMap (Part.steps b.name))) := by
  induction added generalizing parts w with
  | nil =>
    rw [List.append_nil]
    exact ha
  | cons part added ih =>
    rw [List.flatMap_cons] at h ⊢
    obtain ⟨hpart, hadded⟩ := Workspace.succeeds_append_iff.1 h
    have hassembled := ih (ha.after_part hp hpart) hadded
    rw [List.append_assoc] at hassembled
    rw [Workspace.after_append]
    exact hassembled

end Assembled

end Forwarder
