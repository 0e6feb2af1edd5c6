import Forwarder.Proofs.Analysis

/-!
# The order of the reports

`report_regroups`: what a class reports of call sites are those of confirmed targets, grouped by
target, and a session appends one diagnostic for each of them and tells how many. The call sites of a
walk come from the dynamic calls of the class, in the order of its methods and of their offsets, and
grouping leaves those of one target in that order.
-/

namespace Forwarder

section Report

variable {cls : ClassFile} {table : BootstrapTable}

/-- The linked dynamic calls of one target are reported in the order of methods and offsets. -/
theorem pairwise_linkedBy (confirmed : List MethodKey) (key : MethodKey) :
    ((cls.linkedBy table confirmed).filter fun r => r.2 = key).Pairwise
      fun r r' => r.1.Before r'.1 := by
  rw [ClassFile.linkedBy, (regroups_groupedBy Prod.snd _).filter_eq key]
  exact (pairwise_linked.filter _).filter _

/-- **Reporting is a stable regrouping.** Whatever the call sites are and whichever targets are
confirmed, a class with a name reports the call sites of confirmed targets, one diagnostic for each:
those of one target together, in their order, and the targets in the order in which they first occur.
A session keeps what it has collected, appends the diagnostics and tells their number. If the call
sites are those of a walk, then they come from the linked dynamic calls, and those of one target are
in the order of methods and, in a method, of offsets. A class without a name has no call sites. -/
theorem report_regroups (cls : ClassFile) (sites : List CallSite) (confirmed : List MethodKey) :
    ∃ reported : List CallSite,
      Regroups CallSite.target (sites.filter fun c => confirmed.contains c.target) reported ∧
      (∀ name, cls.name = some name → ∀ s : Session, s.collect (cls.report sites confirmed) =
        (reported.length, { s with
          collected := s.collected ++ reported.map (·.diagnostic name cls.sourceFile) })) ∧
      (∀ table, (CallSite.scan cls table).fault = none → sites = (CallSite.scan cls table).sites →
        ∃ calls : List (Occurrence × MethodKey), reported = calls.map (fun r => r.1.site r.2) ∧
          calls.Perm ((cls.linked table).filter fun r => confirmed.contains r.2) ∧
          ∀ key, (calls.filter fun r => r.2 = key).Pairwise fun r r' => r.1.Before r'.1) ∧
      (cls.name = none → ∀ table, (CallSite.scan cls table).sites = []) := by
  refine ⟨CallSite.regroup confirmed sites, ?_, ?_, ?_, ?_⟩
  · rw [CallSite.regroup_eq]
    exact regroups_groupedBy CallSite.target _
  · intro name hname s
    simp only [ClassFile.report, hname]
    rw [Session.collect_eq, List.length_map]
  · intro table hfault hsites
    refine ⟨cls.linkedBy table confirmed, ?_, groupedBy_perm Prod.snd _, ?_⟩
    · rw [hsites, sites_scan_eq hfault, map_site_linkedBy]
    · exact pairwise_linkedBy confirmed
  · exact fun hname table => CallSite.sites_scan_of_unnamed hname

end Report

/-! ## A class with interleaved calls -/

namespace Interleaved

/-- The constants of a class `A` with two lambdas of one name, which take different types. -/
def pool : ConstantPool where
  slots := #[none, some (.utf8 "A"), some (.classRef 1), some (.utf8 "l"), some (.utf8 "(LS;)I"),
    some (.utf8 "(LT;)I"), some (.nameAndType 3 4), some (.nameAndType 3 5),
    some (.member .method 2 6), some (.member .method 2 7), some (.methodHandle 6 8),
    some (.methodHandle 6 9), some (.utf8 "f"), some (.utf8 "()LF;"), some (.nameAndType 12 13),
    some (.invokeDynamic 0 14), some (.invokeDynamic 1 14)]

/-- The bootstrap table, with an entry for either lambda. -/
def table : BootstrapTable := ⟨#[⟨10, [10]⟩, ⟨10, [11]⟩]⟩

/-- The code of a method that makes the first lambda, the second one and the first one again. -/
def callerCode : Code :=
  ⟨1, 1, [0xBA, 0, 15, 0, 0, 0x57, 0xBA, 0, 16, 0, 0, 0x57, 0xBA, 0, 15, 0, 0, 0x57, 0xB1], []⟩

/-- The class `A`. -/
def cls : ClassFile where
  major := 52
  minor := 0
  accessFlags := 0x0021
  name := some "A"
  superName := some "A"
  interfaces := []
  methods := [⟨0x0001, "m", "()V", .empty, some callerCode⟩]
  pool := pool
  attributes := .empty
  sourceFile := none

/-- The first lambda. -/
def first : MethodKey := ⟨"l", "(LS;)I"⟩

/-- The second lambda. -/
def second : MethodKey := ⟨"l", "(LT;)I"⟩

/-- A call of `m` at an offset. -/
def call (key : MethodKey) (pc : Nat) : CallSite := ⟨key, ⟨"m", "()V"⟩, pc, none⟩

theorem scan_eq : CallSite.scan cls table =
    ⟨[call first 0, call second 6, call first 12], [], none⟩ := by decide +kernel

end Interleaved

/-- Of three calls the two of one target are reported one behind the other, although a call of a
target with the same name stands between them, and behind what has been collected before. They come
from dynamic calls in the order of their offsets. -/
theorem report_regroups_interleaved (s : Session) :
    (∃ before behind, s.collect (Interleaved.cls.report (CallSite.scan Interleaved.cls
        Interleaved.table).sites [Interleaved.first, Interleaved.second]) =
      (3, { s with collected := s.collected ++ (before ++
        [⟨.normal, "A", "m", "()V", 0, none, none, some "l"⟩,
          ⟨.normal, "A", "m", "()V", 12, none, none, some "l"⟩] ++ behind) })) ∧
      ∃ calls : List (Occurrence × MethodKey), calls.length = 3 ∧
        (calls.filter fun r => r.2 = Interleaved.first).Pairwise fun r r' => r.1.Before r'.1 := by
  obtain ⟨reported, hregroups, hcollect, hwalk, -⟩ := report_regroups Interleaved.cls
    (CallSite.scan Interleaved.cls Interleaved.table).sites [Interleaved.first, Interleaved.second]
  have hfault : (CallSite.scan Interleaved.cls Interleaved.table).fault = none := by
    rw [Interleaved.scan_eq]
  obtain ⟨calls, hcalls, -, hordered⟩ := hwalk Interleaved.table hfault rfl
  rw [Interleaved.scan_eq] at hregroups hcollect ⊢
  obtain ⟨before, behind, hreported, -⟩ := hregroups.contiguous Interleaved.first
  have hlength : reported.length = 3 := hregroups.perm.length_eq
  refine ⟨⟨before.map (·.diagnostic "A" none), behind.map (·.diagnostic "A" none), ?_⟩, calls, ?_,
    hordered Interleaved.first⟩
  · rw [hcollect "A" rfl s, hlength, hreported, List.map_append, List.map_append]
    rfl
  · rw [← hlength, hcalls, List.length_map]

end Forwarder
