import Forwarder.Program
import Forwarder.Proofs.Except
import Forwarder.Proofs.Report.Body

/-!
# Many class files

Class files are analysed one after the other, by workers whose results arrive in any order, or in a
session whose visits share one list of diagnostics. `drivers_agree` says that these three give the
same diagnostics in the same order, whatever the order of arrival, and that the session keeps no
trace of a class file without diagnostics. What workers do rests on `gather_eq`, which fills the
places of the results one by one; a session on `Session.feed_appends`, the law of one visit.
-/

namespace Forwarder

/-! ## Sums of outcomes -/

/-- What analyses of some sources give, none of which fails. -/
def Outcomes (minMajor : Int) (sources : List Source) (outcomes : List (Option (List Diagnostic))) :
    Prop :=
  List.Forall₂ (fun source outcome => (source.analyse minMajor).result = .ok outcome)
    sources outcomes

/-- The diagnostics of an outcome, which are none for what is no class file. -/
def diagnosticsOf (outcome : Option (List Diagnostic)) : List Diagnostic := outcome.getD []

section Outcomes

variable {minMajor : Int} {source : Source} {sources : List Source}
  {outcome : Option (List Diagnostic)} {outcomes : List (Option (List Diagnostic))}

/-- If no analysis fails, each source has an outcome. -/
theorem exists_outcomes
    (h : ∀ source ∈ sources, ∃ outcome, (source.analyse minMajor).result = .ok outcome) :
    ∃ outcomes, Outcomes minMajor sources outcomes := by
  induction sources with
  | nil => exact ⟨[], .nil⟩
  | cons source sources ih =>
    obtain ⟨⟨outcome, houtcome⟩, hrest⟩ := List.forall_mem_cons.1 h
    obtain ⟨outcomes, houtcomes⟩ := ih hrest
    exact ⟨outcome :: outcomes, .cons houtcome houtcomes⟩

/-- Only what cannot be read as a class file has no outcome. -/
theorem isNone_of_analyse (h : (source.analyse minMajor).result = .ok outcome) :
    outcome.isNone = !(ClassFile.decode source.data).isOk := by
  cases hcls : ClassFile.decode source.data with
  | error e =>
    cases h.symm.trans (Source.result_of_error hcls)
    rfl
  | ok cls =>
    obtain ⟨ds, -, rfl⟩ := except_map_eq_ok.1 ((Source.result_of_ok hcls).symm.trans h)
    rfl

/-- Every outcome is there or missing. -/
theorem countP_isSome_add_isNone (outcomes : List (Option (List Diagnostic))) :
    outcomes.countP Option.isSome + outcomes.countP Option.isNone = outcomes.length := by
  rw [List.length_eq_countP_add_countP Option.isSome]
  exact congrArg _ (List.countP_congr fun outcome _ => by cases outcome <;> simp)

/-- As many outcomes are missing as there are sources that cannot be read. -/
theorem Outcomes.countP_isNone (h : Outcomes minMajor sources outcomes) :
    outcomes.countP Option.isNone =
      sources.countP fun source => !(ClassFile.decode source.data).isOk := by
  unfold Outcomes at h
  induction h with
  | nil => rfl
  | cons ha _ ih => rw [List.countP_cons, List.countP_cons, ih, isNone_of_analyse ha]

/-- There is one outcome for each source. -/
theorem Outcomes.length_eq (h : Outcomes minMajor sources outcomes) :
    sources.length = outcomes.length :=
  List.Forall₂.length_eq h

/-- The outcome at a place is that of the source there. -/
theorem Outcomes.getElem? (h : Outcomes minMajor sources outcomes) (place : Nat) :
    Option.Rel (fun source outcome => (source.analyse minMajor).result = .ok outcome)
      sources[place]? outcomes[place]? := by
  unfold Outcomes at h
  induction h generalizing place with
  | nil => exact .none
  | cons ha _ ih =>
    cases place with
    | zero => exact .some ha
    | succ place => exact ih place

/-- A sum counts the outcomes that are there and those that are missing, and puts the diagnostics
one after the other. -/
theorem Summary.ofOutcomes_eq (outcomes : List (Option (List Diagnostic))) :
    Summary.ofOutcomes outcomes =
      ⟨outcomes.countP Option.isSome, outcomes.countP Option.isNone,
        outcomes.flatMap diagnosticsOf⟩ := by
  induction outcomes with
  | nil => rfl
  | cons outcome outcomes ih =>
    have hcons : Summary.ofOutcomes (outcome :: outcomes) =
        Summary.add outcome (Summary.ofOutcomes outcomes) := rfl
    rw [hcons, ih]
    cases outcome <;> simp [Summary.add, diagnosticsOf]

end Outcomes

/-! ## Workers -/

section Workers

variable {α : Type} {l : List α}

/-- After some results of a list have arrived, their places hold them and the other places hold what
they held before. -/
theorem getElem?_foldl_set {arrivals : List (Nat × α)} {slots : List (Option α)}
    (hlength : slots.length = l.length) (hplaces : ∀ p ∈ arrivals, l[p.1]? = some p.2) (i : Nat) :
    (arrivals.foldl (fun slots p => slots.set p.1 (some p.2)) slots)[i]? =
      if i ∈ arrivals.map Prod.fst then l[i]?.map some else slots[i]? := by
  induction arrivals generalizing slots with
  | nil => rfl
  | cons p arrivals ih =>
    obtain ⟨hp, hplaces⟩ := List.forall_mem_cons.1 hplaces
    rw [List.foldl_cons, ih (by rw [List.length_set, hlength]) hplaces]
    by_cases hi : i ∈ arrivals.map Prod.fst
    · simp [hi]
    · by_cases hpi : p.1 = i
      · subst hpi
        have hlt : p.1 < slots.length := by
          rw [hlength]
          exact (List.getElem?_eq_some_iff.1 hp).1
        simp [hi, hp, hlt]
      · simp [hi, hpi, Ne.symm hpi]

/-- Results that arrive in any order are gathered in the order of the list they come from, if every
place is among them. -/
theorem gather_eq {arrivals : List (Nat × α)} (hplaces : ∀ p ∈ arrivals, l[p.1]? = some p.2)
    (hall : ∀ i < l.length, i ∈ arrivals.map Prod.fst) :
    gather l.length arrivals = l.map some := by
  refine List.ext_getElem? fun i => ?_
  rw [gather, getElem?_foldl_set List.length_replicate hplaces, List.getElem?_map]
  split
  · rfl
  · rename_i hi
    have hge : l.length ≤ i := Nat.le_of_not_lt fun hlt => hi (hall i hlt)
    rw [List.getElem?_eq_none (by simpa using hge), List.getElem?_eq_none hge]
    rfl

variable {minMajor : Int} {sources : List Source} {outcomes : List (Option (List Diagnostic))}

/-- Workers report the outcome of the source at each place. -/
theorem Outcomes.mapM_arrival (h : Outcomes minMajor sources outcomes) (arrival : List Nat) :
    (arrival.filterMap fun place => sources.toArray[place]?.map fun source =>
        (place, source.analyse minMajor)).mapM
          (fun (place, run) => run.result.map fun outcome => (place, outcome)) =
      .ok (arrival.filterMap fun place =>
        outcomes[place]?.map fun outcome => (place, outcome)) := by
  refine mapM_eq_ok_of_forall₂ ?_
  induction arrival with
  | nil => exact .nil
  | cons place arrival ih =>
    have hplace := h.getElem? place
    rw [List.filterMap_cons, List.filterMap_cons, List.getElem?_toArray]
    cases hs : sources[place]? with
    | none =>
      rw [hs] at hplace
      cases ho : outcomes[place]? with
      | none => exact ih
      | some outcome => rw [ho] at hplace; cases hplace
    | some source =>
      rw [hs] at hplace
      cases ho : outcomes[place]? with
      | none => rw [ho] at hplace; cases hplace
      | some outcome =>
        rw [ho] at hplace
        cases hplace with
        | some hresult => exact .cons (by simp [hresult, Except.map]) ih

/-- One class after the other, the outcomes are added up in the order of the sources. -/
theorem Outcomes.analyseAll (h : Outcomes minMajor sources outcomes) :
    (analyseAll minMajor sources).result = .ok (.ofOutcomes outcomes) := by
  have hruns : (sources.map (Source.analyse minMajor)).mapM Logged.result = .ok outcomes := by
    refine mapM_eq_ok_of_forall₂ ?_
    rw [List.forall₂_map_left_iff]
    exact h
  simp only [Forwarder.analyseAll, hruns]
  rfl

/-- The outcomes are added up in the order of the sources also if workers report them in another
order, each once. -/
theorem Outcomes.analyseByWorkers (h : Outcomes minMajor sources outcomes) {arrival : List Nat}
    (harrival : arrival.Perm (List.range sources.length)) :
    (analyseByWorkers minMajor sources arrival).result = .ok (.ofOutcomes outcomes) := by
  have hgather : gather sources.length (arrival.filterMap fun place =>
      outcomes[place]?.map fun outcome => (place, outcome)) = outcomes.map some := by
    rw [h.length_eq]
    refine gather_eq ?_ ?_
    · intro p hp
      obtain ⟨place, -, hp⟩ := List.mem_filterMap.1 hp
      obtain ⟨outcome, houtcome, rfl⟩ := Option.map_eq_some_iff.1 hp
      exact houtcome
    · intro i hi
      have hplace : i ∈ arrival := harrival.mem_iff.2 (List.mem_range.2 (h.length_eq ▸ hi))
      refine List.mem_map.2 ⟨(i, outcomes[i]), List.mem_filterMap.2 ⟨i, hplace, ?_⟩, rfl⟩
      rw [List.getElem?_eq_getElem hi]
      rfl
  have hsome : (outcomes.map some).filterMap id = outcomes := by
    rw [List.filterMap_map]
    exact List.filterMap_some
  simp only [Forwarder.analyseByWorkers]
  rw [h.mapM_arrival arrival]
  simp only [Except.map, hgather, hsome]

/-- How many workers the settings ask for does not matter. -/
theorem Outcomes.analyseSources {settings : Settings}
    (h : Outcomes settings.minMajor sources outcomes) :
    (Program.analyseSources settings sources).result = .ok (.ofOutcomes outcomes) := by
  unfold Program.analyseSources
  dsimp only
  split
  · exact h.analyseAll
  · exact h.analyseByWorkers (.refl _)

end Workers

/-! ## Sessions -/

/-- Bytes that leave no diagnostics: they are no class file, or a class without a name about which
something has to be said, or a class whose visit does not walk to its end. -/
def PassedOver (minMajor : Int) (data : Bytes) : Prop :=
  ∀ cls, ClassFile.decode data = .ok cls →
    cls.Unreportable minMajor ∨ ∀ table, ¬ cls.Surveyed minMajor table

/-- A class that is passed over has no diagnostics. -/
theorem PassedOver.eq_nil {minMajor : Int} {data : Bytes} (h : PassedOver minMajor data)
    {cls : ClassFile} (hcls : ClassFile.decode data = .ok cls) {ds : List Diagnostic}
    (hds : (cls.visit minMajor).result = .ok ds) : ds = [] := by
  rcases h cls hcls with ⟨hname, -⟩ | hsurveyed
  · rcases result_visit_of_unnamed minMajor hname with ⟨hresult, -⟩ | ⟨hresult, -⟩
    · cases hds.symm.trans hresult
    · cases hds.symm.trans hresult
      rfl
  · rw [← diagnostics_of_result hds, diagnostics_of_not_surveyed hsurveyed]

namespace Session

section Feed

variable {s : Session} {data : Bytes} {cls : ClassFile}

/-- Collecting diagnostics appends them all and tells how many. -/
theorem collect_eq (s : Session) (ds : List Diagnostic) :
    s.collect ds = (ds.length, { s with collected := s.collected ++ ds }) := by
  induction ds using List.reverseRecOn with
  | nil => simp [collect]
  | append_singleton ds d ih =>
    rw [collect] at ih ⊢
    rw [List.foldl_append, ih]
    simp

/-- A source that is no class file leaves a session as it is. -/
theorem feed_of_format {e : ClassFile.FormatError} (h : ClassFile.decode data = .error e) :
    s.feed data = (⟨[], .error (.format e), s.collected.length⟩, s) := by
  simp only [feed, h]

/-- A source whose visit fails leaves a session as it is, but for what the visit has logged. -/
theorem feed_of_visit_error {e : VisitError} (hcls : ClassFile.decode data = .ok cls)
    (h : (cls.visit s.minMajor).result = .error e) :
    s.feed data = (⟨(cls.visit s.minMajor).log, .error (.visit e), s.collected.length⟩, s) := by
  simp only [feed, hcls, h]

/-- The diagnostics of a visit are collected behind those that are there. -/
theorem feed_of_visit {ds : List Diagnostic} (hcls : ClassFile.decode data = .ok cls)
    (h : (cls.visit s.minMajor).result = .ok ds) :
    s.feed data =
      (⟨(cls.visit s.minMajor).log, .ok ds.length, (s.collected ++ ds).length⟩,
        { s with collected := s.collected ++ ds }) := by
  simp only [feed, hcls, h, collect_eq]

/-- One visit appends some diagnostics to those of the session and tells how many. It appends none
if it fails or the bytes are passed over. -/
theorem feed_appends (s : Session) (data : Bytes) :
    ∃ ds, (s.feed data).2 = { s with collected := s.collected ++ ds } ∧
      (∀ n, (s.feed data).1.found = .ok n → n = ds.length) ∧
      (∀ e, (s.feed data).1.found = .error e → ds = []) ∧
      (PassedOver s.minMajor data → ds = []) := by
  cases hcls : ClassFile.decode data with
  | error e =>
    rw [feed_of_format hcls]
    exact ⟨[], by simp, nofun, fun _ _ => rfl, fun _ => rfl⟩
  | ok cls =>
    cases hds : (cls.visit s.minMajor).result with
    | error e =>
      rw [feed_of_visit_error hcls hds]
      exact ⟨[], by simp, nofun, fun _ _ => rfl, fun _ => rfl⟩
    | ok ds =>
      rw [feed_of_visit hcls hds]
      exact ⟨ds, rfl, fun n hn => (Except.ok.inj hn).symm, nofun, fun h => h.eq_nil hcls hds⟩

/-- A visit appends what the analysis of a source gives, and tells how many unless there is no
class. -/
theorem feed_of_analyse {source : Source} {outcome : Option (List Diagnostic)}
    (h : (source.analyse s.minMajor).result = .ok outcome) :
    (s.feed source.data).2 = { s with collected := s.collected ++ diagnosticsOf outcome } ∧
      (s.feed source.data).1.found.toOption = outcome.map List.length := by
  cases hcls : ClassFile.decode source.data with
  | error e =>
    cases h.symm.trans (Source.result_of_error hcls)
    rw [feed_of_format hcls]
    exact ⟨by simp [diagnosticsOf], rfl⟩
  | ok cls =>
    obtain ⟨ds, hds, rfl⟩ := except_map_eq_ok.1 ((Source.result_of_ok hcls).symm.trans h)
    rw [feed_of_visit hcls hds]
    exact ⟨rfl, rfl⟩

/-- Bytes that are passed over leave the session as it is. -/
theorem feed_of_passedOver (h : PassedOver s.minMajor data) :
    (s.feed data).2 = s := by
  obtain ⟨ds, hfeed, -, -, hds⟩ := s.feed_appends data
  rw [hfeed, hds h, List.append_nil]

end Feed

/-- A run visits the first class file and goes on with the session that this leaves. -/
theorem run_cons (s : Session) (data : Bytes) (rest : List Bytes) :
    s.run (data :: rest) =
      ((s.feed data).1 :: ((s.feed data).2.run rest).1, ((s.feed data).2.run rest).2) :=
  rfl

variable {minMajor : Int} {sources : List Source} {outcomes : List (Option (List Diagnostic))}

/-- Visits one after the other append the diagnostics of all classes, in order, and each tells how
many its class has. -/
theorem run_appends {s : Session} (h : Outcomes s.minMajor sources outcomes) :
    (s.run (sources.map Source.data)).2 =
        { s with collected := s.collected ++ outcomes.flatMap diagnosticsOf } ∧
      List.Forall₂ (fun report outcome => report.found.toOption = outcome.map List.length)
        (s.run (sources.map Source.data)).1 outcomes := by
  generalize hminMajor : s.minMajor = minMajor at h
  unfold Outcomes at h
  induction h generalizing s with
  | nil =>
    subst hminMajor
    refine ⟨?_, .nil⟩
    rw [List.flatMap_nil, List.append_nil]
    rfl
  | @cons source outcome sources outcomes hsource _ ih =>
    subst hminMajor
    obtain ⟨hfeed, hfound⟩ := feed_of_analyse hsource
    obtain ⟨hsession, hreports⟩ := @ih (s.feed source.data).2 (by rw [hfeed])
    refine ⟨?_, .cons hfound hreports⟩
    rw [List.map_cons, run_cons, hsession, hfeed, List.flatMap_cons, List.append_assoc]

/-- Bytes that are passed over leave no trace: every other report and the session in the end are
those of the run without them. -/
theorem run_of_passedOver {s : Session} {data : Bytes} (h : PassedOver s.minMajor data)
    (before behind : List Bytes) :
    (s.run (before ++ data :: behind)).1.eraseIdx before.length = (s.run (before ++ behind)).1 ∧
      (s.run (before ++ data :: behind)).2 = (s.run (before ++ behind)).2 := by
  induction before generalizing s with
  | nil =>
    rw [List.nil_append, List.nil_append, run_cons, feed_of_passedOver h]
    exact ⟨rfl, rfl⟩
  | cons first before ih =>
    obtain ⟨ds, hfeed, -⟩ := s.feed_appends first
    obtain ⟨hreports, hsession⟩ := @ih (s.feed first).2 (by rw [hfeed]; exact h)
    refine ⟨?_, hsession⟩
    rw [List.cons_append, List.cons_append, run_cons, run_cons, List.length_cons,
      List.eraseIdx_cons_succ, hreports]

end Session

/-! ## All drivers -/

/-- **All ways to analyse class files agree.** If none of the analyses fails, the diagnostics of the
sources, one source after the other, are found by one analysis after the other and by workers whose
results arrive in any order, however many there are, with as many sources skipped as cannot be read.
They are also collected by a session, in which each visit appends as many diagnostics as it tells,
and bytes that are passed over append none and leave no trace in the other visits. -/
theorem drivers_agree {minMajor : Int} {sources : List Source}
    (h : ∀ source ∈ sources, ∃ outcome, (source.analyse minMajor).result = .ok outcome) :
    ∃ outcomes summary, Outcomes minMajor sources outcomes ∧
      summary.diagnostics = outcomes.flatMap diagnosticsOf ∧
      summary.classes + summary.skipped = sources.length ∧
      (summary.skipped = sources.countP fun source => !(ClassFile.decode source.data).isOk) ∧
      (analyseAll minMajor sources).result = .ok summary ∧
      (∀ arrival : List Nat, arrival.Perm (List.range sources.length) →
        (analyseByWorkers minMajor sources arrival).result = .ok summary) ∧
      (∀ settings : Settings, settings.minMajor = minMajor →
        (Program.analyseSources settings sources).result = .ok summary) ∧
      (Session.run ⟨minMajor, []⟩ (sources.map Source.data)).2.collected = summary.diagnostics ∧
      List.Forall₂ (fun report outcome => report.found.toOption = outcome.map List.length)
        (Session.run ⟨minMajor, []⟩ (sources.map Source.data)).1 outcomes ∧
      (∀ (s : Session) (data : Bytes), ∃ ds,
        (s.feed data).2 = { s with collected := s.collected ++ ds } ∧
        (∀ n, (s.feed data).1.found = .ok n → n = ds.length) ∧
        (∀ e, (s.feed data).1.found = .error e → ds = []) ∧
        (PassedOver s.minMajor data → ds = [])) ∧
      ∀ (s : Session) (data : Bytes), PassedOver s.minMajor data →
        ∀ before behind : List Bytes,
          (s.run (before ++ data :: behind)).1.eraseIdx before.length =
              (s.run (before ++ behind)).1 ∧
            (s.run (before ++ data :: behind)).2 = (s.run (before ++ behind)).2 := by
  obtain ⟨outcomes, houtcomes⟩ := exists_outcomes h
  obtain ⟨hsession, hreports⟩ := Session.run_appends (s := ⟨minMajor, []⟩) houtcomes
  refine ⟨outcomes, .ofOutcomes outcomes, houtcomes, ?_, ?_, ?_, houtcomes.analyseAll,
    fun arrival => houtcomes.analyseByWorkers, ?_, ?_, hreports, Session.feed_appends,
    fun s data hpassed => Session.run_of_passedOver hpassed⟩
  · rw [Summary.ofOutcomes_eq]
  · rw [Summary.ofOutcomes_eq, houtcomes.length_eq]
    exact countP_isSome_add_isNone outcomes
  · rw [Summary.ofOutcomes_eq, ← houtcomes.countP_isNone]
  · rintro settings rfl
    exact houtcomes.analyseSources
  · rw [hsession, Summary.ofOutcomes_eq]
    rfl

/-- Bytes that are no class file and a class with a reported call, whose analyses finish the other
way round, give the diagnostic of the call and one class skipped. -/
theorem drivers_agree_handler :
    (analyseByWorkers 52 [⟨"Broken.class", [0xCA, 0xFE]⟩, Handler.source] [1, 0]).result =
      .ok ⟨1, 1, [⟨.normal, "A", "m", "()V", 0, none, none, some "l"⟩]⟩ := by
  have hbroken : (Source.analyse 52 ⟨"Broken.class", [0xCA, 0xFE]⟩).result = .ok none := by
    decide +kernel
  have hall : ∀ source ∈ [⟨"Broken.class", [0xCA, 0xFE]⟩, Handler.source],
      ∃ outcome, (source.analyse 52).result = .ok outcome :=
    List.forall_mem_cons.2 ⟨⟨_, hbroken⟩, List.forall_mem_singleton.2 ⟨_, Handler.result_analyse⟩⟩
  obtain ⟨outcomes, ⟨classes, skipped, ds⟩, houtcomes, hds, hcount, hskipped, -, harrival, -⟩ :=
    drivers_agree hall
  rw [harrival [1, 0] (.swap ..)]
  cases houtcomes with
  | cons hfirst hrest =>
    cases hfirst.symm.trans hbroken
    cases hrest with
    | cons hsecond hrest =>
      cases hsecond.symm.trans Handler.result_analyse
      cases hrest
      have hone : skipped = 1 := hskipped.trans (by decide +kernel)
      have htwo : classes + skipped = 2 := hcount
      obtain rfl : classes = 1 := by omega
      subst hone
      cases hds
      rfl

end Forwarder
