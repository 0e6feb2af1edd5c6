import Forwarder.ClassFile.Read
import Forwarder.Visit

/-!
# Analysing class files

`Source.analyse` reads and visits one class file; bytes that are no class file are skipped with a
warning. `analyseAll` does so for many, one after the other, and adds up the results;
`analyseByWorkers` lets the results arrive in any order. A `Session` visits class files with one
growing list of diagnostics.
-/

namespace Forwarder

/-- The oldest major version whose classes hold lambdas. -/
def lambdaMajor : Int := 52

/-- The bytes of a class file and where they come from. -/
structure Source where
  origin : String
  data : Bytes
  deriving Repr, DecidableEq

/-- A log and a result. -/
structure Logged (α : Type) where
  log : List Log.Record
  result : Except VisitError α

/-- The diagnostics of one class file, or nothing if it is none. -/
def Source.analyse (minMajor : Int) (source : Source) : Logged (Option (List Diagnostic)) :=
  match ClassFile.decode source.data with
  | .error e => ⟨[⟨.warning, s!"Skipping {source.origin}: {e.message}"⟩], .ok none⟩
  | .ok cls =>
    let visit := cls.visit minMajor
    ⟨visit.log, visit.result.map some⟩

/-- What an analysis of many class files adds up to. -/
structure Summary where
  classes : Nat
  skipped : Nat
  diagnostics : List Diagnostic
  deriving Repr, DecidableEq

namespace Summary

/-- Nothing analysed. -/
def empty : Summary := ⟨0, 0, []⟩

/-- Adds the outcome of a class file in front. -/
def add (outcome : Option (List Diagnostic)) (s : Summary) : Summary :=
  match outcome with
  | none => { s with skipped := s.skipped + 1 }
  | some ds => { s with classes := s.classes + 1, diagnostics := ds ++ s.diagnostics }

/-- Adds up outcomes in their order. -/
def ofOutcomes (outcomes : List (Option (List Diagnostic))) : Summary :=
  outcomes.foldr add empty

end Summary

/-- Analyses class files in their order, up to the first that cannot be visited. -/
def analyseAll (minMajor : Int) (sources : List Source) : Logged Summary :=
  let runs := sources.map (Source.analyse minMajor)
  let finished := runs.takeWhile fun run => run.result.isOk
  let reached := runs.take (finished.length + 1)
  ⟨reached.flatMap Logged.log, (runs.mapM Logged.result).map Summary.ofOutcomes⟩

/-- Results that arrive in any order, each with the place of its source, in the order of the
sources. -/
def gather {α : Type} (count : Nat) (arrivals : List (Nat × α)) : List (Option α) :=
  arrivals.foldl (fun slots (place, a) => slots.set place (some a)) (List.replicate count none)

/-- Analyses class files by several workers, whose results arrive in the order `arrival` of the
places of their sources. -/
def analyseByWorkers (minMajor : Int) (sources : List Source) (arrival : List Nat) :
    Logged Summary :=
  let queue := sources.toArray
  let runs := arrival.filterMap fun place => queue[place]?.map fun source =>
    (place, source.analyse minMajor)
  let results := runs.mapM fun (place, run) => run.result.map fun outcome => (place, outcome)
  ⟨runs.flatMap fun run => run.2.log,
    results.map fun arrivals => .ofOutcomes ((gather sources.length arrivals).filterMap id)⟩

/-- Visits of class files that share one list of diagnostics. -/
structure Session where
  minMajor : Int
  collected : List Diagnostic
  deriving Repr, DecidableEq

namespace Session

/-- Why a class file is not visited. -/
inductive Error where
  | format (error : ClassFile.FormatError)
  | visit (error : VisitError)
  deriving Repr, DecidableEq

/-- What a session tells about one class file: the log, the number of its diagnostics, and the
number of all diagnostics so far. -/
structure Report where
  log : List Log.Record
  found : Except Error Nat
  total : Nat

/-- Appends diagnostics one by one, and counts them. -/
def collect (s : Session) (ds : List Diagnostic) : Nat × Session :=
  ds.foldl (fun (count, s) d => (count + 1, { s with collected := s.collected ++ [d] })) (0, s)

/-- Reads and visits one class file. -/
def feed (s : Session) (data : Bytes) : Report × Session :=
  match ClassFile.decode data with
  | .error e => (⟨[], .error (.format e), s.collected.length⟩, s)
  | .ok cls =>
    let visit := cls.visit s.minMajor
    match visit.result with
    | .error e => (⟨visit.log, .error (.visit e), s.collected.length⟩, s)
    | .ok ds =>
      let (count, s) := s.collect ds
      (⟨visit.log, .ok count, s.collected.length⟩, s)

/-- Reads and visits class files one after the other. -/
def run (s : Session) : List Bytes → List Report × Session
  | [] => ([], s)
  | data :: rest =>
    let (report, s) := s.feed data
    let (reports, s) := s.run rest
    (report :: reports, s)

end Session

end Forwarder
