import Forwarder.ClassPath
import Forwarder.CommandLine

/-!
# The program

`Program.run` is what the program does with a command line and the files of a machine: the analysis of
class files, with its findings and a summary, or the dump of a bootstrap table as JSON. It gives the
texts that go to standard output and standard error, and the exit status.
-/

namespace Forwarder.Program

open CommandLine (AnalyseCommand Invocation)

/-- The texts on standard output and standard error and the exit status. -/
structure Finished where
  status : Nat
  stdout : String
  stderr : String
  deriving Repr, DecidableEq

/-- Why the program breaks off without a report. -/
inductive Crash where
  /-- A directory is read as a file. -/
  | isDirectory
  | visit (error : VisitError)
  deriving Repr, DecidableEq

/-- How a run of the program ends. -/
inductive Outcome where
  /-- The command line was refused or asked for help only. -/
  | stopped (stop : CommandLine.Stop)
  /-- There was no command, and help was shown. -/
  | noCommand
  | finished (result : Finished)
  | crashed (crash : Crash)
  deriving Repr, DecidableEq

/-- Some lines, each with its end. -/
def unlines (lines : List String) : String := String.join (lines.map fun line => line ++ "\n")

/-- The lines of a log. Records of no importance are shown only on request. -/
def logLines (debug : Bool) (log : List Log.Record) : List String :=
  (log.filter fun r => debug || r.level ≠ .debug).map Log.Record.line

/-- The record that opens the log. -/
def opening : Log.Record := ⟨.debug, "Logging initialized (debug=True)"⟩

/-- The line that reports an error. -/
def errorLine (message : String) : String := s!"Error: {message}"

/-- The line that reports a file that does not exist. -/
def notFoundLine (path : String) : String := errorLine s!"File not found: {path}"

/-- The number of workers where the machine does not tell its number of processors. -/
def defaultWorkers : Nat := 4

/-- Analyses class files as the settings ask: with one worker or at most one class one after the
other, else by several workers, which is noted. -/
def analyseSources (settings : Settings) (sources : List Source) : Logged Summary :=
  let workers := settings.workers?.getD defaultWorkers
  let count := sources.length
  if workers = 1 ∨ count ≤ 1 then analyseAll settings.minMajor sources
  else
    let run := analyseByWorkers settings.minMajor sources (List.range count)
    let note : Log.Record := ⟨.debug, s!"Analyzing {count} classes with {workers} workers"⟩
    { run with log := note :: run.log }

/-- The line that sums up an analysis. -/
def summaryLine (s : Summary) : String :=
  let found := s.diagnostics.length
  s!"Analyzed {s.classes} class(es), skipped {s.skipped}, found {found} issue(s)"

/-- The findings on standard output. -/
def findings (format : OutputFormat) (ds : List Diagnostic) : String :=
  match format, ds with
  | .json, ds => unlines [Diagnostic.json (.spaces 2) ds]
  | .text, [] => ""
  | .text, ds => unlines [Diagnostic.lines ds]

/-- Why an analysis does not take place. -/
inductive AnalyseError where
  | notFound (path : String)
  | settings (error : Settings.Error)
  | classPath (error : ClassPath.Error)
  deriving Repr, DecidableEq

/-- The line that reports why an analysis does not take place. -/
def AnalyseError.line : AnalyseError → String
  | notFound path => notFoundLine path
  | settings e => errorLine e.message
  | classPath e => errorLine e.message

/-- The settings of an analysis and its class path. Every path must exist before the settings are
looked at, and these before the class path. -/
def prepare (files : Files) (debug : Bool) (c : AnalyseCommand) :
    Except AnalyseError (Settings × List ClassPath.Entry) := do
  match c.paths.find? fun path => (files (.parse path)).isNone with
  | some path => throw (.notFound path)
  | none =>
    let settings ←
      (Settings.ofValues c.paths c.jobs c.format c.minMajor c.failOnFindings debug).mapError
        .settings
    let entries ← (ClassPath.entries files settings.paths).mapError .classPath
    return (settings, entries)

/-- Carries out an analysis. -/
def analyse (files : Files) (debug : Bool) (c : AnalyseCommand) : Outcome :=
  let head := logLines debug [opening]
  match prepare files debug c with
  | .error e => .finished ⟨2, "", unlines (head ++ [e.line])⟩
  | .ok (settings, entries) =>
    match ClassPath.sources entries with
    | .error .isDirectory => .crashed .isDirectory
    | .ok sources =>
      let run := analyseSources settings sources
      match run.result with
      | .error e => .crashed (.visit e)
      | .ok summary =>
        let log := logLines debug run.log
        let tail := if c.quiet then [] else [summaryLine summary]
        let status := if settings.failOnFindings && !summary.diagnostics.isEmpty then 1 else 0
        .finished ⟨status, findings settings.format summary.diagnostics,
          unlines (head ++ log ++ tail)⟩

/-- A method handle as JSON. -/
def handleJson (h : MethodHandle) : Json := .object [
  ("kind", .string h.kind.name),
  ("class", .string h.member.owner),
  ("name", .string h.member.name),
  ("descriptor", .string h.member.descriptor)]

/-- An entry of a bootstrap table as JSON, with the method handle among its arguments or the reason
why they do not resolve. -/
def entryJson (pool : ConstantPool) (index : Nat) (e : BootstrapEntry) : Json :=
  let head : List (String × Json) := [
    ("index", .number index),
    ("method_ref", .number e.method),
    ("arguments", .array (e.arguments.map fun (a : Nat) => .number a))]
  match e.handle pool with
  | .ok none => .object (head ++ [("method_handle", .null)])
  | .ok (some h) => .object (head ++ [("method_handle", handleJson h)])
  | .error e => .object (head ++ [("method_handle", .null), ("error", .string e.message)])

/-- Why a bootstrap table cannot be dumped. -/
inductive DumpError where
  | format (error : ClassFile.FormatError)
  | table (error : BootstrapTable.Error)
  deriving Repr, DecidableEq

/-- The text that reports why a bootstrap table cannot be dumped. -/
def DumpError.message : DumpError → String
  | format e => e.message
  | table e => e.message

/-- The class of a class file and the entries of its bootstrap table as JSON. -/
def dumpEntries (data : Bytes) : Except DumpError (ClassFile × List Json) := do
  let cls ← (ClassFile.decode data).mapError .format
  match cls.attributes.find? BootstrapTable.attributeName with
  | none => return (cls, [])
  | some content =>
    let table ← (BootstrapTable.decode content).mapError .table
    return (cls, table.entries.toList.mapIdx (entryJson cls.pool))

/-- Dumps the bootstrap table of a class file. -/
def dump (files : Files) (debug : Bool) (file : String) : Outcome :=
  let head := logLines debug [opening]
  match files (.parse file) with
  | none => .finished ⟨2, "", unlines (head ++ [notFoundLine file])⟩
  | some found =>
    match found.bytes? with
    | none => .crashed .isDirectory
    | some data =>
      match dumpEntries data with
      | .error e => .finished ⟨1, "", unlines (head ++ [s!"Error reading {file}: {e.message}"])⟩
      | .ok (cls, entries) =>
        match cls.name with
        | none => .crashed (.visit .unnamed)
        | some name =>
          let json : Json := .object [
            ("class", .string (dotted name)), ("bootstrap_methods", .array entries)]
          .finished ⟨0, unlines [json.render (.spaces 2)], unlines head⟩

/-- What the program does with a command line and the files of a machine. -/
def run (files : Files) (args : List String) : Outcome :=
  match Invocation.parse args with
  | .error stop => .stopped stop
  | .ok invocation =>
    match invocation.command with
    | none => .noCommand
    | some (.analyse c) => analyse files invocation.debug c
    | some (.dump file) => dump files invocation.debug file

end Forwarder.Program
