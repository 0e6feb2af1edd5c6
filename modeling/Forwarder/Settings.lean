import Forwarder.Analysis

/-!
# Settings of a run
-/

namespace Forwarder

/-- How diagnostics are written. -/
inductive OutputFormat where
  | text
  | json
  deriving Repr, DecidableEq

/-- The format of a name, if there is one. -/
def OutputFormat.ofName? : String → Option OutputFormat
  | "text" => some .text
  | "json" => some .json
  | _ => none

/-- The name of a format. -/
def OutputFormat.name : OutputFormat → String
  | text => "text"
  | json => "json"

/-- The settings of a run. -/
structure Settings where
  paths : List String
  /-- The number of workers, or 0 for one on each processor. -/
  jobs : Nat
  format : OutputFormat
  minMajor : Int
  failOnFindings : Bool
  debug : Bool
  deriving Repr, DecidableEq

namespace Settings

/-- What settings cannot be. -/
inductive Error where
  | unknownFormat (name : String)
  | negativeJobs (jobs : Int)
  deriving Repr, DecidableEq

/-- The text that reports an error. -/
def Error.message : Error → String
  | unknownFormat name => s!"Unknown output format: {name}"
  | negativeJobs jobs => s!"Number of jobs must not be negative: {jobs}"

/-- The settings that some values describe. The format is checked before the number of workers. -/
def ofValues (paths : List String) (jobs : Int) (format : String) (minMajor : Int)
    (failOnFindings debug : Bool) : Except Error Settings :=
  match OutputFormat.ofName? format with
  | none => .error (.unknownFormat format)
  | some format =>
    if jobs < 0 then .error (.negativeJobs jobs)
    else .ok { paths, jobs := jobs.toNat, format, minMajor, failOnFindings, debug }

/-- The number of workers, where it does not depend on the machine. -/
def workers? (s : Settings) : Option Nat := if s.jobs = 0 then none else some s.jobs

end Settings

end Forwarder
