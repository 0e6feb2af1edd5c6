import Forwarder.Confirmation
import Forwarder.Diagnostic
import Forwarder.Log

/-!
# Visiting a class

`ClassFile.visit` finds the dynamic calls of a class whose lambda only forwards: it scans for call
sites, confirms their targets and turns the sites of confirmed targets into diagnostics, grouped by
target. On the way it makes remarks, which name the class; a class without a name can only be
visited if none are made.
-/

namespace Forwarder

/-- Something to note about a class. -/
inductive Remark where
  | oldVersion (major : Nat)
  | malformedTable (error : BootstrapTable.Error)
  | undecodable (fault : Instruction.DecodeFault)
  | unresolvedSite (site : CallSite.Unresolved)
  | unresolvedInvoke (pc : Nat) (error : ResolutionError)
  | undecodableBody (key : MethodKey) (fault : Instruction.DecodeFault)
  | notForwarder (key : MethodKey)
  deriving Repr, DecidableEq

namespace Remark

/-- Whether the text of a remark names the class. -/
def namesClass : Remark → Bool
  | unresolvedInvoke .. | undecodableBody .. => false
  | _ => true

/-- Only what keeps a whole class from being analysed is a warning. -/
def level : Remark → Log.Level
  | malformedTable _ | undecodable _ => .warning
  | _ => .debug

/-- The text of a remark about the class of a name. -/
def message (className : String) : Remark → String
  | oldVersion major => s!"Skipping {className}: class file version {major}"
  | malformedTable e =>
    s!"Skipping {className}: malformed {BootstrapTable.attributeName} attribute: {e.message}"
  | undecodable fault => s!"Skipping {className}: undecodable bytecode: {fault.message}"
  | unresolvedSite site =>
    s!"{className}.{site.method} pc {site.pc}: unresolvable call site: {site.error.message}"
  | unresolvedInvoke pc e => s!"Unresolvable invoke at pc {pc}: {e.message}"
  | undecodableBody key fault =>
    s!"Undecodable body in {key.name}{key.descriptor}: {fault.message}"
  | notForwarder key => s!"{className}.{key.name}{key.descriptor} is not a trivial forwarder"

/-- The log record of a remark, unless it names a class that has no name. -/
def record? (className : Option String) (r : Remark) : Option Log.Record :=
  match className with
  | some name => some ⟨r.level, r.message (dotted name)⟩
  | none => if r.namesClass then none else some ⟨r.level, r.message ""⟩

end Remark

/-- Why a class cannot be visited. -/
inductive VisitError where
  /-- A remark names the class, which has no name. -/
  | unnamed
  deriving Repr, DecidableEq

/-- The log of some remarks, up to the first one that cannot be made. -/
def logOf (className : Option String) : List Remark → List Log.Record
  | [] => []
  | r :: rs =>
    match r.record? className with
    | some record => record :: logOf className rs
    | none => []

/-- A result, provided that all remarks can be made. -/
def resultOf {α : Type} (className : Option String) (remarks : List Remark) (result : α) :
    Except VisitError α :=
  if remarks.all fun r => (r.record? className).isSome then .ok result else .error .unnamed

/-- The remarks on one examination. -/
def Confirmation.Examination.remarks (e : Examination) : List Remark :=
  match e.rejection with
  | none => []
  | some (.unresolved pc error) => [.unresolvedInvoke pc error, .notForwarder e.key]
  | some (.undecodable fault) => [.undecodableBody e.key fault, .notForwarder e.key]
  | some _ => [.notForwarder e.key]

/-- What a visit of a class yields. -/
structure Visit where
  className : Option String
  remarks : List Remark
  diagnostics : List Diagnostic
  deriving Repr, DecidableEq

namespace Visit

/-- What a visit logs. -/
def log (v : Visit) : List Log.Record := logOf v.className v.remarks

/-- The diagnostics of a visit that could be made. -/
def result (v : Visit) : Except VisitError (List Diagnostic) :=
  resultOf v.className v.remarks v.diagnostics

end Visit

/-- Call sites by target. -/
abbrev CallSite.Groups := List (MethodKey × List CallSite)

/-- Puts a call site behind those of its target. The first one of a target comes behind all other
groups. -/
def CallSite.addTo (s : CallSite) : CallSite.Groups → CallSite.Groups
  | [] => [(s.target, [s])]
  | (key, sites) :: rest =>
    if key = s.target then (key, sites ++ [s]) :: rest else (key, sites) :: s.addTo rest

/-- The sites of confirmed targets by target: targets in the order in which they first occur, sites
of one target in their order. -/
def CallSite.groups (confirmed : List MethodKey) (sites : List CallSite) : CallSite.Groups :=
  sites.foldl (fun groups s => if confirmed.contains s.target then s.addTo groups else groups) []

/-- The sites of confirmed targets, those of one target together. -/
def CallSite.regroup (confirmed : List MethodKey) (sites : List CallSite) : List CallSite :=
  (CallSite.groups confirmed sites).flatMap Prod.snd

/-- The diagnostic of a call site. -/
def CallSite.diagnostic (className : String) (sourceFile : Option String) (s : CallSite) :
    Diagnostic where
  priority := .normal
  className := className
  methodName := s.caller.name
  methodDescriptor := s.caller.descriptor
  pc := s.pc
  line := s.line
  sourceFile := sourceFile
  target := some s.target.name

namespace ClassFile

/-- The walk over a class for call sites, unless it has no name and a call does not resolve. -/
def callSites (cls : ClassFile) (table : BootstrapTable) : Except VisitError CallSite.Scan :=
  let scan := CallSite.scan cls table
  resultOf cls.name (scan.unresolved.map Remark.unresolvedSite) scan

/-- Examines the bodies of some keys. -/
def examine (cls : ClassFile) (pending : List MethodKey) : List Confirmation.Examination :=
  Confirmation.examinations cls.pool pending [] cls.methods

/-- The keys among `pending` that are confirmed, in order, unless a remark cannot be made. -/
def confirm (cls : ClassFile) (pending : List MethodKey) : Except VisitError (List MethodKey) :=
  let exams := cls.examine pending
  resultOf cls.name (exams.flatMap (·.remarks)) (Confirmation.sorted (Confirmation.confirmed exams))

/-- The diagnostics of some call sites. -/
def report (cls : ClassFile) (sites : List CallSite) (confirmed : List MethodKey) :
    List Diagnostic :=
  match cls.name with
  | none => []
  | some name => (CallSite.regroup confirmed sites).map (·.diagnostic name cls.sourceFile)

/-- A visit that ends with a remark. -/
def skip (cls : ClassFile) (remarks : List Remark) : Visit := ⟨cls.name, remarks, []⟩

/-- Finds the dynamic calls of a class whose lambda only forwards. Classes older than `minMajor` and
classes without a bootstrap table have none. -/
def visit (minMajor : Int) (cls : ClassFile) : Visit :=
  if cls.major < minMajor then cls.skip [.oldVersion cls.major]
  else
    match cls.attributes.find? BootstrapTable.attributeName with
    | none => cls.skip []
    | some data =>
      match BootstrapTable.decode data with
      | .error e => cls.skip [.malformedTable e]
      | .ok table =>
        let scan := CallSite.scan cls table
        let unresolved := scan.unresolved.map Remark.unresolvedSite
        match scan.fault with
        | some (.table e) => cls.skip (unresolved ++ [.malformedTable e])
        | some (.code fault) => cls.skip (unresolved ++ [.undecodable fault])
        | none =>
          let exams := cls.examine (scan.sites.map CallSite.target)
          { className := cls.name
            remarks := unresolved ++ exams.flatMap (·.remarks)
            diagnostics := cls.report scan.sites (Confirmation.confirmed exams) }

end ClassFile

end Forwarder
