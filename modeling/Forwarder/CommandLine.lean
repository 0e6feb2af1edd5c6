import Forwarder.Settings
import Forwarder.Text.Integer

/-!
# Command lines

A `Grammar` lists the options of a command and says what else it takes. `Grammar.events` takes an
argument list apart: options may be abbreviated, carry their value behind an equals sign, be joined
behind one dash, and stand between the operands; two dashes end them. `Invocation.parse` reads the
command line of the program.
-/

namespace Forwarder.CommandLine

/-- An option: its names, what it does, and whether it takes a value. -/
structure Choice (α : Type) where
  names : List String
  action : α
  takesValue : Bool

/-- What a command takes beside its options. -/
inductive Operands where
  | one
  | oneOrMore
  /-- One operand and everything behind it. -/
  | command
  deriving Repr, DecidableEq

/-- The options and operands of a command. -/
structure Grammar (α : Type) where
  choices : List (Choice α)
  operands : Operands

/-- The role of an argument. -/
inductive Role (α : Type) where
  | operand
  /-- Two dashes. -/
  | separator
  /-- An option, with the text that it carries. -/
  | option (choice : Choice α) (isLong : Bool) (attached : Option (List Char))
  /-- It looks like an option and is none. -/
  | unknown

/-- What an argument list asks for, in order. -/
inductive Event (α : Type) where
  | option (action : α)
  | value (action : α) (text : String)
  | operands (args : List String)
  /-- Arguments that mean nothing. -/
  | extra
  /-- Operands are missing at the end. -/
  | missing
  /-- An option is misused. -/
  | fault

/-- Whether an argument begins with a dash and is otherwise a number. -/
def looksNegative (arg : List Char) : Bool :=
  let isDigit (c : Char) : Bool := (Integer.digit? c).isSome
  let arg := if arg.getLast? = some '\n' then arg.dropLast else arg
  match arg with
  | '-' :: cs =>
    let fraction := cs.dropWhile isDigit
    (!cs.isEmpty && fraction.isEmpty) ||
      (fraction.head? = some '.' && !(fraction.drop 1).isEmpty && (fraction.drop 1).all isDigit)
  | _ => false

namespace Grammar

variable {α : Type} (g : Grammar α)

/-- The option of a name. -/
def choice? (name : String) : Option (Choice α) := g.choices.find? fun c => c.names.contains name

/-- The long names that a text abbreviates, with their options. -/
def abbreviated (text : String) : List (Choice α) :=
  g.choices.flatMap fun c => (c.names.filter fun name => name.startsWith text).map fun _ => c

/-- The role of an argument that is not known to be an operand, or nothing if it abbreviates several
options. -/
def role (arg : String) : Option (Role α) :=
  match arg.toList with
  | '-' :: second :: rest =>
    let name := String.ofList (arg.toList.takeWhile (· ≠ '='))
    let attached : Option (List Char) :=
      if arg.toList.contains '=' then some ((arg.toList.dropWhile (· ≠ '=')).drop 1) else none
    match g.choice? arg, if attached.isSome then g.choice? name else none with
    | some choice, _ => some (.option choice (second = '-') none)
    | none, some choice => some (.option choice (second = '-') attached)
    | none, none =>
      let none' : Role α :=
        if looksNegative arg.toList || arg.toList.contains ' ' then .operand else .unknown
      if second = '-' then
        match g.abbreviated name with
        | [] => some none'
        | [choice] => some (.option choice true attached)
        | _ => none
      else
        match g.choice? (String.ofList ['-', second]) with
        | some choice => some (.option choice false (some rest))
        | none => some none'
  | _ => some .operand

/-- The roles of all arguments: behind two dashes there are only operands. -/
def roles : List String → Option (List (String × Role α))
  | [] => some []
  | arg :: args =>
    if arg = "--" then some ((arg, .separator) :: args.map fun a => (a, .operand))
    else do
      let role ← g.role arg
      return (arg, role) :: (← roles args)

/-- What the options behind one dash ask for, as far as their own argument says. -/
inductive Group (α : Type) where
  /-- Options without values. -/
  | flags (actions : List α)
  /-- Options without values, then one with the value that it carries. -/
  | valued (actions : List α) (action : α) (text : String)
  /-- Options without values, then one that wants the next argument. -/
  | wanting (actions : List α) (action : α)
  /-- An option that takes no value carries something else than options. -/
  | fault

/-- Puts an option in front of a group. -/
def Group.cons (action : α) : Group α → Group α
  | flags actions => flags (action :: actions)
  | valued actions a text => valued (action :: actions) a text
  | wanting actions a => wanting (action :: actions) a
  | fault => fault

/-- Takes apart an option that carries nothing. -/
def bare (choice : Choice α) : Group α :=
  if choice.takesValue then .wanting [] choice.action else .flags [choice.action]

/-- Takes apart an option behind one dash with the text that it carries. The text is its value if it
takes one; otherwise every character of the text names an option, up to one that takes a value. -/
def group (choice : Choice α) : List Char → Group α
  | [] => if choice.takesValue then .valued [] choice.action "" else .fault
  | c :: cs =>
    if choice.takesValue then .valued [] choice.action (String.ofList (c :: cs))
    else
      match g.choice? (String.ofList ['-', c]) with
      | none => .fault
      | some next =>
        Group.cons choice.action (if cs.isEmpty then bare next else group next cs)

/-- Takes apart an option with what it carries. -/
def expand (choice : Choice α) (isLong : Bool) : Option (List Char) → Group α
  | none => bare choice
  | some text =>
    if isLong then
      if choice.takesValue then .valued [] choice.action (String.ofList text) else .fault
    else g.group choice text

/-- Whether an argument is an option, known or not. -/
def isOption : String × Role α → Bool
  | (_, .option ..) | (_, .unknown) => true
  | _ => false

/-- Whether an argument is two dashes. -/
def isSeparator : String × Role α → Bool
  | (_, .separator) => true
  | _ => false

/-- The operands at the front of some arguments, without the two dashes among them, and what follows
them. -/
def takeOperands (args : List (String × Role α)) :
    Option (List String × List (String × Role α)) :=
  let separators := args.takeWhile isSeparator
  match args.dropWhile isSeparator with
  | [] => none
  | first :: rest =>
    if isOption first then none
    else
      let more := match g.operands with
        | .one => rest.takeWhile isSeparator
        | .oneOrMore => rest.takeWhile fun a => !isOption a
        | .command => rest
      let taken := (separators ++ first :: more).map Prod.fst
      some (if g.operands = .command then taken else taken.erase "--", rest.drop more.length)

/-- The events of a group, which takes the next argument if it wants one. A group with a fault has no
other event. -/
def groupEvents (group : Group α) (rest : List (String × Role α)) :
    List (Event α) × List (String × Role α) :=
  let options (actions : List α) : List (Event α) := actions.map Event.option
  match group with
  | .fault => ([.fault], rest)
  | .flags actions => (options actions, rest)
  | .valued actions action text => (options actions ++ [.value action text], rest)
  | .wanting actions action =>
    match rest with
    | (text, .operand) :: rest => (options actions ++ [.value action text], rest)
    | _ => ([.fault], rest)

/-- The events of a group take arguments away only. -/
theorem length_groupEvents (group : Group α) (rest : List (String × Role α)) :
    (groupEvents group rest).2.length ≤ rest.length := by
  unfold groupEvents
  split <;> try simp
  split <;> simp

/-- Operands that are taken are at least one argument. -/
theorem length_takeOperands {args rest : List (String × Role α)} {taken : List String}
    (h : g.takeOperands args = some (taken, rest)) : rest.length < args.length := by
  unfold takeOperands at h
  have hle : (args.dropWhile isSeparator).length ≤ args.length :=
    (List.dropWhile_suffix isSeparator).length_le
  split at h
  · cases h
  · rename_i first rest' hd
    rw [hd, List.length_cons] at hle
    split at h
    · cases h
    · simp only [Option.some.injEq, Prod.mk.injEq] at h
      obtain ⟨-, rfl⟩ := h
      rw [List.length_drop]
      omega

/-- What arguments of known roles ask for. `wanted` says that no operands were found yet. -/
def scan (wanted : Bool) (args : List (String × Role α)) : List (Event α) :=
  match args with
  | [] => if wanted then [.missing] else []
  | (_, .option choice isLong attached) :: rest =>
    let step := groupEvents (g.expand choice isLong attached) rest
    have := length_groupEvents (g.expand choice isLong attached) rest
    step.1 ++ scan wanted step.2
  | (_, .unknown) :: rest => .extra :: scan wanted rest
  | first :: rest =>
    match _h : if wanted then g.takeOperands (first :: rest) else none with
    | some (taken, rest) => .operands taken :: scan false rest
    | none => .extra :: scan wanted rest
termination_by args.length
decreasing_by
  · exact Nat.lt_succ_of_le this
  · exact Nat.lt_succ_self _
  · split at _h
    · exact g.length_takeOperands _h
    · cases _h
  · exact Nat.lt_succ_self _

/-- What an argument list asks for. -/
def events (args : List String) : List (Event α) :=
  match g.roles args with
  | none => [.fault]
  | some roles => g.scan true roles

end Grammar

/-! ## The command line of the program -/

/-- The options of the program itself. -/
inductive GlobalOption where
  | help
  | debug
  deriving Repr, DecidableEq

/-- The options of the analysis. -/
inductive AnalyseOption where
  | help
  | jobs
  | format
  | minMajor
  | failOnFindings
  | quiet
  deriving Repr, DecidableEq

/-- The options of the dump of a bootstrap table. -/
inductive DumpOption where
  | help
  deriving Repr, DecidableEq

/-- The names of the option that asks for help. -/
def helpNames : List String := ["-h", "--help"]

/-- The command line of the program: its options, a command and what belongs to it. -/
def globalGrammar : Grammar GlobalOption where
  choices := [⟨helpNames, .help, false⟩, ⟨["--debug"], .debug, false⟩]
  operands := .command

/-- The arguments of the analysis. -/
def analyseGrammar : Grammar AnalyseOption where
  choices := [
    ⟨helpNames, .help, false⟩,
    ⟨["-j", "--jobs"], .jobs, true⟩,
    ⟨["--format"], .format, true⟩,
    ⟨["--min-major"], .minMajor, true⟩,
    ⟨["--fail-on-findings"], .failOnFindings, false⟩,
    ⟨["-q", "--quiet"], .quiet, false⟩]
  operands := .oneOrMore

/-- The arguments of the dump of a bootstrap table. -/
def dumpGrammar : Grammar DumpOption where
  choices := [⟨helpNames, .help, false⟩]
  operands := .one

/-- Why a command line asks for nothing to be done. -/
inductive Stop where
  /-- It asks for help. -/
  | help
  /-- It is not well formed. -/
  | usage
  deriving Repr, DecidableEq

/-- The status of a program that stops so. -/
def Stop.status : Stop → Nat
  | help => 0
  | usage => 2

/-- The analysis that a command line asks for. -/
structure AnalyseCommand where
  paths : List String
  jobs : Int
  format : String
  minMajor : Int
  failOnFindings : Bool
  quiet : Bool
  deriving Repr, DecidableEq

/-- The analysis that no options ask for. -/
def AnalyseCommand.initial : AnalyseCommand where
  paths := []
  jobs := 1
  format := OutputFormat.text.name
  minMajor := lambdaMajor
  failOnFindings := false
  quiet := false

/-- What a command line asks for. -/
inductive Command where
  | analyse (command : AnalyseCommand)
  | dump (file : String)
  deriving Repr, DecidableEq

/-- A command, if there is one, and whether to log everything. -/
structure Invocation where
  debug : Bool
  command : Option Command
  deriving Repr, DecidableEq

/-- A result so far, and whether arguments were left over or missing. -/
structure Progress (β : Type) where
  result : β
  incomplete : Bool

/-- An integer as the value of an option. -/
def integerValue (text : String) : Except Stop Int :=
  match Integer.parse? text with
  | some n => .ok n
  | none => .error .usage

/-- A format as the value of an option. -/
def formatValue (text : String) : Except Stop String :=
  match OutputFormat.ofName? text with
  | some f => .ok f.name
  | none => .error .usage

/-- What an event adds to an analysis. -/
def analyseEvent (p : Progress AnalyseCommand) :
    Event AnalyseOption → Except Stop (Progress AnalyseCommand)
  | .option .help => .error .help
  | .option .failOnFindings => .ok { p with result.failOnFindings := true }
  | .option .quiet => .ok { p with result.quiet := true }
  | .value .jobs text => do return { p with result.jobs := ← integerValue text }
  | .value .minMajor text => do return { p with result.minMajor := ← integerValue text }
  | .value .format text => do return { p with result.format := ← formatValue text }
  | .operands paths => .ok { p with result.paths := paths }
  | .extra | .missing => .ok { p with incomplete := true }
  | .option _ | .value .. | .fault => .error .usage

/-- What an event adds to the dump of a bootstrap table. -/
def dumpEvent (p : Progress String) : Event DumpOption → Except Stop (Progress String)
  | .option .help => .error .help
  | .operands args => .ok { p with result := args.headD "" }
  | .extra | .missing => .ok { p with incomplete := true }
  | .value .. | .fault => .error .usage

/-- The command of some arguments, its name first. -/
def parseCommand : List String → Except Stop (Progress Command)
  | "analyze" :: args => do
    let p ← (analyseGrammar.events args).foldlM analyseEvent ⟨.initial, false⟩
    return ⟨.analyse p.result, p.incomplete⟩
  | "bootstrap" :: args => do
    let p ← (dumpGrammar.events args).foldlM dumpEvent ⟨"", false⟩
    return ⟨.dump p.result, p.incomplete⟩
  | _ => .error .usage

/-- What an event adds to a command line. A command need not be there. -/
def globalEvent (p : Progress Invocation) :
    Event GlobalOption → Except Stop (Progress Invocation)
  | .option .help => .error .help
  | .option .debug => .ok { p with result.debug := true }
  | .operands args => do
    let command ← parseCommand args
    return ⟨{ p.result with command := some command.result }, p.incomplete || command.incomplete⟩
  | .extra => .ok { p with incomplete := true }
  | .missing => .ok p
  | .value .. | .fault => .error .usage

/-- What a command line asks for. A request for help or a misuse counts in the order of the arguments,
arguments that are left over or missing count at the end. -/
def Invocation.parse (args : List String) : Except Stop Invocation := do
  let p ← (globalGrammar.events args).foldlM globalEvent ⟨⟨false, none⟩, false⟩
  if p.incomplete then throw .usage
  return p.result

end Forwarder.CommandLine
