import PageNav.Command.Basic

/-!
# Arguments

How a command is written: a verb, then options and operands in any order. An option has a long name,
or a letter, or both. Letters may be written together, and a value may be written right behind the
letter or name of its option, or as the next argument.
-/

namespace PageNav.Command

/-! ## Verbs and options -/

inductive Verb where
  | compile
  | extend
  | tree
  | check
deriving DecidableEq, Repr

def Verb.ofText? : String → Option Verb
  | "compile" => some .compile
  | "extend" => some .extend
  | "tree" => some .tree
  | "check" => some .check
  | _ => none

inductive Switch where
  | help
  /-- Asks for more log lines. No log lines are modelled, neither these nor the warnings that
  `extend` and `tree` give on the standard error without being asked. -/
  | verbose
  /-- Selectors are shown in place of paths. -/
  | selectors
deriving DecidableEq, Repr

inductive Choice where
  | settings
  | attr
  | color
deriving DecidableEq, Repr

inductive Opt where
  | switch (switch : Switch)
  | choice (choice : Choice)
deriving DecidableEq, Repr

namespace Opt

def ofLetter? : Char → Option Opt
  | 'h' => some (.switch .help)
  | 'v' => some (.switch .verbose)
  | 'c' => some (.choice .settings)
  | 'a' => some (.choice .attr)
  | _ => none

def ofName? : String → Option Opt
  | "help" => some (.switch .help)
  | "compiled" => some (.switch .selectors)
  | "config" => some (.choice .settings)
  | "attribute" => some (.choice .attr)
  | "color" => some (.choice .color)
  | _ => none

def fits (verb : Verb) : Opt → Bool
  | .switch .help => true
  | .switch .verbose => true
  | .switch .selectors => verb == .tree
  | .choice .settings => true
  | .choice .attr => verb == .compile
  | .choice .color => verb == .tree

end Opt

/-! ## One argument -/

inductive Stop where
  | help
  | misuse
deriving DecidableEq, Repr

inductive Shape where
  /-- Two dashes alone. All that follow are operands. -/
  | divider
  /-- Two dashes, a name and perhaps a value behind an equals sign. -/
  | named (name : String) (value? : Option String)
  /-- A dash and letters. -/
  | letters (letters : List Char)
  | plain
deriving DecidableEq, Repr

def Shape.ofArgument (argument : String) : Shape :=
  match argument.toList with
  | ['-', '-'] => .divider
  | '-' :: '-' :: rest =>
    let name := String.ofList (rest.takeWhile (· != '='))
    match rest.dropWhile (· != '=') with
    | [] => .named name none
    | _ :: value => .named name (some (String.ofList value))
  | ['-'] => .plain
  | '-' :: rest => .letters rest
  | _ => .plain

structure Given where
  verb : Verb
  operands : List String := []
  settings : Option String := none
  attr : Option String := none
  selectors : Bool := false
  color : Option ColorWhen := none
deriving DecidableEq, Repr

namespace Given

/-- Puts a value where there is none yet. -/
def once {α : Type} (held : Option α) (value : α) : Except Stop (Option α) :=
  if held.isSome then throw .misuse else return some value

/-- Takes an operand. Only `compile` has more than one, and only its operands may be empty. -/
def operand (given : Given) (text : String) : Except Stop Given :=
  if given.verb = .compile ∨ (given.operands.isEmpty ∧ text ≠ "") then
    return { given with operands := given.operands ++ [text] }
  else throw .misuse

def switch (given : Given) : Switch → Except Stop Given
  | .help => throw .help
  | .verbose => return given
  | .selectors => if given.selectors then throw .misuse else return { given with selectors := true }

def choice (given : Given) (value : String) : Choice → Except Stop Given
  | .settings => do
    if value = "" then throw .misuse
    return { given with settings := ← once given.settings value }
  | .attr => do return { given with attr := ← once given.attr value }
  | .color => do
    match ColorWhen.ofText? value with
    | none => throw .misuse
    | some color => return { given with color := ← once given.color color }

/-- The option that was found, if the verb has it. -/
def known (given : Given) (opt? : Option Opt) : Except Stop Opt :=
  match opt?.filter (·.fits given.verb) with
  | some opt => return opt
  | none => throw .misuse

/-- Takes the letters of one argument. The result says which option still waits for its value. -/
def letters (given : Given) : List Char → Except Stop (Given × Option Choice)
  | [] => return (given, none)
  | letter :: rest => do
    match ← given.known (Opt.ofLetter? letter) with
    | .switch switch => (← given.switch switch).letters rest
    | .choice choice =>
      match rest with
      | [] => return (given, some choice)
      | '=' :: value => return (← given.choice (String.ofList value) choice, none)
      | value => return (← given.choice (String.ofList value) choice, none)

/-- Takes a named option. The result says whether it still waits for its value. -/
def named (given : Given) (name : String) (value? : Option String) :
    Except Stop (Given × Option Choice) := do
  match ← given.known (Opt.ofName? name), value? with
  | .switch switch, none => return (← given.switch switch, none)
  | .switch _, some _ => throw .misuse
  | .choice choice, none => return (given, some choice)
  | .choice choice, some value => return (← given.choice value choice, none)

/-! ## All arguments -/

/-- Takes arguments. If an option waits for its value, the first is taken for it, and must not look
like an option. -/
def arguments (given : Given) (waiting : Option Choice) : List String → Except Stop Given
  | [] => if waiting.isSome then throw .misuse else return given
  | argument :: rest =>
    match Shape.ofArgument argument, waiting with
    | .plain, none => do (← given.operand argument).arguments none rest
    | .plain, some choice => do (← given.choice argument choice).arguments none rest
    | _, some _ => throw .misuse
    | .divider, none => rest.foldlM operand given
    | .named name value?, none => do
      let (given, waiting) ← given.named name value?
      given.arguments waiting rest
    | .letters letters, none => do
      let (given, waiting) ← given.letters letters
      given.arguments waiting rest

/-- The command that the arguments ask for. An operand must be there. -/
def command (given : Given) : Except Stop Command :=
  match given.operands with
  | [] => throw .misuse
  | first :: _ =>
    let schema := Source.ofOperand first
    return match given.verb with
      | .compile => .compile given.settings given.attr given.operands
      | .extend => .extend given.settings schema
      | .tree => .tree given.settings schema given.selectors (given.color.getD .auto)
      | .check => .check given.settings schema

end Given

/-- What follows the word `help`: nothing, or one thing that there is help for. -/
def helpTopic : List String → Stop
  | [] => .help
  | [topic] => if topic = "help" ∨ (Verb.ofText? topic).isSome then .help else .misuse
  | _ => .misuse

def ofArguments : List String → Except Stop Command
  | [] => throw .misuse
  | first :: rest =>
    match Verb.ofText? first with
    | some verb => do (← ({ verb } : Given).arguments none rest).command
    | none =>
      if first = "help" then throw (helpTopic rest)
      else
        match Shape.ofArgument first with
        | .named "help" none => throw .help
        | .letters ('h' :: _) => throw .help
        | _ => throw .misuse

/-- What is printed for help, and when the arguments make no sense. The text is of this program
alone and not the help of the command line that is modelled. -/
def usage : String :=
  "usage: pagenav compile [-c FILE] [-a NAME] PATH...\n" ++
  "       pagenav extend [-c FILE] SCHEMA\n" ++
  "       pagenav tree [-c FILE] [--compiled] [--color auto|always|never] SCHEMA\n" ++
  "       pagenav check [-c FILE] SCHEMA\n" ++
  "A SCHEMA is a file, or - for the standard input. The FILE holds settings.\n"

end PageNav.Command
