import PageNav.Command.Arguments
import PageNav.Navigation.Listing

/-!
# Running commands

A command reads its settings, then its schema, and ends with the text that it prints or with the
first thing that went wrong.
-/

namespace PageNav.Command

inductive ReadFailure where
  /-- Its bytes are not UTF-8. -/
  | notText
  /-- The system refuses, for a reason and with a number for it. -/
  | refused (reason : String) (code : Nat)
deriving DecidableEq, Repr

def ReadFailure.message : ReadFailure → String
  | .notText => "stream did not contain valid UTF-8"
  | .refused reason code => s!"{reason} (os error {code})"

inductive Failure where
  | reading (source : Source) (failure : ReadFailure)
  | page (error : Error)

def Failure.message : Failure → String
  | .reading .standardInput failure => s!"failed to read stdin: {failure.message}"
  | .reading (.file path) failure => s!"failed to read '{path}': {failure.message}"
  | .page error => error.message

/-! ## Reading -/

abbrev Reading (m : Type → Type) := Source → m (Except ReadFailure String)

section

variable {m : Type → Type} [Monad m]

def readText (reading : Reading m) (source : Source) : ExceptT Failure m String :=
  .mk do return (← reading source).mapError (.reading source)

/-- Goes on if the page is in order. -/
def inOrder {α : Type} (result : Except Error α) : ExceptT Failure m α :=
  .mk (pure (result.mapError .page))

/-- Reads settings from a file. Without one they are the standard ones. -/
def readSettings (reading : Reading m) : Option String → ExceptT Failure m Settings
  | none => return {}
  | some path => do inOrder (Settings.ofText (← readText reading (.file path)))

def readSchema (reading : Reading m) (source : Source) : ExceptT Failure m Schema := do
  inOrder (Schema.ofText (← readText reading source))

/-! ## Running -/

/-- Runs a command. The result is the text that it prints. -/
def run (reading : Reading m) (terminal : Bool) : Command → ExceptT Failure m String
  | .compile settings attr paths => do
    let settings ← readSettings reading settings
    let attr := attr.getD settings.testAttribute
    return String.join (paths.map fun path => Selector.ofPath attr path ++ "\n")
  | .extend settings schema => do
    let settings ← readSettings reading settings
    let schema ← readSchema reading schema
    return (Layout.ofSchema settings.rowTable schema).toJson.pretty ++ "\n"
  | .tree settings schema selectors color => do
    let settings ← readSettings reading settings
    let schema ← readSchema reading schema
    let navigator ← inOrder (Navigator.ofSchema? schema settings)
    let style : ListingStyle := { selectors, colored := color.holds terminal }
    return ((Nav.listing style).run navigator).1
  | .check settings schema => do
    let _ ← readSettings reading settings
    let _ ← readSchema reading schema
    return ""

end

/-! ## Reports -/

structure Report where
  output : String := ""
  complaint : String := ""
  code : UInt8 := 0
deriving DecidableEq, Repr

namespace Report

/-- Help is a success. Arguments that make no sense are not. -/
def ofStop : Stop → Report
  | .help => { output := usage }
  | .misuse => { complaint := usage, code := 2 }

def ofOutcome : Except Failure String → Report
  | .ok output => { output }
  | .error failure => { complaint := s!"error: {failure.message}\n", code := 1 }

end Report

def report {m : Type → Type} [Monad m] (reading : Reading m) (terminal : Bool)
    (arguments : List String) : m Report :=
  match ofArguments arguments with
  | .error stop => return .ofStop stop
  | .ok command => do return .ofOutcome (← (command.run reading terminal).run)

end PageNav.Command
