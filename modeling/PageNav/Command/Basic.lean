/-!
# Commands

What the program can be asked to do.
-/

namespace PageNav

inductive Source where
  | standardInput
  | file (path : String)
deriving DecidableEq, Repr

/-- A dash stands for the standard input, anything else for a file. -/
def Source.ofOperand (operand : String) : Source :=
  if operand = "-" then .standardInput else .file operand

inductive ColorWhen where
  | auto
  | always
  | never
deriving DecidableEq, Repr

def ColorWhen.ofText? : String → Option ColorWhen
  | "auto" => some .auto
  | "always" => some .always
  | "never" => some .never
  | _ => none

def ColorWhen.holds (terminal : Bool) : ColorWhen → Bool
  | .auto => terminal
  | .always => true
  | .never => false

/-- A task, with the file of settings that it is to be done with. -/
inductive Command where
  /-- Prints the selector of each path. The attribute wins over that of the settings. -/
  | compile (settings : Option String) (attr : Option String) (paths : List String)
  /-- Prints a schema together with its row filters. -/
  | extend (settings : Option String) (schema : Source)
  /-- Prints the listing of a schema. -/
  | tree (settings : Option String) (schema : Source) (selectors : Bool) (color : ColorWhen)
  /-- Prints nothing. It fails if a schema or the settings are not in order. -/
  | check (settings : Option String) (schema : Source)
deriving DecidableEq, Repr

end PageNav
