import PageNav.Json.Basic

/-!
# Writing JSON

Strings are written with the shortest escapes and otherwise as they are. A value is written either
on one line without spaces, or with one member a line.
-/

namespace PageNav.Json

def escapeChar (c : Char) : List Char :=
  if c = '"' then ['\\', '"']
  else if c = '\\' then ['\\', '\\']
  else if c = '\x08' then ['\\', 'b']
  else if c = '\t' then ['\\', 't']
  else if c = '\n' then ['\\', 'n']
  else if c = '\x0c' then ['\\', 'f']
  else if c = '\r' then ['\\', 'r']
  else if c.toNat < 0x20 then
    ['\\', 'u', '0', '0', Nat.digitChar (c.toNat / 16), Nat.digitChar (c.toNat % 16)]
  else [c]

def quote (text : String) : List Char :=
  '"' :: text.toList.flatMap escapeChar ++ ['"']

/-- A value that is neither an array nor an object. -/
def scalarChars : Json → List Char
  | null => ['n', 'u', 'l', 'l']
  | bool true => ['t', 'r', 'u', 'e']
  | bool false => ['f', 'a', 'l', 's', 'e']
  | number n => n.text.toList
  | string s => quote s
  | array _ => []
  | object _ => []

mutual

def chars : Json → List Char
  | array items => '[' :: itemChars items ++ [']']
  | object members => '{' :: memberChars members ++ ['}']
  | scalar => scalarChars scalar

def itemChars : Items → List Char
  | .nil => []
  | .cons j .nil => chars j
  | .cons j rest => chars j ++ ',' :: itemChars rest

def memberChars : Members → List Char
  | .nil => []
  | .cons key value .nil => quote key ++ ':' :: chars value
  | .cons key value rest => quote key ++ ':' :: chars value ++ ',' :: memberChars rest

end

/-- A line break and the indentation of a level. -/
def newLine (level : Nat) : List Char :=
  '\n' :: List.replicate (2 * level) ' '

mutual

/-- A value with one item or member a line. -/
def prettyChars (level : Nat) : Json → List Char
  | array .nil => ['[', ']']
  | array items => '[' :: prettyItems (level + 1) items ++ newLine level ++ [']']
  | object .nil => ['{', '}']
  | object members => '{' :: prettyMembers (level + 1) members ++ newLine level ++ ['}']
  | scalar => scalarChars scalar

def prettyItems (level : Nat) : Items → List Char
  | .nil => []
  | .cons j .nil => newLine level ++ prettyChars level j
  | .cons j rest => newLine level ++ prettyChars level j ++ ',' :: prettyItems level rest

def prettyMembers (level : Nat) : Members → List Char
  | .nil => []
  | .cons key value .nil => newLine level ++ quote key ++ ':' :: ' ' :: prettyChars level value
  | .cons key value rest =>
    newLine level ++ quote key ++ ':' :: ' ' :: prettyChars level value ++ ',' ::
      prettyMembers level rest

end

/-- The value on one line, without spaces. -/
def compact (j : Json) : String :=
  String.ofList (chars j)

/-- The value over several lines, two spaces a level. -/
def pretty (j : Json) : String :=
  String.ofList (prettyChars 0 j)

end PageNav.Json
