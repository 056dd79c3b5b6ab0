import PageNav.Text.Quoted

/-!
# Brackets

The three kinds of brackets that group the text of a path.
-/

namespace PageNav

open Text

inductive Bracket where
  | square
  | round
  | curly
deriving DecidableEq, Repr

namespace Bracket

def kinds : List Bracket := [.square, .round, .curly]

def opening : Bracket → Char
  | .square => '['
  | .round => '('
  | .curly => '{'

def closing : Bracket → Char
  | .square => ']'
  | .round => ')'
  | .curly => '}'

/-- Whether the first bracket of this kind outside quotes is a closing one. -/
def closesFirst (k : Bracket) : Quote → List Char → Bool
  | _, [] => false
  | .outside, c :: cs =>
    if c = k.opening then false
    else if c = k.closing then true
    else closesFirst k (Quote.outside.next c) cs
  | q, c :: cs => closesFirst k (q.next c) cs

end Bracket

/-- Whether a bracket of some kind is closed in `rest` before one of that kind is opened, so that the
place before `rest` lies in a group. -/
def inGroup (rest : List Char) : Bool :=
  Bracket.kinds.any (·.closesFirst .outside rest)

end PageNav
