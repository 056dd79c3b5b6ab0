import PageNav.Path.Bracket
import PageNav.Text.Blank

/-!
# The tokens of a path

A path is a text of names with blanks between them. A blank inside quotes or inside a group belongs
to the token around it.
-/

namespace PageNav

open Text

/-- Whether `c` separates tokens, when it is met in state `q` with `rest` after it. All blanks of one
run get the same answer, since the look ahead passes over blanks. -/
def separates (q : Quote) (c : Char) (rest : List Char) : Bool :=
  q = .outside && isBlank c && !inGroup rest

namespace Path

/-- Puts a token before others, unless it is empty. -/
def consToken (token : List Char) (tokens : List (List Char)) : List (List Char) :=
  if token.isEmpty then tokens else token :: tokens

/-- What is left of the token under way, and the tokens after it. -/
def split (q : Quote) : List Char → List Char × List (List Char)
  | [] => ([], [])
  | c :: cs =>
    if separates q c cs then
      let (token, tokens) := split .outside cs
      ([], consToken token tokens)
    else
      let (token, tokens) := split (q.next c) cs
      (c :: token, tokens)

/-- The tokens of a text: the longest pieces that hold no separating blank. -/
def tokensOf (text : List Char) : List (List Char) :=
  let (token, tokens) := split .outside text
  consToken token tokens

/-- Tokens with one space between them. -/
def join (tokens : List (List Char)) : List Char :=
  [' '].intercalate tokens

def tokens (path : String) : List String :=
  (tokensOf path.toList).map String.ofList

end Path

end PageNav
