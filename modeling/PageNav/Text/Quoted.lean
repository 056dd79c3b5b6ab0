/-!
# Quoted text

Text between single quotes is taken as it stands. Inside it a backslash takes away the meaning of
the character that follows. Outside quotes a backslash means nothing.
-/

namespace PageNav.Text

/-- Where a reader of quoted text stands. -/
inductive Quote where
  | outside
  | inside
  /-- Inside quotes, right after a backslash. -/
  | escaped
deriving DecidableEq, Repr

namespace Quote

/-- Where the reader stands after one more character. -/
def next : Quote → Char → Quote
  | .outside, c => if c = '\'' then .inside else .outside
  | .inside, c => if c = '\\' then .escaped else if c = '\'' then .outside else .inside
  | .escaped, _ => .inside

/-- Where the reader stands after a whole text. -/
def after (q : Quote) (text : List Char) : Quote :=
  text.foldl next q

@[simp] theorem after_nil (q : Quote) : q.after [] = q := rfl

@[simp] theorem after_cons (q : Quote) (c : Char) (cs : List Char) :
    q.after (c :: cs) = (q.next c).after cs := rfl

theorem after_append (q : Quote) (a b : List Char) : q.after (a ++ b) = (q.after a).after b :=
  List.foldl_append

end Quote

/-- Puts a backslash before every backslash and every quote. -/
def escapeChars : List Char → List Char
  | [] => []
  | c :: cs => if c = '\\' || c = '\'' then '\\' :: c :: escapeChars cs else c :: escapeChars cs

/-- The text as it is written between single quotes. -/
def escape (text : String) : String :=
  String.ofList (escapeChars text.toList)

end PageNav.Text
