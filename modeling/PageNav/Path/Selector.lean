import PageNav.Path.Token

/-!
# Selectors

A path becomes a selector token by token: the name at the front of a token turns into a test on one
attribute, and whatever is already a selector stays as it is.
-/

namespace PageNav.Selector

/-- The attribute that is tested if none is chosen. -/
def defaultAttribute : String := "data-test"

/-- A token that starts with one of these is a selector already. -/
def isLead (c : Char) : Bool :=
  ['@', '#', '.', '>', ':', '[', '(', '{'].contains c

/-- The name at the front of a token ends before the first of these. -/
def endsName (c : Char) : Bool :=
  [':', '>', '~'].contains c

/-- The test that `attr` has the value `name`. -/
def testOf (attr name : List Char) : List Char :=
  '[' :: attr ++ ['=', '\''] ++ name ++ ['\'', ']']

def ofToken (attr token : List Char) : List Char :=
  let name := token.takeWhile (!endsName ·)
  if token.head?.any isLead || name.isEmpty then token
  else testOf attr name ++ token.dropWhile (!endsName ·)

/-- The selector of a path: those of its tokens, with one space between them. -/
def ofPath (attr path : String) : String :=
  String.ofList (Path.join ((Path.tokensOf path.toList).map (ofToken attr.toList)))

/-- The selector of a single name, whatever the name holds. -/
def ofName (attr name : String) : String :=
  String.ofList (testOf attr.toList name.toList)

end PageNav.Selector
