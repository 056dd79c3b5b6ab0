/-!
# Camel case

A key such as `todo_page` may also be called `todoPage`. Case is changed for ASCII letters only.
-/

namespace PageNav.Text

/-- The characters between the words of a key. -/
def isWordSeparator (c : Char) : Bool :=
  c = '_' || c = '-' || c = '.' || c = ' '

/-- The characters after the first one. `capital` says that a separator has just been passed. -/
def camelTail (capital : Bool) : List Char → List Char
  | [] => []
  | c :: cs =>
    if isWordSeparator c then camelTail true cs
    else (if capital then c.toUpper else c) :: camelTail false cs

/-- Separators are dropped, a letter after one becomes a capital, and the first letter is small. -/
def camelChars : List Char → List Char
  | [] => []
  | c :: cs => if isWordSeparator c then camelChars cs else c.toLower :: camelTail false cs

/-- The name by which a key may be called besides its own. -/
def camelCase (key : String) : String :=
  String.ofList (camelChars key.toList)

end PageNav.Text
