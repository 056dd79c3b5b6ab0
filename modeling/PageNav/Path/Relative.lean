import PageNav.Path.Token

/-!
# Paths relative to a scope

Below a scope a path is written without the tokens of the scope. Only whole tokens count.
-/

namespace PageNav.Path

/-- The tokens after those of `scope`, or all of them if they do not start with those. -/
def dropScope (scope tokens : List (List Char)) : List (List Char) :=
  if scope.isPrefixOf tokens then tokens.drop scope.length else tokens

/-- The path as seen from `scope`, with single spaces. It is empty when the path is the scope. -/
def relativeTo (scope path : String) : String :=
  String.ofList (join (dropScope (tokensOf scope.toList) (tokensOf path.toList)))

/-- The path with single spaces between its tokens. -/
def normal (path : String) : String :=
  String.ofList (join (tokensOf path.toList))

end PageNav.Path
