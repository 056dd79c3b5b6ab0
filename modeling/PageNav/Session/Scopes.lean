import PageNav.Path.Relative

/-!
# Scopes

The places that a session is scoped to at the moment, by their paths. The innermost one decides how
paths are written.
-/

namespace PageNav

/-- The paths of the active scopes, outermost first. -/
structure Scopes where
  entries : List String := []
deriving DecidableEq, Repr, Inhabited

namespace Scopes

def depth (s : Scopes) : Nat :=
  s.entries.length

def isEmpty (s : Scopes) : Bool :=
  s.entries.isEmpty

def innermost? (s : Scopes) : Option String :=
  s.entries.getLast?

/-- The path as seen from the innermost scope, or with single spaces if there is none. -/
def relative (s : Scopes) (path : String) : String :=
  match s.innermost? with
  | some scope => Path.relativeTo scope path
  | none => Path.normal path

/-- The scopes after one more. The depth of the result says which one it is. -/
def enter (s : Scopes) (path : String) : Scopes :=
  ⟨s.entries ++ [path]⟩

/-- Leaves the scope that was entered at `depth`, and with it all that stand at that depth or
deeper now. -/
def leave (s : Scopes) (depth : Nat) : Scopes :=
  ⟨s.entries.take (depth - 1)⟩

@[simp] theorem depth_enter (s : Scopes) (path : String) : (s.enter path).depth = s.depth + 1 := by
  simp [depth, enter]

@[simp] theorem innermost?_enter (s : Scopes) (path : String) :
    (s.enter path).innermost? = some path := by
  simp [innermost?, enter]

@[simp] theorem leave_enter (s : Scopes) (path : String) :
    (s.enter path).leave (s.depth + 1) = s := by
  simp [leave, enter, depth]

end Scopes

end PageNav
