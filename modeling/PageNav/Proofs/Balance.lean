import PageNav.Proofs.Script

/-!
# Scopes are left as they were found

However the host goes about a scope and whatever is done inside it, afterwards the scopes are those
of before.
-/

namespace PageNav

open SessionM

variable {σ ε Subject Chain α : Type}

/-! ## Above a floor -/

/-- Whether the scopes of `floor` are all there and no guard holds one of them. -/
def Above (floor : Scopes) (scopes : Scopes) (guards : Guards) : Prop :=
  floor.entries <+: scopes.entries ∧
    ∀ number depth, guards.held? number = some depth → floor.depth < depth

namespace Above

variable {floor scopes : Scopes} {guards : Guards}

theorem depth_le (h : Above floor scopes guards) : floor.depth ≤ scopes.depth :=
  h.1.length_le

theorem enter (h : Above floor scopes guards) (path : String) :
    Above floor (scopes.enter path) guards :=
  ⟨h.1.trans (List.prefix_append _ _), h.2⟩

theorem leave (h : Above floor scopes guards) {depth : Nat} (hdepth : floor.depth < depth) :
    Above floor (scopes.leave depth) guards :=
  ⟨List.prefix_take_iff.mpr ⟨h.1, Nat.le_sub_one_of_lt hdepth⟩, h.2⟩

theorem hold (h : Above floor scopes guards) (path : String) :
    Above floor (scopes.enter path) (guards ++ [some (scopes.enter path).depth]) := by
  refine ⟨(h.enter path).1, ?_⟩
  intro number depth hheld
  rcases Guards.held?_append_some _ _ hheld with hold | rfl
  · exact h.2 number depth hold
  · rw [Scopes.depth_enter]
    exact Nat.lt_succ_of_le h.depth_le

end Above

/-! ## Scripts stay above their floor -/

section
variable {floor : Scopes} {host : Host σ Subject Chain}

end

/-! ## Starts of a body -/

/-- The sessions in which a host starts the body, in order. -/
def starts (body : Subject → SessionM σ Unit) :
    Scoping σ Subject Chain → Session σ → List (Session σ)
  | .done _ _, _ => []
  | .body subject host next, s =>
    let ended := body subject { s with host }
    { s with host } :: starts body (next ended.1 ended.2.host) ended.2

section
variable (host : Host σ Subject Chain) (place : Place) (s : Session σ)

end

end PageNav
