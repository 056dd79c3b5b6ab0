import PageNav.Proofs.Invariants
import PageNav.Proofs.Tour

/-!
# Operations that are dispatched

The names of the host's operations are asked for once and stay the same from then on.
-/

namespace PageNav

variable {σ Subject Chain : Type}

/-! ## Names -/

namespace Session

def names (host : Host σ Subject Chain) (s : Session σ) : OperationNames :=
  match s.navigator.operations with
  | some names => names
  | none => .ofList (host.operationNames s.host).1

/-- The session once the names are known. -/
def named (host : Host σ Subject Chain) (s : Session σ) : Session σ :=
  match s.navigator.operations with
  | some _ => s
  | none =>
    { s with
      host := (host.operationNames s.host).2
      navigator := { s.navigator with
        operations := some (s.names host), captures := s.navigator.captures + 1 } }

theorem names_of_operations {names : OperationNames} {s : Session σ}
    (h : s.navigator.operations = some names) (host : Host σ Subject Chain) :
    s.names host = names := by
  rw [Session.names, h]

section
variable (host : Host σ Subject Chain) (s : Session σ)

theorem named_operations : (s.named host).navigator.operations = some (s.names host) := by
  unfold named names
  cases h : s.navigator.operations with
  | some names => exact h
  | none => rfl

theorem named_settings : (s.named host).navigator.settings = s.navigator.settings := by
  unfold named
  cases s.navigator.operations <;> rfl

theorem named_scopes : (s.named host).scopes = s.scopes := by
  unfold named
  cases s.navigator.operations <;> rfl

end

end Session

/-! ## Navigation -/

namespace Nav

variable {α β : Type}

/-- Whether the settings and the names of the operations stay as they are. -/
structure Wanders (action : Nav α) : Prop where
  settings : ∀ n, (action n).2.settings = n.settings
  operations : ∀ n, (action n).2.operations = n.operations

theorem wanders_pure (a : α) : Wanders (pure a) :=
  ⟨fun _ => rfl, fun _ => rfl⟩

theorem wanders_bind {action : Nav α} {next : α → Nav β} (haction : Wanders action)
    (hnext : ∀ a, Wanders (next a)) : Wanders (action >>= next) := by
  constructor
  · intro n
    rw [bind_apply, (hnext _).settings, haction.settings]
  · intro n
    rw [bind_apply, (hnext _).operations, haction.operations]

theorem wanders_visit? (spot? : Option Spot) : Wanders (visit? spot?) := by
  cases spot? with
  | none => exact wanders_pure none
  | some spot => exact ⟨fun _ => rfl, fun _ => rfl⟩

theorem wanders_child (place : Place) (name : String) : Wanders (child place name) :=
  wanders_visit? _

end Nav

/-! ## Dispatch -/

/-- Whether a name means an operation of the host at a place. -/
structure Dispatches (names : OperationNames) (place : Place) (name : String) : Prop where
  element : place.isElement = true
  offered : names.contains name = true
  free : place.defines name = false

theorem Dispatches.resolve {names : OperationNames} {place : Place} {name : String}
    (h : Dispatches names place name) (n : Navigator) :
    Nav.resolve place name names n =
      (some (.operation ⟨place, name, name == n.settings.scopingOperation⟩), n) := by
  rw [Nav.resolve_eq, h.element, h.offered, h.free]
  rfl

namespace SessionM

theorem operations_apply (host : Host σ Subject Chain) (s : Session σ) :
    operations host s = (.ok (s.names host), s.named host) := by
  unfold operations
  rw [bind_apply, get_apply]
  simp only [Session.named, Session.names]
  cases h : s.navigator.operations <;> rfl

theorem operation_apply {host : Host σ Subject Chain} {place : Place} {name : String}
    {s : Session σ} (h : Dispatches (s.names host) place name) :
    operation host place name s =
      (.ok ⟨place, name, name == s.navigator.settings.scopingOperation⟩, s.named host) := by
  unfold operation
  rw [bind_apply, operations_apply]
  simp only
  rw [bind_apply, navigate_apply, h.resolve, s.named_settings host]
  rfl

end SessionM

end PageNav
