import PageNav.Host.Basic
import PageNav.Navigation.Meaning
import PageNav.Session.Scopes

/-!
# Sessions

A session runs operations of one host against the places of a page. What it sends to the host is
written relative to the innermost scope at that moment. Its state stays as it is when it fails.
-/

namespace PageNav

structure Session (σ : Type) where
  navigator : Navigator
  scopes : Scopes := {}
  host : σ

/-- What a session does. It may fail. -/
abbrev SessionM (σ : Type) := ExceptT Error (StateM (Session σ))

namespace SessionM

variable {σ Subject Chain α : Type}

def navigate (action : Nav α) : SessionM σ α :=
  modifyGet fun s =>
    let (result, navigator) := action.run s.navigator
    (result, { s with navigator })

/-- Lets the host do something that cannot fail. -/
def askHost (action : StateM σ α) : SessionM σ α :=
  modifyGet fun s =>
    let (result, host) := action.run s.host
    (result, { s with host })

/-- Lets the host do something, and fails if the host does. -/
def tryHost (action : ExceptT Error (StateM σ) α) : SessionM σ α := do
  match ← askHost action.run with
  | .ok result => return result
  | .error e => throw e

/-! ## Scopes -/

/-- Enters a scope. The result says which one it is. -/
def enter (path : String) : SessionM σ Nat :=
  modifyGet fun s =>
    let scopes := s.scopes.enter path
    (scopes.depth, { s with scopes })

/-- Leaves the scope that was entered at `depth`. -/
def leave (depth : Nat) : SessionM σ Unit :=
  modify fun s => { s with scopes := s.scopes.leave depth }

/-! ## Operations -/

/-- The names of the host's operations. The first host that is needed for them is asked, and never
again. -/
def operations (host : Host σ Subject Chain) : SessionM σ OperationNames := do
  match (← get).navigator.operations with
  | some names => return names
  | none =>
    let names := OperationNames.ofList (← askHost host.operationNames)
    modify fun s =>
      { s with navigator :=
        { s.navigator with operations := some names, captures := s.navigator.captures + 1 } }
    return names

def resolve (host : Host σ Subject Chain) (place : Place) (name : String) :
    SessionM σ (Option Meaning) := do
  let names ← operations host
  navigate (Nav.resolve place name names)

def operation (host : Host σ Subject Chain) (place : Place) (name : String) :
    SessionM σ Operation := do
  let names ← operations host
  match ← navigate (Nav.resolve place name names) with
  | some (.operation operation) => return operation
  | _ =>
    if names.contains name then throw (.shadowedOperation name place.path)
    else throw (.unknownOperation name place.path)

/-- Looks up a place, written relative to the innermost scope. A place that is the scope is not
looked up again. -/
def lookUp (host : Host σ Subject Chain) (place : Place) : SessionM σ Chain := do
  let s ← get
  let path := s.scopes.relative place.path
  if path.isEmpty then tryHost host.scopedSubject
  else tryHost (host.query (Selector.ofPath s.navigator.settings.testAttribute path) {})

def call (host : Host σ Subject Chain) (place : Place) (name : String) (args : List Json) :
    SessionM σ Chain := do
  if (← operation host place name).scoping then throw (.scopingOperation name)
  let chain ← lookUp host place
  tryHost (host.call chain ⟨name, args⟩)

/-- Runs an operation on the result of an earlier one. -/
def callOn (host : Host σ Subject Chain) (chain : Chain) (name : String) (args : List Json) :
    SessionM σ Chain :=
  tryHost (host.call chain ⟨name, args⟩)

/-- Looks up a path as it is, whatever the scope. -/
def query (host : Host σ Subject Chain) (path : String) (options : QueryOptions) :
    SessionM σ Chain := do
  let attr := (← get).navigator.settings.testAttribute
  tryHost (host.query (Selector.ofPath attr path) options)

/-- Runs the body of a scope whenever the host says so, until the host is done. -/
def conduct (body : Subject → SessionM σ Unit) : Scoping σ Subject Chain → SessionM σ Chain
  | .done outcome host => do
    modify fun s => { s with host }
    match outcome with
    | .ok chain => return chain
    | .error e => throw e
  | .body subject host next => fun s =>
    let (outcome, s) := body subject { s with host }
    conduct body (next outcome s.host) s

/-- Scopes to a place while the host runs `body`. The place itself is looked up before the scope is
entered, and the scope is left however the host ends. -/
def within (host : Host σ Subject Chain) (place : Place) (options : QueryOptions)
    (body : Subject → SessionM σ Unit) : SessionM σ Chain := do
  let _ ← operation host place (← get).navigator.settings.scopingOperation
  let chain ← lookUp host place
  let depth ← enter place.path
  fun s =>
    let (outcome, s) := conduct body (host.within chain options s.host) s
    (outcome, { s with scopes := s.scopes.leave depth })

end SessionM

end PageNav
