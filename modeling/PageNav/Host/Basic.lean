import PageNav.Error
import PageNav.Host.QueryOptions

/-!
# Hosts

A host finds elements by their selectors and runs operations on them. It keeps a state of its own, of
which nothing is known here.
-/

namespace PageNav

structure Call where
  name : String
  args : List Json

/-- How a host goes about scoping: it runs the body as often as it likes, each time with a subject,
and sees how the body ended before it goes on. -/
inductive Scoping (σ Subject Chain : Type) where
  | done (outcome : Except Error Chain) (host : σ)
  | body (subject : Subject) (host : σ) (next : Except Error Unit → σ → Scoping σ Subject Chain)

/-- What a host offers. `σ` is its state, a `Chain` is what a query or an operation results in, and
a `Subject` is what the body of a scope gets. -/
structure Host (σ Subject Chain : Type) where
  /-- The names of all operations of a chain. -/
  operationNames : StateM σ (List String)
  query : String → QueryOptions → ExceptT Error (StateM σ) Chain
  /-- The subject of the innermost scope. -/
  scopedSubject : ExceptT Error (StateM σ) Chain
  call : Chain → Call → ExceptT Error (StateM σ) Chain
  /-- Scopes to the subject of a chain. -/
  within : Chain → QueryOptions → σ → Scoping σ Subject Chain

end PageNav
