import PageNav.Proofs.Carrying

/-!
# Scripts

A script is anything that can be done with a session, for what holds whatever is done. The scopes
that it enters are held by guards, which it drops when it likes or never.
-/

namespace PageNav

/-- The guards that were handed out, each with the depth of its scope while it is held. -/
abbrev Guards := List (Option Nat)

namespace Guards

def held? (guards : Guards) (number : Nat) : Option Nat :=
  guards[number]?.join

theorem held?_append_some (guards : Guards) (depth : Nat) {number d : Nat}
    (h : held? (guards ++ [some depth]) number = some d) :
    held? guards number = some d ∨ d = depth := by
  unfold held? at h ⊢
  rw [List.getElem?_append] at h
  split at h
  · exact .inl h
  · rw [List.getElem?_singleton] at h
    split at h
    · exact .inr (Option.some.inj h).symm
    · exact absurd h (by simp)

theorem held?_set_none {guards : Guards} {number other d : Nat}
    (h : held? (guards.set number none) other = some d) : held? guards other = some d := by
  unfold held? at h ⊢
  rw [List.getElem?_set] at h
  split at h
  · split at h <;> exact absurd h (by simp)
  · exact h

end Guards

variable {σ Subject Chain α : Type}

/-! ## Scripts -/

/-- What a body does, one thing after the other. It sees how everything ended and goes on from
there. -/
inductive Script (σ Subject Chain : Type) : Type 1 where
  | done (outcome : Except Error Unit)
  | navigate {α : Type} (action : Nav α) (next : α → Script σ Subject Chain)
  | askHost {α : Type} (action : StateM σ α) (next : α → Script σ Subject Chain)
  | resolve (place : Place) (name : String) (next : Option Meaning → Script σ Subject Chain)
  | call (place : Place) (name : String) (args : List Json)
      (next : Except Error Chain → Script σ Subject Chain)
  | callOn (chain : Chain) (name : String) (args : List Json)
      (next : Except Error Chain → Script σ Subject Chain)
  | query (path : String) (options : QueryOptions)
      (next : Except Error Chain → Script σ Subject Chain)
  /-- Looks at the scopes, and with them at any path as it is seen from the innermost. -/
  | look (next : Scopes → Script σ Subject Chain)
  /-- Enters a scope. The script gets the number of its guard. -/
  | enter (path : String) (next : Nat → Script σ Subject Chain)
  | drop (guard : Nat) (next : Script σ Subject Chain)
  | within (place : Place) (options : QueryOptions) (body : Subject → Script σ Subject Chain)
      (next : Except Error Chain → Script σ Subject Chain)

namespace SessionM

/-- How an action ended, which does not end what is done with it. -/
def attempt (action : SessionM σ α) : SessionM σ (Except Error α) := fun s =>
  let (outcome, s) := action s
  (.ok outcome, s)

def hold (path : String) : SessionM (σ × Guards) Nat := do
  let depth ← enter path
  askHost fun (host, guards) => (guards.length, (host, guards ++ [some depth]))

/-- Drops a guard, which leaves its scope if it is still held. -/
def drop (guard : Nat) : SessionM (σ × Guards) Unit := fun s =>
  let dropped := { s with host := (s.host.1, s.host.2.set guard none) }
  match Guards.held? s.host.2 guard with
  | some depth => leave depth dropped
  | none => (.ok (), dropped)

end SessionM

def Script.run (host : Host σ Subject Chain) : Script σ Subject Chain → SessionM (σ × Guards) Unit
  | .done outcome => fun s => (outcome, s)
  | .navigate action next => do (next (← SessionM.navigate action)).run host
  | .askHost action next => do (next (← SessionM.askHost (carry action))).run host
  | .resolve place name next => do
    (next (← SessionM.resolve (host.carrying Guards) place name)).run host
  | .call place name args next => do
    (next (← (SessionM.call (host.carrying Guards) place name args).attempt)).run host
  | .callOn chain name args next => do
    (next (← (SessionM.callOn (host.carrying Guards) chain name args).attempt)).run host
  | .query path options next => do
    (next (← (SessionM.query (host.carrying Guards) path options).attempt)).run host
  | .look next => do (next (← get).scopes).run host
  | .enter path next => do (next (← SessionM.hold path)).run host
  | .drop guard next => do
    SessionM.drop guard
    next.run host
  | .within place options body next => do
    let outcome ← (SessionM.within (host.carrying Guards) place options fun subject =>
      (body subject).run host).attempt
    (next outcome).run host

end PageNav
