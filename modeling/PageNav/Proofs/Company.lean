import Mathlib.Logic.Function.Basic
import PageNav.Proofs.Errand

/-!
# Sessions in company

Any number of sessions share a navigator. Each has scopes and a host of its own, and what one of
them does may come before, after or inside of what another does.
-/

namespace PageNav

variable {ι : Type} {τ α : Type} {σ Subject Chain : ι → Type}

/-- What a session has for itself. -/
structure Seat (τ : Type) where
  scopes : Scopes := {}
  host : τ

/-- What is noted in the course of a play. -/
inductive Note (ι : Type) where
  /-- A session is going to resolve a name, to call an operation or to scope to a place. -/
  | needs (session : ι)
  /-- A host is asked for the names of its operations and tells these. -/
  | asks (session : ι) (names : List String)
  /-- The navigator shows how many hosts were asked. -/
  | shows (captures : Nat)

structure Company (σ : ι → Type) where
  navigator : Navigator
  seats : (i : ι) → Seat (σ i)
  log : List (Note ι) := []

namespace Company

def note (c : Company σ) (note : Note ι) : Company σ :=
  { c with log := c.log ++ [note] }

/-- One session of the company, whose host carries the rest along. -/
def lend (c : Company σ) (i : ι) : Session (σ i × Company σ) where
  navigator := c.navigator
  scopes := (c.seats i).scopes
  host := ((c.seats i).host, c)

variable [DecidableEq ι]

def collect (i : ι) (s : Session (σ i × Company σ)) : Company σ :=
  { s.host.2 with
    navigator := s.navigator
    seats := Function.update s.host.2.seats i ⟨s.scopes, s.host.1⟩ }

def act (c : Company σ) (i : ι) (action : SessionM (σ i × Company σ) α) :
    Except Error α × Company σ :=
  let ended := action (c.lend i)
  (ended.1, collect i ended.2)

end Company

/-- The host that notes when it is asked for names. -/
def Host.noting {S C : Type} (host : Host τ S C) (σ : ι → Type) (i : ι) :
    Host (τ × Company σ) S C :=
  { host.carrying (Company σ) with
    operationNames := fun (state, company) =>
      let (names, state) := host.operationNames state
      (names, (state, company.note (.asks i names))) }

/-- Anything that can be done with sessions and their navigator, one thing after the other. It sees
how everything ended and goes on from there. -/
inductive Play (σ Subject Chain : ι → Type) : Type 1 where
  | done (outcome : Except Error Unit)
  /-- Looks at all there is of the navigator. -/
  | look (next : Navigator → Play σ Subject Chain)
  | go (place : Place) (way : Way) (next : Option Place → Play σ Subject Chain)
  | list (style : ListingStyle) (next : String → Play σ Subject Chain)
  | resolveAmong (place : Place) (name : String) (names : OperationNames)
      (next : Option Meaning → Play σ Subject Chain)
  /-- A host does something of its own accord. -/
  | askHost (i : ι) {α : Type} (action : StateM (σ i) α) (next : α → Play σ Subject Chain)
  /-- Enters or leaves scopes of a session, or begins another session with its host. -/
  | rescope (i : ι) {α : Type} (action : StateM Scopes α) (next : α → Play σ Subject Chain)
  | resolve (i : ι) (place : Place) (name : String)
      (next : Except Error (Option Meaning) → Play σ Subject Chain)
  | call (i : ι) (place : Place) (name : String) (args : List Json)
      (next : Except Error (Chain i) → Play σ Subject Chain)
  | callOn (i : ι) (chain : Chain i) (name : String) (args : List Json)
      (next : Except Error (Chain i) → Play σ Subject Chain)
  | query (i : ι) (path : String) (options : QueryOptions)
      (next : Except Error (Chain i) → Play σ Subject Chain)
  | within (i : ι) (place : Place) (options : QueryOptions)
      (body : Subject i → Play σ Subject Chain)
      (next : Except Error (Chain i) → Play σ Subject Chain)

namespace Play

variable [DecidableEq ι]

/-- A body that is run while its session is lent. -/
def lent (i : ι) (body : Company σ → Except Error Unit × Company σ) :
    SessionM (σ i × Company σ) Unit := fun s =>
  let ended := body (Company.collect i s)
  (ended.1, ended.2.lend i)

def run (hosts : (i : ι) → Host (σ i) (Subject i) (Chain i)) :
    Play σ Subject Chain → Company σ → Except Error Unit × Company σ
  | done outcome, c => (outcome, c)
  | look next, c => (next c.navigator).run hosts (c.note (.shows c.navigator.stats.captures))
  | go place way next, c =>
    let found := Nav.take place way c.navigator
    (next found.1).run hosts { c with navigator := found.2 }
  | list style next, c =>
    let listed := Nav.listing style c.navigator
    (next listed.1).run hosts { c with navigator := listed.2 }
  | resolveAmong place name names next, c =>
    let meant := Nav.resolve place name names c.navigator
    (next meant.1).run hosts { c with navigator := meant.2 }
  | askHost i action next, c =>
    let answered := action (c.seats i).host
    let seat : Seat (σ i) := { c.seats i with host := answered.2 }
    (next answered.1).run hosts { c with seats := Function.update c.seats i seat }
  | rescope i action next, c =>
    let changed := action (c.seats i).scopes
    let seat : Seat (σ i) := { c.seats i with scopes := changed.2 }
    (next changed.1).run hosts { c with seats := Function.update c.seats i seat }
  | resolve i place name next, c =>
    let ended := (c.note (.needs i)).act i (SessionM.resolve ((hosts i).noting σ i) place name)
    (next ended.1).run hosts ended.2
  | call i place name args next, c =>
    let ended := (c.note (.needs i)).act i (SessionM.call ((hosts i).noting σ i) place name args)
    (next ended.1).run hosts ended.2
  | callOn i chain name args next, c =>
    let ended := c.act i (SessionM.callOn ((hosts i).noting σ i) chain name args)
    (next ended.1).run hosts ended.2
  | query i path options next, c =>
    let ended := c.act i (SessionM.query ((hosts i).noting σ i) path options)
    (next ended.1).run hosts ended.2
  | within i place options body next, c =>
    let ended := (c.note (.needs i)).act i
      (SessionM.within ((hosts i).noting σ i) place options fun subject =>
        lent i ((body subject).run hosts))
    (next ended.1).run hosts ended.2

end Play

end PageNav
