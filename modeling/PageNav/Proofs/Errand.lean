import PageNav.Navigation.Listing
import PageNav.Proofs.Recording
import PageNav.Proofs.Script

/-!
# Errands

An errand is a script that goes by what it is told and not by how the navigator counts. It knows
places by the order in which it found them, sees of each place what there is at its spot, and may
look whether two places are the same. It sees no number of a place and no statistics.
-/

namespace PageNav

variable {σ μ Subject Chain α : Type}

/-! ## What an errand may do -/

/-- Whether an action does the same in states that are alike. -/
def Unaware (R : σ → σ → Prop) (action : StateM σ α) : Prop :=
  ∀ s t, R s t → (action s).1 = (action t).1 ∧ R (action s).2 (action t).2

inductive Way where
  | child (name : String)
  | walk (route : String)
  | row (column text : String)

def Nav.take (place : Place) : Way → Nav (Option Place)
  | .child name => child place name
  | .walk route => walk place route
  | .row column text =>
    match place.rowFilter? with
    | none => return none
    | some filter => row place filter column text

/-- The meaning without the number of the place in it. -/
def Meaning.unnumbered : Meaning → Meaning
  | .child place => .child { place with id := default }
  | .filter container rows => .filter { container with id := default } rows
  | .path text => .path text
  | .operation op => .operation { op with place := { op.place with id := default } }

/-- What is done, one thing after the other. A handle is the position of a place among the root and
the places that were found, and a handle that was not given out means the root. `R` tells which
states of the host are alike, and `μ` is what the errand keeps in mind, in its bodies too. -/
inductive Errand (R : σ → σ → Prop) (μ Subject Chain : Type) : Type 1 where
  | done (outcome : Except Error Unit)
  | describe (handle : Nat) (next : Spot → Errand R μ Subject Chain)
  | same (handle other : Nat) (next : Bool → Errand R μ Subject Chain)
  /-- Finds a place. The errand gets a new handle and what there is at the place. -/
  | go (handle : Nat) (way : Way) (next : Option (Nat × Spot) → Errand R μ Subject Chain)
  | list (style : ListingStyle) (next : String → Errand R μ Subject Chain)
  | resolve (handle : Nat) (name : String) (next : Option Meaning → Errand R μ Subject Chain)
  | resolveAmong (handle : Nat) (name : String) (names : OperationNames)
      (next : Option Meaning → Errand R μ Subject Chain)
  | call (handle : Nat) (name : String) (args : List Json)
      (next : Except Error Chain → Errand R μ Subject Chain)
  | callOn (chain : Chain) (name : String) (args : List Json)
      (next : Except Error Chain → Errand R μ Subject Chain)
  | query (path : String) (options : QueryOptions)
      (next : Except Error Chain → Errand R μ Subject Chain)
  | look (next : Scopes → Errand R μ Subject Chain)
  | enter (path : String) (next : Nat → Errand R μ Subject Chain)
  | drop (guard : Nat) (next : Errand R μ Subject Chain)
  | askHost {α : Type} (action : StateM σ α) (unaware : Unaware R action)
      (next : α → Errand R μ Subject Chain)
  | remember {α : Type} (action : StateM μ α) (next : α → Errand R μ Subject Chain)
  | within (handle : Nat) (options : QueryOptions) (body : Subject → Errand R μ Subject Chain)
      (next : Except Error Chain → Errand R μ Subject Chain)

/-! ## Runs -/

structure Luggage (μ : Type) where
  found : List Place := []
  memory : μ

/-- The state of a host that records what it is asked for, with the luggage and the guards. -/
abbrev Errand.State (σ μ Chain : Type) := ((σ × List (Request Chain)) × Luggage μ) × Guards

abbrev Host.equipped (host : Host σ Subject Chain) (μ : Type) :
    Host (Errand.State σ μ Chain) Subject Chain :=
  (host.recording.carrying (Luggage μ)).carrying Guards

namespace SessionM

def pack (action : StateM (Luggage μ) α) : SessionM (Errand.State σ μ Chain) α :=
  askHost fun ((host, luggage), guards) =>
    let (result, luggage) := action luggage
    (result, ((host, luggage), guards))

def placeOf (handle : Nat) : SessionM (Errand.State σ μ Chain) Place := do
  let s ← get
  return (s.navigator.root :: s.host.1.2.found).getD handle s.navigator.root

def keep : Option Place → SessionM (Errand.State σ μ Chain) (Option (Nat × Spot))
  | none => return none
  | some place => pack fun luggage =>
    (some (luggage.found.length + 1, place.toSpot), { luggage with found := luggage.found ++ [place] })

def remember (action : StateM μ α) : SessionM (Errand.State σ μ Chain) α :=
  pack fun luggage =>
    let (result, memory) := action luggage.memory
    (result, { luggage with memory })

end SessionM

variable {R : σ → σ → Prop}

def Errand.run (host : Host σ Subject Chain) :
    Errand R μ Subject Chain → SessionM (Errand.State σ μ Chain) Unit
  | .done outcome => fun s => (outcome, s)
  | .describe handle next => do (next (← SessionM.placeOf handle).toSpot).run host
  | .same handle other next => do
    let place ← SessionM.placeOf handle
    (next (place.id == (← SessionM.placeOf other).id)).run host
  | .go handle way next => do
    let place ← SessionM.placeOf handle
    (next (← SessionM.keep (← SessionM.navigate (Nav.take place way)))).run host
  | .list style next => do (next (← SessionM.navigate (Nav.listing style))).run host
  | .resolve handle name next => do
    let place ← SessionM.placeOf handle
    let meaning ← SessionM.resolve (host.equipped μ) place name
    (next (meaning.map Meaning.unnumbered)).run host
  | .resolveAmong handle name names next => do
    let place ← SessionM.placeOf handle
    let meaning ← SessionM.navigate (Nav.resolve place name names)
    (next (meaning.map Meaning.unnumbered)).run host
  | .call handle name args next => do
    let place ← SessionM.placeOf handle
    (next (← (SessionM.call (host.equipped μ) place name args).attempt)).run host
  | .callOn chain name args next => do
    (next (← (SessionM.callOn (host.equipped μ) chain name args).attempt)).run host
  | .query path options next => do
    (next (← (SessionM.query (host.equipped μ) path options).attempt)).run host
  | .look next => do (next (← get).scopes).run host
  | .enter path next => do (next (← SessionM.hold path)).run host
  | .drop guard next => do
    SessionM.drop guard
    next.run host
  | .askHost action _ next => do
    (next (← SessionM.askHost (carry (carry (carry action))))).run host
  | .remember action next => do (next (← SessionM.remember action)).run host
  | .within handle options body next => do
    let place ← SessionM.placeOf handle
    let outcome ← (SessionM.within (host.equipped μ) place options fun subject =>
      (body subject).run host).attempt
    (next outcome).run host

/-! ## What is seen of a run -/

namespace Errand

/-- What a run shows, apart from how the navigator counts. -/
structure Report (μ Chain : Type) where
  outcome : Except Error Unit
  /-- What the host was asked for, but for the names of its operations. -/
  requests : List (Request Chain)
  scopes : Scopes
  found : List Spot
  memory : μ

end Errand

def Request.isForNames : Request Chain → Bool
  | .operationNames => true
  | _ => false

/-- The requests that are not for the names of the operations. -/
def dispatched (requests : List (Request Chain)) : List (Request Chain) :=
  requests.filter (!·.isForNames)

namespace Errand

variable (host : Host σ Subject Chain) (errand : Errand R μ Subject Chain)
  (n : Navigator) (state : σ) (memory : μ)

def start : Session (State σ μ Chain) where
  navigator := n
  host := (((state, []), { memory }), [])

def navigatorAfter : Navigator :=
  (errand.run host (start n state memory)).2.navigator

def report : Report μ Chain :=
  let ended := errand.run host (start n state memory)
  { outcome := ended.1
    requests := dispatched ended.2.host.1.1.2
    scopes := ended.2.scopes
    found := ended.2.host.1.2.found.map Place.toSpot
    memory := ended.2.host.1.2.memory }

end Errand

end PageNav
