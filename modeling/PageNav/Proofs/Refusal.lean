import PageNav.Proofs.Agreement
import PageNav.Proofs.Meanings
import PageNav.Proofs.Subject

/-!
# When operations are refused

An operation is refused before its host is asked for anything but the names of its operations, and the
name and the place alone decide on it. Otherwise the place is looked up once, and what follows is asked
for once if the place was found.
-/

namespace PageNav

open SessionM

variable {σ Subject Chain : Type}

/-! ## Why a name is refused -/

/-- Why a name means no operation of the host at a place. -/
inductive NoOperation (names : OperationNames) (place : Place) (name : String) : Error → Prop where
  | unknown : names.contains name = false →
      NoOperation names place name (.unknownOperation name place.path)
  /-- The place is the root or gives the name a meaning itself. -/
  | shadowed : names.contains name = true → place.isElement = false ∨ place.Owns name →
      NoOperation names place name (.shadowedOperation name place.path)

/-- Why a name cannot be called at a place, if `scoping` is the operation that scopes to places. -/
inductive NotCalled (names : OperationNames) (scoping : String) (place : Place) (name : String) :
    Error → Prop where
  | noOperation {e : Error} : NoOperation names place name e → NotCalled names scoping place name e
  | scopes : names.contains name = true → place.isElement = true → ¬ place.Owns name →
      name = scoping → NotCalled names scoping place name (.scopingOperation name)

section
variable {names : OperationNames} {scoping : String} {place : Place} {name : String} {e : Error}

theorem noOperation_or_dispatches (names : OperationNames) (place : Place) (name : String) :
    (∃ e, NoOperation names place name e) ∨ Dispatches names place name := by
  by_cases offered : names.contains name = true
  · by_cases shadowed : place.isElement = false ∨ place.Owns name
    · exact .inl ⟨_, .shadowed offered shadowed⟩
    · rw [not_or, Bool.not_eq_false, ← Spot.defines_iff, Bool.not_eq_true] at shadowed
      exact .inr ⟨shadowed.1, offered, shadowed.2⟩
  · exact .inl ⟨_, .unknown (Bool.not_eq_true _ ▸ offered)⟩

theorem Dispatches.not_owned (h : Dispatches names place name) : ¬ place.Owns name := by
  rw [← Spot.defines_iff, h.free]
  simp

theorem Dispatches.not_noOperation (h : Dispatches names place name) :
    ¬ NoOperation names place name e := by
  rintro (unknown | ⟨-, root | owned⟩)
  · exact absurd h.offered (by simp [unknown])
  · exact absurd h.element (by simp [root])
  · exact h.not_owned owned

theorem notCalled_or_dispatches (names : OperationNames) (scoping : String) (place : Place)
    (name : String) :
    (∃ e, NotCalled names scoping place name e) ∨ (Dispatches names place name ∧ name ≠ scoping) := by
  rcases noOperation_or_dispatches names place name with ⟨e, h⟩ | h
  · exact .inl ⟨e, .noOperation h⟩
  · by_cases hname : name = scoping
    · exact .inl ⟨_, .scopes h.offered h.element h.not_owned hname⟩
    · exact .inr ⟨h, hname⟩

theorem NoOperation.resolve_ne (h : NoOperation names place name e) (n : Navigator)
    (op : Operation) : (Nav.resolve place name names n).1 ≠ some (.operation op) := by
  by_cases owned : place.Owns name
  · rw [Nav.resolve_of_owned owned]
    intro hop
    rcases Nav.ownMeaning_cases hop with ⟨_, _, h⟩ | ⟨_, _, h⟩ | h <;> exact absurd h (by simp)
  · have hnot : ¬ (place.isElement && names.contains name) = true := by
      rcases h with unknown | ⟨-, root | own⟩
      · simp [unknown]
      · simp [root]
      · exact absurd own owned
    rw [Nav.resolve_of_not_owned owned, if_neg hnot]
    simp

end

/-! ## What a host is asked for -/

theorem dispatched_append (requests : List (Request Chain)) {request : Request Chain}
    (h : request.isForNames = false) :
    dispatched (requests ++ [request]) = dispatched requests ++ [request] := by
  simp [dispatched, h]

theorem isForNames_of_isLookUp {request : Request Chain} (h : request.isLookUp = true) :
    request.isForNames = false := by
  cases request with
  | query | scopedSubject => rfl
  | operationNames | call | within => exact absurd h (by simp [Request.isLookUp])

/-- What a host answers in a state to a request for a chain, and the state after it. -/
inductive Host.Answers (host : Host σ Subject Chain) (state : σ) :
    Request Chain → Except Error Chain × σ → Prop where
  | query (selector : String) (options : QueryOptions) :
      Answers host state (.query selector options) (host.query selector options state)
  | scopedSubject : Answers host state .scopedSubject (host.scopedSubject state)
  | call (chain : Chain) (c : Call) : Answers host state (.call chain c) (host.call chain c state)

/-- Whether a host fails with messages of its own only. -/
def Host.FailsByMessage (host : Host σ Subject Chain) : Prop :=
  ∀ state request answer e, host.Answers state request answer → answer.1 = .error e →
    ∃ message, e = .host message

/-- Whether a session, which its host keeps a record of, ended in an error when the host had been asked
for the names of its operations at most. -/
structure TurnedAway (host : Host σ Subject Chain) (s : Session σ)
    (after : Except Error Chain × Session (σ × List (Request Chain))) (e : Error) : Prop where
  outcome : after.1 = .error e
  requests : dispatched after.2.host.2 = []
  host : after.2.host.1 = (s.named host).host
  scopes : after.2.scopes = s.scopes

theorem Session.named_recording (host : Host σ Subject Chain) (s : Session σ) :
    let t := (s.carrying ([] : List (Request Chain))).named host.recording
    t.host.1 = (s.named host).host ∧ dispatched t.host.2 = [] ∧ t.scopes = s.scopes := by
  unfold Session.named Session.carrying
  cases s.navigator.operations <;> exact ⟨rfl, rfl, rfl⟩

namespace SessionM

/-! ## Operations -/

section
variable {host : Host σ Subject Chain} {place : Place} {name : String} {args : List Json}
  {s : Session σ} {e : Error}

theorem operation_refused (h : NoOperation (s.names host) place name e) :
    ∃ n, operation host place name s = (.error e, { s.named host with navigator := n }) := by
  rw [operation_bind, bind_apply, operations_apply]
  simp only
  rw [bind_apply, navigate_apply]
  simp only
  rw [operationOf_other (h.resolve_ne (s.named host).navigator)]
  cases h with
  | unknown unknown => exact ⟨_, by rw [unknown]; rfl⟩
  | shadowed offered _ => exact ⟨_, by rw [offered]; rfl⟩

theorem call_refused (h : NoOperation (s.names host) place name e) :
    ∃ n, call host place name args s = (.error e, { s.named host with navigator := n }) := by
  obtain ⟨n, hn⟩ := operation_refused h
  exact ⟨n, by rw [call, bind_apply, hn]⟩

theorem call_scoping (h : Dispatches (s.names host) place name)
    (hname : name = s.navigator.settings.scopingOperation) :
    call host place name args s = (.error (.scopingOperation name), s.named host) := by
  have hscoping : (name == s.navigator.settings.scopingOperation) = true := beq_iff_eq.mpr hname
  rw [call, bind_apply, operation_apply h]
  simp only [hscoping, if_true]
  rfl

theorem call_dispatched (h : Dispatches (s.names host) place name)
    (hname : name ≠ s.navigator.settings.scopingOperation) :
    call host place name args s =
      match (lookUp host place (s.named host)).1 with
      | .ok chain => tryHost (host.call chain ⟨name, args⟩) (lookUp host place (s.named host)).2
      | .error e => (.error e, (lookUp host place (s.named host)).2) := by
  have hscoping : (name == s.navigator.settings.scopingOperation) = false := by simpa using hname
  rw [call, bind_apply, operation_apply h]
  simp only [hscoping, Bool.false_eq_true, if_false]
  refine (bind_apply _ _ _).trans ?_
  cases (lookUp host place (s.named host)).1 <;> rfl

end

theorem lookUp_answers (host : Host σ Subject Chain) (place : Place)
    (t : Session (σ × List (Request Chain))) :
    ∃ request answer, request.isLookUp = true ∧ host.Answers t.host.1 request answer ∧
      lookUp host.recording place t =
        (answer.1, { t with host := (answer.2, t.host.2 ++ [request]) }) := by
  unfold lookUp
  rw [bind_apply, get_apply]
  simp only
  split
  · exact ⟨.scopedSubject, _, rfl, .scopedSubject, tryHost_apply _ t⟩
  · exact ⟨_, _, rfl, .query _ _, tryHost_apply _ t⟩

theorem lookUp_named (host : Host σ Subject Chain) (place : Place) (s : Session σ) :
    let t := (s.carrying []).named host.recording
    ∃ request answer requests, request.isLookUp = true ∧
      host.Answers (s.named host).host request answer ∧ dispatched requests = [request] ∧
      lookUp host.recording place t = (answer.1, { t with host := (answer.2, requests) }) := by
  intro t
  obtain ⟨hhost, hrequests, -⟩ := s.named_recording host
  obtain ⟨request, answer, hlookUp, hanswer, hfound⟩ := lookUp_answers host place t
  refine ⟨request, answer, _, hlookUp, hhost ▸ hanswer, ?_, hfound⟩
  rw [dispatched_append _ (isForNames_of_isLookUp hlookUp), hrequests, List.nil_append]

end SessionM

/-! ## Turned away or looked up -/

/-- Whether a host was asked for one look-up, when the names were known. What was done ended there if
the look-up failed, and else `next` holds of the request, the chain and the state after it. -/
def LooksUpOnce (host : Host σ Subject Chain) (s : Session σ)
    (after : Except Error Chain × Session (σ × List (Request Chain)))
    (next : Request Chain → Chain → σ → Prop) : Prop :=
  ∃ request answer, request.isLookUp = true ∧ host.Answers (s.named host).host request answer ∧
    (∀ e, answer.1 = .error e → after.1 = .error e ∧ dispatched after.2.host.2 = [request]) ∧
    ∀ chain, answer.1 = .ok chain → next request chain answer.2

section
variable {host : Host σ Subject Chain} {s : Session σ}
  {after : Except Error Chain × Session (σ × List (Request Chain))}

theorem LooksUpOnce.imp {next next' : Request Chain → Chain → σ → Prop}
    (h : LooksUpOnce host s after next)
    (hnext : ∀ request chain state, next request chain state → next' request chain state) :
    LooksUpOnce host s after next' := by
  obtain ⟨request, answer, hlookUp, hanswer, hfailed, hfound⟩ := h
  exact ⟨request, answer, hlookUp, hanswer, hfailed,
    fun chain hchain => hnext _ _ _ (hfound chain hchain)⟩

theorem LooksUpOnce.asked {next : Request Chain → Chain → σ → Prop}
    (h : LooksUpOnce host s after next)
    (hnext : ∀ request chain state, next request chain state → dispatched after.2.host.2 ≠ []) :
    dispatched after.2.host.2 ≠ [] := by
  obtain ⟨request, ⟨outcome, state⟩, -, -, hfailed, hfound⟩ := h
  cases outcome with
  | error e => simp [(hfailed e rfl).2]
  | ok chain => exact hnext request chain state (hfound chain rfl)

theorem turnedAway_iff {P : Error → Prop} (away : ∀ e, P e → TurnedAway host s after e)
    (asked : (∃ e, P e) ∨ dispatched after.2.host.2 ≠ []) (e : Error) :
    TurnedAway host s after e ↔ P e := by
  refine ⟨fun h => ?_, away e⟩
  -- Who is turned away asked for nothing, so some reason holds, and a session ends in one error.
  rcases asked with ⟨e', h'⟩ | hasked
  · have hsame := h.outcome.symm.trans (away e' h').outcome
    rwa [Except.error.inj hsame]
  · exact absurd h.requests hasked

theorem Session.names_recording (host : Host σ Subject Chain) (s : Session σ) :
    (s.carrying ([] : List (Request Chain))).names host.recording = s.names host := by
  unfold Session.names
  rfl

theorem turnedAway_of_named {e : Error} {n : Navigator}
    (h : after = (.error e, { (s.carrying []).named host.recording with navigator := n })) :
    TurnedAway host s after e := by
  obtain ⟨hhost, hrequests, hscopes⟩ := s.named_recording host
  subst h
  exact ⟨rfl, hrequests, hhost, hscopes⟩

end

namespace SessionM

section
variable {host : Host σ Subject Chain} {s : Session σ} {place : Place} {name : String}
  {args : List Json}

theorem call_turnedAway {e : Error}
    (h : NotCalled (s.names host) s.navigator.settings.scopingOperation place name e) :
    TurnedAway host s (call host.recording place name args (s.carrying [])) e := by
  rw [← s.names_recording host] at h
  cases h with
  | noOperation h =>
    obtain ⟨n, hn⟩ := call_refused h
    exact turnedAway_of_named hn
  | scopes offered element owned hname =>
    have free : place.defines name = false := by
      rw [← Bool.not_eq_true, Spot.defines_iff]
      exact owned
    exact turnedAway_of_named (call_scoping ⟨element, offered, free⟩ hname)

theorem call_looksUpOnce (h : Dispatches (s.names host) place name)
    (hname : name ≠ s.navigator.settings.scopingOperation) :
    let after := call host.recording place name args (s.carrying [])
    LooksUpOnce host s after fun request chain state =>
      dispatched after.2.host.2 = [request, .call chain ⟨name, args⟩] ∧
        after.1 = (host.call chain ⟨name, args⟩ state).1 := by
  intro after
  obtain ⟨request, answer, requests, hlookUp, hanswer, hasked, hfound⟩ := lookUp_named host place s
  have hafter : after = _ := call_dispatched (s.names_recording host ▸ h) hname
  rw [hfound] at hafter
  refine ⟨request, answer, hlookUp, hanswer, ?_, ?_⟩
  · intro e he
    simp only [he] at hafter
    rw [hafter]
    exact ⟨rfl, hasked⟩
  · intro chain hchain
    simp only [hchain, tryHost_apply] at hafter
    rw [hafter]
    refine ⟨?_, rfl⟩
    exact (dispatched_append _ rfl).trans (congrArg (· ++ [.call chain ⟨name, args⟩]) hasked)

theorem call_turnedAway_iff {e : Error} :
    TurnedAway host s (call host.recording place name args (s.carrying [])) e ↔
      NotCalled (s.names host) s.navigator.settings.scopingOperation place name e := by
  refine turnedAway_iff (fun _ => call_turnedAway) ?_ e
  rcases notCalled_or_dispatches (s.names host) s.navigator.settings.scopingOperation place name
    with refused | ⟨h, hname⟩
  · exact .inl refused
  · refine .inr ((call_looksUpOnce h hname).asked ?_)
    intro request chain state hnext
    simp [hnext.1]

/-- A host that fails with messages of its own only never ends a call in the error of a refusal. -/
theorem call_error_iff (messages : host.FailsByMessage) {e : Error}
    (other : ∀ message, e ≠ .host message) :
    (call host.recording place name args (s.carrying [])).1 = .error e ↔
      NotCalled (s.names host) s.navigator.settings.scopingOperation place name e := by
  refine ⟨fun houtcome => ?_, fun refused => (call_turnedAway refused).outcome⟩
  rcases notCalled_or_dispatches (s.names host) s.navigator.settings.scopingOperation place name
    with ⟨e', refused⟩ | ⟨h, hname⟩
  · have hsame := houtcome.symm.trans (call_turnedAway refused).outcome
    rwa [Except.error.inj hsame]
  · obtain ⟨request, ⟨found, state⟩, -, hanswer, hfailed, hfound⟩ :=
      (call_looksUpOnce h hname : LooksUpOnce host s (call host.recording place name args _) _)
    -- The error is that of the look-up or that of the operation itself.
    obtain ⟨state', request', answer', hanswer', hcause⟩ : ∃ state' request' answer',
        host.Answers state' request' answer' ∧ answer'.1 = .error e := by
      cases found with
      | error e' => exact ⟨_, _, _, hanswer, ((hfailed e' rfl).1.symm.trans houtcome)⟩
      | ok chain => exact ⟨_, _, _, .call chain _, ((hfound chain rfl).2.symm.trans houtcome)⟩
    obtain ⟨message, hmessage⟩ := messages state' request' answer' e hanswer' hcause
    exact absurd hmessage (other message)

end

/-! ## Scopes -/

/-- Whether all that was asked for after some requests was asked for by a body: what the body keeps of
the requests is kept. -/
def AskedByBody (body : Subject → SessionM (σ × List (Request Chain)) Unit)
    (before after : List (Request Chain)) : Prop :=
  ∀ P : List (Request Chain) → Prop,
    (∀ subject, Keeps (fun _ state => P (dispatched state.2)) (body subject)) → P before → P after

section
variable {host : Host σ Subject Chain} {s : Session σ} {place : Place} {options : QueryOptions}
  {body : Subject → SessionM (σ × List (Request Chain)) Unit}

theorem within_turnedAway {e : Error}
    (h : NoOperation (s.names host) place s.navigator.settings.scopingOperation e) :
    TurnedAway host s (within host.recording place options body (s.carrying [])) e := by
  let t : Session (σ × List (Request Chain)) := s.carrying []
  rw [← s.names_recording host] at h
  obtain ⟨n, hn⟩ := operation_refused h
  have hop : (operation host.recording place t.navigator.settings.scopingOperation t).1 = .error e :=
    congrArg Prod.fst hn
  have hasked : asked host.recording place t = _ := congrArg Prod.snd hn
  exact turnedAway_of_named ((within_refused hop).trans (congrArg (Prod.mk _) hasked))

theorem within_looksUpOnce
    (h : Dispatches (s.names host) place s.navigator.settings.scopingOperation) :
    let after := within host.recording place options body (s.carrying [])
    LooksUpOnce host s after fun request chain _ =>
      AskedByBody body [request, .within chain options] (dispatched after.2.host.2) := by
  intro after
  let t : Session (σ × List (Request Chain)) := s.carrying []
  obtain ⟨request, answer, requests, hlookUp, hanswer, hrequests, hfound⟩ := lookUp_named host place s
  rw [← s.names_recording host] at h
  have hop := operation_apply h
  have hasked : asked host.recording place t = t.named host.recording := congrArg Prod.snd hop
  have htarget : target host.recording place t = _ := (congrArg _ hasked).trans hfound
  have hafter : after = _ := within_accepted (congrArg Prod.fst hop)
  rw [htarget] at hafter
  refine ⟨request, answer, hlookUp, hanswer, ?_, ?_⟩
  · intro e he
    simp only [he] at hafter
    rw [hafter]
    exact ⟨rfl, hrequests⟩
  · intro chain hchain
    simp only [hchain] at hafter
    rw [hafter]
    intro P hbody h
    -- The host is asked to scope, and from then on only the body asks for anything.
    have hscoped : P (dispatched (requests ++ [.within chain options])) := by
      rw [dispatched_append _ rfl, hrequests]
      exact h
    exact conduct_keeps (s := entered host.recording place t) hbody
      (Scoping.carrying_keeps (P := fun _ requests => P (dispatched requests))
        (host.within chain options answer.2) hscoped)

theorem AskedByBody.first {before after : List (Request Chain)} (h : AskedByBody body before after)
    (keeps : ∀ before subject, Keeps (fun _ state => before <+: state.2) (body subject)) :
    before <+: after := by
  refine h (before <+: ·) ?_ List.prefix_rfl
  intro subject s hbefore
  have hgrown := keeps s.host.2 subject s List.prefix_rfl
  exact hbefore.trans (hgrown.filter _)

theorem within_turnedAway_iff {e : Error}
    (keeps : ∀ before subject, Keeps (fun _ state => before <+: state.2) (body subject)) :
    TurnedAway host s (within host.recording place options body (s.carrying [])) e ↔
      NoOperation (s.names host) place s.navigator.settings.scopingOperation e := by
  refine turnedAway_iff (fun _ => within_turnedAway) ?_ e
  rcases noOperation_or_dispatches (s.names host) place s.navigator.settings.scopingOperation
    with refused | h
  · exact .inl refused
  · refine .inr ((within_looksUpOnce h).asked ?_)
    intro request chain state hasked hnone
    exact absurd (hnone ▸ hasked.first keeps) (by simp)

end

end SessionM

/-! ## Refused or dispatched -/

/-- Calls and scopes that no operation allows end before the host is asked for anything but names.
All others look the place up once, and are asked for once if the place was found. That a host or a
body may itself end in the same errors is ruled out by what was asked for, and for calls also if the
host fails with messages of its own only. -/
theorem refused_or_looked_up_once (host : Host σ Subject Chain) (s : Session σ) (place : Place) :
    let names := s.names host
    let scoping := s.navigator.settings.scopingOperation
    (∀ name args,
      let after := call host.recording place name args (s.carrying [])
      (∀ e, TurnedAway host s after e ↔ NotCalled names scoping place name e) ∧
      (host.FailsByMessage → ∀ e, (∀ message, e ≠ .host message) →
        (after.1 = .error e ↔ NotCalled names scoping place name e)) ∧
      ((∀ e, ¬ NotCalled names scoping place name e) →
        LooksUpOnce host s after fun request chain state =>
          dispatched after.2.host.2 = [request, .call chain ⟨name, args⟩] ∧
            after.1 = (host.call chain ⟨name, args⟩ state).1)) ∧
    ∀ options body,
      (∀ before subject, Keeps (fun _ state => before <+: state.2) (body subject)) →
      let after := within host.recording place options body (s.carrying [])
      (∀ e, TurnedAway host s after e ↔ NoOperation names place scoping e) ∧
      ((∀ e, ¬ NoOperation names place scoping e) →
        LooksUpOnce host s after fun request chain _ =>
          [request, .within chain options] <+: dispatched after.2.host.2 ∧
            AskedByBody body [request, .within chain options] (dispatched after.2.host.2)) := by
  intro names scoping
  constructor
  · intro name args after
    refine ⟨fun e => call_turnedAway_iff, fun messages e => call_error_iff messages, ?_⟩
    intro allowed
    obtain ⟨h, hname⟩ := (notCalled_or_dispatches names scoping place name).resolve_left
      (not_exists.mpr allowed)
    exact call_looksUpOnce h hname
  · intro options body keeps after
    refine ⟨fun e => within_turnedAway_iff keeps, ?_⟩
    intro allowed
    have h := (noOperation_or_dispatches names place scoping).resolve_left (not_exists.mpr allowed)
    exact (within_looksUpOnce h).imp fun request chain state asked => ⟨asked.first keeps, asked⟩

theorem eagerHost_answers {state : Unit} {request : Request Unit} {answer : Except Error Unit × Unit}
    (h : eagerHost.Answers state request answer) : answer.1 = .ok () := by
  cases h <;> rfl

def menuPage : Schema :=
  .branch "menu" (.leaf "click" .nil) .nil

/-- A menu cannot be clicked as that is the name of its entry. The entry can be, and the menu can be
scoped to, but not as a call. -/
theorem click_at_menu_and_below :
    let menu : Place := ⟨⟨"menu", some (.leaf "click" .plain)⟩, ⟨1⟩⟩
    let entry : Place := ⟨⟨"menu click", none⟩, ⟨2⟩⟩
    let s : Session Unit := { navigator := .ofSchema menuPage {}, host := () }
    TurnedAway eagerHost s (call eagerHost.recording menu "click" [] (s.carrying []))
      (.shadowedOperation "click" "menu") ∧
    TurnedAway eagerHost s (call eagerHost.recording menu "within" [] (s.carrying []))
      (.scopingOperation "within") ∧
    (call eagerHost.recording menu "fly" [] (s.carrying [])).1 =
      .error (.unknownOperation "fly" "menu") ∧
    (∃ request, dispatched (call eagerHost.recording entry "click" [] (s.carrying [])).2.host.2 =
      [request, .call () ⟨"click", []⟩]) ∧
    ∃ request, dispatched
      (within eagerHost.recording menu {} (fun _ => pure ()) (s.carrying [])).2.host.2 =
        [request, .within () {}] := by
  intro menu entry s
  have hnames : s.names eagerHost = .ofList ["click", "within"] := by
    rw [Session.names, show s.navigator.operations = none from rfl]
    rfl
  have hscoping : s.navigator.settings.scopingOperation = "within" := rfl
  -- Nothing else is needed of the session, which is kept from being unfolded.
  clear_value s
  obtain ⟨hcalls, hscopes⟩ := refused_or_looked_up_once eagerHost s menu
  obtain ⟨hentry, -⟩ := refused_or_looked_up_once eagerHost s entry
  simp only [hnames, hscoping] at hcalls hscopes hentry
  have messages : eagerHost.FailsByMessage := by
    intro state request answer e h he
    rw [eagerHost_answers h] at he
    exact absurd he (by simp)
  refine ⟨?_, ?_, ?_, ?_, ?_⟩
  · refine ((hcalls "click" []).1 _).mpr (.noOperation (.shadowed (by decide) (.inr ?_)))
    exact .inl (by decide)
  · refine ((hcalls "within" []).1 _).mpr (.scopes (by decide) rfl ?_ rfl)
    rw [← Spot.defines_iff]
    decide
  · exact ((hcalls "fly" []).2.1 messages _ (by simp)).mpr (.noOperation (.unknown (by decide)))
  · have dispatches : Dispatches (.ofList ["click", "within"]) entry "click" :=
      ⟨rfl, by decide, by decide⟩
    obtain ⟨request, answer, -, hanswer, -, hcalled⟩ := (hentry "click" []).2.2 fun e refused => by
      rcases refused with noOperation | ⟨-, -, -, hname⟩
      · exact dispatches.not_noOperation noOperation
      · exact absurd hname (by decide)
    exact ⟨request, (hcalled () (eagerHost_answers hanswer)).1⟩
  · have dispatches : Dispatches (.ofList ["click", "within"]) menu "within" :=
      ⟨rfl, by decide, by decide⟩
    obtain ⟨request, answer, -, hanswer, -, hscoped⟩ :=
      (hscopes {} (fun _ => pure ()) fun _ _ => keeps_pure ()).2 fun e => dispatches.not_noOperation
    obtain ⟨-, hasked⟩ := hscoped () (eagerHost_answers hanswer)
    exact ⟨request, hasked (· = _) (fun _ => keeps_pure ()) rfl⟩

end PageNav
