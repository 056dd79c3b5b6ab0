import PageNav.Session.Basic

/-!
# Invariants of sessions

What a host keeps to when it is asked for something, a session keeps to in whatever it does.
-/

namespace PageNav

variable {σ ε Subject Chain α β : Type}

/-! ## Hosts that keep an invariant -/

/-- Whether the invariant holds in every state that the host gives back, if it holds in every state
that the host gets and the body keeps it. -/
def Scoping.Keeps (I : Scopes → σ → Prop) (scopes : Scopes) : Scoping σ Subject Chain → Prop
  | .done _ host => I scopes host
  | .body _ host next => I scopes host ∧
    ∀ outcome after state, I after state → (next outcome state).Keeps I after

/-- Whether nothing that the host is asked for breaks the invariant. -/
structure Host.Keeps (host : Host σ Subject Chain) (I : Scopes → σ → Prop) : Prop where
  operationNames : ∀ {scopes state}, I scopes state → I scopes (host.operationNames state).2
  query : ∀ selector options {scopes state}, I scopes state →
    I scopes (host.query selector options state).2
  scopedSubject : ∀ {scopes state}, I scopes state → I scopes (host.scopedSubject state).2
  call : ∀ chain c {scopes state}, I scopes state → I scopes (host.call chain c state).2
  within : ∀ chain options {scopes state}, I scopes state →
    (host.within chain options state).Keeps I scopes

namespace SessionM

theorem bind_apply (action : SessionM σ α) (next : α → SessionM σ β) (s : Session σ) :
    (action >>= next) s =
      match (action s).1 with
      | .ok a => next a (action s).2
      | .error e => (.error e, (action s).2) := by
  simp only [bind, ExceptT.bind, ExceptT.mk, ExceptT.bindCont, StateT.bind]
  obtain ⟨_ | _, t⟩ := action s <;> rfl

theorem get_apply (s : Session σ) : (get : SessionM σ (Session σ)) s = (.ok s, s) :=
  rfl

theorem navigate_apply (action : Nav α) (s : Session σ) :
    navigate action s =
      (.ok (action s.navigator).1, { s with navigator := (action s.navigator).2 }) :=
  rfl

theorem askHost_apply (action : StateM σ α) (s : Session σ) :
    askHost action s = (.ok (action s.host).1, { s with host := (action s.host).2 }) :=
  rfl

theorem tryHost_apply (action : ExceptT Error (StateM σ) α) (s : Session σ) :
    tryHost action s = ((action s.host).1, { s with host := (action s.host).2 }) := by
  unfold tryHost
  rw [bind_apply, askHost_apply, ExceptT.run]
  cases (action s.host).1 <;> rfl

/-! ## Actions that keep an invariant -/

/-- Whether the invariant still holds after the action, however that ends. -/
def Keeps (I : Scopes → σ → Prop) (action : SessionM σ α) : Prop :=
  ∀ s, I s.scopes s.host → I (action s).2.scopes (action s).2.host

section
variable {I : Scopes → σ → Prop}

theorem keeps_pure (a : α) : Keeps I (pure a) :=
  fun _ h => h

theorem keeps_throw (e : Error) : Keeps I (throw e : SessionM σ α) :=
  fun _ h => h

theorem keeps_get : Keeps I (get : SessionM σ (Session σ)) :=
  fun _ h => h

theorem keeps_bind {action : SessionM σ α} {next : α → SessionM σ β} (haction : Keeps I action)
    (hnext : ∀ a, Keeps I (next a)) : Keeps I (action >>= next) := by
  intro s h
  have hfirst := haction s h
  rw [bind_apply]
  cases (action s).1 with
  | ok a => exact hnext a _ hfirst
  | error e => exact hfirst

theorem keeps_navigate (action : Nav α) : Keeps I (navigate action : SessionM σ α) :=
  fun _ h => h

theorem keeps_askHost {action : StateM σ α}
    (h : ∀ {scopes state}, I scopes state → I scopes (action state).2) : Keeps I (askHost action) :=
  fun _ hs => h hs

theorem keeps_tryHost {action : ExceptT Error (StateM σ) α}
    (h : ∀ {scopes state}, I scopes state → I scopes (action state).2) :
    Keeps I (tryHost action) := by
  intro s hs
  rw [tryHost_apply]
  exact h hs

variable {host : Host σ Subject Chain} (keeps : host.Keeps I)
include keeps

theorem keeps_operations : Keeps I (operations host) := by
  refine keeps_bind keeps_get ?_
  intro s
  cases s.navigator.operations with
  | some names => exact keeps_pure names
  | none => exact keeps_bind (keeps_askHost keeps.operationNames) fun _ => fun _ h => h

theorem keeps_operation (place : Place) (name : String) : Keeps I (operation host place name) := by
  refine keeps_bind (keeps_operations keeps) ?_
  intro names
  refine keeps_bind (keeps_navigate (Nav.resolve place name names)) ?_
  intro meaning
  split
  · exact keeps_pure _
  · split <;> exact keeps_throw _

theorem keeps_lookUp (place : Place) : Keeps I (lookUp host place) := by
  refine keeps_bind keeps_get ?_
  intro s
  simp only
  split
  · exact keeps_tryHost keeps.scopedSubject
  · exact keeps_tryHost (keeps.query _ {})

theorem keeps_callOn (chain : Chain) (name : String) (args : List Json) :
    Keeps I (callOn host chain name args) :=
  keeps_tryHost (keeps.call chain ⟨name, args⟩)

theorem keeps_call (place : Place) (name : String) (args : List Json) :
    Keeps I (call host place name args) := by
  refine keeps_bind (keeps_operation keeps place name) ?_
  intro operation
  split
  · exact keeps_throw _
  · exact keeps_bind (keeps_lookUp keeps place) fun chain => keeps_callOn keeps chain name args

omit keeps in
/-- A host keeps what its bodies keep, however often it runs them. -/
theorem conduct_keeps {body : Subject → SessionM σ Unit} (hbody : ∀ subject, Keeps I (body subject))
    {tree : Scoping σ Subject Chain} {s : Session σ} (h : tree.Keeps I s.scopes) :
    I (conduct body tree s).2.scopes (conduct body tree s).2.host := by
  induction tree generalizing s with
  | done outcome host => cases outcome <;> exact h
  | body subject host next ih =>
    have hrun := hbody subject { s with host } h.1
    exact ih _ _ (h.2 _ _ _ hrun)

end

/-! ## Scoping to a place -/

/-- The session after the scoping operation was found or refused. -/
def asked (host : Host σ Subject Chain) (place : Place) (s : Session σ) : Session σ :=
  (operation host place s.navigator.settings.scopingOperation s).2

/-- What came of the look-up of the place, and the session after it. -/
def target (host : Host σ Subject Chain) (place : Place) (s : Session σ) :
    Except Error Chain × Session σ :=
  lookUp host place (asked host place s)

def entered (host : Host σ Subject Chain) (place : Place) (s : Session σ) : Session σ :=
  { (target host place s).2 with scopes := (target host place s).2.scopes.enter place.path }

section
variable {host : Host σ Subject Chain} {place : Place} {options : QueryOptions}
  {body : Subject → SessionM σ Unit} {s : Session σ}

theorem within_refused {e : Error}
    (hop : (operation host place s.navigator.settings.scopingOperation s).1 = .error e) :
    within host place options body s = (.error e, asked host place s) := by
  unfold within
  rw [bind_apply]
  change (operation host place s.navigator.settings.scopingOperation >>= _) s = _
  rw [bind_apply, hop]
  rfl

theorem within_accepted {op : Operation}
    (hop : (operation host place s.navigator.settings.scopingOperation s).1 = .ok op) :
    within host place options body s =
      match (target host place s).1 with
      | .error e => (.error e, (target host place s).2)
      | .ok chain =>
        let left := conduct body (host.within chain options (target host place s).2.host)
          (entered host place s)
        (left.1, { left.2 with
          scopes := left.2.scopes.leave ((target host place s).2.scopes.depth + 1) }) := by
  unfold within
  rw [bind_apply]
  change (operation host place s.navigator.settings.scopingOperation >>= _) s = _
  rw [bind_apply, hop]
  change (lookUp host place >>= _) (asked host place s) = _
  rw [bind_apply]
  unfold entered target
  cases (lookUp host place (asked host place s)).1 with
  | error e => rfl
  | ok chain =>
    rw [← Scopes.depth_enter _ place.path]
    rfl

end

section
variable {I : Scopes → σ → Prop} {host : Host σ Subject Chain} (keeps : host.Keeps I)
include keeps

theorem asked_keeps (place : Place) {s : Session σ} (h : I s.scopes s.host) :
    I (asked host place s).scopes (asked host place s).host :=
  keeps_operation keeps place s.navigator.settings.scopingOperation s h

theorem target_keeps (place : Place) {s : Session σ} (h : I s.scopes s.host) :
    I (target host place s).2.scopes (target host place s).2.host :=
  keeps_lookUp keeps place _ (asked_keeps keeps place h)

/-- An invariant that is not broken by entering and leaving a scope is kept inside the scope too. -/
theorem keeps_within (place : Place) (options : QueryOptions) {body : Subject → SessionM σ Unit}
    (henter : ∀ {scopes state}, I scopes state → I (scopes.enter place.path) state)
    (hleave : ∀ {before after : Scopes} {state state' : σ}, I before state → I after state' →
      I (after.leave (before.depth + 1)) state')
    (hbody : ∀ subject, Keeps I (body subject)) : Keeps I (within host place options body) := by
  intro s h
  have hfound := target_keeps keeps place h
  cases hop : (operation host place s.navigator.settings.scopingOperation s).1 with
  | error e => rw [within_refused hop]; exact asked_keeps keeps place h
  | ok op =>
    rw [within_accepted hop]
    cases (target host place s).1 with
    | error e => exact hfound
    | ok chain =>
      have htree := keeps.within chain options (henter hfound)
      exact hleave hfound (conduct_keeps hbody htree)

end

end SessionM

end PageNav
