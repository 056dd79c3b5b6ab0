import PageNav.Proofs.Alike

/-!
# Sessions that agree

Two sessions on navigators of one page do the same, as long as their hosts are in states that are
alike. What counts as alike is a parameter, which a host has to respect in all that it is asked for.
-/

namespace PageNav

variable {σ ε μ Subject Chain α β γ δ : Type} {offers : String → Prop} {N M : Navigator}

/-! ## Hosts in states that are alike -/

/-- Whether two scopings run the body on the same subjects and end alike, if the bodies do. -/
def Scoping.Alike (R : σ → σ → Prop) :
    Scoping σ Subject Chain → Scoping σ Subject Chain → Prop
  | .done outcome host, .done outcome' host' => outcome = outcome' ∧ R host host'
  | .body subject host next, .body subject' host' next' =>
    subject = subject' ∧ R host host' ∧
      ∀ outcome state state', R state state' → (next outcome state).Alike R (next' outcome state')
  | .done _ _, .body _ _ _ => False
  | .body _ _ _, .done _ _ => False

/-- Whether the host does the same in states that are alike, and whether states stay alike when it
is asked for the names of its operations in one of them only. -/
structure Host.Impartial (host : Host σ Subject Chain) (R : σ → σ → Prop) : Prop where
  namesLeft : ∀ s t, R s t → R (host.operationNames s).2 t
  namesRight : ∀ s t, R s t → R s (host.operationNames t).2
  query : ∀ selector options, Unaware R (host.query selector options).run
  scopedSubject : Unaware R host.scopedSubject.run
  call : ∀ chain c, Unaware R (host.call chain c).run
  within : ∀ chain options s t, R s t →
    (host.within chain options s).Alike R (host.within chain options t)

def Both (R : σ → σ → Prop) (E : ε → ε → Prop) (s t : σ × ε) : Prop :=
  R s.1 t.1 ∧ E s.2 t.2

section
variable {R : σ → σ → Prop} {E : ε → ε → Prop}

theorem unaware_carry {action : StateM σ α} (h : Unaware R action) :
    Unaware (Both R E) (carry action) := by
  intro s t hst
  obtain ⟨hresult, hstate⟩ := h s.1 t.1 hst.1
  exact ⟨hresult, hstate, hst.2⟩

theorem Scoping.Alike.carrying {tree tree' : Scoping σ Subject Chain} (h : tree.Alike R tree')
    {carried carried' : ε} (hcarried : E carried carried') :
    (tree.carrying carried).Alike (Both R E) (tree'.carrying carried') := by
  induction tree generalizing tree' carried carried' with
  | done outcome host =>
    cases tree' with
    | done outcome' host' => exact ⟨h.1, h.2, hcarried⟩
    | body subject' host' next' => exact h.elim
  | body subject host next ih =>
    cases tree' with
    | done outcome' host' => exact h.elim
    | body subject' host' next' =>
      obtain ⟨hsubject, hhost, hnext⟩ := h
      refine ⟨hsubject, ⟨hhost, hcarried⟩, ?_⟩
      exact fun outcome state state' hstate => ih _ _ (hnext outcome _ _ hstate.1) hstate.2

theorem Host.Impartial.carrying {host : Host σ Subject Chain} (h : host.Impartial R) :
    (host.carrying ε).Impartial (Both R E) where
  namesLeft s t hst := ⟨h.namesLeft s.1 t.1 hst.1, hst.2⟩
  namesRight s t hst := ⟨h.namesRight s.1 t.1 hst.1, hst.2⟩
  query selector options := unaware_carry (h.query selector options)
  scopedSubject := unaware_carry h.scopedSubject
  call chain c := unaware_carry (h.call chain c)
  within chain options s t hst := (h.within chain options s.1 t.1 hst.1).carrying hst.2

end

/-! ## Hosts that record -/

/-- Whether the same was asked for, but for the names of the operations. -/
def SameRequests (requests requests' : List (Request Chain)) : Prop :=
  dispatched requests = dispatched requests'

theorem SameRequests.append {requests requests' : List (Request Chain)}
    (h : SameRequests requests requests') (request : Request Chain) :
    SameRequests (requests ++ [request]) (requests' ++ [request]) := by
  unfold SameRequests dispatched at *
  rw [List.filter_append, List.filter_append, h]

theorem dispatched_names (requests : List (Request Chain)) :
    dispatched (requests ++ [.operationNames]) = dispatched requests := by
  simp [dispatched, Request.isForNames]

theorem unaware_record {R : σ → σ → Prop} {action : StateM σ α} (h : Unaware R action)
    (request : Request Chain) : Unaware (Both R SameRequests) (record request action) := by
  intro s t hst
  obtain ⟨hresult, hstate⟩ := h s.1 t.1 hst.1
  exact ⟨hresult, hstate, hst.2.append request⟩

theorem Host.Impartial.recording {host : Host σ Subject Chain} {R : σ → σ → Prop}
    (h : host.Impartial R) : host.recording.Impartial (Both R SameRequests) where
  namesLeft s t hst := ⟨h.namesLeft s.1 t.1 hst.1, (dispatched_names s.2).trans hst.2⟩
  namesRight s t hst := ⟨h.namesRight s.1 t.1 hst.1, hst.2.trans (dispatched_names t.2).symm⟩
  query selector options := unaware_record (h.query selector options) _
  scopedSubject := unaware_record h.scopedSubject _
  call chain c := unaware_record (h.call chain c) _
  within chain options s t hst :=
    (h.within chain options s.1 t.1 hst.1).carrying (hst.2.append (.within chain options))

/-! ## Actions that agree -/

/-- Sessions on navigators of one page, in the same scopes and with hosts in states that are alike. -/
structure Session.Alike (offers : String → Prop) (R : σ → σ → Prop) (s t : Session σ) : Prop where
  navigator : s.navigator.Alike offers t.navigator
  scopes : s.scopes = t.scopes
  host : R s.host t.host

/-- Results in the relation `V`, or the same error. -/
inductive Outcomes (V : α → β → Prop) : Except Error α → Except Error β → Prop where
  | ok {a : α} {b : β} : V a b → Outcomes V (.ok a) (.ok b)
  | error (e : Error) : Outcomes V (.error e) (.error e)

theorem outcomes_eq_iff {x y : Except Error α} : Outcomes Eq x y ↔ x = y := by
  constructor
  · rintro (⟨rfl⟩ | _) <;> rfl
  · rintro rfl
    cases x with
    | ok a => exact .ok rfl
    | error e => exact .error e

namespace SessionM

/-- Whether two actions of sessions that are alike leave them alike and end in the relation `V`. -/
structure Agree (offers : String → Prop) (N M : Navigator) (R : σ → σ → Prop) (V : α → β → Prop)
    (a : SessionM σ α) (b : SessionM σ β) : Prop where
  left : Moves offers a
  right : Moves offers b
  run : ∀ s t, s.Alike offers R t → (a s).2.navigator.EndsAs N → (b t).2.navigator.EndsAs M →
    Outcomes V (a s).1 (b t).1 ∧ (a s).2.Alike offers R (b t).2

variable {R : σ → σ → Prop} {V : α → β → Prop} {W : γ → δ → Prop}

theorem agree_pure {x : α} {y : β} (h : V x y) : Agree offers N M R V (pure x) (pure y) :=
  ⟨moves_pure x, moves_pure y, fun _ _ alike _ _ => ⟨.ok h, alike⟩⟩

theorem agree_throw (e : Error) : Agree offers N M R V (throw e) (throw e) :=
  ⟨moves_throw e, moves_throw e, fun _ _ alike _ _ => ⟨.error e, alike⟩⟩

theorem agree_bind {a : SessionM σ α} {b : SessionM σ β} {f : α → SessionM σ γ}
    {g : β → SessionM σ δ} (h : Agree offers N M R V a b) (hf : ∀ x, Moves offers (f x))
    (hg : ∀ y, Moves offers (g y)) (hnext : ∀ x y, V x y → Agree offers N M R W (f x) (g y)) :
    Agree offers N M R W (a >>= f) (b >>= g) := by
  refine ⟨moves_bind h.left hf, moves_bind h.right hg, ?_⟩
  intro s t alike ends endt
  rw [bind_apply] at ends endt ⊢
  rw [bind_apply]
  -- What ends well later has been well so far.
  have hs : (a s).2.navigator.EndsAs N := by
    cases hresult : (a s).1 with
    | ok x => rw [hresult] at ends; exact ends.of_later (hf x _)
    | error e => rw [hresult] at ends; exact ends
  have ht : (b t).2.navigator.EndsAs M := by
    cases hresult : (b t).1 with
    | ok y => rw [hresult] at endt; exact endt.of_later (hg y _)
    | error e => rw [hresult] at endt; exact endt
  obtain ⟨houtcome, halike⟩ := h.run s t alike hs ht
  generalize (a s).1 = x, (b t).1 = y at *
  cases houtcome with
  | ok hxy => exact (hnext _ _ hxy).run _ _ halike ends endt
  | error e => exact ⟨.error e, halike⟩

theorem agree_then {a b : SessionM σ α} {f : α → SessionM σ γ} {g : α → SessionM σ δ}
    (h : Agree offers N M R Eq a b) (hnext : ∀ x, Agree offers N M R W (f x) (g x)) :
    Agree offers N M R W (a >>= f) (b >>= g) := by
  refine agree_bind h (fun x => (hnext x).left) (fun x => (hnext x).right) ?_
  rintro x _ rfl
  exact hnext x

theorem agree_get {f : Session σ → SessionM σ γ} {g : Session σ → SessionM σ δ}
    (hf : ∀ s, Moves offers (f s)) (hg : ∀ t, Moves offers (g t))
    (h : ∀ s t, s.Alike offers R t → Agree offers N M R W (f s) (g t)) :
    Agree offers N M R W (get >>= f) (get >>= g) := by
  refine ⟨moves_bind moves_get hf, moves_bind moves_get hg, ?_⟩
  exact fun s t alike => (h s t alike).run s t alike

theorem agree_navigate {a : Nav α} {b : Nav β} (h : Nav.Agree offers N M V a b) :
    Agree offers N M R V (navigate a) (navigate b) := by
  refine ⟨moves_navigate h.left, moves_navigate h.right, ?_⟩
  intro s t alike ends endt
  refine ⟨.ok (h.answer _ _ alike.navigator ends endt), ?_, alike.scopes, alike.host⟩
  exact alike.navigator.later (h.left _) (h.right _) ends endt

theorem agree_askHost {action : StateM σ α} (h : Unaware R action) :
    Agree offers N M R Eq (askHost action) (askHost action) := by
  refine ⟨moves_askHost action, moves_askHost action, ?_⟩
  intro s t alike _ _
  obtain ⟨hresult, hhost⟩ := h s.host t.host alike.host
  exact ⟨.ok hresult, alike.navigator, alike.scopes, hhost⟩

theorem agree_tryHost {action : ExceptT Error (StateM σ) α} (h : Unaware R action.run) :
    Agree offers N M R Eq (tryHost action) (tryHost action) := by
  refine ⟨moves_tryHost action, moves_tryHost action, ?_⟩
  intro s t alike _ _
  rw [tryHost_apply, tryHost_apply]
  obtain ⟨hresult, hhost⟩ := h s.host t.host alike.host
  exact ⟨outcomes_eq_iff.mpr hresult, alike.navigator, alike.scopes, hhost⟩

theorem agree_enter (path : String) :
    Agree offers N M R Eq (enter path : SessionM σ Nat) (enter path) := by
  refine ⟨moves_enter path, moves_enter path, ?_⟩
  intro s t alike _ _
  have hscopes : s.scopes.enter path = t.scopes.enter path := congrArg (·.enter path) alike.scopes
  exact ⟨.ok (congrArg Scopes.depth hscopes), alike.navigator, hscopes, alike.host⟩

theorem agree_attempt {a b : SessionM σ α} (h : Agree offers N M R Eq a b) :
    Agree offers N M R Eq a.attempt b.attempt := by
  refine ⟨moves_attempt h.left, moves_attempt h.right, ?_⟩
  intro s t alike ends endt
  obtain ⟨houtcome, halike⟩ := h.run s t alike ends endt
  exact ⟨.ok (outcomes_eq_iff.mp houtcome), halike⟩

/-! ## Operations -/

def SameNames (names names' : OperationNames) : Prop :=
  ∀ name, names.contains name = names'.contains name

section
variable {host : Host σ Subject Chain} (hoffers : host.Offers offers) (impartial : host.Impartial R)
include hoffers impartial

/-- It makes no difference who was asked for the names, as long as all hosts offer the same. -/
theorem agree_operations :
    Agree offers N M R SameNames (operations host) (operations host) := by
  refine ⟨moves_operations hoffers, moves_operations hoffers, ?_⟩
  intro s t alike ends endt
  have halike := alike.navigator.later (moves_operations hoffers s) (moves_operations hoffers t)
    ends endt
  rw [operations_apply] at ends halike ⊢
  rw [operations_apply] at endt halike ⊢
  have hnames : SameNames (s.names host) (t.names host) := by
    intro name
    have hs := halike.left.offered _ (s.named_operations host) name
    have ht := halike.right.offered _ (t.named_operations host) name
    rw [Bool.eq_iff_iff, hs, ht]
  have hhost : R (s.named host).host (t.named host).host := by
    unfold Session.named
    cases s.navigator.operations <;> cases t.navigator.operations
    · exact impartial.namesLeft _ _ (impartial.namesRight _ _ alike.host)
    · exact impartial.namesLeft _ _ alike.host
    · exact impartial.namesRight _ _ alike.host
    · exact alike.host
  have hscopes : (s.named host).scopes = (t.named host).scopes := by
    rw [s.named_scopes, t.named_scopes, alike.scopes]
  exact ⟨.ok hnames, halike, hscopes, hhost⟩

variable {p q : Place} (h : p.toSpot = q.toSpot)

omit hoffers impartial in
theorem path_congr (h : p.toSpot = q.toSpot) : p.path = q.path :=
  congrArg Spot.path h

include h

theorem agree_resolve (name : String) :
    Agree offers N M R Nav.SameMeaning (resolve host p name) (resolve host q name) := by
  refine agree_bind (agree_operations hoffers impartial)
    (fun names => moves_navigate (Nav.moves_resolve p name names))
    (fun names => moves_navigate (Nav.moves_resolve q name names)) ?_
  exact fun names names' hnames => agree_navigate (Nav.agree_resolve h name hnames)

omit hoffers impartial h in
theorem operationOf_other {names : OperationNames} {place : Place} {name : String}
    {x : Option Meaning} (hx : ∀ op, x ≠ some (.operation op)) :
    (operationOf names place name x : SessionM σ Operation) =
      if names.contains name then throw (.shadowedOperation name place.path)
      else throw (.unknownOperation name place.path) := by
  unfold operationOf
  split
  · next op => exact absurd rfl (hx op)
  · rfl

omit hoffers impartial in
theorem agree_operationOf {names names' : OperationNames} (hnames : SameNames names names')
    (name : String) {x y : Option Meaning} (hxy : Nav.SameMeaning x y) :
    Agree offers N M R (fun op op' : Operation => op.scoping = op'.scoping)
      (operationOf names p name x : SessionM σ Operation) (operationOf names' q name y) := by
  obtain ⟨op, op', rfl, rfl, hscoping⟩ | ⟨hx, hy⟩ := hxy.operation
  · exact agree_pure hscoping
  · rw [operationOf_other hx, operationOf_other hy, hnames name, path_congr h]
    split <;> exact agree_throw _

theorem agree_operation (name : String) :
    Agree offers N M R (fun op op' : Operation => op.scoping = op'.scoping)
      (operation host p name) (operation host q name) := by
  rw [operation_bind, operation_bind]
  refine agree_bind (agree_operations hoffers impartial) (fun names => ?_) (fun names => ?_) ?_
  · exact moves_bind (moves_navigate (Nav.moves_resolve p name names))
      (moves_operationOf names p name)
  · exact moves_bind (moves_navigate (Nav.moves_resolve q name names))
      (moves_operationOf names q name)
  · intro names names' hnames
    refine agree_bind (agree_navigate (Nav.agree_resolve h name hnames))
      (moves_operationOf names p name) (moves_operationOf names' q name) ?_
    exact fun x y => agree_operationOf h hnames name

omit hoffers in
theorem agree_lookUp : Agree offers N M R Eq (lookUp host p) (lookUp host q) := by
  have moves (place : Place) (s : Session σ) : Moves offers
      (if (s.scopes.relative place.path).isEmpty then tryHost host.scopedSubject
      else tryHost (host.query (Selector.ofPath s.navigator.settings.testAttribute
        (s.scopes.relative place.path)) {})) := by
    split <;> exact moves_tryHost _
  refine agree_get (moves p) (moves q) fun s t alike => ?_
  simp only [alike.scopes, alike.navigator.settings, path_congr h]
  split
  · exact agree_tryHost impartial.scopedSubject
  · exact agree_tryHost (impartial.query _ _)

omit hoffers h in
theorem agree_callOn (chain : Chain) (name : String) (args : List Json) :
    Agree offers N M R Eq (callOn host chain name args) (callOn host chain name args) :=
  agree_tryHost (impartial.call chain ⟨name, args⟩)

theorem agree_call (name : String) (args : List Json) :
    Agree offers N M R Eq (call host p name args) (call host q name args) := by
  have moves (place : Place) (op : Operation) : Moves offers (if op.scoping then
      throw (.scopingOperation name) else do
        tryHost (host.call (← lookUp host place) ⟨name, args⟩)) := by
    split
    · exact moves_throw _
    · exact moves_bind (moves_lookUp place) fun _ => moves_tryHost _
  refine agree_bind (agree_operation hoffers impartial h name) (moves p) (moves q) ?_
  intro op op' hscoping
  rw [hscoping]
  split
  · exact agree_throw _
  · exact agree_then (agree_lookUp impartial h) fun chain => agree_callOn impartial chain name args

omit hoffers h in
theorem agree_query (path : String) (options : QueryOptions) :
    Agree offers N M R Eq (query host path options) (query host path options) := by
  refine agree_get (fun _ => moves_tryHost _) (fun _ => moves_tryHost _) fun s t alike => ?_
  simp only [alike.navigator.settings]
  exact agree_tryHost (impartial.query _ _)

omit hoffers impartial h in
theorem agree_conduct {body body' : Subject → SessionM σ Unit}
    (hbody : ∀ subject, Agree offers N M R Eq (body subject) (body' subject))
    {tree tree' : Scoping σ Subject Chain} (htree : tree.Alike R tree') :
    Agree offers N M R Eq (conduct body tree) (conduct body' tree') := by
  refine ⟨moves_conduct (fun subject => (hbody subject).left) tree,
    moves_conduct (fun subject => (hbody subject).right) tree', ?_⟩
  intro s t alike ends endt
  induction tree generalizing tree' s t with
  | done outcome host =>
    cases tree' with
    | body subject' host' next' => exact htree.elim
    | done outcome' host' =>
      obtain ⟨rfl, hhost⟩ := htree
      cases outcome with
      | ok chain => exact ⟨.ok rfl, alike.navigator, alike.scopes, hhost⟩
      | error e => exact ⟨.error e, alike.navigator, alike.scopes, hhost⟩
  | body subject host next ih =>
    cases tree' with
    | done outcome' host' => exact htree.elim
    | body subject' host' next' =>
      obtain ⟨rfl, hhost, hnext⟩ := htree
      have hstart : Session.Alike offers R { s with host } { t with host := host' } :=
        ⟨alike.navigator, alike.scopes, hhost⟩
      let ran := body subject { s with host }
      let ran' := body' subject { t with host := host' }
      have hmoves : Navigator.Later offers ran.2.navigator _ :=
        moves_conduct (fun subject => (hbody subject).left) (next ran.1 ran.2.host) ran.2
      have hmoves' : Navigator.Later offers ran'.2.navigator _ :=
        moves_conduct (fun subject => (hbody subject).right) (next' ran'.1 ran'.2.host) ran'.2
      obtain ⟨houtcome, halike⟩ := (hbody subject).run _ _ hstart (ends.of_later hmoves)
        (endt.of_later hmoves')
      have hrest : (next ran.1 ran.2.host).Alike R (next' ran'.1 ran'.2.host) := by
        rw [← outcomes_eq_iff.mp houtcome]
        exact hnext _ _ _ halike.host
      exact ih _ _ hrest _ _ halike ends endt

omit hoffers in
theorem agree_inScope (options : QueryOptions) {body body' : Subject → SessionM σ Unit}
    (hbody : ∀ subject, Agree offers N M R Eq (body subject) (body' subject)) (chain : Chain) :
    Agree offers N M R Eq (inScope host p options body chain)
      (inScope host q options body' chain) := by
  refine ⟨moves_inScope p options (fun subject => (hbody subject).left) chain,
    moves_inScope q options (fun subject => (hbody subject).right) chain, ?_⟩
  intro s t alike ends endt
  have hscopes : s.scopes.enter p.path = t.scopes.enter q.path := by
    rw [alike.scopes, path_congr h]
  have hentered : Session.Alike offers R { s with scopes := s.scopes.enter p.path }
      { t with scopes := t.scopes.enter q.path } := ⟨alike.navigator, hscopes, alike.host⟩
  have htree := impartial.within chain options s.host t.host alike.host
  obtain ⟨houtcome, halike⟩ := (agree_conduct hbody htree).run _ _ hentered ends endt
  refine ⟨houtcome, halike.navigator, ?_, halike.host⟩
  change Scopes.leave _ (s.scopes.enter p.path).depth = Scopes.leave _ (t.scopes.enter q.path).depth
  rw [halike.scopes, hscopes]

theorem agree_within (options : QueryOptions) {body body' : Subject → SessionM σ Unit}
    (hbody : ∀ subject, Agree offers N M R Eq (body subject) (body' subject)) :
    Agree offers N M R Eq (within host p options body) (within host q options body') := by
  have movesLeft : ∀ chain, Moves offers (inScope host p options body chain) :=
    moves_inScope p options fun subject => (hbody subject).left
  have movesRight : ∀ chain, Moves offers (inScope host q options body' chain) :=
    moves_inScope q options fun subject => (hbody subject).right
  rw [within_bind, within_bind]
  refine agree_get (fun s => ?_) (fun t => ?_) fun s t alike => ?_
  · exact moves_bind (moves_operation hoffers p _) fun _ => moves_bind (moves_lookUp p) movesLeft
  · exact moves_bind (moves_operation hoffers q _) fun _ => moves_bind (moves_lookUp q) movesRight
  · rw [alike.navigator.settings]
    refine agree_bind (agree_operation hoffers impartial h _)
      (fun _ => moves_bind (moves_lookUp p) movesLeft)
      (fun _ => moves_bind (moves_lookUp q) movesRight) fun _ _ _ => ?_
    exact agree_then (agree_lookUp impartial h) (agree_inScope impartial h options hbody)

end

end SessionM

end PageNav
