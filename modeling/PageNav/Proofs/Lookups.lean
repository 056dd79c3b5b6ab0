import PageNav.Proofs.Later

/-!
# What is looked up

Every selector that a host gets from an errand is made with the attribute of the navigator. It is
that of a path which the errand asks for itself, or that of a place which was found, as it is seen
from some scopes.
-/

namespace PageNav

variable {σ μ Subject Chain α : Type} {R : σ → σ → Prop}

/-- Whether the errand may look up this path as it is, whatever it is told on the way. -/
def Errand.Asks (path : String) : Errand R μ Subject Chain → Prop
  | .done _ => False
  | .describe _ next => ∃ spot, (next spot).Asks path
  | .same _ _ next => ∃ same, (next same).Asks path
  | .go _ _ next => ∃ found, (next found).Asks path
  | .list _ next => ∃ text, (next text).Asks path
  | .resolve _ _ next => ∃ meaning, (next meaning).Asks path
  | .resolveAmong _ _ _ next => ∃ meaning, (next meaning).Asks path
  | .call _ _ _ next => ∃ outcome, (next outcome).Asks path
  | .callOn _ _ _ next => ∃ outcome, (next outcome).Asks path
  | .query asked _ next => asked = path ∨ ∃ outcome, (next outcome).Asks path
  | .look next => ∃ scopes, (next scopes).Asks path
  | .enter _ next => ∃ guard, (next guard).Asks path
  | .drop _ next => next.Asks path
  | .askHost _ _ next => ∃ result, (next result).Asks path
  | .remember _ next => ∃ result, (next result).Asks path
  | .within _ _ body next =>
    (∃ subject, (body subject).Asks path) ∨ ∃ outcome, (next outcome).Asks path

/-! ## Requests that can be traced -/

/-- Where the path of a look-up comes from. -/
def Navigator.Origin (asked : String → Prop) (n : Navigator) (found : List Place)
    (path : String) : Prop :=
  asked path ∨ ∃ place ∈ n.root :: found, ∃ scopes : Scopes, path = scopes.relative place.path

/-- Whether every selector that was asked for is that of such a path. -/
def Navigator.Traces (asked : String → Prop) (n : Navigator) (found : List Place)
    (requests : List (Request Chain)) : Prop :=
  ∀ selector options, Request.query selector options ∈ requests →
    ∃ path, n.Origin asked found path ∧ selector = Selector.ofPath n.settings.testAttribute path

/-- A session on the page of `n`, in which all requests can be traced so far. -/
structure Session.Traced (asked : String → Prop) (n : Navigator)
    (s : Session (Errand.State σ μ Chain)) : Prop where
  settings : s.navigator.settings = n.settings
  root : s.navigator.root = n.root
  traces : n.Traces asked s.host.1.2.found s.host.1.1.2

section

variable {asked : String → Prop} {n : Navigator} {found : List Place}
  {requests : List (Request Chain)}

theorem Navigator.Traces.append (h : n.Traces asked found requests) {request : Request Chain}
    (hrequest : ∀ selector options, request = .query selector options →
      ∃ path, n.Origin asked found path ∧
        selector = Selector.ofPath n.settings.testAttribute path) :
    n.Traces asked found (requests ++ [request]) := by
  intro selector options hmem
  rcases List.mem_append.mp hmem with hmem | hmem
  · exact h selector options hmem
  · exact hrequest selector options (List.mem_singleton.mp hmem).symm

theorem Navigator.Traces.append_of_other (h : n.Traces asked found requests)
    (request : Request Chain) (other : ∀ selector options, request ≠ .query selector options) :
    n.Traces asked found (requests ++ [request]) :=
  h.append fun selector options heq => absurd heq (other selector options)

theorem Navigator.Traces.find (h : n.Traces asked found requests) (place : Place) :
    n.Traces asked (found ++ [place]) requests := by
  intro selector options hmem
  obtain ⟨path, horigin, hselector⟩ := h selector options hmem
  refine ⟨path, horigin.imp_right ?_, hselector⟩
  rintro ⟨p, hp, scopes, hpath⟩
  refine ⟨p, ?_, scopes, hpath⟩
  rw [← List.cons_append]
  exact List.mem_append_left _ hp

end

/-! ## Actions that look nothing up -/

theorem Nav.take_grown (place : Place) (way : Way) (n : Navigator) :
    n.Grown (take place way n).2 :=
  (@moves_take (fun _ => True) place way n).toGrown

/-- Nothing was looked up or found from `s` to `t`. -/
structure Session.Still (s t : Session (Errand.State σ μ Chain)) : Prop where
  settings : t.navigator.settings = s.navigator.settings
  root : t.navigator.root = s.navigator.root
  found : t.host.1.2.found = s.host.1.2.found
  queries : ∀ selector options, Request.query selector options ∈ t.host.1.1.2 →
    Request.query selector options ∈ s.host.1.1.2

namespace Session

variable {s t u : Session (Errand.State σ μ Chain)} {asked : String → Prop} {n : Navigator}

theorem Still.refl (s : Session (Errand.State σ μ Chain)) : Still s s :=
  ⟨rfl, rfl, rfl, fun _ _ h => h⟩

theorem Still.trans (hst : Still s t) (htu : Still t u) : Still s u where
  settings := htu.settings.trans hst.settings
  root := htu.root.trans hst.root
  found := htu.found.trans hst.found
  queries selector options h := hst.queries selector options (htu.queries selector options h)

theorem Traced.still (h : s.Traced asked n) (still : Still s t) : t.Traced asked n where
  settings := still.settings.trans h.settings
  root := still.root.trans h.root
  traces selector options hmem := by
    rw [still.found]
    exact h.traces selector options (still.queries selector options hmem)

theorem Still.mem_found (still : Still s t) {place : Place}
    (h : place ∈ s.navigator.root :: s.host.1.2.found) :
    place ∈ t.navigator.root :: t.host.1.2.found := by
  rwa [still.root, still.found]

theorem still_navigator {m : Navigator} (grown : s.navigator.Grown m) :
    Still s { s with navigator := m } :=
  ⟨grown.settings, grown.root, rfl, fun _ _ h => h⟩

theorem still_request {request : Request Chain}
    (settings : t.navigator.settings = s.navigator.settings)
    (root : t.navigator.root = s.navigator.root) (found : t.host.1.2.found = s.host.1.2.found)
    (requests : t.host.1.1.2 = s.host.1.1.2 ++ [request])
    (other : ∀ selector options, request ≠ .query selector options) : Still s t := by
  refine ⟨settings, root, found, fun selector options hmem => ?_⟩
  rw [requests, List.mem_append, List.mem_singleton] at hmem
  exact hmem.resolve_right (Ne.symm (other selector options))

theorem still_named (host : Host σ Subject Chain) (s : Session (Errand.State σ μ Chain)) :
    Still s (s.named (host.equipped μ)) := by
  unfold Session.named
  cases s.navigator.operations with
  | some names => exact Still.refl s
  | none => exact @still_request _ _ _ _ _ .operationNames rfl rfl rfl rfl fun _ _ => by simp

end Session

open Session (Still Traced)

namespace SessionM

section

variable (host : Host σ Subject Chain) (place : Place) (name : String)
  (s : Session (Errand.State σ μ Chain))

theorem operations_still_bind {next : OperationNames → SessionM (Errand.State σ μ Chain) α}
    (h : ∀ names t, Still t (next names t).2) :
    Still s ((operations (host.equipped μ) >>= next) s).2 := by
  rw [bind_apply, operations_apply]
  exact (Session.still_named host s).trans (h _ _)

theorem resolve_still : Still s (resolve (host.equipped μ) place name s).2 := by
  apply operations_still_bind
  intro names t
  exact Session.still_navigator (Nav.resolve_grown place name names t.navigator)

theorem operation_still : Still s (operation (host.equipped μ) place name s).2 := by
  rw [operation_bind]
  apply operations_still_bind
  intro names t
  rw [bind_apply, navigate_apply]
  rw [operationOf_state]
  exact Session.still_navigator (Nav.resolve_grown place name names t.navigator)

theorem callOn_still (chain : Chain) (args : List Json) :
    Still s (callOn (host.equipped μ) chain name args s).2 := by
  unfold callOn
  rw [tryHost_apply]
  exact @Session.still_request _ _ _ _ _ (.call chain ⟨name, args⟩) rfl rfl rfl rfl
    fun _ _ => by simp

end

/-! ## Actions that look something up -/

/-- Whether all requests can be traced after the action if they could before. -/
def Traces (asked : String → Prop) (n : Navigator)
    (action : SessionM (Errand.State σ μ Chain) α) : Prop :=
  ∀ s, s.Traced asked n → (action s).2.Traced asked n

section

variable {asked : String → Prop} {n : Navigator}

theorem traces_of_still {action : SessionM (Errand.State σ μ Chain) α}
    (h : ∀ s, Still s (action s).2) : Traces asked n action :=
  fun s traced => traced.still (h s)

theorem traces_bind {β : Type} {action : SessionM (Errand.State σ μ Chain) α}
    {next : α → SessionM (Errand.State σ μ Chain) β} (haction : Traces asked n action)
    (hnext : ∀ a, Traces asked n (next a)) : Traces asked n (action >>= next) := by
  intro s traced
  have hfirst := haction s traced
  rw [bind_apply]
  cases (action s).1 with
  | ok a => exact hnext a _ hfirst
  | error e => exact hfirst

theorem query_traced (host : Host σ Subject Chain) {path : String} (options : QueryOptions)
    {s : Session (Errand.State σ μ Chain)} (traced : s.Traced asked n)
    (origin : n.Origin asked s.host.1.2.found path) :
    (tryHost ((host.equipped μ).query
      (Selector.ofPath s.navigator.settings.testAttribute path) options) s).2.Traced asked n := by
  rw [tryHost_apply]
  refine ⟨traced.settings, traced.root, traced.traces.append ?_⟩
  rintro selector options' heq
  obtain ⟨rfl, -⟩ := Request.query.inj heq
  rw [traced.settings]
  exact ⟨path, origin, rfl⟩

theorem lookUp_traced (host : Host σ Subject Chain) {place : Place}
    {s : Session (Errand.State σ μ Chain)} (traced : s.Traced asked n)
    (hplace : place ∈ s.navigator.root :: s.host.1.2.found) :
    (lookUp (host.equipped μ) place s).2.Traced asked n := by
  unfold lookUp
  rw [bind_apply, get_apply]
  simp only
  split
  · rw [tryHost_apply]
    exact ⟨traced.settings, traced.root,
      traced.traces.append_of_other .scopedSubject fun _ _ => by simp⟩
  · rw [traced.root] at hplace
    exact query_traced host {} traced (.inr ⟨place, hplace, s.scopes, rfl⟩)

theorem call_traced (host : Host σ Subject Chain) {place : Place} (name : String)
    (args : List Json) {s : Session (Errand.State σ μ Chain)} (traced : s.Traced asked n)
    (hplace : place ∈ s.navigator.root :: s.host.1.2.found) :
    (call (host.equipped μ) place name args s).2.Traced asked n := by
  have hstill := operation_still host place name s
  unfold call
  rw [bind_apply]
  cases (operation (host.equipped μ) place name s).1 with
  | error e => exact traced.still hstill
  | ok operation =>
    simp only
    split
    · exact traced.still hstill
    · have hlookUp := lookUp_traced host (traced.still hstill) (hstill.mem_found hplace)
      rw [bind_apply]
      split
      · exact hlookUp.still (callOn_still host name _ _ args)
      · exact hlookUp

theorem conduct_traced {body : Subject → SessionM (Errand.State σ μ Chain) Unit}
    (hbody : ∀ subject, Traces asked n (body subject)) (tree : Scoping σ Subject Chain)
    (guards : Guards) {requests : List (Request Chain)} {luggage : Luggage μ}
    {s : Session (Errand.State σ μ Chain)} (settings : s.navigator.settings = n.settings)
    (root : s.navigator.root = n.root) (traces : n.Traces asked luggage.found requests) :
    (conduct body (((tree.carrying requests).carrying luggage).carrying guards) s).2.Traced
      asked n := by
  -- between two bodies the host changes its own state only
  induction tree generalizing requests luggage guards s with
  | done outcome host => cases outcome <;> exact ⟨settings, root, traces⟩
  | body subject host next ih =>
    have hrun := hbody subject { s with host := (((host, requests), luggage), guards) }
      ⟨settings, root, traces⟩
    exact ih _ _ _ hrun.settings hrun.root hrun.traces

theorem within_traced (host : Host σ Subject Chain) {place : Place} (options : QueryOptions)
    {body : Subject → SessionM (Errand.State σ μ Chain) Unit}
    (hbody : ∀ subject, Traces asked n (body subject)) {s : Session (Errand.State σ μ Chain)}
    (traced : s.Traced asked n) (hplace : place ∈ s.navigator.root :: s.host.1.2.found) :
    (within (host.equipped μ) place options body s).2.Traced asked n := by
  have hstill := operation_still host place s.navigator.settings.scopingOperation s
  have htarget : (target (host.equipped μ) place s).2.Traced asked n :=
    lookUp_traced host (traced.still hstill) (hstill.mem_found hplace)
  cases hop : (operation (host.equipped μ) place s.navigator.settings.scopingOperation s).1 with
  | error e =>
    rw [within_refused hop]
    exact traced.still hstill
  | ok op =>
    rw [within_accepted hop]
    cases (target (host.equipped μ) place s).1 with
    | error e => exact htarget
    | ok chain =>
      have traces := htarget.traces.append_of_other (.within chain options) fun _ _ => by simp
      have hleft := conduct_traced hbody
        (host.within chain options (target (host.equipped μ) place s).2.host.1.1.1)
        (target (host.equipped μ) place s).2.host.2 (s := entered (host.equipped μ) place s)
        htarget.settings htarget.root traces
      exact ⟨hleft.settings, hleft.root, hleft.traces⟩

end

/-! ## Errands -/

section

variable {asked : String → Prop} {n : Navigator}

theorem traces_placeOf (handle : Nat) :
    Traces asked n (placeOf handle : SessionM (Errand.State σ μ Chain) Place) :=
  fun _ traced => traced

theorem traces_at (handle : Nat) {next : Place → SessionM (Errand.State σ μ Chain) α}
    (h : ∀ place s, s.Traced asked n → place ∈ s.navigator.root :: s.host.1.2.found →
      (next place s).2.Traced asked n) : Traces asked n (placeOf handle >>= next) := by
  intro s traced
  refine h _ s traced ?_
  rw [List.getD_eq_getElem?_getD]
  cases hplace : (s.navigator.root :: s.host.1.2.found)[handle]? with
  | none => exact List.mem_cons_self
  | some place => exact List.mem_of_getElem? hplace

theorem traces_navigate {action : Nav α} (h : ∀ m : Navigator, m.Grown (action m).2) :
    Traces asked n (navigate action : SessionM (Errand.State σ μ Chain) α) :=
  traces_of_still fun s => Session.still_navigator (h s.navigator)

theorem traces_keep (found : Option Place) :
    Traces asked n (keep found : SessionM (Errand.State σ μ Chain) _) := by
  cases found with
  | none => exact fun _ traced => traced
  | some place => exact fun s traced => ⟨traced.settings, traced.root, traced.traces.find place⟩

theorem traces_drop (guard : Nat) :
    Traces asked n (drop guard : SessionM (Errand.State σ μ Chain) Unit) := by
  intro s traced
  unfold drop
  cases Guards.held? s.host.2 guard <;> exact ⟨traced.settings, traced.root, traced.traces⟩

end

end SessionM

open SessionM in
theorem Errand.traces (host : Host σ Subject Chain) {asked : String → Prop} {n : Navigator}
    (errand : Errand R μ Subject Chain) (asks : ∀ path, errand.Asks path → asked path) :
    Traces asked n (errand.run host) := by
  induction errand with
  | done outcome => exact fun _ traced => traced
  | describe handle next ih =>
    exact traces_bind (traces_placeOf handle) fun place => ih _ fun path h => asks path ⟨_, h⟩
  | same handle other next ih =>
    refine traces_bind (traces_placeOf handle) fun place => ?_
    exact traces_bind (traces_placeOf other) fun place' => ih _ fun path h => asks path ⟨_, h⟩
  | go handle way next ih =>
    refine traces_bind (traces_placeOf handle) fun place => ?_
    refine traces_bind (traces_navigate (Nav.take_grown place way)) fun found => ?_
    exact traces_bind (traces_keep found) fun result => ih _ fun path h => asks path ⟨_, h⟩
  | list style next ih =>
    refine traces_bind (traces_navigate (Nav.listing_grown style)) fun text => ?_
    exact ih _ fun path h => asks path ⟨_, h⟩
  | resolve handle name next ih =>
    refine traces_bind (traces_placeOf handle) fun place => ?_
    refine traces_bind (traces_of_still (resolve_still host place name)) fun meaning => ?_
    exact ih _ fun path h => asks path ⟨_, h⟩
  | resolveAmong handle name names next ih =>
    refine traces_bind (traces_placeOf handle) fun place => ?_
    refine traces_bind (traces_navigate (Nav.resolve_grown place name names)) fun meaning => ?_
    exact ih _ fun path h => asks path ⟨_, h⟩
  | call handle name args next ih =>
    refine traces_at handle fun place s traced hplace => ?_
    exact ih _ (fun path h => asks path ⟨_, h⟩) _ (call_traced host name args traced hplace)
  | callOn chain name args next ih =>
    intro s traced
    have hcall := traced.still (callOn_still host name s chain args)
    exact ih _ (fun path h => asks path ⟨_, h⟩) _ hcall
  | query path options next ih =>
    intro s traced
    have hquery := query_traced host options traced (.inl (asks path (.inl rfl)))
    exact ih _ (fun path h => asks path (.inr ⟨_, h⟩)) _ hquery
  | look next ih =>
    exact fun s traced => ih _ (fun path h => asks path ⟨_, h⟩) s traced
  | enter path next ih =>
    intro s traced
    exact ih _ (fun path h => asks path ⟨_, h⟩) _ ⟨traced.settings, traced.root, traced.traces⟩
  | drop guard next ih =>
    exact traces_bind (traces_drop guard) fun _ => ih asks
  | askHost action unaware next ih =>
    intro s traced
    exact ih _ (fun path h => asks path ⟨_, h⟩) _ ⟨traced.settings, traced.root, traced.traces⟩
  | remember action next ih =>
    intro s traced
    exact ih _ (fun path h => asks path ⟨_, h⟩) _ ⟨traced.settings, traced.root, traced.traces⟩
  | within handle options body next hbody ih =>
    refine traces_at handle fun place s traced hplace => ?_
    have hwithin := within_traced host options
      (fun subject => hbody subject fun path h => asks path (.inl ⟨_, h⟩)) traced hplace
    exact ih _ (fun path h => asks path (.inr ⟨_, h⟩)) _ hwithin

/-- Whatever an errand does and whatever its host answers, each selector that the host gets is made
with the attribute of the navigator from a path of known origin. The settings stay as they are. -/
theorem Errand.lookups (host : Host σ Subject Chain) (errand : Errand R μ Subject Chain)
    (n : Navigator) (state : σ) (memory : μ) :
    (errand.navigatorAfter host n state memory).settings = n.settings ∧
    ∀ selector options, Request.query selector options ∈ (errand.report host n state memory).requests →
      ∃ path, selector = Selector.ofPath n.settings.testAttribute path ∧
        (errand.Asks path ∨ ∃ spot ∈ n.root.toSpot :: (errand.report host n state memory).found,
          ∃ scopes : Scopes, path = scopes.relative spot.path) := by
  have traced := errand.traces host (n := n) (fun _ h => h) (start n state memory)
    ⟨rfl, rfl, fun _ _ h => absurd h List.not_mem_nil⟩
  refine ⟨traced.settings, fun selector options hmem => ?_⟩
  obtain ⟨path, horigin, hselector⟩ := traced.traces selector options (List.mem_filter.mp hmem).1
  refine ⟨path, hselector, horigin.imp_right ?_⟩
  rintro ⟨place, hplace, scopes, hpath⟩
  refine ⟨place.toSpot, ?_, scopes, hpath⟩
  rw [report, ← List.map_cons]
  exact List.mem_map_of_mem hplace

end PageNav
