import PageNav.Proofs.Telescope

/-!
# The subject of a scope

A place is looked up as the subject of the innermost scope when nothing is left of its path there.
That is so if the scope has the same tokens, and also, whatever the scopes are, if the path has no
tokens at all.
-/

namespace PageNav

open SessionM

variable {σ Subject Chain : Type}

/-! ## Paths of which nothing is left -/

namespace Path

theorem join_eq_nil_iff {ts : List (List Char)} (filled : ∀ t ∈ ts, t ≠ []) :
    join ts = [] ↔ ts = [] := by
  constructor
  · intro h
    cases ts with
    | nil => rfl
    | cons t ts => exact absurd h (join_ne_nil (filled t List.mem_cons_self) ts)
  · rintro rfl
    rfl

theorem dropScope_eq_nil_iff {scope tokens : List (List Char)} :
    dropScope scope tokens = [] ↔ tokens = [] ∨ scope = tokens := by
  by_cases h : scope <+: tokens
  · rw [dropScope_below h, List.drop_eq_nil_iff]
    constructor
    · exact fun hlength => .inr (h.eq_of_length_le hlength)
    · rintro (rfl | rfl)
      · exact Nat.zero_le _
      · exact Nat.le_refl _
  · rw [dropScope_beside h]
    constructor
    · exact .inl
    · rintro (hnil | rfl)
      · exact hnil
      · exact absurd List.prefix_rfl h

theorem mem_dropScope {scope tokens : List (List Char)} {t : List Char}
    (h : t ∈ dropScope scope tokens) : t ∈ tokens := by
  unfold dropScope at h
  split at h
  · exact List.mem_of_mem_drop h
  · exact h

theorem tokens_eq_iff {scope path : String} :
    tokens scope = tokens path ↔ tokensOf scope.toList = tokensOf path.toList :=
  (List.map_injective_iff.mpr ofList_injective).eq_iff

end Path

open PageNav.Path

/-- Nothing is left of a path without tokens, and nothing of the innermost scope. -/
theorem relative_isEmpty_iff (scopes : Scopes) (path : String) :
    (scopes.relative path).isEmpty = true ↔
      tokens path = [] ∨ ∃ scope ∈ scopes.innermost?, tokens scope = tokens path := by
  have filled : ∀ t ∈ tokensOf path.toList, t ≠ [] := fun t => (wellCut_tokensOf _).ne_nil
  have hnone : tokens path = [] ↔ tokensOf path.toList = [] := List.map_eq_nil_iff
  rw [String.isEmpty_iff, hnone, Scopes.relative]
  cases scopes.innermost? with
  | none =>
    simp only [Option.mem_def, reduceCtorEq, false_and, exists_false, or_false]
    rw [normal, String.ofList_eq_empty_iff, join_eq_nil_iff filled]
  | some scope =>
    simp only [Option.mem_def, Option.some.injEq, exists_eq_left', tokens_eq_iff]
    rw [relativeTo, String.ofList_eq_empty_iff, ← dropScope_eq_nil_iff, join_eq_nil_iff]
    exact fun t ht => filled t (mem_dropScope ht)

/-! ## Look-ups -/

def Request.isLookUp : Request Chain → Bool
  | .query _ _ => true
  | .scopedSubject => true
  | _ => false

def lookUps (requests : List (Request Chain)) : List (Request Chain) :=
  requests.filter Request.isLookUp

/-- The request by which a session looks a place up. -/
def Session.lookUpOf (s : Session σ) (path : String) : Request Chain :=
  if (s.scopes.relative path).isEmpty then .scopedSubject
  else .query (Selector.ofPath s.navigator.settings.testAttribute (s.scopes.relative path)) {}

theorem Session.lookUpOf_isLookUp (s : Session σ) (path : String) :
    (s.lookUpOf path : Request Chain).isLookUp = true := by
  unfold lookUpOf
  split <;> rfl

theorem Session.lookUpOf_eq_iff (s : Session σ) (path : String) :
    (s.lookUpOf path : Request Chain) = .scopedSubject ↔
      tokens path = [] ∨ ∃ scope ∈ s.scopes.innermost?, tokens scope = tokens path := by
  rw [← relative_isEmpty_iff, lookUpOf]
  split
  · next h => exact iff_of_true rfl h
  · next h => exact iff_of_false (by simp) h

theorem lookUps_append (requests : List (Request Chain)) (request : Request Chain) :
    lookUps (requests ++ [request]) =
      if request.isLookUp then lookUps requests ++ [request] else lookUps requests := by
  unfold lookUps
  rw [List.filter_append]
  cases h : request.isLookUp <;> simp [h]

namespace SessionM

section
variable (host : Host σ Subject Chain) (place : Place) (s : Session (σ × List (Request Chain)))

theorem lookUp_requests :
    (lookUp host.recording place s).2.host.2 = s.host.2 ++ [s.lookUpOf place.path] := by
  unfold lookUp Session.lookUpOf
  rw [bind_apply, get_apply]
  simp only
  split <;> rw [tryHost_apply] <;> rfl

theorem operation_requests (name : String) :
    (operation host.recording place name s).2.scopes = s.scopes ∧
      (operation host.recording place name s).2.navigator.settings = s.navigator.settings ∧
      lookUps (operation host.recording place name s).2.host.2 = lookUps s.host.2 := by
  have hsettings := (Nav.resolve_grown place name (s.names host.recording)
    (s.named host.recording).navigator).settings
  rw [s.named_settings host.recording] at hsettings
  have hnamed : lookUps (s.named host.recording).host.2 = lookUps s.host.2 := by
    unfold Session.named
    cases s.navigator.operations with
    | some names => rfl
    | none => exact lookUps_append s.host.2 .operationNames
  have hscopes := s.named_scopes host.recording
  unfold operation
  rw [bind_apply, operations_apply]
  simp only
  rw [bind_apply, navigate_apply]
  -- Whatever the name means, the session stays as it is from here on.
  rcases (Nav.resolve place name (s.names host.recording)
    (s.named host.recording).navigator).1 with _ | ⟨_ | _ | _ | _⟩
  case some.operation => exact ⟨hscopes, hsettings, hnamed⟩
  all_goals
    simp only
    split <;> exact ⟨hscopes, hsettings, hnamed⟩

theorem lookUp_lookUps (name : String) :
    lookUps (lookUp host.recording place (operation host.recording place name s).2).2.host.2 =
      lookUps s.host.2 ++ [s.lookUpOf place.path] := by
  obtain ⟨hscopes, hsettings, hasked⟩ := operation_requests host place s name
  have hrequest : ((operation host.recording place name s).2.lookUpOf place.path : Request Chain) =
      s.lookUpOf place.path := by
    rw [Session.lookUpOf, Session.lookUpOf, hscopes, hsettings]
  rw [lookUp_requests, lookUps_append, hrequest, s.lookUpOf_isLookUp, if_pos rfl, hasked]

/-- Whether an operation is found that is not the scoping one. -/
def callable (host : Host σ Subject Chain) (place : Place) (name : String) (s : Session σ) : Bool :=
  match (operation host place name s).1 with
  | .ok op => !op.scoping
  | .error _ => false

theorem call_lookUps (name : String) (args : List Json) :
    lookUps (call host.recording place name args s).2.host.2 = lookUps s.host.2 ++
      if callable host.recording place name s then [s.lookUpOf place.path] else [] := by
  obtain ⟨-, -, hasked⟩ := operation_requests host place s name
  have hlooked := lookUp_lookUps host place s name
  unfold call callable
  rw [bind_apply]
  cases (operation host.recording place name s).1 with
  | error e => simpa using hasked
  | ok op =>
    cases hscoping : op.scoping with
    | true =>
      simp only [hscoping, Bool.not_true, if_true, Bool.false_eq_true, if_false, List.append_nil]
      exact hasked
    | false =>
      simp only [hscoping, Bool.not_false, if_true, Bool.false_eq_true, if_false]
      rw [bind_apply]
      cases (lookUp host.recording place (operation host.recording place name s).2).1 with
      | error e => exact hlooked
      | ok chain =>
        simp only
        rw [tryHost_apply, ← hlooked]
        exact lookUps_append _ (.call chain ⟨name, args⟩)

section
variable (options : QueryOptions) {body : Subject → SessionM (σ × List (Request Chain)) Unit}
  (keeps : ∀ before subject, Keeps (fun _ state => before <+: state.2) (body subject))
include keeps

/-- The first look-up of a scope is that of its place, however its body goes on. -/
theorem within_lookUps_of_ok {op : Operation}
    (hop : (operation host.recording place s.navigator.settings.scopingOperation s).1 = .ok op) :
    lookUps s.host.2 ++ [s.lookUpOf place.path] <+:
      lookUps (within host.recording place options body s).2.host.2 := by
  have hlooked := lookUp_lookUps host place s s.navigator.settings.scopingOperation
  rw [within_accepted hop]
  cases (target host.recording place s).1 with
  | error e => exact hlooked ▸ List.prefix_rfl
  | ok chain =>
    let found := (target host.recording place s).2
    have hgrow : host.recording.Keeps fun _ state => found.host.2 <+: state.2 :=
      host.recording_keeps_of fun request h => h.trans (List.prefix_append _ _)
    have htree : (host.recording.within chain options found.host).Keeps
        (fun _ state => found.host.2 <+: state.2) (entered host.recording place s).scopes :=
      hgrow.within chain options List.prefix_rfl
    have hrun := conduct_keeps (s := entered host.recording place s) (keeps found.host.2) htree
    exact hlooked ▸ hrun.filter Request.isLookUp

theorem within_lookUps :
    lookUps (within host.recording place options body s).2.host.2 = lookUps s.host.2 ∨
      lookUps s.host.2 ++ [s.lookUpOf place.path] <+:
        lookUps (within host.recording place options body s).2.host.2 := by
  cases hop : (operation host.recording place s.navigator.settings.scopingOperation s).1 with
  | error e =>
    rw [within_refused hop]
    exact .inl (operation_requests host place s s.navigator.settings.scopingOperation).2.2
  | ok op => exact .inr (within_lookUps_of_ok host place s options keeps hop)

end

end

end SessionM

/-- What calls and scopes look up is the subject of the innermost scope exactly if that scope has the
tokens of the place or the place has no tokens. The body of the scope may do anything but forget what
was asked for. -/
theorem scopedSubject_asked_for (host : Host σ Subject Chain) (s : Session σ) (place : Place) :
    (∀ name args, ∀ request ∈ lookUps
        (call host.recording place name args (s.carrying [])).2.host.2,
      request = .scopedSubject ↔
        tokens place.path = [] ∨ ∃ scope ∈ s.scopes.innermost?, tokens scope = tokens place.path) ∧
    ∀ options body,
      (∀ before subject, Keeps (fun _ state => before <+: state.2) (body subject)) →
      ∀ request ∈ (lookUps
          (within host.recording place options body (s.carrying [])).2.host.2).head?,
        request = .scopedSubject ↔
          tokens place.path = [] ∨ ∃ scope ∈ s.scopes.innermost?, tokens scope = tokens place.path := by
  have hasked : ((s.carrying []).lookUpOf place.path : Request Chain) = .scopedSubject ↔ _ :=
    (s.carrying ([] : List (Request Chain))).lookUpOf_eq_iff place.path
  constructor
  · intro name args request hrequest
    have hcall : lookUps (call host.recording place name args (s.carrying [])).2.host.2 =
        if callable host.recording place name (s.carrying []) then
          [(s.carrying ([] : List (Request Chain))).lookUpOf place.path] else [] :=
      call_lookUps host place (s.carrying []) name args
    rw [hcall] at hrequest
    split at hrequest
    · obtain rfl := List.mem_singleton.mp hrequest
      exact hasked
    · exact absurd hrequest List.not_mem_nil
  · intro options body keeps request hrequest
    rcases within_lookUps host place (s.carrying []) options keeps with hnone | ⟨rest, hrest⟩
    · rw [hnone] at hrequest
      exact absurd hrequest (by simp [lookUps, Session.carrying])
    · rw [← hrest] at hrequest
      obtain rfl := Option.some.inj hrequest
      exact hasked

/-- A session of the eager host that stands in these scopes. -/
def eagerSession (n : Navigator) (scopes : Scopes) : Session Unit :=
  { navigator := n, scopes, host := () }

def clickLookUps (n : Navigator) (scopes : Scopes) (place : Place) : List (Request Unit) :=
  lookUps
    (call eagerHost.recording place "click" [] ((eagerSession n scopes).carrying [])).2.host.2

def clickOnce (place : Place) : SessionM (Unit × List (Request Unit)) Unit := do
  let _ ← call eagerHost.recording place "click" []
  return ()

/-- What a scope looks up in which its place is clicked. -/
def scopeLookUps (n : Navigator) (scopes : Scopes) (place : Place) : List (Request Unit) :=
  lookUps
    (within eagerHost.recording place {} (fun _ => clickOnce place)
      ((eagerSession n scopes).carrying [])).2.host.2

theorem clickOnce_keeps (place before) :
    Keeps (fun _ state => before <+: state.2) (clickOnce place) := by
  have hgrow : eagerHost.recording.Keeps fun _ state => before <+: state.2 :=
    eagerHost.recording_keeps_of fun request h => h.trans (List.prefix_append _ _)
  exact keeps_bind (keeps_call hgrow place "click" []) fun _ => keeps_pure ()

section
variable {n : Navigator} (fresh : n.operations = none) (default : n.settings = {}) {place : Place}
  (element : place.isElement = true) (scopes : Scopes)
include fresh element

theorem eagerSession_dispatches {name : String}
    (offered : (OperationNames.ofList ["click", "within"]).contains name = true)
    (free : place.defines name = false) :
    Dispatches (((eagerSession n scopes).carrying []).names eagerHost.recording) place name := by
  have hnames : ((eagerSession n scopes).carrying ([] : List (Request Unit))).names
      eagerHost.recording = .ofList ["click", "within"] := by
    rw [Session.names, Session.carrying, eagerSession, fresh]
    rfl
  exact ⟨element, by rw [hnames]; exact offered, free⟩

include default

theorem clickLookUps_eq (free : place.defines "click" = false) :
    clickLookUps n scopes place = [(eagerSession n scopes).lookUpOf place.path] := by
  have hplace : Dispatches (((eagerSession n scopes).carrying []).names eagerHost.recording) place
      "click" :=
    eagerSession_dispatches fresh element scopes (by decide) free
  have hcallable : callable eagerHost.recording place "click"
      ((eagerSession n scopes).carrying []) = true := by
    rw [callable, operation_apply hplace]
    change (!("click" == n.settings.scopingOperation)) = true
    rw [default]
    decide
  exact (call_lookUps eagerHost place _ "click" []).trans (by rw [if_pos hcallable]; rfl)

theorem head?_scopeLookUps (free : place.defines "within" = false) :
    (scopeLookUps n scopes place).head? = some ((eagerSession n scopes).lookUpOf place.path) := by
  have hplace : Dispatches (((eagerSession n scopes).carrying []).names eagerHost.recording) place
      n.settings.scopingOperation := by
    rw [default]
    exact eagerSession_dispatches fresh element scopes (by decide) free
  have hop := congrArg Prod.fst (operation_apply hplace)
  obtain ⟨rest, hrest⟩ := within_lookUps_of_ok eagerHost place ((eagerSession n scopes).carrying [])
    {} (fun before _ => clickOnce_keeps place before) hop
  rw [scopeLookUps, ← hrest]
  rfl

end

/-- A list that is clicked inside itself, or scoped to once more, is the subject of that scope. -/
theorem list_inside_itself : ∃ place : Place, place.toSpot = listSpot ∧
    .scopedSubject ∈ clickLookUps (.ofSchema listPage {}) ⟨["list"]⟩ place ∧
    .scopedSubject ∈ (scopeLookUps (.ofSchema listPage {}) ⟨["list"]⟩ place).head? ∧
    ∃ scope ∈ Scopes.innermost? ⟨["list"]⟩, tokens scope = tokens place.path := by
  let place : Place := ⟨listSpot, ⟨1⟩⟩
  let n := Navigator.ofSchema listPage {}
  have hlooked : clickLookUps n ⟨["list"]⟩ place = _ :=
    clickLookUps_eq rfl rfl (by decide) ⟨["list"]⟩ (by decide)
  have hfirst : (scopeLookUps n ⟨["list"]⟩ place).head? = _ :=
    head?_scopeLookUps rfl rfl (by decide) ⟨["list"]⟩ (by decide)
  have hclick : .scopedSubject ∈ clickLookUps n ⟨["list"]⟩ place := by
    rw [hlooked, List.mem_singleton, eq_comm, Session.lookUpOf_eq_iff]
    decide
  have htokens : tokens place.path ≠ [] := by decide
  obtain ⟨hcalls, hscopes⟩ := scopedSubject_asked_for eagerHost (eagerSession n ⟨["list"]⟩) place
  have hinside := ((hcalls "click" [] .scopedSubject hclick).mp rfl).resolve_left htokens
  have hsubject := (hscopes {} (fun _ => clickOnce place)
    (fun before _ => clickOnce_keeps place before) _ hfirst).mpr (.inr hinside)
  exact ⟨place, rfl, hclick, hfirst.trans (congrArg some hsubject), hinside⟩

/-- A page with a leaf of an empty name. -/
def namelessPage : Schema :=
  .leaf "" .nil

/-- A leaf of an empty name is looked up as the subject of a scope where there is none. -/
theorem nameless_leaf_without_scope :
    let n := Navigator.ofSchema namelessPage {}
    ∃ place, (Nav.child n.root "" n).1 = some place ∧
      .scopedSubject ∈ clickLookUps (Nav.child n.root "" n).2 {} place ∧
      ¬ ∃ scope ∈ Scopes.innermost? {}, tokens scope = tokens place.path := by
  intro n
  have hchild : n.root.child? "" = some ⟨"", none⟩ := by
    rw [Navigator.ofSchema_root]
    decide
  have hvisit : Nav.child n.root "" n = Nav.visit? (some ⟨"", none⟩) n := by
    rw [Nav.child, hchild]
  have few : (n.atlas.visit ⟨"", none⟩).2.symbols.size ≤ UInt32.size := by
    have hsize := (Nav.visit?_grownBy (some ⟨"", none⟩) n).symbols
    exact Nat.le_trans hsize (Nat.le_trans
      (Nat.add_le_add_right (Navigator.size_ofSchema namelessPage {}).1 2) (by decide))
  have hspot := Atlas.visit_spot (Navigator.ofSchema_answered namelessPage {}).charted.sound few
  rw [hvisit, Nav.visit?_some]
  refine ⟨_, rfl, ?_, by simp [Scopes.innermost?]⟩
  rw [clickLookUps_eq rfl rfl (by rw [hspot]; rfl) _ (by rw [hspot]; rfl), List.mem_singleton, eq_comm,
    Session.lookUpOf_eq_iff, hspot]
  decide

end PageNav
