import PageNav.Proofs.Carrying
import PageNav.Proofs.Dispatch

/-!
# What a host is asked for

A host may be made to record what it is asked for. It answers as before.
-/

namespace PageNav

variable {σ Subject Chain α : Type}

/-- What a session asks its host for. -/
inductive Request (Chain : Type) where
  | operationNames
  | query (selector : String) (options : QueryOptions)
  | scopedSubject
  | call (chain : Chain) (call : Call)
  | within (chain : Chain) (options : QueryOptions)

/-- What the host does when it records a request first. -/
def record (request : Request Chain) (action : StateM σ α) :
    StateM (σ × List (Request Chain)) α := fun state =>
  let (result, host) := action state.1
  (result, (host, state.2 ++ [request]))

def Host.recording (host : Host σ Subject Chain) :
    Host (σ × List (Request Chain)) Subject Chain where
  operationNames := record .operationNames host.operationNames
  query selector options :=
    ExceptT.mk (record (.query selector options) (host.query selector options).run)
  scopedSubject := ExceptT.mk (record .scopedSubject host.scopedSubject.run)
  call chain c := ExceptT.mk (record (.call chain c) (host.call chain c).run)
  within chain options state :=
    (host.within chain options state.1).carrying (state.2 ++ [.within chain options])

/-! ## Look-ups -/

/-- The selector of a look-up, which is empty for the subject of the innermost scope. -/
def Request.selector? : Request Chain → Option String
  | .query selector _ => some selector
  | .scopedSubject => some ""
  | _ => none

def selectors (requests : List (Request Chain)) : List String :=
  requests.filterMap Request.selector?

theorem selectors_append (requests : List (Request Chain)) (request : Request Chain) :
    selectors (requests ++ [request]) = selectors requests ++ request.selector?.toList := by
  rw [selectors, List.filterMap_append]
  cases h : request.selector? <;> simp [selectors, h]

theorem Host.recording_keeps_of (host : Host σ Subject Chain) {P : List (Request Chain) → Prop}
    (h : ∀ {requests : List (Request Chain)} (request : Request Chain),
      P requests → P (requests ++ [request])) :
    host.recording.Keeps fun _ state => P state.2 where
  operationNames := h .operationNames
  query selector options := h (.query selector options)
  scopedSubject := h .scopedSubject
  call chain c := h (.call chain c)
  within chain options {_ state} hstate :=
    Scoping.carrying_keeps (P := fun _ requests => P requests)
      (host.within chain options state.1) (h (.within chain options) hstate)

theorem Host.recording_keeps (host : Host σ Subject Chain) (before : List String) :
    host.recording.Keeps fun _ state => before <+: selectors state.2 := by
  refine host.recording_keeps_of (P := fun requests => before <+: selectors requests) ?_
  intro requests request h
  rw [selectors_append]
  exact h.trans (List.prefix_append _ _)

theorem selectors_named (host : Host σ Subject Chain) (s : Session (σ × List (Request Chain))) :
    selectors (s.named host.recording).host.2 = selectors s.host.2 := by
  unfold Session.named
  cases s.navigator.operations with
  | some names => rfl
  | none => exact (selectors_append _ _).trans (List.append_nil _)

namespace SessionM

theorem lookUp_recording {host : Host σ Subject Chain}
    (hquery : ∀ selector options state, ∃ chain, (host.query selector options state).1 = .ok chain)
    (hsubject : ∀ state, ∃ chain, (host.scopedSubject state).1 = .ok chain) (place : Place)
    (s : Session (σ × List (Request Chain))) :
    ∃ chain state, lookUp host.recording place s = (.ok chain, { s with host := state }) ∧
      selectors state.2 = selectors s.host.2 ++
        [Selector.ofPath s.navigator.settings.testAttribute (s.scopes.relative place.path)] := by
  unfold lookUp
  rw [bind_apply, get_apply]
  simp only
  split
  · next hempty =>
    obtain ⟨chain, hchain⟩ := hsubject s.host.1
    refine ⟨chain, _, (tryHost_apply _ s).trans (Prod.ext hchain rfl), ?_⟩
    rw [String.isEmpty_iff.mp hempty]
    exact selectors_append s.host.2 .scopedSubject
  · let selector :=
      Selector.ofPath s.navigator.settings.testAttribute (s.scopes.relative place.path)
    obtain ⟨chain, hchain⟩ := hquery selector {} s.host.1
    exact ⟨chain, _, (tryHost_apply _ s).trans (Prod.ext hchain rfl),
      selectors_append s.host.2 (.query selector {})⟩

end SessionM

end PageNav
