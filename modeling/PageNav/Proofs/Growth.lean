import PageNav.Proofs.Alike

/-!
# How much a navigator grows

Whatever a name means, to tell it visits one spot at most. So a bound on the places that a session
builds is known from what it does.
-/

namespace PageNav

variable {σ α β Subject Chain : Type}

open Navigator (GrownBy)

theorem Nav.resolve_grownBy (place : Place) (name : String) (names : OperationNames)
    (n : Navigator) : GrownBy 1 n (resolve place name names n).2 := by
  rw [resolve_eq]
  split
  · exact (GrownBy.refl n).mono (Nat.zero_le 1)
  · rw [ownMeaning_state]
    exact visit?_grownBy (place.child? name) n

/-- Whether the body is started so many times at most. -/
def Scoping.Starts : Nat → Scoping σ Subject Chain → Prop
  | _, .done _ _ => True
  | 0, .body _ _ _ => False
  | count + 1, .body _ _ next => ∀ outcome state, (next outcome state).Starts count

namespace SessionM

/-- Whether an action builds so many places at most. -/
def Builds (count : Nat) (action : SessionM σ α) : Prop :=
  ∀ s, GrownBy count s.navigator (action s).2.navigator

section
variable {i j : Nat}

theorem Builds.mono {action : SessionM σ α} (h : Builds i action) (hij : i ≤ j) :
    Builds j action :=
  fun s => (h s).mono hij

theorem builds_of_same {action : SessionM σ α}
    (h : ∀ s, (action s).2.navigator.atlas = s.navigator.atlas) : Builds 0 action := by
  intro s
  constructor <;> rw [h s] <;> exact Nat.le_add_right _ _

theorem builds_bind {action : SessionM σ α} {next : α → SessionM σ β} (haction : Builds i action)
    (hnext : ∀ a, Builds j (next a)) : Builds (i + j) (action >>= next) := by
  intro s
  have hfirst := haction s
  rw [bind_apply]
  cases (action s).1 with
  | ok a => exact hfirst.trans (hnext a _)
  | error e => exact hfirst.mono (Nat.le_add_right i j)

theorem builds_then {action : SessionM σ α} {next : α → SessionM σ β}
    (haction : ∀ s, (action s).2.navigator.atlas = s.navigator.atlas)
    (hnext : ∀ a, Builds j (next a)) : Builds j (action >>= next) := by
  have hall := builds_bind (builds_of_same haction) hnext
  rwa [Nat.zero_add] at hall

theorem builds_navigate {action : Nav α} (h : ∀ n, GrownBy i n (action n).2) :
    Builds i (navigate action : SessionM σ α) :=
  fun s => h s.navigator

theorem builds_attempt {action : SessionM σ α} (h : Builds i action) : Builds i action.attempt :=
  fun s => h s

variable (host : Host σ Subject Chain) (place : Place) (name : String)

theorem operations_atlas (s : Session σ) :
    (operations host s).2.navigator.atlas = s.navigator.atlas := by
  rw [operations_apply, Session.named]
  cases s.navigator.operations <;> rfl

theorem lookUp_atlas (s : Session σ) :
    (lookUp host place s).2.navigator.atlas = s.navigator.atlas := by
  unfold lookUp
  rw [bind_apply, get_apply]
  simp only
  split <;> rw [tryHost_apply]

theorem builds_resolve : Builds 1 (resolve host place name) :=
  builds_then (operations_atlas host) fun names =>
    builds_navigate (Nav.resolve_grownBy place name names)

theorem builds_operation : Builds 1 (operation host place name) := by
  rw [operation_bind]
  refine builds_then (operations_atlas host) fun names => ?_
  refine builds_bind (j := 0) (builds_navigate (Nav.resolve_grownBy place name names)) ?_
  intro meaning
  exact builds_of_same fun s => by rw [operationOf_state]

theorem builds_call (args : List Json) : Builds 1 (call host place name args) := by
  refine builds_bind (j := 0) (builds_operation host place name) fun operation => ?_
  split
  · exact builds_of_same fun _ => rfl
  · refine builds_then (lookUp_atlas host place) fun chain => ?_
    exact builds_of_same fun s => by rw [tryHost_apply]

variable {host} {body : Subject → SessionM σ Unit} (hbody : ∀ subject, Builds i (body subject))
include hbody

theorem builds_conduct {tree : Scoping σ Subject Chain} (h : tree.Starts j) :
    Builds (j * i) (conduct body tree) := by
  induction tree generalizing j with
  | done outcome host =>
    cases outcome <;> exact (builds_of_same fun _ => rfl).mono (Nat.zero_le _)
  | body subject host next ih =>
    cases j with
    | zero => exact h.elim
    | succ j =>
      intro s
      have hrun := hbody subject { s with host }
      rw [Nat.succ_mul, Nat.add_comm]
      exact hrun.trans (ih _ _ (h _ _) (body subject { s with host }).2)

theorem builds_within (starts : ∀ chain options state, (host.within chain options state).Starts j)
    (options : QueryOptions) : Builds (1 + j * i) (within host place options body) := by
  rw [within_bind]
  refine builds_then (fun _ => rfl) fun s => ?_
  refine builds_bind (builds_operation host place _) fun _ => ?_
  refine builds_then (lookUp_atlas host place) fun chain => ?_
  exact fun s => builds_conduct hbody (starts chain options s.host)
    { s with scopes := s.scopes.enter place.path }

end

end SessionM

end PageNav
