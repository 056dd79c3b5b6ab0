import PageNav.Proofs.Invariants

/-!
# Hosts that carry something along

A host may be given something to carry that it never looks at. What holds of that and of the scopes
is then up to the bodies that it runs.
-/

namespace PageNav

variable {σ ε Subject Chain α : Type}

def Session.carrying (s : Session σ) (carried : ε) : Session (σ × ε) :=
  { s with host := (s.host, carried) }

def carry (action : StateM σ α) : StateM (σ × ε) α := fun state =>
  let (result, host) := action state.1
  (result, (host, state.2))

def Scoping.carrying : Scoping σ Subject Chain → ε → Scoping (σ × ε) Subject Chain
  | .done outcome host, carried => .done outcome (host, carried)
  | .body subject host next, carried =>
    .body subject (host, carried) fun outcome state => (next outcome state.1).carrying state.2

def Host.carrying (ε : Type) (host : Host σ Subject Chain) : Host (σ × ε) Subject Chain where
  operationNames := carry host.operationNames
  query selector options := ExceptT.mk (carry (host.query selector options).run)
  scopedSubject := ExceptT.mk (carry host.scopedSubject.run)
  call chain c := ExceptT.mk (carry (host.call chain c).run)
  within chain options state := (host.within chain options state.1).carrying state.2

theorem Scoping.carrying_keeps {P : Scopes → ε → Prop} (tree : Scoping σ Subject Chain)
    {scopes : Scopes} {carried : ε} (h : P scopes carried) :
    (tree.carrying carried).Keeps (fun scopes state => P scopes state.2) scopes := by
  induction tree generalizing scopes carried with
  | done outcome host => exact h
  | body subject host next ih => exact ⟨h, fun outcome after state hafter => ih _ _ hafter⟩

theorem Host.carrying_keeps (host : Host σ Subject Chain) (P : Scopes → ε → Prop) :
    (host.carrying ε).Keeps fun scopes state => P scopes state.2 where
  operationNames := id
  query _ _ := id
  scopedSubject := id
  call _ _ := id
  within chain options {_ state} := (host.within chain options state.1).carrying_keeps

/-- What holds after the body was run once holds at the end, if the body keeps it. -/
theorem SessionM.conduct_after_body {P : Scopes → ε → Prop} {body : Subject → SessionM (σ × ε) Unit}
    (hbody : ∀ subject, Keeps (fun scopes state => P scopes state.2) (body subject))
    {subject : Subject} {host : σ} {next : Except Error Unit → σ → Scoping σ Subject Chain}
    {carried : ε} {s : Session (σ × ε)}
    (h : P (body subject { s with host := (host, carried) }).2.scopes
      (body subject { s with host := (host, carried) }).2.host.2) :
    P (conduct body ((Scoping.body subject host next).carrying carried) s).2.scopes
      (conduct body ((Scoping.body subject host next).carrying carried) s).2.host.2 := by
  have hrest := (next (body subject { s with host := (host, carried) }).1
    (body subject { s with host := (host, carried) }).2.host.1).carrying_keeps h
  exact conduct_keeps (s := (body subject { s with host := (host, carried) }).2) hbody hrest

end PageNav
