import Mathlib.Data.List.Induction
import Mathlib.Data.List.TakeDrop
import PageNav.Proofs.Script

/-!
# Scopes and their guards

A scope is held by the guard that was handed out for it, and guards are dropped in any order. To say
what a drop takes away, a ghost keeps beside the scopes which guard each of them was entered with.
-/

namespace PageNav

open SessionM

variable {σ : Type}

namespace Guards

variable {guards : Guards} {guard depth : Nat}

theorem lt_length_of_held? (h : held? guards guard = some depth) : guard < guards.length := by
  rw [held?, Option.join_eq_some_iff] at h
  exact (List.getElem?_eq_some_iff.mp h).1

theorem held?_append_of_held? (h : held? guards guard = some depth) (handed : Option Nat) :
    held? (guards ++ [handed]) guard = some depth := by
  rwa [held?, List.getElem?_append_left (lt_length_of_held? h)]

@[simp] theorem held?_append_length (guards : Guards) (depth : Nat) :
    held? (guards ++ [some depth]) guards.length = some depth := by
  simp [held?]

theorem held?_set_none_of_ne {other : Nat} (h : guard ≠ other) :
    held? (guards.set guard none) other = held? guards other := by
  rw [held?, List.getElem?_set_ne h, held?]

end Guards

theorem Scopes.leave_eq_self_iff (s : Scopes) {depth : Nat} (positive : 0 < depth) :
    s.leave depth = s ↔ s.depth < depth := by
  have hentries : s.leave depth = s ↔ s.entries.take (depth - 1) = s.entries :=
    ⟨congrArg Scopes.entries, congrArg Scopes.mk⟩
  rw [hentries, List.take_eq_self_iff, ← Scopes.depth]
  omega

/-! ## Entering and dropping -/

/-- What is done with scopes by those who hold their guards. -/
inductive ScopeStep where
  | enter (path : String)
  | drop (guard : Nat)

structure Guarded where
  scopes : Scopes := {}
  guards : Guards := []

/-- A guard that is not held any more cannot be dropped, which leaves everything as it is. -/
def Guarded.step (s : Guarded) : ScopeStep → Guarded
  | .enter path => ⟨s.scopes.enter path, s.guards ++ [some (s.scopes.enter path).depth]⟩
  | .drop guard => ⟨(s.guards.held? guard).elim s.scopes s.scopes.leave, s.guards.set guard none⟩

def Session.guarded (s : Session (σ × Guards)) : Guarded := ⟨s.scopes, s.host.2⟩

theorem Session.guarded_drop (s : Session (σ × Guards)) (guard : Nat) :
    (drop guard s).2.guarded = s.guarded.step (.drop guard) := by
  have held : s.guarded.guards.held? guard = s.host.2.held? guard := rfl
  unfold drop
  cases h : s.host.2.held? guard with
  | none =>
    rw [Guarded.step, held, h]
    rfl
  | some depth =>
    rw [Guarded.step, held, h]
    rfl

def ScopeStep.act : ScopeStep → SessionM (σ × Guards) Unit
  | .enter path => do
    let _ ← hold path
  | .drop guard => SessionM.drop guard

theorem Session.guarded_act (s : Session (σ × Guards)) (a : ScopeStep) :
    (a.act s).2.guarded = s.guarded.step a := by
  cases a with
  | enter path => rfl
  | drop guard => exact s.guarded_drop guard

/-- A session in which these steps were done, and that held no guards before. -/
def Session.afterSteps (n : Navigator) (host : σ) (steps : List ScopeStep) : Session (σ × Guards) :=
  steps.foldl (fun s a => (a.act s).2) { navigator := n, host := (host, []) }

theorem Session.afterSteps_snoc (n : Navigator) (host : σ) (steps : List ScopeStep)
    (a : ScopeStep) : afterSteps n host (steps ++ [a]) = (a.act (afterSteps n host steps)).2 := by
  simp only [afterSteps, List.foldl_append, List.foldl_cons, List.foldl_nil]

namespace Guarded

variable (s : Guarded) {guard depth : Nat}

theorem step_drop_of_held (held : s.guards.held? guard = some depth) :
    (s.step (.drop guard)).scopes = s.scopes.leave depth := by
  rw [step, held]
  rfl

theorem step_drop_of_not_held (dropped : s.guards.held? guard = none) :
    (s.step (.drop guard)).scopes = s.scopes := by
  rw [step, dropped]
  rfl

theorem step_drop_prefix (guard : Nat) :
    (s.step (.drop guard)).scopes.entries <+: s.scopes.entries := by
  cases h : s.guards.held? guard with
  | none =>
    simp only [s.step_drop_of_not_held h, List.prefix_rfl]
  | some depth =>
    rw [s.step_drop_of_held h]
    exact List.take_prefix _ _

end Guarded

/-! ## Who entered what -/

/-- Guarded scopes with what is known about their past. -/
structure Owned extends Guarded where
  /-- The guard that each scope was entered with. -/
  owners : List Nat := []
  /-- The path that was entered with each guard. -/
  paths : List String := []

namespace Owned

/-- A scope that was there before keeps its guard. -/
def step (s : Owned) : ScopeStep → Owned
  | .enter path =>
    { toGuarded := s.toGuarded.step (.enter path)
      owners := s.owners ++ [s.guards.length]
      paths := s.paths ++ [path] }
  | .drop guard =>
    { s with
      toGuarded := s.toGuarded.step (.drop guard)
      owners := s.owners.take (s.toGuarded.step (.drop guard)).scopes.depth }

theorem toGuarded_step (s : Owned) (a : ScopeStep) : (s.step a).toGuarded = s.toGuarded.step a := by
  cases a <;> rfl

/-- The scopes after all these steps. There are none at first. -/
def run (steps : List ScopeStep) : Owned := steps.foldl step {}

theorem run_snoc (steps : List ScopeStep) (a : ScopeStep) :
    run (steps ++ [a]) = (run steps).step a := by
  simp only [run, List.foldl_append, List.foldl_cons, List.foldl_nil]

/-- What is known beside them does not change what the steps do in a session. -/
theorem guarded_afterSteps (n : Navigator) (host : σ) (steps : List ScopeStep) :
    (Session.afterSteps n host steps).guarded = (run steps).toGuarded := by
  induction steps using List.reverseRecOn with
  | nil => rfl
  | append_singleton steps a ih =>
    rw [Session.afterSteps_snoc, Session.guarded_act, ih, run_snoc, toGuarded_step]

/-- Every scope is held by the guard that it was entered with, which knows where the scope stands. -/
structure Sound (s : Owned) : Prop where
  entries : s.scopes.entries.map some = s.owners.map (s.paths[·]?)
  known : s.paths.length = s.guards.length
  place : ∀ i guard, s.owners[i]? = some guard → s.guards.held? guard = some (i + 1)
  order : s.owners.Pairwise (· < ·)
  positive : ∀ guard depth, s.guards.held? guard = some depth → 0 < depth

namespace Sound

variable {s : Owned}

theorem length_owners (h : s.Sound) : s.owners.length = s.scopes.depth := by
  simpa [Scopes.depth] using (congrArg List.length h.entries).symm

theorem held_of_mem (h : s.Sound) {guard : Nat} (mem : guard ∈ s.owners) :
    ∃ depth, s.guards.held? guard = some depth := by
  obtain ⟨i, hi⟩ := List.mem_iff_getElem?.mp mem
  exact ⟨i + 1, h.place i guard hi⟩

theorem enter (h : s.Sound) (path : String) : (s.step (.enter path)).Sound := by
  have hnew : ∀ guard ∈ s.owners, guard < s.guards.length := by
    intro guard mem
    obtain ⟨depth, held⟩ := h.held_of_mem mem
    exact Guards.lt_length_of_held? held
  refine ⟨?_, by simp [step, Guarded.step, h.known], ?_, ?_, ?_⟩
  · have hold : s.owners.map ((s.paths ++ [path])[·]?) = s.owners.map (s.paths[·]?) := by
      refine List.map_congr_left fun guard mem => ?_
      rw [List.getElem?_append_left (h.known ▸ hnew guard mem)]
    simp [step, Guarded.step, Scopes.enter, h.entries, hold, ← h.known]
  · intro i guard hi
    rw [step, List.getElem?_append] at hi
    split at hi
    · exact Guards.held?_append_of_held? (h.place i guard hi) _
    · next hlast =>
      rw [List.getElem?_singleton] at hi
      split at hi
      · next hzero =>
        obtain rfl := Option.some.inj hi
        have hi : i = s.scopes.depth := by rw [← h.length_owners]; omega
        rw [hi, ← Scopes.depth_enter s.scopes path]
        exact Guards.held?_append_length _ _
      · exact absurd hi (by simp)
  · refine List.pairwise_append.mpr ⟨h.order, List.pairwise_singleton _ _, ?_⟩
    intro guard mem new hnew'
    rw [List.mem_singleton.mp hnew']
    exact hnew guard mem
  · intro guard depth held
    rcases Guards.held?_append_some _ _ held with old | rfl
    · exact h.positive guard depth old
    · rw [Scopes.depth_enter]
      exact Nat.succ_pos _

/-- The scopes that a drop leaves are not those of the guard that is dropped. -/
theorem drop (h : s.Sound) (guard : Nat) : (s.step (.drop guard)).Sound := by
  have hentries := List.prefix_iff_eq_take.mp (s.step_drop_prefix guard)
  refine ⟨?_, by simp [step, Guarded.step, h.known], ?_, h.order.sublist (List.take_sublist _ _), ?_⟩
  · rw [toGuarded_step, hentries, List.map_take, h.entries, ← List.map_take]
    rfl
  · intro i other hi
    rw [step, List.getElem?_take] at hi
    split at hi
    · next hlt =>
      have hplace := h.place i other hi
      have hne : guard ≠ other := by
        rintro rfl
        rw [s.step_drop_of_held hplace, Scopes.leave, Scopes.depth, List.length_take] at hlt
        omega
      exact (Guards.held?_set_none_of_ne hne).trans hplace
    · exact absurd hi (by simp)
  · intro other depth held
    exact h.positive other depth (Guards.held?_set_none held)

theorem owners_drop (h : s.Sound) {guard depth : Nat}
    (held : s.guards.held? guard = some depth) :
    (s.step (.drop guard)).owners = s.owners.take (depth - 1) := by
  rw [step, s.step_drop_of_held held, Scopes.leave, Scopes.depth, List.length_take,
    ← List.take_take, ← Scopes.depth, ← h.length_owners, List.take_length]

theorem owners_drop_of_not_held (h : s.Sound) {guard : Nat}
    (dropped : s.guards.held? guard = none) : (s.step (.drop guard)).owners = s.owners := by
  rw [step, s.step_drop_of_not_held dropped, ← h.length_owners, List.take_length]

theorem owners_split (h : s.Sound) {guard depth : Nat} (held : s.guards.held? guard = some depth)
    (mem : guard ∈ s.owners) :
    s.owners = s.owners.take (depth - 1) ++ guard :: s.owners.drop depth := by
  obtain ⟨i, hi⟩ := List.mem_iff_getElem?.mp mem
  have hdepth : i + 1 = depth := Option.some.inj ((h.place i guard hi).symm.trans held)
  obtain ⟨hlt, hget⟩ := List.getElem?_eq_some_iff.mp hi
  rw [← hdepth, Nat.add_sub_cancel, ← hget, ← List.drop_eq_getElem_cons hlt,
    List.take_append_drop]

end Sound

theorem sound_run (steps : List ScopeStep) : (run steps).Sound := by
  induction steps using List.reverseRecOn with
  | nil => exact ⟨rfl, rfl, by simp [run], by simp [run], by simp [run, Guards.held?]⟩
  | append_singleton steps a ih =>
    rw [run_snoc]
    cases a with
    | enter path => exact ih.enter path
    | drop guard => exact ih.drop guard

/-- No scope of a session outlives its guard: the scopes are those of guards that are held, in the
order in which they were entered, each at the depth that its guard was handed out with. -/
theorem scopes_of_held_guards (n : Navigator) (host : σ) (steps : List ScopeStep) :
    let s := run steps
    (Session.afterSteps n host steps).guarded = s.toGuarded ∧
      s.scopes.entries.map some = s.owners.map (s.paths[·]?) ∧
      (∀ guard ∈ s.owners, s.guards.held? guard ≠ none) ∧
      s.owners.Pairwise (· < ·) ∧
      (∀ i guard, s.owners[i]? = some guard → s.guards.held? guard = some (i + 1)) ∧
      ((∀ guard, s.guards.held? guard = none) → s.scopes.isEmpty = true) := by
  intro s
  have h : s.Sound := sound_run steps
  have hheld : ∀ guard ∈ s.owners, s.guards.held? guard ≠ none := by
    intro guard mem
    obtain ⟨depth, held⟩ := h.held_of_mem mem
    rw [held]
    exact Option.some_ne_none depth
  refine ⟨guarded_afterSteps n host steps, h.entries, hheld, h.order, h.place, ?_⟩
  intro hnone
  have howners : s.owners = [] :=
    List.eq_nil_iff_forall_not_mem.mpr fun guard mem => hheld guard mem (hnone guard)
  have hdepth : s.scopes.depth = 0 := by rw [← h.length_owners, howners, List.length_nil]
  exact List.isEmpty_iff.mpr (List.eq_nil_of_length_eq_zero hdepth)

/-! ## What a drop takes away -/

/-- Guard `upper` was handed out while the scope of guard `lower` was there. -/
def EnteredOver (steps : List ScopeStep) (lower upper : Nat) : Prop :=
  ∃ before path after, steps = before ++ .enter path :: after ∧
    (run before).guards.length = upper ∧ lower ∈ (run before).owners

theorem EnteredOver.snoc {steps : List ScopeStep} {lower upper : Nat}
    (h : EnteredOver steps lower upper) (a : ScopeStep) : EnteredOver (steps ++ [a]) lower upper := by
  obtain ⟨before, path, after, rfl, hupper, hlower⟩ := h
  exact ⟨before, path, after ++ [a], by simp, hupper, hlower⟩

/-- A scope that stands above another one was entered while that was there. -/
theorem owners_enteredOver (steps : List ScopeStep) :
    (run steps).owners.Pairwise (EnteredOver steps) := by
  induction steps using List.reverseRecOn with
  | nil => exact List.Pairwise.nil
  | append_singleton steps a ih =>
    have hold : (run steps).owners.Pairwise (EnteredOver (steps ++ [a])) := ih.imp (·.snoc a)
    rw [run_snoc]
    cases a with
    | enter path =>
      refine List.pairwise_append.mpr ⟨hold, List.pairwise_singleton _ _, ?_⟩
      intro lower mem upper hupper
      rw [List.mem_singleton.mp hupper]
      exact ⟨steps, path, [], rfl, rfl, mem⟩
    | drop guard => exact hold.sublist (List.take_sublist _ _)

/-- A drop takes away the scopes at the depth of its guard and deeper. If the scope of the guard is
among them, they are that one and those entered over it. If it is gone, nothing is taken away exactly
as long as the scopes have not grown to that depth again. -/
theorem drop_takes_own_scope (n : Navigator) (host : σ) (steps : List ScopeStep) (guard : Nat) :
    let s := run steps
    let after := s.step (.drop guard)
    (Session.afterSteps n host steps).guarded = s.toGuarded ∧
      (SessionM.drop guard (Session.afterSteps n host steps)).2.guarded = after.toGuarded ∧
      (s.guards.held? guard = none → after.scopes = s.scopes ∧ after.owners = s.owners) ∧
      ∀ depth, s.guards.held? guard = some depth →
        after.scopes.entries = s.scopes.entries.take (depth - 1) ∧
        after.owners = s.owners.take (depth - 1) ∧
        (guard ∈ s.owners → ∃ below above, s.owners = below ++ guard :: above ∧
          after.owners = below ∧ ∀ upper ∈ above, EnteredOver steps guard upper) ∧
        (guard ∉ s.owners → (after.scopes = s.scopes ↔ s.scopes.depth < depth)) := by
  intro s after
  have h : s.Sound := sound_run steps
  have hsession := guarded_afterSteps n host steps
  have hdropped : (SessionM.drop guard (Session.afterSteps n host steps)).2.guarded =
      after.toGuarded := by
    rw [Session.guarded_drop, hsession, toGuarded_step]
  refine ⟨hsession, hdropped, fun dropped =>
    ⟨s.step_drop_of_not_held dropped, h.owners_drop_of_not_held dropped⟩, ?_⟩
  intro depth held
  have hscopes : after.scopes = s.scopes.leave depth := s.step_drop_of_held held
  have howners : after.owners = s.owners.take (depth - 1) := h.owners_drop held
  refine ⟨congrArg Scopes.entries hscopes, howners, ?_, ?_⟩
  · intro mem
    have hsplit := h.owners_split held mem
    have hover := owners_enteredOver steps
    rw [hsplit, List.pairwise_append, List.pairwise_cons] at hover
    exact ⟨s.owners.take (depth - 1), s.owners.drop depth, hsplit, howners, hover.2.1.1⟩
  · intro _
    rw [hscopes]
    exact s.scopes.leave_eq_self_iff (h.positive guard depth held)

/-- The scope of a guard that is held is taken away by a guard whose own scope was gone before. -/
theorem late_drop_takes_live_scope :
    let s := run [.enter "a", .enter "b", .drop 0, .enter "c", .enter "d"]
    let after := s.step (.drop 1)
    s.guards.held? 1 = some 2 ∧ 1 ∉ s.owners ∧
      s.scopes.entries = ["c", "d"] ∧ after.scopes.entries = ["c"] ∧
      s.owners = [2, 3] ∧ after.guards.held? 3 = some 2 := by
  decide

end Owned

end PageNav
