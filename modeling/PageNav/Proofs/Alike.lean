import PageNav.Proofs.Later

/-!
# Two navigators of one page

What is asked of two navigators of one page gets the same answers, but for the numbers of places.
The answers are compared while the symbols of both last. That is known at the end of both runs, so
an answer is compared in view of the navigators at the end, which nothing later can take back.
-/

namespace PageNav

variable {α β : Type} {offers : String → Prop} {N M : Navigator}

/-! ## Navigators that are alike -/

/-- A place at the end of one run and the place of the same spot at the end of the other. -/
structure Twin (N M : Navigator) (p q : Place) : Prop where
  spot : p.toSpot = q.toSpot
  left : p ∈ N.atlas.places
  right : q ∈ M.atlas.places

namespace Navigator

/-- What is known of a navigator that was only used as it may be. -/
structure Fit (offers : String → Prop) (n : Navigator) : Prop where
  sound : n.atlas.Sound
  root : n.root ∈ n.atlas.places
  offered : n.Offers offers

theorem Fit.later {n m : Navigator} (fit : n.Fit offers) (later : Later offers n m)
    (few : m.atlas.symbols.size ≤ UInt32.size) : m.Fit offers where
  sound := later.sound fit.sound few
  root := later.root ▸ later.places _ fit.root
  offered := later.offered fit.offered

/-- Navigators of one page. -/
structure Alike (offers : String → Prop) (n m : Navigator) : Prop where
  left : n.Fit offers
  right : m.Fit offers
  settings : n.settings = m.settings
  layout : n.layout = m.layout
  root : n.root.toSpot = m.root.toSpot

/-- Whether `N` is `n` at the end of a run, with all symbols still told apart. -/
structure EndsAs (n N : Navigator) : Prop extends Grown n N where
  few : N.atlas.symbols.size ≤ UInt32.size

theorem EndsAs.of_later {n m : Navigator} (h : m.EndsAs N) (later : Later offers n m) :
    n.EndsAs N :=
  ⟨later.toGrown.trans h.toGrown, h.few⟩

theorem EndsAs.now {n : Navigator} (h : n.EndsAs N) : n.atlas.symbols.size ≤ UInt32.size :=
  Nat.le_trans h.symbols h.few

theorem Alike.later {n m n' m' : Navigator} (alike : n.Alike offers m) (hn : Later offers n n')
    (hm : Later offers m m') (endn : n'.EndsAs N) (endm : m'.EndsAs M) : n'.Alike offers m' where
  left := alike.left.later hn endn.now
  right := alike.right.later hm endm.now
  settings := hn.settings.trans (alike.settings.trans hm.settings.symm)
  layout := hn.layout.trans (alike.layout.trans hm.layout.symm)
  root := by rw [hn.root, hm.root, alike.root]

theorem Alike.root_twin {n m : Navigator} (alike : n.Alike offers m) (endn : n.EndsAs N)
    (endm : m.EndsAs M) : Twin N M n.root m.root :=
  ⟨alike.root, endn.places _ alike.left.root, endm.places _ alike.right.root⟩

end Navigator

open Navigator (Alike EndsAs)

/-! ## Answers that agree -/

namespace Nav

/-- Whether two actions of navigators that are alike give answers in the relation `V`. -/
structure Agree (offers : String → Prop) (N M : Navigator) (V : α → β → Prop) (a : Nav α)
    (b : Nav β) : Prop where
  left : Moves offers a
  right : Moves offers b
  answer : ∀ n m, n.Alike offers m → (a n).2.EndsAs N → (b m).2.EndsAs M → V (a n).1 (b m).1

section
variable {γ δ : Type} {V : α → β → Prop} {W : γ → δ → Prop}

theorem agree_pure {x : α} {y : β} (h : V x y) : Agree offers N M V (pure x) (pure y) :=
  ⟨moves_pure x, moves_pure y, fun _ _ _ _ _ => h⟩

theorem agree_bind {a : Nav α} {b : Nav β} {f : α → Nav γ} {g : β → Nav δ}
    (h : Agree offers N M V a b) (hf : ∀ x, Moves offers (f x)) (hg : ∀ y, Moves offers (g y))
    (hnext : ∀ x y, V x y → Agree offers N M W (f x) (g y)) :
    Agree offers N M W (a >>= f) (b >>= g) := by
  refine ⟨moves_bind h.left hf, moves_bind h.right hg, ?_⟩
  intro n m alike endn endm
  -- What ends well later has been well so far.
  have hn : (a n).2.EndsAs N := endn.of_later (hf _ _)
  have hm : (b m).2.EndsAs M := endm.of_later (hg _ _)
  have halike := alike.later (h.left n) (h.right m) hn hm
  exact (hnext _ _ (h.answer n m alike hn hm)).answer _ _ halike endn endm

theorem agree_then {a b : Nav α} {f : α → Nav γ} {g : α → Nav δ} (h : Agree offers N M Eq a b)
    (hnext : ∀ x, Agree offers N M W (f x) (g x)) : Agree offers N M W (a >>= f) (b >>= g) := by
  refine agree_bind h (fun x => (hnext x).left) (fun x => (hnext x).right) ?_
  rintro x _ rfl
  exact hnext x

theorem agree_get {f : Navigator → Nav γ} {g : Navigator → Nav δ} (hf : ∀ n, Moves offers (f n))
    (hg : ∀ m, Moves offers (g m))
    (h : ∀ n m, n.Alike offers m → Agree offers N M W (f n) (g m)) :
    Agree offers N M W (get >>= f) (get >>= g) := by
  refine ⟨moves_bind moves_get hf, moves_bind moves_get hg, ?_⟩
  exact fun n m alike => (h n m alike).answer n m alike

end

theorem agree_visit? (spot? : Option Spot) :
    Agree offers N M (Option.Rel (Twin N M)) (visit? spot?) (visit? spot?) := by
  refine ⟨moves_visit? spot?, moves_visit? spot?, ?_⟩
  intro n m alike endn endm
  cases spot? with
  | none => exact .none
  | some spot =>
    have hn := Atlas.visit_spot alike.left.sound endn.now
    have hm := Atlas.visit_spot alike.right.sound endm.now
    refine .some ⟨hn.trans hm.symm, endn.places _ ?_, endm.places _ ?_⟩
    · exact Atlas.visit_mem alike.left.sound
    · exact Atlas.visit_mem alike.right.sound

section
variable {p q : Place}

theorem agree_child (h : p.toSpot = q.toSpot) (name : String) :
    Agree offers N M (Option.Rel (Twin N M)) (child p name) (child q name) := by
  unfold child
  rw [h]
  exact agree_visit? _

theorem agree_descend (steps : List String) (twin : Twin N M p q) :
    Agree offers N M (Option.Rel (Twin N M)) (descend p steps) (descend q steps) := by
  induction steps generalizing p q with
  | nil => exact agree_pure (.some twin)
  | cons step steps ih =>
    apply agree_bind (agree_child twin.spot step)
    case hf | hg =>
      intro found
      cases found with
      | none => exact moves_pure none
      | some found => exact moves_descend steps found
    case hnext =>
      rintro _ _ (⟨htwin⟩ | _)
      · exact ih htwin
      · exact agree_pure .none

theorem agree_row (h : p.toSpot = q.toSpot) (filter : RowFilter) (column text : String) :
    Agree offers N M (Option.Rel (Twin N M)) (row p filter column text)
      (row q filter column text) := by
  refine agree_get (fun _ => moves_visit? _) (fun _ => moves_visit? _) fun n m alike => ?_
  rw [alike.settings, h]
  exact agree_visit? _

theorem agree_take (twin : Twin N M p q) (way : Way) :
    Agree offers N M (Option.Rel (Twin N M)) (take p way) (take q way) := by
  cases way with
  | child name => exact agree_child twin.spot name
  | walk route => exact agree_descend _ twin
  | row column text =>
    unfold take
    rw [show p.rowFilter? = q.rowFilter? from congrArg Spot.rowFilter? twin.spot]
    cases q.rowFilter? with
    | none => exact agree_pure .none
    | some filter => exact agree_row twin.spot filter column text

end

/-! ## Meanings -/

theorem unnumbered_congr {p q : Place} (h : p.toSpot = q.toSpot) :
    ({ p with id := default } : Place) = { q with id := default } := by
  cases p
  cases q
  simp_all

def SameMeaning (x y : Option Meaning) : Prop :=
  x.map Meaning.unnumbered = y.map Meaning.unnumbered

theorem SameMeaning.operation {x y : Option Meaning} (h : SameMeaning x y) :
    (∃ op op', x = some (.operation op) ∧ y = some (.operation op') ∧ op.scoping = op'.scoping) ∨
      (∀ op, x ≠ some (.operation op)) ∧ ∀ op, y ≠ some (.operation op) := by
  rcases x with _ | ⟨_ | _ | _ | op⟩ <;> rcases y with _ | ⟨_ | _ | _ | op'⟩ <;>
    simp_all [SameMeaning, Meaning.unnumbered]

theorem ownMeaning_state (place : Place) (name : String) (n : Navigator) :
    (ownMeaning place name n).2 = (child place name n).2 := by
  cases h : (child place name n).1 with
  | none => exact (ownMeaning_other h).1
  | some found => rw [ownMeaning_child h]

section
variable {p q : Place} (h : p.toSpot = q.toSpot)
include h

/-- Without a child of that name, what is meant does not depend on the navigator. -/
theorem ownMeaning_same {name : String} {n m : Navigator} (hp : (child p name n).1 = none)
    (hq : (child q name m).1 = none) :
    SameMeaning (ownMeaning p name n).1 (ownMeaning q name m).1 := by
  rw [ownMeaning, ownMeaning, bind_apply, bind_apply, hp, hq, h]
  have hfilter (rows : RowFilter) : SameMeaning (some (.filter p rows)) (some (.filter q rows)) := by
    rw [SameMeaning, Option.map_some, Option.map_some, Meaning.unnumbered, Meaning.unnumbered,
      unnumbered_congr h]
  cases q.rowFilter? with
  | none =>
    simp only [ite_self]
    split <;> rfl
  | some rows =>
    simp only
    split
    · exact hfilter rows
    · split <;> rfl

theorem agree_ownMeaning (name : String) :
    Agree offers N M SameMeaning (ownMeaning p name) (ownMeaning q name) := by
  refine ⟨moves_ownMeaning p name, moves_ownMeaning q name, ?_⟩
  intro n m alike endn endm
  rw [ownMeaning_state] at endn endm
  have hchild : Option.Rel (Twin N M) (child p name n).1 (child q name m).1 :=
    (agree_child h name).answer n m alike endn endm
  rcases hp : (child p name n).1 with _ | found <;> rcases hq : (child q name m).1 with _ | found'
  case none.none => exact ownMeaning_same h hp hq
  case some.some =>
    rw [hp, hq] at hchild
    obtain ⟨twin⟩ := hchild
    rw [ownMeaning_child hp, ownMeaning_child hq, SameMeaning, Option.map_some, Option.map_some,
      Meaning.unnumbered, Meaning.unnumbered, unnumbered_congr twin.spot]
  all_goals
    rw [hp, hq] at hchild
    cases hchild

theorem agree_resolve (name : String) {names names' : OperationNames}
    (hnames : ∀ name, names.contains name = names'.contains name) :
    Agree offers N M SameMeaning (resolve p name names) (resolve q name names') := by
  have hpq : (p.isElement && names.contains name && !p.defines name) =
      (q.isElement && names'.contains name && !q.defines name) := by
    rw [hnames, h]
  unfold resolve
  rw [hpq]
  split
  · refine agree_get (fun _ => moves_pure _) (fun _ => moves_pure _) fun n m alike => ?_
    refine agree_pure ?_
    simp only [SameMeaning, Option.map_some, Meaning.unnumbered, unnumbered_congr h, alike.settings]
  · exact agree_ownMeaning h name

end

/-! ## Listings -/

section
variable (style : ListingStyle) (level : Nat) {below below' : Place → Nav String}
  (hbelow : ∀ p q, Twin N M p q → Agree offers N M Eq (below p) (below' q))
  (moves : ∀ p, Moves offers (below p)) (moves' : ∀ q, Moves offers (below' q))
include hbelow moves moves'

theorem agree_listChild (key : String) {rest rest' : Nav String}
    (hrest : Agree offers N M Eq rest rest') {found found' : Option Place}
    (h : Option.Rel (Twin N M) found found') :
    Agree offers N M Eq (listChild style level below key rest found)
      (listChild style level below' key rest' found') := by
  have hlast (lines : String) :
      Agree offers N M Eq (do return lines ++ (← rest)) (do return lines ++ (← rest')) :=
    agree_then hrest fun _ => agree_pure rfl
  obtain ⟨twin⟩ | _ := h
  · refine agree_get (fun n => ?_) (fun m => ?_) fun n m alike => ?_
    · exact moves_bind (moves _) fun _ => (hlast _).left
    · exact moves_bind (moves' _) fun _ => (hlast _).right
    · rw [alike.settings, twin.spot]
      exact agree_then (hbelow _ _ twin) fun _ => hlast _
  · exact hlast ""

theorem agree_listChildren {p q : Place} (hpq : p.toSpot = q.toSpot) (keys : List String) :
    Agree offers N M Eq (listChildren style level below p keys)
      (listChildren style level below' q keys) := by
  induction keys with
  | nil => exact agree_pure rfl
  | cons key keys ih =>
    rw [listChildren_bind, listChildren_bind]
    refine agree_bind (agree_child hpq key) (moves_listChild style level moves key ih.left)
      (moves_listChild style level moves' key ih.right) ?_
    exact fun found found' => agree_listChild style level hbelow moves moves' key ih

end

theorem agree_listBelow (style : ListingStyle) (height level : Nat) {p q : Place}
    (h : p.toSpot = q.toSpot) :
    Agree offers N M Eq (listBelow style level p height) (listBelow style level q height) := by
  have hfilter : p.rowFilter? = q.rowFilter? := congrArg Spot.rowFilter? h
  have hkeys : p.keys = q.keys := congrArg Spot.keys h
  induction height generalizing level p q with
  | zero =>
    rw [listBelow_zero, listBelow_zero, hfilter, hkeys]
    have hleaf (p : Place) : Moves offers (pure "") := moves_pure ""
    exact agree_then
      (agree_listChildren style level (fun _ _ _ => agree_pure rfl) hleaf hleaf h q.keys)
      fun _ => agree_pure rfl
  | succ height ih =>
    rw [listBelow_succ, listBelow_succ, hfilter, hkeys]
    have hbelow (p q : Place) (twin : Twin N M p q) :=
      ih (level + 1) twin.spot (congrArg Spot.rowFilter? twin.spot) (congrArg Spot.keys twin.spot)
    have moves (p : Place) : Moves offers (listBelow style (level + 1) p height) :=
      moves_listBelow style height (level + 1) p
    exact agree_then (agree_listChildren style level hbelow moves moves h q.keys)
      fun _ => agree_pure rfl

theorem agree_listing (style : ListingStyle) : Agree offers N M Eq (listing style) (listing style) := by
  refine agree_get (fun n => moves_listBelow style _ 0 _) (fun m => moves_listBelow style _ 0 _) ?_
  intro n m alike
  rw [alike.layout]
  exact agree_listBelow style _ 0 alike.root

end Nav

end PageNav
