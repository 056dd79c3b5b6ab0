import PageNav.Proofs.Errand
import PageNav.Proofs.Tour

/-!
# What sessions do to their navigator

Whatever is done with a session, its navigator has no place less than before, mixes none up as long
as the symbols last, and knows no other names of operations than the hosts offer.
-/

namespace PageNav

variable {σ μ Subject Chain α β : Type} {offers : String → Prop}

/-! ## Names that are offered -/

theorem OperationNames.contains_ofList (names : List String) (name : String) :
    (ofList names).contains name = true ↔ name ∈ names := by
  simp [ofList, contains]

def Host.Offers (offers : String → Prop) (host : Host σ Subject Chain) : Prop :=
  ∀ state name, name ∈ (host.operationNames state).1 ↔ offers name

namespace Navigator

/-- Whether the names are those that are offered, once they are known. -/
def Offers (offers : String → Prop) (n : Navigator) : Prop :=
  ∀ names ∈ n.operations, ∀ name, names.contains name = true ↔ offers name

/-- Whether `m` is `n` after more was done with it, by hosts that offer these operations. -/
structure Later (offers : String → Prop) (n m : Navigator) : Prop extends Grown n m where
  sound : n.atlas.Sound → m.atlas.symbols.size ≤ UInt32.size → m.atlas.Sound
  offered : n.Offers offers → m.Offers offers

theorem Later.refl (n : Navigator) : Later offers n n :=
  ⟨Grown.refl n, fun h _ => h, id⟩

theorem Later.trans {n m k : Navigator} (hnm : Later offers n m) (hmk : Later offers m k) :
    Later offers n k where
  toGrown := hnm.toGrown.trans hmk.toGrown
  sound h few := hmk.sound (hnm.sound h (Nat.le_trans hmk.symbols few)) few
  offered h := hmk.offered (hnm.offered h)

end Navigator

open Navigator (Later)

/-! ## Navigation -/

namespace Nav

/-- Whether an action leaves a navigator later. -/
def Moves (offers : String → Prop) (action : Nav α) : Prop :=
  ∀ n, Later offers n (action n).2

theorem moves_pure (a : α) : Moves offers (pure a) :=
  Later.refl

theorem moves_get : Moves offers (get : Nav Navigator) :=
  Later.refl

theorem moves_bind {action : Nav α} {next : α → Nav β} (haction : Moves offers action)
    (hnext : ∀ a, Moves offers (next a)) : Moves offers (action >>= next) :=
  fun n => (haction n).trans (hnext _ _)

theorem moves_visit? (spot? : Option Spot) : Moves offers (visit? spot?) := by
  intro n
  refine ⟨visit?_grown spot? n, ?_, ?_⟩
  · cases spot? with
    | none => exact fun sound _ => sound
    | some spot => exact fun sound few => Atlas.visit_sound sound few
  · cases spot? <;> exact id

theorem moves_child (place : Place) (name : String) : Moves offers (child place name) :=
  moves_visit? _

theorem moves_descend (steps : List String) (place : Place) :
    Moves offers (descend place steps) := by
  induction steps generalizing place with
  | nil => exact moves_pure _
  | cons step steps ih =>
    apply moves_bind (moves_child place step)
    intro found
    cases found with
    | none => exact moves_pure none
    | some found => exact ih found

theorem moves_row (container : Place) (filter : RowFilter) (column text : String) :
    Moves offers (row container filter column text) :=
  moves_bind moves_get fun _ => moves_visit? _

theorem moves_take (place : Place) (way : Way) : Moves offers (take place way) := by
  cases way with
  | child name => exact moves_child place name
  | walk route => exact moves_descend _ place
  | row column text =>
    unfold take
    cases place.rowFilter? with
    | none => exact moves_pure none
    | some filter => exact moves_row place filter column text

theorem moves_ownMeaning (place : Place) (name : String) : Moves offers (ownMeaning place name) := by
  intro n
  have hchild : Later offers n (child place name n).2 := moves_child place name n
  cases h : (child place name n).1 with
  | none => rw [(ownMeaning_other h).1]; exact hchild
  | some found => rw [ownMeaning_child h]; exact hchild

theorem moves_resolve (place : Place) (name : String) (names : OperationNames) :
    Moves offers (resolve place name names) := by
  intro n
  rw [resolve_eq]
  split
  · exact Later.refl n
  · exact moves_ownMeaning place name n

theorem moves_listChild (style : ListingStyle) (level : Nat) {below : Place → Nav String}
    (hbelow : ∀ found, Moves offers (below found)) (key : String) {rest : Nav String}
    (hrest : Moves offers rest) (found : Option Place) :
    Moves offers (listChild style level below key rest found) := by
  cases found with
  | none => exact moves_bind hrest fun _ => moves_pure _
  | some found =>
    refine moves_bind moves_get fun n => moves_bind (hbelow found) fun lines => ?_
    exact moves_bind hrest fun _ => moves_pure _

theorem moves_listChildren (style : ListingStyle) (level : Nat) {below : Place → Nav String}
    (hbelow : ∀ found, Moves offers (below found)) (place : Place) (keys : List String) :
    Moves offers (listChildren style level below place keys) := by
  induction keys with
  | nil => exact moves_pure ""
  | cons key keys ih =>
    rw [listChildren_bind]
    exact moves_bind (moves_child place key) (moves_listChild style level hbelow key ih)

theorem listBelow_zero (style : ListingStyle) (level : Nat) (place : Place) :
    listBelow style level place 0 = (do
      let lines ← listChildren style level (fun _ => return "") place place.keys
      return place.rowFilter?.elim "" (style.filterLine level) ++ lines) :=
  rfl

theorem listBelow_succ (style : ListingStyle) (level : Nat) (place : Place) (height : Nat) :
    listBelow style level place (height + 1) = (do
      let lines ← listChildren style level (fun found => listBelow style (level + 1) found height)
        place place.keys
      return place.rowFilter?.elim "" (style.filterLine level) ++ lines) :=
  rfl

theorem moves_listBelow (style : ListingStyle) (height level : Nat) (place : Place) :
    Moves offers (listBelow style level place height) := by
  induction height generalizing level place with
  | zero =>
    rw [listBelow_zero]
    exact moves_bind (moves_listChildren style level (fun _ => moves_pure "") place place.keys)
      fun _ => moves_pure _
  | succ height ih =>
    rw [listBelow_succ]
    exact moves_bind (moves_listChildren style level (ih (level + 1)) place place.keys)
      fun _ => moves_pure _

theorem moves_listing (style : ListingStyle) : Moves offers (listing style) :=
  moves_bind moves_get fun n => moves_listBelow style n.layout.height 0 n.root

end Nav

/-! ## Sessions -/

namespace SessionM

def operationOf (names : OperationNames) (place : Place) (name : String) :
    Option Meaning → SessionM σ Operation
  | some (.operation operation) => return operation
  | _ =>
    if names.contains name then throw (.shadowedOperation name place.path)
    else throw (.unknownOperation name place.path)

theorem operationOf_state (names : OperationNames) (place : Place) (name : String)
    (meaning : Option Meaning) (s : Session σ) :
    (operationOf names place name meaning s).2 = s := by
  unfold operationOf
  split
  · rfl
  · split <;> rfl

theorem operation_bind (host : Host σ Subject Chain) (place : Place) (name : String) :
    operation host place name = (do
      let names ← operations host
      let meaning ← navigate (Nav.resolve place name names)
      operationOf names place name meaning) :=
  rfl

/-- What is done in a scope once its place was looked up. -/
def inScope (host : Host σ Subject Chain) (place : Place) (options : QueryOptions)
    (body : Subject → SessionM σ Unit) (chain : Chain) : SessionM σ Chain := do
  let depth ← enter place.path
  fun s =>
    let (outcome, s) := conduct body (host.within chain options s.host) s
    (outcome, { s with scopes := s.scopes.leave depth })

theorem within_bind (host : Host σ Subject Chain) (place : Place) (options : QueryOptions)
    (body : Subject → SessionM σ Unit) :
    within host place options body = (do
      let s ← get
      let _ ← operation host place s.navigator.settings.scopingOperation
      let chain ← lookUp host place
      inScope host place options body chain) :=
  rfl

/-- Whether an action leaves the navigator of a session later, however it ends. -/
def Moves (offers : String → Prop) (action : SessionM σ α) : Prop :=
  ∀ s, Later offers s.navigator (action s).2.navigator

theorem moves_of_same {action : SessionM σ α} (h : ∀ s, (action s).2.navigator = s.navigator) :
    Moves offers action := by
  intro s
  rw [h s]
  exact Later.refl _

theorem moves_pure (a : α) : Moves offers (pure a : SessionM σ α) :=
  moves_of_same fun _ => rfl

theorem moves_throw (e : Error) : Moves offers (throw e : SessionM σ α) :=
  moves_of_same fun _ => rfl

theorem moves_get : Moves offers (get : SessionM σ (Session σ)) :=
  moves_of_same fun _ => rfl

theorem moves_bind {action : SessionM σ α} {next : α → SessionM σ β}
    (haction : Moves offers action) (hnext : ∀ a, Moves offers (next a)) :
    Moves offers (action >>= next) := by
  intro s
  have hfirst := haction s
  rw [bind_apply]
  cases (action s).1 with
  | ok a => exact hfirst.trans (hnext a _)
  | error e => exact hfirst

theorem moves_navigate {action : Nav α} (h : Nav.Moves offers action) :
    Moves offers (navigate action : SessionM σ α) :=
  fun s => h s.navigator

theorem moves_askHost (action : StateM σ α) : Moves offers (askHost action) :=
  moves_of_same fun _ => rfl

theorem moves_tryHost (action : ExceptT Error (StateM σ) α) : Moves offers (tryHost action) :=
  moves_of_same fun s => by rw [tryHost_apply]

theorem moves_enter (path : String) : Moves offers (enter path : SessionM σ Nat) :=
  moves_of_same fun _ => rfl

theorem moves_attempt {action : SessionM σ α} (h : Moves offers action) :
    Moves offers action.attempt :=
  fun s => h s

section
variable {host : Host σ Subject Chain} (hoffers : host.Offers offers)
include hoffers

theorem moves_operations : Moves offers (operations host) := by
  intro s
  rw [operations_apply, Session.named]
  cases h : s.navigator.operations with
  | some names => exact Later.refl _
  | none =>
    refine ⟨⟨rfl, rfl, rfl, Nat.le_refl _, fun _ hp => hp⟩, fun sound _ => sound, ?_⟩
    intro _ names hnames name
    obtain rfl := Option.some.inj hnames
    rw [Session.names, h]
    exact (OperationNames.contains_ofList _ name).trans (hoffers s.host name)

theorem moves_resolve (place : Place) (name : String) : Moves offers (resolve host place name) :=
  moves_bind (moves_operations hoffers) fun names =>
    moves_navigate (Nav.moves_resolve place name names)

omit hoffers in
theorem moves_operationOf (names : OperationNames) (place : Place) (name : String)
    (meaning : Option Meaning) :
    Moves offers (operationOf names place name meaning : SessionM σ Operation) :=
  moves_of_same fun s => by rw [operationOf_state]

theorem moves_operation (place : Place) (name : String) :
    Moves offers (operation host place name) := by
  rw [operation_bind]
  refine moves_bind (moves_operations hoffers) fun names => ?_
  exact moves_bind (moves_navigate (Nav.moves_resolve place name names))
    (moves_operationOf names place name)

omit hoffers in
theorem moves_lookUp (place : Place) : Moves offers (lookUp host place) := by
  refine moves_bind moves_get fun s => ?_
  simp only
  split <;> exact moves_tryHost _

theorem moves_call (place : Place) (name : String) (args : List Json) :
    Moves offers (call host place name args) := by
  refine moves_bind (moves_operation hoffers place name) fun operation => ?_
  split
  · exact moves_throw _
  · exact moves_bind (moves_lookUp place) fun chain => moves_tryHost _

omit hoffers in
theorem moves_query (path : String) (options : QueryOptions) :
    Moves offers (query host path options) :=
  moves_bind moves_get fun _ => moves_tryHost _

omit hoffers in
theorem moves_conduct {body : Subject → SessionM σ Unit}
    (hbody : ∀ subject, Moves offers (body subject)) (tree : Scoping σ Subject Chain) :
    Moves offers (conduct body tree) := by
  induction tree with
  | done outcome host => cases outcome <;> exact moves_of_same fun _ => rfl
  | body subject host next ih =>
    intro s
    have hrun := hbody subject { s with host }
    exact hrun.trans (ih _ _ (body subject { s with host }).2)

omit hoffers in
theorem moves_inScope (place : Place) (options : QueryOptions) {body : Subject → SessionM σ Unit}
    (hbody : ∀ subject, Moves offers (body subject)) (chain : Chain) :
    Moves offers (inScope host place options body chain) :=
  fun s => moves_conduct hbody _ { s with scopes := s.scopes.enter place.path }

theorem moves_within (place : Place) (options : QueryOptions) {body : Subject → SessionM σ Unit}
    (hbody : ∀ subject, Moves offers (body subject)) :
    Moves offers (within host place options body) := by
  rw [within_bind]
  refine moves_bind moves_get fun s => ?_
  refine moves_bind (moves_operation hoffers place _) fun _ => ?_
  exact moves_bind (moves_lookUp place) (moves_inScope place options hbody)

end

/-! ## Errands -/

theorem moves_pack (action : StateM (Luggage μ) α) :
    Moves offers (pack action : SessionM (Errand.State σ μ Chain) α) :=
  moves_askHost _

theorem moves_placeOf (handle : Nat) :
    Moves offers (placeOf handle : SessionM (Errand.State σ μ Chain) Place) :=
  moves_of_same fun _ => rfl

theorem moves_keep (found : Option Place) :
    Moves offers (keep found : SessionM (Errand.State σ μ Chain) (Option (Nat × Spot))) := by
  cases found with
  | none => exact moves_pure none
  | some place => exact moves_pack _

theorem moves_hold (path : String) : Moves offers (hold path : SessionM (σ × Guards) Nat) :=
  moves_bind (moves_enter path) fun _ => moves_askHost _

theorem moves_drop (guard : Nat) : Moves offers (drop guard : SessionM (σ × Guards) Unit) := by
  refine moves_of_same fun s => ?_
  unfold drop
  cases Guards.held? s.host.2 guard <;> rfl

end SessionM

open SessionM in
theorem Errand.moves {R : σ → σ → Prop} {host : Host σ Subject Chain} (hoffers : host.Offers offers)
    (errand : Errand R μ Subject Chain) : Moves offers (errand.run host) := by
  have equipped : (host.equipped μ).Offers offers := fun state name => hoffers state.1.1.1 name
  induction errand with
  | done outcome => exact moves_of_same fun _ => rfl
  | describe handle next ih => exact moves_bind (moves_placeOf handle) fun place => ih place.toSpot
  | same handle other next ih =>
    exact moves_bind (moves_placeOf handle) fun place =>
      moves_bind (moves_placeOf other) fun place' => ih (place.id == place'.id)
  | go handle way next ih =>
    refine moves_bind (moves_placeOf handle) fun place => ?_
    refine moves_bind (moves_navigate (Nav.moves_take place way)) fun found => ?_
    exact moves_bind (moves_keep found) ih
  | list style next ih => exact moves_bind (moves_navigate (Nav.moves_listing style)) ih
  | resolve handle name next ih =>
    refine moves_bind (moves_placeOf handle) fun place => ?_
    exact moves_bind (moves_resolve equipped place name) fun meaning => ih _
  | resolveAmong handle name names next ih =>
    refine moves_bind (moves_placeOf handle) fun place => ?_
    exact moves_bind (moves_navigate (Nav.moves_resolve place name names)) fun meaning => ih _
  | call handle name args next ih =>
    refine moves_bind (moves_placeOf handle) fun place => ?_
    exact moves_bind (moves_attempt (moves_call equipped place name args)) ih
  | callOn chain name args next ih =>
    exact moves_bind (moves_attempt (moves_tryHost _)) ih
  | query path options next ih => exact moves_bind (moves_attempt (moves_query path options)) ih
  | look next ih => exact moves_bind moves_get fun s => ih s.scopes
  | enter path next ih => exact moves_bind (moves_hold path) ih
  | drop guard next ih => exact moves_bind (moves_drop guard) fun _ => ih
  | askHost action unaware next ih => exact moves_bind (moves_askHost _) ih
  | remember action next ih => exact moves_bind (moves_pack _) ih
  | within handle options body next hbody ih =>
    refine moves_bind (moves_placeOf handle) fun place => ?_
    exact moves_bind (moves_attempt (moves_within equipped place options hbody)) ih

end PageNav
