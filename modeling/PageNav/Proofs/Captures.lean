import PageNav.Proofs.Company
import PageNav.Proofs.Dispatch
import PageNav.Proofs.Later

/-!
# The one request for names

Of all the hosts of a company one is asked for the names of its operations, and once only: that of
the session that needs them first. From then on the whole company goes by what it told.
-/

namespace PageNav

variable {ι τ α β S C : Type} {σ Subject Chain : ι → Type}

/-! ## Navigation asks for nothing -/

namespace Nav

/-- Whether an action changes nothing of a navigator but the atlas. -/
def Roams (action : Nav α) : Prop :=
  ∀ n, ∃ atlas, (action n).2 = { n with atlas }

theorem roams_pure (a : α) : Roams (pure a) :=
  fun n => ⟨n.atlas, rfl⟩

theorem roams_get : Roams (get : Nav Navigator) :=
  fun n => ⟨n.atlas, rfl⟩

theorem roams_bind {action : Nav α} {next : α → Nav β} (haction : Roams action)
    (hnext : ∀ a, Roams (next a)) : Roams (action >>= next) := by
  intro n
  obtain ⟨first, hfirst⟩ := haction n
  obtain ⟨atlas, hatlas⟩ := hnext (action n).1 (action n).2
  refine ⟨atlas, ?_⟩
  rw [bind_apply, hatlas, hfirst]

theorem roams_visit? (spot? : Option Spot) : Roams (visit? spot?) := by
  intro n
  cases spot? with
  | none => exact ⟨n.atlas, rfl⟩
  | some spot => exact ⟨(n.atlas.visit spot).2, rfl⟩

theorem roams_child (place : Place) (name : String) : Roams (child place name) :=
  roams_visit? _

theorem roams_descend (steps : List String) (place : Place) : Roams (descend place steps) := by
  induction steps generalizing place with
  | nil => exact roams_pure _
  | cons step steps ih =>
    apply roams_bind (roams_child place step)
    intro found
    cases found with
    | none => exact roams_pure none
    | some found => exact ih found

theorem roams_take (place : Place) (way : Way) : Roams (take place way) := by
  cases way with
  | child name => exact roams_child place name
  | walk route => exact roams_descend _ place
  | row column text =>
    unfold take
    cases place.rowFilter? with
    | none => exact roams_pure none
    | some filter => exact roams_bind roams_get fun _ => roams_visit? _

theorem roams_resolve (place : Place) (name : String) (names : OperationNames) :
    Roams (resolve place name names) := by
  intro n
  rw [resolve_eq]
  split
  · exact ⟨n.atlas, rfl⟩
  · cases h : (child place name n).1 with
    | none =>
      rw [(ownMeaning_other h).1]
      exact roams_child place name n
    | some found =>
      rw [ownMeaning_child h]
      exact roams_child place name n

theorem roams_listChild (style : ListingStyle) (level : Nat) {below : Place → Nav String}
    (hbelow : ∀ found, Roams (below found)) (key : String) {rest : Nav String} (hrest : Roams rest)
    (found : Option Place) : Roams (listChild style level below key rest found) := by
  cases found with
  | none => exact roams_bind hrest fun _ => roams_pure _
  | some found =>
    apply roams_bind roams_get
    intro n
    apply roams_bind (hbelow found)
    intro lines
    exact roams_bind hrest fun _ => roams_pure _

theorem roams_listChildren (style : ListingStyle) (level : Nat) {below : Place → Nav String}
    (hbelow : ∀ found, Roams (below found)) (place : Place) (keys : List String) :
    Roams (listChildren style level below place keys) := by
  induction keys with
  | nil => exact roams_pure ""
  | cons key keys ih =>
    rw [listChildren_bind]
    exact roams_bind (roams_child place key) (roams_listChild style level hbelow key ih)

theorem roams_listBelow (style : ListingStyle) (height level : Nat) (place : Place) :
    Roams (listBelow style level place height) := by
  induction height generalizing level place with
  | zero =>
    rw [listBelow_zero]
    apply roams_bind (roams_listChildren style level (fun _ => roams_pure "") place place.keys)
    exact fun _ => roams_pure _
  | succ height ih =>
    rw [listBelow_succ]
    apply roams_bind (roams_listChildren style level (ih (level + 1)) place place.keys)
    exact fun _ => roams_pure _

theorem roams_listing (style : ListingStyle) : Roams (listing style) :=
  roams_bind roams_get fun n => roams_listBelow style n.layout.height 0 n.root

end Nav

/-! ## Before and after the request -/

structure Untold (n : Navigator) (log : List (Note ι)) : Prop where
  operations : n.operations = none
  captures : n.captures = 0
  log : ∀ note ∈ log, note = .shows 0

/-- Whether the host of the session that needed names first was asked, and no other. -/
structure Told (first : ι) (names : List String) (n : Navigator) (log : List (Note ι)) : Prop where
  operations : n.operations = some (.ofList names)
  captures : n.captures = 1
  log : ∃ before after, log = before ++ .needs first :: .asks first names :: after ∧
    (∀ note ∈ before, note = .shows 0) ∧ ∀ note ∈ after, note = .shows 1 ∨ ∃ i, note = .needs i

section

variable {first : ι} {names : List String} {n : Navigator} {log : List (Note ι)}

theorem Untold.roams (untold : Untold n log) {action : Nav α} (h : Nav.Roams action) :
    Untold (action n).2 log := by
  obtain ⟨atlas, hatlas⟩ := h n
  rw [hatlas]
  exact ⟨untold.operations, untold.captures, untold.log⟩

theorem Untold.shows (untold : Untold n log) : Untold n (log ++ [.shows n.stats.captures]) := by
  refine ⟨untold.operations, untold.captures, List.forall_mem_append.mpr ⟨untold.log, ?_⟩⟩
  rw [List.forall_mem_singleton]
  exact congrArg Note.shows untold.captures

theorem Told.roams (told : Told first names n log) {action : Nav α} (h : Nav.Roams action) :
    Told first names (action n).2 log := by
  obtain ⟨atlas, hatlas⟩ := h n
  rw [hatlas]
  exact ⟨told.operations, told.captures, told.log⟩

theorem Told.append (told : Told first names n log) {note : Note ι}
    (h : note = .shows 1 ∨ ∃ i, note = .needs i) : Told first names n (log ++ [note]) := by
  obtain ⟨before, after, hlog, hbefore, hafter⟩ := told.log
  refine ⟨told.operations, told.captures, before, after ++ [note], ?_, hbefore, ?_⟩
  · rw [hlog]
    simp only [List.append_assoc, List.cons_append]
  · exact List.forall_mem_append.mpr ⟨hafter, List.forall_mem_singleton.mpr h⟩

theorem Told.shows (told : Told first names n log) :
    Told first names n (log ++ [.shows n.stats.captures]) :=
  told.append (.inl (congrArg Note.shows told.captures))

theorem Told.needs (told : Told first names n log) (i : ι) :
    Told first names n (log ++ [.needs i]) :=
  told.append (.inr ⟨i, rfl⟩)

end

/-! ## Hosts that tell other names -/

/-- The host as it would be if it offered these operations. -/
def Host.offering (names : List String) (host : Host τ S C) : Host τ S C :=
  { host with operationNames := fun state => (names, (host.operationNames state).2) }

/-! ## Actions once the names are told -/

namespace SessionM

open Session

section

variable {first : ι} {names : List String}

/-- Whether two actions do the same once the names are told, and leave it at that. -/
def Concur (first : ι) (names : List String) (a b : SessionM (τ × Company σ) α) : Prop :=
  ∀ s, Told first names s.navigator s.host.2.log →
    b s = a s ∧ Told first names (a s).2.navigator (a s).2.host.2.log

/-- Whether an action leaves the navigator and the company as they are. -/
def Quiet (a : SessionM (τ × Company σ) α) : Prop :=
  ∀ s, (a s).2.navigator = s.navigator ∧ (a s).2.host.2 = s.host.2

theorem Quiet.concur {a : SessionM (τ × Company σ) α} (h : Quiet a) : Concur first names a a := by
  intro s told
  obtain ⟨hnavigator, hcompany⟩ := h s
  rw [hnavigator, hcompany]
  exact ⟨rfl, told⟩

theorem quiet_tryHost (action : ExceptT Error (StateM τ) α) :
    Quiet (tryHost (ExceptT.mk (carry action.run)) : SessionM (τ × Company σ) α) := by
  intro s
  rw [tryHost_apply]
  exact ⟨rfl, rfl⟩

theorem concur_bind {a b : SessionM (τ × Company σ) α} {f g : α → SessionM (τ × Company σ) β}
    (h : Concur first names a b) (hnext : ∀ x, Concur first names (f x) (g x)) :
    Concur first names (a >>= f) (b >>= g) := by
  intro s told
  obtain ⟨hsame, htold⟩ := h s told
  rw [bind_apply, bind_apply, hsame]
  cases (a s).1 with
  | ok x => exact hnext x _ htold
  | error e => exact ⟨rfl, htold⟩

theorem concur_pure (x : α) : Concur first names (pure x : SessionM (τ × Company σ) α) (pure x) :=
  Quiet.concur fun _ => ⟨rfl, rfl⟩

theorem concur_throw (e : Error) :
    Concur first names (throw e : SessionM (τ × Company σ) α) (throw e) :=
  Quiet.concur fun _ => ⟨rfl, rfl⟩

theorem concur_get :
    Concur first names (get : SessionM (τ × Company σ) (Session (τ × Company σ))) get :=
  Quiet.concur fun _ => ⟨rfl, rfl⟩

theorem concur_navigate {action : Nav α} (h : Nav.Roams action) :
    Concur first names (navigate action : SessionM (τ × Company σ) α) (navigate action) :=
  fun _ told => ⟨rfl, told.roams h⟩

theorem named_of_operations {ω : Type} {names : OperationNames} {s : Session ω}
    (h : s.navigator.operations = some names) (host : Host ω S C) : s.named host = s := by
  rw [Session.named, h]

theorem concur_operations (host other : Host (τ × Company σ) S C) :
    Concur first names (operations host) (operations other) := by
  intro s told
  rw [operations_apply, operations_apply, names_of_operations told.operations,
    names_of_operations told.operations, named_of_operations told.operations,
    named_of_operations told.operations]
  exact ⟨rfl, told⟩

theorem concur_resolve (host other : Host (τ × Company σ) S C) (place : Place) (name : String) :
    Concur first names (resolve host place name) (resolve other place name) := by
  apply concur_bind (concur_operations host other)
  exact fun known => concur_navigate (Nav.roams_resolve place name known)

theorem concur_operation (host other : Host (τ × Company σ) S C) (place : Place) (name : String) :
    Concur first names (operation host place name) (operation other place name) := by
  rw [operation_bind, operation_bind]
  apply concur_bind (concur_operations host other)
  intro known
  apply concur_bind (concur_navigate (Nav.roams_resolve place name known))
  intro meaning
  unfold operationOf
  split
  · exact concur_pure _
  · split <;> exact concur_throw _

end

section

variable {first : ι} {names : List String} (host : Host τ S C) (i : ι)

theorem concur_lookUp (place : Place) :
    Concur first names (lookUp (host.noting σ i) place)
      (lookUp ((host.offering names).noting σ i) place) := by
  apply concur_bind concur_get
  intro s
  simp only
  split <;> exact (quiet_tryHost _).concur

theorem quiet_callOn (chain : C) (name : String) (args : List Json) :
    Quiet (callOn (host.noting σ i) chain name args) :=
  quiet_tryHost (host.call chain ⟨name, args⟩)

theorem quiet_query (path : String) (options : QueryOptions) :
    Quiet (query (host.noting σ i) path options) :=
  fun s => quiet_tryHost (host.query _ options) s

theorem concur_call (place : Place) (name : String) (args : List Json) :
    Concur first names (call (host.noting σ i) place name args)
      (call ((host.offering names).noting σ i) place name args) := by
  apply concur_bind (concur_operation _ _ place name)
  intro operation
  split
  · exact concur_throw _
  · exact concur_bind (concur_lookUp host i place) fun _ => (quiet_callOn host i _ name args).concur

variable {body other : S → SessionM (τ × Company σ) Unit}
  (hbody : ∀ subject, Concur first names (body subject) (other subject))
include hbody

omit host i in
theorem conduct_told (tree : Scoping τ S C) {carried : Company σ} {s : Session (τ × Company σ)}
    (told : Told first names s.navigator carried.log) :
    conduct other (tree.carrying carried) s = conduct body (tree.carrying carried) s ∧
      Told first names (conduct body (tree.carrying carried) s).2.navigator
        (conduct body (tree.carrying carried) s).2.host.2.log := by
  induction tree generalizing carried s with
  | done outcome state => cases outcome <;> exact ⟨rfl, told⟩
  | body subject state next ih =>
    obtain ⟨hsame, htold⟩ := hbody subject { s with host := (state, carried) } told
    unfold Scoping.carrying conduct
    simp only [hsame]
    exact ih _ _ htold

theorem concur_inScope (place : Place) (options : QueryOptions) (chain : C) :
    Concur first names (inScope (host.noting σ i) place options body chain)
      (inScope ((host.offering names).noting σ i) place options other chain) := by
  apply concur_bind (Quiet.concur fun _ => ⟨rfl, rfl⟩)
  intro depth s told
  obtain ⟨hsame, htold⟩ := conduct_told hbody (host.within chain options s.host.1) told
  let left (ended : Except Error C × Session (τ × Company σ)) :=
    (ended.1, { ended.2 with scopes := ended.2.scopes.leave depth })
  exact ⟨congrArg left hsame, htold⟩

theorem concur_within (place : Place) (options : QueryOptions) :
    Concur first names (within (host.noting σ i) place options body)
      (within ((host.offering names).noting σ i) place options other) := by
  rw [within_bind, within_bind]
  apply concur_bind concur_get
  intro s
  apply concur_bind (concur_operation _ _ place _)
  intro _
  apply concur_bind (concur_lookUp host i place)
  exact fun chain => concur_inScope host i hbody place options chain

end

/-! ## The first action that needs names -/

/-- Whether an action begins by asking the host for names, unless they are known. -/
def Opens {ω : Type} (host : Host ω S C) (action : SessionM ω α) : Prop :=
  ∀ s, action (s.named host) = action s

section

variable {ω : Type} (host : Host ω S C)

theorem named_named (s : Session ω) : (s.named host).named host = s.named host :=
  named_of_operations (s.named_operations host) host

theorem opens_operations : Opens host (operations host) := by
  intro s
  rw [operations_apply, operations_apply, named_named,
    names_of_operations (s.named_operations host)]

variable {host} in
theorem opens_bind {action : SessionM ω α} (h : Opens host action) (next : α → SessionM ω β) :
    Opens host (action >>= next) := by
  intro s
  rw [bind_apply, bind_apply, h s]

theorem opens_resolve (place : Place) (name : String) : Opens host (resolve host place name) :=
  opens_bind (opens_operations host) _

theorem opens_operation (place : Place) (name : String) : Opens host (operation host place name) :=
  opens_bind (opens_operations host) _

theorem opens_call (place : Place) (name : String) (args : List Json) :
    Opens host (call host place name args) :=
  opens_bind (opens_operation host place name) _

theorem opens_within (place : Place) (options : QueryOptions) (body : S → SessionM ω Unit) :
    Opens host (within host place options body) := by
  intro s
  have hopens := opens_bind (opens_operation host place s.navigator.settings.scopingOperation)
    fun _ => lookUp host place >>= inScope host place options body
  rw [within_bind, bind_apply, bind_apply, get_apply, get_apply]
  simp only [s.named_settings host]
  exact hopens s

end

end SessionM

/-! ## The first session that needs names -/

namespace Company

variable {c : Company σ} {i : ι}

theorem named_told (untold : Untold c.navigator c.log) (host : Host (σ i) S C) {s : Session _}
    (hs : s = ((c.note (.needs i)).lend i).named (host.noting σ i)) :
    Told i (host.operationNames (c.seats i).host).1 s.navigator s.host.2.log := by
  have hnone : ((c.note (.needs i)).lend i).navigator.operations = none := untold.operations
  rw [Session.named, hnone] at hs
  subst hs
  refine ⟨?_, congrArg (· + 1) untold.captures, c.log, [], ?_, untold.log, by simp⟩
  · rw [Session.names, hnone]
    rfl
  · exact List.append_assoc _ _ _

/-- Another host that tells the same names at this moment is asked the same. -/
theorem named_offering (untold : Untold c.navigator c.log) (host : Host (σ i) S C) :
    ((c.note (.needs i)).lend i).named
        ((host.offering (host.operationNames (c.seats i).host).1).noting σ i) =
      ((c.note (.needs i)).lend i).named (host.noting σ i) := by
  have hnone : ((c.note (.needs i)).lend i).navigator.operations = none := untold.operations
  unfold Session.named Session.names
  rw [hnone]
  rfl

variable [DecidableEq ι]

theorem act_quiet (untold : Untold c.navigator c.log) {a : SessionM (σ i × Company σ) α}
    (quiet : SessionM.Quiet a) : Untold (c.act i a).2.navigator (c.act i a).2.log := by
  obtain ⟨hnavigator, hcompany⟩ := quiet (c.lend i)
  change Untold (a (c.lend i)).2.navigator (a (c.lend i)).2.host.2.log
  rw [hnavigator, hcompany]
  exact untold

theorem act_told {first : ι} {names : List String} {a b : SessionM (σ i × Company σ) α}
    (concur : SessionM.Concur first names a b) (told : Told first names c.navigator c.log) :
    c.act i b = c.act i a ∧
      Told first names (c.act i a).2.navigator (c.act i a).2.log := by
  obtain ⟨hsame, htold⟩ := concur (c.lend i) told
  refine ⟨?_, htold⟩
  unfold act
  rw [hsame]

theorem act_first (untold : Untold c.navigator c.log) (host : Host (σ i) S C) {names : List String}
    (hnames : names = (host.operationNames (c.seats i).host).1)
    {a b : SessionM (σ i × Company σ) α} (ha : SessionM.Opens (host.noting σ i) a)
    (hb : SessionM.Opens ((host.offering names).noting σ i) b)
    (concur : SessionM.Concur i names a b) :
    (c.note (.needs i)).act i b = (c.note (.needs i)).act i a ∧
      Told i names ((c.note (.needs i)).act i a).2.navigator
        ((c.note (.needs i)).act i a).2.log := by
  subst hnames
  obtain ⟨hsame, htold⟩ := concur _ (named_told untold host rfl)
  rw [ha] at hsame htold
  rw [← named_offering untold host, hb] at hsame
  refine ⟨?_, htold⟩
  unfold act
  rw [hsame]

theorem act_resolve {first : ι} {names : List String}
    (told : Told first names c.navigator c.log) (host : Host (σ i × Company σ) S C) (place : Place)
    (name : String) :
    c.act i (SessionM.resolve host place name) =
      (.ok (Nav.resolve place name (.ofList names) c.navigator).1,
        { c with navigator := (Nav.resolve place name (.ofList names) c.navigator).2 }) := by
  have hknown : (c.lend i).navigator.operations = some (.ofList names) := told.operations
  have hoperations : SessionM.operations host (c.lend i) = (.ok (.ofList names), c.lend i) := by
    rw [SessionM.operations_apply, Session.names_of_operations hknown,
      SessionM.named_of_operations hknown]
  unfold act SessionM.resolve
  rw [SessionM.bind_apply, hoperations]
  simp only [SessionM.navigate_apply]
  unfold collect lend
  simp only [Function.update_eq_self]

end Company

/-! ## Runs -/

namespace Play

open SessionM Company

variable [DecidableEq ι] (hosts : (i : ι) → Host (σ i) (Subject i) (Chain i))

/-- Whether a play ends the same whatever names the hosts offer, once the names are told. -/
def Heeds (first : ι) (names : List String) (play : Play σ Subject Chain) : Prop :=
  ∀ c : Company σ, Told first names c.navigator c.log →
    play.run (fun i => (hosts i).offering names) c = play.run hosts c ∧
      Told first names (play.run hosts c).2.navigator (play.run hosts c).2.log

variable {hosts}

theorem Heeds.after {first : ι} {names : List String} {ended other : Except Error α × Company σ}
    (h : other = ended ∧ Told first names ended.2.navigator ended.2.log)
    {next : Except Error α → Play σ Subject Chain}
    (hnext : ∀ outcome, Heeds hosts first names (next outcome)) :
    (next other.1).run (fun i => (hosts i).offering names) other.2 =
        (next ended.1).run hosts ended.2 ∧
      Told first names ((next ended.1).run hosts ended.2).2.navigator
        ((next ended.1).run hosts ended.2).2.log := by
  obtain ⟨rfl, told⟩ := h
  exact hnext _ _ told

theorem Heeds.lent {first : ι} {names : List String} {i : ι}
    {body : Subject i → Play σ Subject Chain}
    (h : ∀ subject, Heeds hosts first names (body subject)) (subject : Subject i) :
    Concur first names (lent i ((body subject).run hosts))
      (lent i ((body subject).run fun i => (hosts i).offering names)) := by
  intro s told
  obtain ⟨hsame, htold⟩ := h subject (collect i s) told
  refine ⟨?_, htold⟩
  unfold Play.lent
  rw [hsame]

variable (hosts)

theorem heeds (first : ι) (names : List String) (play : Play σ Subject Chain) :
    Heeds hosts first names play := by
  induction play with
  | done outcome => exact fun c told => ⟨rfl, told⟩
  | look next ih => exact fun c told => ih _ _ told.shows
  | go place way next ih => exact fun c told => ih _ _ (told.roams (Nav.roams_take place way))
  | list style next ih => exact fun c told => ih _ _ (told.roams (Nav.roams_listing style))
  | resolveAmong place name known next ih =>
    exact fun c told => ih _ _ (told.roams (Nav.roams_resolve place name known))
  | askHost i action next ih => exact fun c told => ih _ _ told
  | rescope i action next ih => exact fun c told => ih _ _ told
  | resolve i place name next ih =>
    intro c told
    exact Heeds.after (act_told (concur_resolve _ _ place name) (told.needs i)) ih
  | call i place name args next ih =>
    intro c told
    exact Heeds.after (act_told (concur_call (hosts i) i place name args) (told.needs i)) ih
  | callOn i chain name args next ih =>
    intro c told
    exact Heeds.after (act_told (quiet_callOn (hosts i) i chain name args).concur told) ih
  | query i path options next ih =>
    intro c told
    exact Heeds.after (act_told (quiet_query (hosts i) i path options).concur told) ih
  | within i place options body next hbody ih =>
    intro c told
    have hwithin := concur_within (hosts i) i (Heeds.lent hbody) place options
    exact Heeds.after (act_told hwithin (told.needs i)) ih

/-- How a play ends before which no host was asked. -/
inductive Fate (play : Play σ Subject Chain) (c : Company σ) : Prop where
  | untold (h : Untold (play.run hosts c).2.navigator (play.run hosts c).2.log)
  | told (first : ι) (names : List String)
      (h : Told first names (play.run hosts c).2.navigator (play.run hosts c).2.log)
      (same : play.run (fun i => (hosts i).offering names) c = play.run hosts c)

variable {hosts}

theorem Fate.later {play rest : Play σ Subject Chain} {c d : Company σ} (fate : Fate hosts rest d)
    (hrun : play.run hosts c = rest.run hosts d)
    (hother : ∀ names, play.run (fun i => (hosts i).offering names) c =
      rest.run (fun i => (hosts i).offering names) d) : Fate hosts play c := by
  cases fate with
  | untold h =>
    rw [← hrun] at h
    exact .untold h
  | told first names h same =>
    rw [← hrun] at h same
    exact .told first names h ((hother names).trans same)

theorem Fate.first {c : Company σ} (untold : Untold c.navigator c.log) (i : ι)
    {play : Play σ Subject Chain} {next : Except Error α → Play σ Subject Chain}
    {act : ((i : ι) → Host (σ i) (Subject i) (Chain i)) → SessionM (σ i × Company σ) α}
    (hrun : ∀ hosts, play.run hosts c =
      (next ((c.note (.needs i)).act i (act hosts)).1).run hosts
        ((c.note (.needs i)).act i (act hosts)).2)
    (hopens : ∀ hosts, Opens ((hosts i).noting σ i) (act hosts))
    (hconcur : ∀ names, Concur i names (act hosts) (act fun i => (hosts i).offering names)) :
    Fate hosts play c := by
  obtain ⟨names, hnames⟩ : ∃ names, names = ((hosts i).operationNames (c.seats i).host).1 :=
    ⟨_, rfl⟩
  have hfirst := act_first untold (hosts i) hnames (hopens hosts)
    (hopens fun i => (hosts i).offering names) (hconcur names)
  obtain ⟨hsame, htold⟩ := Heeds.after hfirst fun outcome => heeds hosts i names (next outcome)
  rw [← hrun hosts] at hsame htold
  exact .told i names htold ((hrun _).trans hsame)

variable (hosts)

theorem fate (play : Play σ Subject Chain) {c : Company σ} (untold : Untold c.navigator c.log) :
    Fate hosts play c := by
  induction play generalizing c with
  | done outcome => exact .untold untold
  | look next ih => exact (ih _ untold.shows).later rfl fun _ => rfl
  | go place way next ih =>
    exact (ih _ (untold.roams (Nav.roams_take place way))).later rfl fun _ => rfl
  | list style next ih =>
    exact (ih _ (untold.roams (Nav.roams_listing style))).later rfl fun _ => rfl
  | resolveAmong place name known next ih =>
    exact (ih _ (untold.roams (Nav.roams_resolve place name known))).later rfl fun _ => rfl
  | askHost i action next ih | rescope i action next ih =>
    refine Fate.later (ih _ ?_) rfl fun _ => rfl
    exact untold
  | callOn i chain name args next ih =>
    have huntold := act_quiet untold (quiet_callOn (hosts i) i chain name args)
    exact (ih _ huntold).later rfl fun _ => rfl
  | query i path options next ih =>
    have huntold := act_quiet untold (quiet_query (hosts i) i path options)
    exact (ih _ huntold).later rfl fun _ => rfl
  | resolve i place name next _ =>
    exact Fate.first untold i (fun _ => rfl) (fun _ => opens_resolve _ place name)
      fun _ => concur_resolve _ _ place name
  | call i place name args next _ =>
    exact Fate.first untold i (fun _ => rfl) (fun _ => opens_call _ place name args)
      fun _ => concur_call (hosts i) i place name args
  | within i place options body next _ _ =>
    refine Fate.first untold i (fun _ => rfl) (fun _ => opens_within _ place options _) ?_
    -- the names are told before the body is run for the first time
    intro names
    have hbody (subject : Subject i) := heeds hosts i names (body subject)
    exact concur_within (hosts i) i (Heeds.lent hbody) place options

end Play

/-! ## What is noted -/

def Note.askedHost? : Note ι → Option ι
  | asks i _ => some i
  | _ => none

def Note.needySession? : Note ι → Option ι
  | needs i => some i
  | _ => none

def askedHosts (log : List (Note ι)) : List ι :=
  log.filterMap Note.askedHost?

def needySessions (log : List (Note ι)) : List ι :=
  log.filterMap Note.needySession?

@[simp] theorem askedHosts_needs (i : ι) (log : List (Note ι)) :
    askedHosts (.needs i :: log) = askedHosts log :=
  rfl

@[simp] theorem askedHosts_asks (i : ι) (names : List String) (log : List (Note ι)) :
    askedHosts (.asks i names :: log) = i :: askedHosts log :=
  rfl

@[simp] theorem askedHosts_shows (k : Nat) (log : List (Note ι)) :
    askedHosts (.shows k :: log) = askedHosts log :=
  rfl

theorem askedHosts_eq_nil {log : List (Note ι)}
    (h : ∀ note ∈ log, ∃ k, note = .shows k ∨ ∃ i, note = .needs i) : askedHosts log = [] := by
  refine List.filterMap_eq_nil_iff.mpr fun note hnote => ?_
  obtain ⟨k, rfl | ⟨i, rfl⟩⟩ := h note hnote <;> rfl

theorem needySessions_eq_nil {log : List (Note ι)} (h : ∀ note ∈ log, note = .shows 0) :
    needySessions log = [] := by
  refine List.filterMap_eq_nil_iff.mpr fun note hnote => ?_
  rw [h note hnote]
  rfl

section

variable {first : ι} {names : List String} {n : Navigator} {log : List (Note ι)}

theorem Untold.askedHosts_eq (untold : Untold n log) : askedHosts log = [] :=
  askedHosts_eq_nil fun note hnote => ⟨0, .inl (untold.log note hnote)⟩

theorem Told.askedHosts_eq (told : Told first names n log) : askedHosts log = [first] := by
  obtain ⟨before, after, rfl, hbefore, hafter⟩ := told.log
  have hnone : askedHosts before = [] :=
    askedHosts_eq_nil fun note hnote => ⟨0, .inl (hbefore note hnote)⟩
  have hlater : askedHosts after = [] :=
    askedHosts_eq_nil fun note hnote => ⟨1, hafter note hnote⟩
  unfold askedHosts at hnone ⊢
  rw [List.filterMap_append, hnone]
  exact congrArg (first :: ·) hlater

theorem Told.needySessions_eq (told : Told first names n log) :
    ∃ others, needySessions log = first :: others := by
  obtain ⟨before, after, rfl, hbefore, -⟩ := told.log
  have hnone := needySessions_eq_nil hbefore
  unfold needySessions at hnone ⊢
  rw [List.filterMap_append, hnone]
  exact ⟨_, rfl⟩

theorem Told.unique (told : Told first names n log) {i : ι} {others : List String}
    (h : .asks i others ∈ log) : i = first ∧ others = names := by
  obtain ⟨before, after, rfl, hbefore, hafter⟩ := told.log
  rcases List.mem_append.mp h with h | h
  · exact absurd (hbefore _ h) (by simp)
  · rcases List.mem_cons.mp h with h | h
    · exact absurd h (by simp)
    · rcases List.mem_cons.mp h with h | h
      · exact Note.asks.inj h
      · obtain h | ⟨j, h⟩ := hafter _ h <;> exact absurd h (by simp)

theorem Told.shown (told : Told first names n log) {seen rest : List (Note ι)} {k : Nat}
    (h : log = seen ++ .shows k :: rest) : k = (askedHosts seen).length := by
  obtain ⟨before, after, rfl, hbefore, hafter⟩ := told.log
  clear told
  induction before generalizing seen with
  | nil =>
    -- the look comes after the request, as neither of the two notes is a look
    rcases seen with _ | ⟨x, _ | ⟨y, seen⟩⟩
    · exact absurd (List.cons.inj h).1 (by simp)
    · exact absurd (List.cons.inj (List.cons.inj h).2).1 (by simp)
    · obtain ⟨hx, htail⟩ := List.cons.inj h
      obtain ⟨hy, hafterwards⟩ := List.cons.inj htail
      subst hx hy hafterwards
      obtain ⟨hseen, hrest⟩ := List.forall_mem_append.mp hafter
      have hnone : askedHosts seen = [] := askedHosts_eq_nil fun note hnote => ⟨1, hseen note hnote⟩
      have hshown : Note.shows k = .shows 1 :=
        (hrest _ List.mem_cons_self).resolve_right (by simp)
      rw [askedHosts_needs, askedHosts_asks, hnone]
      exact Note.shows.inj hshown
  | cons note before ih =>
    obtain ⟨rfl, hothers⟩ := List.forall_mem_cons.mp hbefore
    rcases seen with _ | ⟨x, seen⟩
    · exact (Note.shows.inj (List.cons.inj h).1).symm
    · obtain ⟨hx, htail⟩ := List.cons.inj h
      subst hx
      rw [askedHosts_shows]
      exact ih htail hothers

end

namespace Play

variable [DecidableEq ι] (hosts : (i : ι) → Host (σ i) (Subject i) (Chain i))

/-- One host at most is asked for its names, that of the session that needed them first, and
whenever the navigator is looked at it says so. If all hosts offered those names, everything would
go the same. -/
theorem names_asked_once (play : Play σ Subject Chain) (schema : Schema) (settings : Settings)
    (seats : (i : ι) → Seat (σ i)) :
    let start : Company σ := { navigator := .ofSchema schema settings, seats }
    let ended := (play.run hosts start).2
    (askedHosts ended.log).length ≤ 1 ∧
    askedHosts ended.log = (needySessions ended.log).take 1 ∧
    ended.navigator.stats.captures = (askedHosts ended.log).length ∧
    (∀ before k after, ended.log = before ++ .shows k :: after → k = (askedHosts before).length) ∧
    ∀ first names, .asks first names ∈ ended.log →
      play.run (fun i => (hosts i).offering names) start = play.run hosts start ∧
      ∀ i place name,
        ended.act i (SessionM.resolve ((hosts i).noting σ i) place name) =
          (.ok (Nav.resolve place name (.ofList names) ended.navigator).1,
            { ended with navigator :=
              (Nav.resolve place name (.ofList names) ended.navigator).2 }) := by
  intro start ended
  have untold : Untold start.navigator start.log := ⟨rfl, rfl, List.forall_mem_nil _⟩
  cases fate hosts play untold with
  | untold h =>
    have hasked := h.askedHosts_eq
    have hnone (note : Note ι) (hnote : note ∈ ended.log) : note = .shows 0 := h.log note hnote
    rw [hasked, needySessions_eq_nil hnone]
    refine ⟨Nat.zero_le 1, rfl, h.captures, ?_, ?_⟩
    · intro before k after hlog
      obtain ⟨hbefore, hafter⟩ := List.forall_mem_append.mp (hlog ▸ hnone)
      rw [askedHosts_eq_nil fun note hnote => ⟨0, .inl (hbefore note hnote)⟩]
      exact Note.shows.inj (hafter _ List.mem_cons_self)
    · exact fun first names hasks => absurd (hnone _ hasks) (by simp)
  | told first names h same =>
    obtain ⟨others, hneeding⟩ := h.needySessions_eq
    rw [h.askedHosts_eq, hneeding]
    refine ⟨Nat.le_refl 1, rfl, h.captures, fun before k after hlog => h.shown hlog, ?_⟩
    intro i told hasks
    obtain ⟨rfl, rfl⟩ := h.unique hasks
    refine ⟨same, fun i place name => ?_⟩
    exact Company.act_resolve h _ place name

/-- A host that offers names and runs the body of a scope once. -/
def namingHost (names : List String) : Host Unit Unit Unit where
  operationNames := pure names
  query _ _ := pure ()
  scopedSubject := pure ()
  call _ _ := pure ()
  within _ _ state := .body () state .done

def totalPlace : Place :=
  ⟨⟨"total", none⟩, ⟨1⟩⟩

/-- A session that scopes to a place, and in its body another one that calls an operation. -/
def callInBody : Play (fun _ : Bool => Unit) (fun _ => Unit) (fun _ => Unit) :=
  .look fun _ => .query false "total" {} fun _ =>
    .within true totalPlace {}
      (fun _ => .call false totalPlace "hover" [] fun called => .done (called.map fun _ => ()))
      fun outcome => .look fun _ => .done outcome

/-- What its own host offers is of no use to the session in the body. -/
theorem callInBody_refused :
    let hosts (i : Bool) := namingHost (if i then ["within"] else ["hover", "within"])
    let start : Company fun _ : Bool => Unit :=
      { navigator := .ofSchema .nil {}, seats := fun _ => { host := () } }
    let ended := callInBody.run hosts start
    ended.1 = .error (.unknownOperation "hover" "total") ∧
    ended.2.log =
      [.shows 0, .needs true, .asks true ["within"], .needs false, .shows 1] ∧
    callInBody.run (fun i => (hosts i).offering ["within"]) start = ended := by
  intro hosts start ended
  obtain ⟨-, -, -, -, hnames⟩ :=
    names_asked_once hosts callInBody .nil {} fun _ => { host := () }
  have hlog : ended.2.log =
    [.shows 0, .needs true, .asks true ["within"], .needs false, .shows 1] := rfl
  have hasks : .asks true ["within"] ∈ ended.2.log := by
    rw [hlog]
    simp
  exact ⟨rfl, hlog, (hnames _ _ hasks).1⟩

end Play

end PageNav
