import PageNav.Proofs.Descent
import PageNav.Proofs.Recording
import PageNav.Proofs.Relative

/-!
# Nested scopes telescope

The selectors that are looked up on the way into nested scopes make up the selector of what is
called inside them.
-/

namespace PageNav

open PageNav.Path SessionM

variable {σ Subject Chain : Type}

/-! ## Selectors inside scopes -/

/-- The selectors that lead through places inside each other, from the innermost scope on. -/
def selectorsFrom (attr : String) (scopes : Scopes) : List String → List String
  | [] => []
  | path :: paths =>
    Selector.ofPath attr (scopes.relative path) :: selectorsFrom attr (scopes.enter path) paths

def Scopes.tokens (scopes : Scopes) : List (List Char) :=
  scopes.innermost?.elim [] fun scope => tokensOf scope.toList

theorem Scopes.tokensOf_relative {scopes : Scopes} {path : String}
    (h : scopes.tokens <+: tokensOf path.toList) :
    tokensOf (scopes.relative path).toList = (tokensOf path.toList).drop scopes.tokens.length := by
  unfold Scopes.relative Scopes.tokens at *
  cases hscope : scopes.innermost? with
  | none =>
    simp only [Path.normal, String.toList_ofList, Option.elim_none, List.length_nil, List.drop_zero]
    exact tokensOf_join (wellCut_tokensOf path.toList)
  | some scope =>
    rw [hscope] at h
    rw [tokensOf_relativeTo]
    exact dropScope_below h

theorem Scopes.tokens_enter (scopes : Scopes) (path : String) :
    (scopes.enter path).tokens = tokensOf path.toList := by
  rw [Scopes.tokens, Scopes.innermost?_enter]
  rfl

theorem filled_drop_tokensOf (path : String) (n : Nat) :
    ∀ t ∈ (tokensOf path.toList).drop n, t ≠ [] :=
  fun _ ht => (wellCut_tokensOf path.toList).ne_nil (List.mem_of_mem_drop ht)

/-- Where each path starts with the tokens of the one before, the selectors make up that of the
last. -/
theorem joinFilled_selectorsFrom (attr : String) (scopes : Scopes) (paths : List String)
    (path : String)
    (h : (scopes.tokens :: (paths ++ [path]).map fun p => tokensOf p.toList).Pairwise (· <+: ·)) :
    joinFilled (selectorsFrom attr scopes (paths ++ [path])) =
      Selector.ofTokens attr.toList ((tokensOf path.toList).drop scopes.tokens.length) := by
  induction paths generalizing scopes with
  | nil =>
    obtain ⟨hfirst, -⟩ := List.pairwise_cons.mp h
    have hpath := scopes.tokensOf_relative (hfirst _ List.mem_cons_self)
    rw [List.nil_append, selectorsFrom, selectorsFrom, Selector.ofPath_eq_ofTokens, hpath]
    exact Selector.joinFilled_ofTokens attr.toList (filled_drop_tokensOf path _)
  | cons p paths ih =>
    obtain ⟨hfirst, hrest⟩ := List.pairwise_cons.mp h
    have hbefore : scopes.tokens <+: tokensOf p.toList := hfirst _ List.mem_cons_self
    have hp := scopes.tokensOf_relative hbefore
    have hlast : tokensOf p.toList <+: tokensOf path.toList :=
      (List.pairwise_cons.mp hrest).1 _ (by simp)
    rw [List.cons_append, List.map_cons, ← scopes.tokens_enter p] at hrest
    have hinside := ih (scopes.enter p) hrest
    rw [scopes.tokens_enter] at hinside
    rw [List.cons_append, selectorsFrom, Selector.ofPath_eq_ofTokens, hp]
    obtain ⟨a, ha⟩ := hbefore
    obtain ⟨b, hb⟩ := hlast
    have hsplit : (tokensOf p.toList).drop scopes.tokens.length ++
        (tokensOf path.toList).drop (tokensOf p.toList).length =
          (tokensOf path.toList).drop scopes.tokens.length := by
      rw [← hb, List.drop_left, ← ha, List.append_assoc, List.drop_left, List.drop_left]
    have hfilled := filled_drop_tokensOf path scopes.tokens.length
    rw [← hsplit] at hfilled ⊢
    exact Selector.joinFilled_ofTokens_cons attr.toList hfilled hinside

/-! ## Nested scopes -/

/-- Whether every look-up succeeds and every body is run. -/
structure Host.Willing (host : Host σ Subject Chain) : Prop where
  query : ∀ selector options state, ∃ chain, (host.query selector options state).1 = .ok chain
  scopedSubject : ∀ state, ∃ chain, (host.scopedSubject state).1 = .ok chain
  within : ∀ chain options state, ∃ subject state' next,
    host.within chain options state = .body subject state' next

/-- A scope on the way in, with the hops that its place is found by. -/
structure Stop where
  hops : List Hop
  place : Place
  options : QueryOptions
  /-- What is navigated in the scope before anything else is done there. -/
  wander : Nav Unit

/-- Scopes to one place inside the other and does something there. -/
def nest (host : Host σ Subject Chain) (inner : SessionM σ Chain) : List Stop → SessionM σ Chain
  | [] => inner
  | stop :: stops => within host stop.place stop.options fun _ => do
    navigate stop.wander
    let _ ← nest host inner stops
    return ()

theorem nest_keeps {host : Host σ Subject Chain} {inner : SessionM σ Chain}
    {I : Scopes → σ → Prop} (keeps : host.Keeps I)
    (anywhere : ∀ {scopes state} (other : Scopes), I scopes state → I other state)
    (hinner : Keeps I inner) (stops : List Stop) : Keeps I (nest host inner stops) := by
  induction stops with
  | nil => exact hinner
  | cons stop stops ih =>
    refine keeps_within keeps stop.place stop.options (anywhere _)
      (fun _ hafter => anywhere _ hafter) fun _ => ?_
    exact keeps_bind (keeps_navigate stop.wander) fun _ => keeps_bind ih fun _ => keeps_pure ()

section
variable {host : Host σ Subject Chain} (willing : host.Willing) {names : OperationNames}
include willing

theorem call_selectors {place : Place} {name : String} (args : List Json)
    {s : Session (σ × List (Request Chain))}
    (hplace : Dispatches (s.names host.recording) place name)
    (hname : name ≠ s.navigator.settings.scopingOperation) :
    selectors s.host.2 ++
        [Selector.ofPath s.navigator.settings.testAttribute (s.scopes.relative place.path)] <+:
      selectors (call host.recording place name args s).2.host.2 := by
  obtain ⟨chain, state, hfound, hselectors⟩ :=
    lookUp_recording willing.query willing.scopedSubject place (s.named host.recording)
  rw [selectors_named, Session.named_settings, Session.named_scopes] at hselectors
  unfold call
  rw [bind_apply, operation_apply hplace, beq_eq_false_iff_ne.mpr hname]
  change _ <+: selectors ((lookUp host.recording place >>= fun chain =>
    tryHost (host.recording.call chain ⟨name, args⟩)) (s.named host.recording)).2.host.2
  rw [bind_apply, hfound, ← hselectors]
  exact keeps_callOn (host.recording_keeps _) chain name args _ List.prefix_rfl

/-- The first look-up of a scope is that of its place. What the body does first comes next, in the
scope. -/
theorem within_selectors {place : Place} {options : QueryOptions}
    {body : Subject → SessionM (σ × List (Request Chain)) Unit} {found : List String}
    {s : Session (σ × List (Request Chain))}
    (hplace : Dispatches (s.names host.recording) place s.navigator.settings.scopingOperation)
    (keeps : ∀ subject, Keeps (fun _ state => found <+: selectors state.2) (body subject))
    (hfirst : ∀ subject (t : Session (σ × List (Request Chain))),
      t.navigator = (s.named host.recording).navigator → t.scopes = s.scopes.enter place.path →
      selectors t.host.2 = selectors s.host.2 ++
        [Selector.ofPath s.navigator.settings.testAttribute (s.scopes.relative place.path)] →
      found <+: selectors (body subject t).2.host.2) :
    found <+: selectors (within host.recording place options body s).2.host.2 := by
  have hop := operation_apply hplace
  obtain ⟨chain, state, hlookUp, hselectors⟩ :=
    lookUp_recording willing.query willing.scopedSubject place (s.named host.recording)
  rw [selectors_named, Session.named_settings, Session.named_scopes] at hselectors
  have hasked : asked host.recording place s = s.named host.recording := congrArg Prod.snd hop
  have htarget : target host.recording place s = _ := (congrArg _ hasked).trans hlookUp
  have hentered : entered host.recording place s =
      { s.named host.recording with scopes := s.scopes.enter place.path, host := state } := by
    unfold entered
    rw [htarget, Session.named_scopes]
  obtain ⟨subject, state', next, htree⟩ := willing.within chain options state.1
  let requests := state.2 ++ [.within chain options]
  have htree : host.recording.within chain options state =
      (Scoping.body subject state' next).carrying requests := congrArg (·.carrying requests) htree
  have hrequests : selectors requests = selectors state.2 :=
    (selectors_append state.2 (.within chain options)).trans (List.append_nil _)
  rw [within_accepted (congrArg Prod.fst hop), htarget]
  simp only
  rw [hentered, htree]
  exact conduct_after_body (P := fun _ requests => found <+: selectors requests) keeps
    (hfirst subject _ rfl rfl (hrequests.trans hselectors))

theorem nest_selectors {d : Place} {name : String} (args : List Json) (stops : List Stop)
    {s : Session (σ × List (Request Chain))} (hnames : s.names host.recording = names)
    (wanders : ∀ stop ∈ stops, Nav.Wanders stop.wander)
    (scoping : ∀ stop ∈ stops,
      Dispatches names stop.place s.navigator.settings.scopingOperation)
    (calling : Dispatches names d name) (hname : name ≠ s.navigator.settings.scopingOperation) :
    selectors s.host.2 ++ selectorsFrom s.navigator.settings.testAttribute s.scopes
        (stops.map (·.place.path) ++ [d.path]) <+:
      selectors (nest host.recording (call host.recording d name args) stops s).2.host.2 := by
  induction stops generalizing s with
  | nil => exact call_selectors willing args (hnames ▸ calling) hname
  | cons stop stops ih =>
    obtain ⟨hplace, scoping⟩ := List.forall_mem_cons.mp scoping
    obtain ⟨hwander, wanders⟩ := List.forall_mem_cons.mp wanders
    rw [nest, List.map_cons, List.cons_append, selectorsFrom, List.append_cons]
    refine within_selectors willing (hnames ▸ hplace) ?_ ?_
    · intro _
      refine keeps_bind (keeps_navigate stop.wander) ?_
      intro _
      refine keeps_bind (nest_keeps (host.recording_keeps _) (fun _ h => h) ?_ stops) fun _ =>
        keeps_pure ()
      exact keeps_call (host.recording_keeps _) d name args
    · intro _ t hnavigator hscopes ht
      -- The session in the scope, once all is navigated that is navigated first.
      let u : Session (σ × List (Request Chain)) :=
        { t with navigator := (stop.wander t.navigator).2 }
      have hsettings : u.navigator.settings = s.navigator.settings := by
        rw [hwander.settings, hnavigator, s.named_settings]
      have hknown : u.navigator.operations = some names := by
        rw [hwander.operations, hnavigator, s.named_operations, hnames]
      have hinside := ih (s := u) (Session.names_of_operations hknown host.recording) wanders
        (hsettings ▸ scoping) (hsettings ▸ hname)
      have hhost : u.host = t.host := rfl
      have hu : u.scopes = s.scopes.enter stop.place.path := hscopes
      rw [hsettings, hhost, ht, hu] at hinside
      rw [bind_apply, navigate_apply]
      simp only
      rw [bind_apply]
      cases (nest host.recording (call host.recording d name args) stops u).1 <;> exact hinside

end

/-! ## The whole way in -/

theorem length_selectorsFrom (attr : String) (scopes : Scopes) (paths : List String) :
    (selectorsFrom attr scopes paths).length = paths.length := by
  induction paths generalizing scopes with
  | nil => rfl
  | cons path paths ih => rw [selectorsFrom, List.length_cons, ih, List.length_cons]

theorem tokens_pairwise {attr : String} (hattr : Plain attr) {root : Spot} (tidy : root.Tidy)
    {found : List (List Hop × Place)}
    (hfound : ∀ e ∈ found, root.follow? attr e.1 = some e.2.toSpot)
    (inward : (found.map (·.1)).IsChain (· <+: ·)) :
    (found.map fun e => tokensOf e.2.path.toList).Pairwise (· <+: ·) := by
  have trans : Trans (fun a b : List Hop => a <+: b) (fun a b => a <+: b) (fun a b => a <+: b) :=
    ⟨List.IsPrefix.trans⟩
  have hhops := List.pairwise_map.mp inward.pairwise
  refine List.pairwise_map.mpr (hhops.imp_of_mem fun {e f} he hf hef => ?_)
  obtain ⟨more, hmore⟩ := hef
  have hlast := hfound f hf
  rw [← hmore, Spot.follow?_append, hfound e he, Option.bind_some] at hlast
  exact ((tidy.follow hattr (hfound e he)).1.follow hattr hlast).2

theorem joinFilled_stops {schema : Schema} {settings : Settings} {n : Navigator} {log : Log}
    {stops : List Stop} {hops : List Hop} {d : Place} (plainKeys : schema.PlainKeys)
    (plainAttribute : Plain settings.testAttribute) (tour : Tour schema settings n log)
    (few : n.atlas.symbols.size ≤ UInt32.size)
    (found : ∀ stop ∈ stops, (stop.hops, some stop.place) ∈ log)
    (foundInside : (hops, some d) ∈ log)
    (inward : (stops.map (·.hops) ++ [hops]).IsChain (· <+: ·)) :
    joinFilled (selectorsFrom settings.testAttribute {} (stops.map (·.place.path) ++ [d.path])) =
      d.selector settings.testAttribute := by
  obtain ⟨-, agrees⟩ := tour.answered few
  let entries := stops.map (fun stop => (stop.hops, stop.place)) ++ [(hops, d)]
  have hentries : ∀ e ∈ entries,
      (Spot.ofSchema schema settings).follow? settings.testAttribute e.1 = some e.2.toSpot := by
    intro e he
    have hlog : (e.1, some e.2) ∈ log := by
      rcases List.mem_append.mp he with he | he
      · obtain ⟨stop, hstop, rfl⟩ := List.mem_map.mp he
        exact found stop hstop
      · rw [List.mem_singleton.mp he]
        exact foundInside
    rw [← tour.follow?_eq]
    exact (agrees _ hlog).follow?
  have htokens := tokens_pairwise plainAttribute (Spot.tidy_ofSchema plainKeys settings) hentries
    (by simpa [entries, Function.comp_def] using inward)
  refine joinFilled_selectorsFrom settings.testAttribute {} _ d.path ?_
  refine List.pairwise_cons.mpr ⟨fun _ _ => List.nil_prefix, ?_⟩
  simpa [entries, Function.comp_def] using htokens

/-- On a page with plain keys, the selectors of the first look-ups, one for each scope and one for
the call inside all of them, make up the whole selector of the place that is called. The places may
be found before or on the way in: `log` is what was answered until the last one was found. -/
theorem nested_scopes_telescope {schema : Schema} {settings : Settings} {n : Navigator} {log : Log}
    {host : Host σ Subject Chain} {s : Session σ} {stops : List Stop} {hops : List Hop} {d : Place}
    {name : String} (args : List Json) (plainKeys : schema.PlainKeys)
    (plainAttribute : Plain settings.testAttribute) (tour : Tour schema settings n log)
    (few : n.atlas.symbols.size ≤ UInt32.size)
    (found : ∀ stop ∈ stops, (stop.hops, some stop.place) ∈ log)
    (foundInside : (hops, some d) ∈ log)
    (inward : (stops.map (·.hops) ++ [hops]).IsChain (· <+: ·))
    (configured : s.navigator.settings = settings) (outside : s.scopes = {})
    (willing : host.Willing)
    (wanders : ∀ stop ∈ stops, Nav.Wanders stop.wander)
    (scoping : ∀ stop ∈ stops, Dispatches (s.names host) stop.place settings.scopingOperation)
    (calling : Dispatches (s.names host) d name) (other : name ≠ settings.scopingOperation) :
    let looked := selectors
      (nest host.recording (call host.recording d name args) stops (s.carrying [])).2.host.2
    stops.length < looked.length ∧
      joinFilled (looked.take (stops.length + 1)) = d.selector settings.testAttribute := by
  intro looked
  subst configured
  have hjoin := joinFilled_stops plainKeys plainAttribute tour few found foundInside inward
  have hnames : (s.carrying []).names host.recording = s.names host := by
    unfold Session.names
    rfl
  have hlooked : selectorsFrom s.navigator.settings.testAttribute s.scopes
      (stops.map (·.place.path) ++ [d.path]) <+: looked :=
    nest_selectors willing args stops hnames wanders scoping calling other
  rw [outside] at hlooked
  have hlength := length_selectorsFrom s.navigator.settings.testAttribute {}
    (stops.map (·.place.path) ++ [d.path])
  rw [List.length_append, List.length_map, List.length_singleton] at hlength
  refine ⟨?_, ?_⟩
  · exact Nat.le_trans (Nat.le_of_eq hlength.symm) hlooked.length_le
  · rw [← hjoin, ← hlength]
    exact congrArg joinFilled (List.prefix_iff_eq_take.mp hlooked).symm

/-- A page with a list of rows. -/
def listPage : Schema :=
  .branch "list" (.branch "rows" (.branch "row" (.leaf "label" .nil) .nil) .nil) .nil

/-- A host that does all that it is asked for. -/
def eagerHost : Host Unit Unit Unit where
  operationNames := return ["click", "within"]
  query _ _ := return ()
  scopedSubject := return ()
  call _ _ := return ()
  within _ _ state := .body () state .done

theorem eagerHost_willing : eagerHost.Willing where
  query _ _ _ := ⟨(), rfl⟩
  scopedSubject _ := ⟨(), rfl⟩
  within _ _ _ := ⟨_, _, _, rfl⟩

def listSpot : Spot :=
  ⟨"list", some (.branch "rows" (.branch "row" (.leaf "label" .plain)
    (.filtered "row" (.leaf "label" .plain))) .plain)⟩

def rowSpot : Spot :=
  ⟨"list rows row:has([data-test='label']:contains('it\\'s ('))", some (.leaf "label" .plain)⟩

def labelSpot : Spot :=
  ⟨"list rows row:has([data-test='label']:contains('it\\'s (')) label", none⟩

/-- A click on the label of a row, inside the row, inside the list. The row is told by a text with a
quote, a blank and a bracket, and each scope is searched for what lies next on the way. -/
theorem click_in_row_telescopes : ∃ (n : Navigator) (log : Log) (list row label : Place),
    Tour listPage {} n log ∧ n.atlas.symbols.size ≤ UInt32.size ∧
    list.toSpot = listSpot ∧ row.toSpot = rowSpot ∧ label.toSpot = labelSpot ∧
    let stops : List Stop := [⟨[.child "list"], list, {}, do let _ ← Nav.child list "rows"⟩,
      ⟨[.child "list", .child "rows", .row "label" "it's ("], row, {},
        do let _ ← Nav.child row "label"⟩]
    let s : Session (Unit × List (Request Unit)) :=
      { navigator := .ofSchema listPage {}, host := ((), []) }
    let looked := selectors (nest eagerHost.recording
      (SessionM.call eagerHost.recording label "click" []) stops s).2.host.2
    2 < looked.length ∧ joinFilled (looked.take 3) = "[data-test='list'] [data-test='rows'] " ++
      "[data-test='row']:has([data-test='label']:contains('it\\'s (')) [data-test='label']" := by
  let n₀ := Navigator.ofSchema listPage {}
  have bound : (16 : Nat) < UInt32.size := by decide
  obtain ⟨symbols₀, -⟩ := Navigator.size_ofSchema listPage {}
  have root : n₀.root.toSpot = _ := Navigator.ofSchema_root listPage {}
  have hlist : n₀.root.toSpot.follow? ({} : Settings).testAttribute [.child "list"] =
      some listSpot := by
    rw [root]
    decide
  obtain ⟨n₁, log₁, list, tour₁, sub₁, mem₁, spot₁, symbols₁, -⟩ :=
    Tour.start.follow List.mem_cons_self hlist
      (Nat.le_trans (Nat.add_le_add_right symbols₀ _) (by decide))
  have hrow : list.toSpot.follow? ({} : Settings).testAttribute
      [.child "rows", .row "label" "it's ("] = some rowSpot := by
    rw [spot₁]
    decide
  obtain ⟨n₂, log₂, row, tour₂, sub₂, mem₂, spot₂, symbols₂, -⟩ :=
    tour₁.follow mem₁ hrow (by simp only [List.length_cons, List.length_nil] at *; omega)
  have hlabel : row.toSpot.follow? ({} : Settings).testAttribute [.child "label"] =
      some labelSpot := by
    rw [spot₂]
    decide
  obtain ⟨n₃, log₃, label, tour₃, sub₃, mem₃, spot₃, symbols₃, -⟩ :=
    tour₂.follow mem₂ hlabel (by simp only [List.length_cons, List.length_nil] at *; omega)
  have few : n₃.atlas.symbols.size ≤ UInt32.size := by
    simp only [List.length_cons, List.length_nil] at *
    omega
  let s : Session Unit := { navigator := n₀, host := () }
  let stops : List Stop := [⟨[.child "list"], list, {}, do let _ ← Nav.child list "rows"⟩,
    ⟨[.child "list", .child "rows", .row "label" "it's ("], row, {},
      do let _ ← Nav.child row "label"⟩]
  have plainKeys : listPage.PlainKeys :=
    ⟨by decide, ⟨by decide, ⟨by decide, ⟨by decide, trivial⟩, trivial⟩, trivial⟩, trivial⟩
  have found : ∀ stop ∈ stops, (stop.hops, some stop.place) ∈ log₃ :=
    List.forall_mem_cons.mpr ⟨sub₃ (sub₂ mem₁), List.forall_mem_singleton.mpr (sub₃ mem₂)⟩
  have inward : List.IsChain (· <+: ·) [[Hop.child "list"],
      [.child "list", .child "rows", .row "label" "it's ("],
      [.child "list", .child "rows", .row "label" "it's (", .child "label"]] := by decide
  have wanders : ∀ stop ∈ stops, Nav.Wanders stop.wander := by
    refine List.forall_mem_cons.mpr ⟨?_, List.forall_mem_singleton.mpr ?_⟩
    · exact Nav.wanders_bind (Nav.wanders_child list "rows") fun _ => Nav.wanders_pure ()
    · exact Nav.wanders_bind (Nav.wanders_child row "label") fun _ => Nav.wanders_pure ()
  have scoping : ∀ stop ∈ stops, Dispatches (s.names eagerHost) stop.place "within" := by
    refine List.forall_mem_cons.mpr ⟨⟨?_, rfl, ?_⟩, List.forall_mem_singleton.mpr ⟨?_, rfl, ?_⟩⟩
    · rw [spot₁]; decide
    · rw [spot₁]; decide
    · rw [spot₂]; decide
    · rw [spot₂]; decide
  have calling : Dispatches (s.names eagerHost) label "click" := by
    refine ⟨?_, rfl, ?_⟩
    · rw [spot₃]; decide
    · rw [spot₃]; decide
  obtain ⟨hlength, hlooked⟩ := nested_scopes_telescope [] plainKeys (by decide) tour₃ few found mem₃
    inward (s := s) rfl rfl eagerHost_willing wanders scoping calling (by decide)
  refine ⟨n₃, log₃, list, row, label, tour₃, few, spot₁, spot₂, spot₃, hlength, hlooked.trans ?_⟩
  rw [spot₃]
  decide +kernel

end PageNav
