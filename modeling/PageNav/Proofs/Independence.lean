import Mathlib.Data.List.Forall2
import PageNav.Proofs.Agreement
import PageNav.Proofs.Growth
import PageNav.Proofs.Telescope

/-!
# Sessions do not interfere

What an errand shows does not depend on what other errands did with the navigator before.
-/

namespace PageNav

open SessionM
open Navigator (GrownBy)

variable {σ τ μ ν Subject Subject' Chain Chain' α : Type} {offers : String → Prop}
  {N M : Navigator}

/-! ## Hosts that are not moved -/

/-- Whether a host answers alike in states that are alike, and is in such a state after it was asked
for the names of its operations. -/
structure Host.Unmoved (host : Host σ Subject Chain) (R : σ → σ → Prop) : Prop where
  equivalence : Equivalence R
  operationNames : ∀ state, R state (host.operationNames state).2
  query : ∀ selector options, Unaware R (host.query selector options).run
  scopedSubject : Unaware R host.scopedSubject.run
  call : ∀ chain c, Unaware R (host.call chain c).run
  within : ∀ chain options s t, R s t →
    (host.within chain options s).Alike R (host.within chain options t)

theorem Host.Unmoved.impartial {host : Host σ Subject Chain} {R : σ → σ → Prop}
    (h : host.Unmoved R) : host.Impartial R where
  namesLeft s _ hst := h.equivalence.trans (h.equivalence.symm (h.operationNames s)) hst
  namesRight _ t hst := h.equivalence.trans hst (h.operationNames t)
  query := h.query
  scopedSubject := h.scopedSubject
  call := h.call
  within := h.within

/-! ## Luggage -/

/-- Luggage with the same spots, in the same order, and the same in mind. -/
structure Luggage.Twin (N M : Navigator) (l l' : Luggage μ) : Prop where
  found : List.Forall₂ (PageNav.Twin N M) l.found l'.found
  memory : l.memory = l'.memory

def Errand.Alike (R : σ → σ → Prop) (N M : Navigator) :
    Errand.State σ μ Chain → Errand.State σ μ Chain → Prop :=
  Both (Both (Both R SameRequests) (Luggage.Twin N M)) Eq

theorem getD_twin {places places' : List Place} (h : List.Forall₂ (Twin N M) places places')
    {p q : Place} (hpq : Twin N M p q) (handle : Nat) :
    Twin N M (places.getD handle p) (places'.getD handle q) := by
  induction h generalizing handle with
  | nil => exact hpq
  | cons hfirst _ ih =>
    cases handle with
    | zero => exact hfirst
    | succ handle => exact ih handle

namespace SessionM

section
variable {R : σ → σ → Prop}

theorem agree_pack {action : StateM (Luggage μ) α} {action' : StateM (Luggage μ) α}
    (h : ∀ l l', Luggage.Twin N M l l' →
      (action l).1 = (action' l').1 ∧ Luggage.Twin N M (action l).2 (action' l').2) :
    Agree offers N M (Errand.Alike R N M) Eq
      (pack action : SessionM (Errand.State σ μ Chain) α) (pack action') := by
  refine ⟨moves_pack action, moves_pack action', ?_⟩
  intro s t alike _ _
  obtain ⟨⟨hhost, hluggage⟩, hguards⟩ := alike.host
  obtain ⟨hresult, hafter⟩ := h _ _ hluggage
  exact ⟨.ok hresult, alike.navigator, alike.scopes, ⟨hhost, hafter⟩, hguards⟩

theorem agree_remember (action : StateM μ α) :
    Agree offers N M (Errand.Alike R N M) Eq
      (remember action : SessionM (Errand.State σ μ Chain) α) (remember action) := by
  refine agree_pack fun l l' twin => ?_
  rw [twin.memory]
  exact ⟨rfl, twin.found, rfl⟩

theorem agree_placeOf (handle : Nat) :
    Agree offers N M (Errand.Alike R N M) (Twin N M)
      (placeOf handle : SessionM (Errand.State σ μ Chain) Place) (placeOf handle) := by
  refine ⟨moves_placeOf handle, moves_placeOf handle, ?_⟩
  intro s t alike ends endt
  have hroot : Twin N M s.navigator.root t.navigator.root := alike.navigator.root_twin ends endt
  exact ⟨.ok (getD_twin (.cons hroot alike.host.1.2.found) hroot handle), alike⟩

theorem agree_at (handle : Nat) {f g : Place → SessionM (Errand.State σ μ Chain) α}
    (hf : ∀ p, Moves offers (f p)) (hg : ∀ q, Moves offers (g q))
    (h : ∀ p q, Twin N M p q → Agree offers N M (Errand.Alike R N M) Eq (f p) (g q)) :
    Agree offers N M (Errand.Alike R N M) Eq (placeOf handle >>= f) (placeOf handle >>= g) :=
  agree_bind (agree_placeOf handle) hf hg h

theorem agree_keep {found found' : Option Place} (h : Option.Rel (Twin N M) found found') :
    Agree offers N M (Errand.Alike R N M) Eq
      (keep found : SessionM (Errand.State σ μ Chain) _) (keep found') := by
  obtain ⟨twin⟩ | _ := h
  · unfold keep
    refine agree_pack fun l l' hluggage => ?_
    rw [hluggage.found.length_eq, twin.spot]
    exact ⟨rfl, List.rel_append hluggage.found (.cons twin .nil), hluggage.memory⟩
  · exact agree_pure rfl

end

section
variable {R : τ → τ → Prop}

theorem agree_hold (path : String) :
    Agree offers N M (Both R Eq) Eq (hold path : SessionM (τ × Guards) Nat) (hold path) := by
  refine agree_then (agree_enter path) fun depth => agree_askHost ?_
  rintro ⟨state, guards⟩ ⟨state', _⟩ ⟨hstate, rfl⟩
  exact ⟨rfl, hstate, rfl⟩

theorem agree_drop (guard : Nat) :
    Agree offers N M (Both R Eq) Eq (drop guard : SessionM (τ × Guards) Unit) (drop guard) := by
  refine ⟨moves_drop guard, moves_drop guard, ?_⟩
  intro s t alike _ _
  have hguards : s.host.2 = t.host.2 := alike.host.2
  unfold drop
  rw [hguards]
  cases Guards.held? t.host.2 guard with
  | none => exact ⟨.ok rfl, alike.navigator, alike.scopes, alike.host.1, rfl⟩
  | some depth =>
    exact ⟨.ok rfl, alike.navigator, congrArg (·.leave depth) alike.scopes, alike.host.1, rfl⟩

end

end SessionM

/-! ## Errands agree -/

namespace Navigator

/-- Whether the numbers have lasted so far, those of symbols and those of places. -/
structure Roomy (n : Navigator) : Prop where
  symbols : n.atlas.symbols.size ≤ UInt32.size
  places : n.stats.placesBuilt < UInt32.size

theorem GrownBy.roomy {schema : Schema} {settings : Settings} {i : Nat} {n : Navigator}
    (h : GrownBy i (ofSchema schema settings) n) (few : 2 + 2 * i ≤ UInt32.size) : n.Roomy := by
  obtain ⟨symbols, places⟩ := size_ofSchema schema settings
  have hsymbols := h.symbols
  have hplaces : n.stats.placesBuilt ≤ _ := h.places
  exact ⟨by omega, by omega⟩

end Navigator

theorem Twin.same_iff {n : Navigator} (sound : n.atlas.Sound) (room : n.Roomy) {p q : Place}
    (hp : p ∈ n.atlas.places) (hq : q ∈ n.atlas.places) : p.id = q.id ↔ p.toSpot = q.toSpot := by
  constructor
  · intro h
    rw [sound.id_injective room.places hp hq h]
  · intro h
    rw [sound.place_unique hp hq h]

theorem Errand.agree {host : Host σ Subject Chain} {R : σ → σ → Prop} (hoffers : host.Offers offers)
    (impartial : host.Impartial R) (soundN : N.atlas.Sound) (roomN : N.Roomy)
    (soundM : M.atlas.Sound) (roomM : M.Roomy) (errand : Errand R μ Subject Chain) :
    SessionM.Agree offers N M (Errand.Alike R N M) Eq (errand.run host) (errand.run host) := by
  have offered : (host.equipped μ).Offers offers := fun state name => hoffers state.1.1.1 name
  have equipped : (host.equipped μ).Impartial (Errand.Alike R N M) :=
    impartial.recording.carrying.carrying
  have moves {β : Type} (next : β → Errand R μ Subject Chain) (x : β) :
    SessionM.Moves offers ((next x).run host) := (next x).moves hoffers
  -- The runs go on alike because the errand is told the same in both. Where a place comes in, each run
  -- has its own, and the two have one spot.
  induction errand with
  | done outcome =>
    refine ⟨moves_of_same fun _ => rfl, moves_of_same fun _ => rfl, ?_⟩
    exact fun s t alike _ _ => ⟨outcomes_eq_iff.mpr rfl, alike⟩
  | describe handle next ih =>
    refine agree_at handle (fun p => moves next _) (fun q => moves next _) fun p q twin => ?_
    rw [twin.spot]
    exact ih _
  | same handle other next ih =>
    have again (p : Place) : SessionM.Moves offers (do
        (next (p.id == (← placeOf other).id)).run host) :=
      moves_bind (moves_placeOf other) fun p' => moves next (p.id == p'.id)
    refine agree_at handle again again fun p q twin => ?_
    refine agree_at other (fun p' => moves next _) (fun q' => moves next _) fun p' q' twin' => ?_
    have hsame : (p.id == p'.id) = (q.id == q'.id) := by
      rw [Bool.eq_iff_iff, beq_iff_eq, beq_iff_eq,
        Twin.same_iff soundN roomN twin.left twin'.left,
        Twin.same_iff soundM roomM twin.right twin'.right, twin.spot, twin'.spot]
    rw [hsame]
    exact ih _
  | go handle way next ih =>
    have onward (found : Option Place) := moves_bind (moves_keep found) (moves next)
    have away (p : Place) := moves_bind (moves_navigate (Nav.moves_take p way)) onward
    refine agree_at handle away away fun p q twin => ?_
    refine agree_bind (agree_navigate (Nav.agree_take twin way)) onward onward ?_
    exact fun found found' hfound => agree_then (agree_keep hfound) ih
  | list style next ih => exact agree_then (agree_navigate (Nav.agree_listing style)) ih
  | resolve handle name next ih =>
    have onward (meaning : Option Meaning) := moves next (meaning.map Meaning.unnumbered)
    have away (p : Place) := moves_bind (moves_resolve offered p name) onward
    refine agree_at handle away away fun p q twin => ?_
    refine agree_bind (agree_resolve offered equipped twin.spot name) onward onward ?_
    intro x y hxy
    rw [show x.map Meaning.unnumbered = y.map Meaning.unnumbered from hxy]
    exact ih _
  | resolveAmong handle name names next ih =>
    have onward (meaning : Option Meaning) := moves next (meaning.map Meaning.unnumbered)
    have away (p : Place) :=
      moves_bind (moves_navigate (Nav.moves_resolve p name names)) onward
    refine agree_at handle away away fun p q twin => ?_
    refine agree_bind (agree_navigate (Nav.agree_resolve twin.spot name fun _ => rfl))
      onward onward ?_
    intro x y hxy
    rw [show x.map Meaning.unnumbered = y.map Meaning.unnumbered from hxy]
    exact ih _
  | call handle name args next ih =>
    have away (p : Place) :=
      moves_bind (moves_attempt (moves_call offered p name args)) (moves next)
    refine agree_at handle away away fun p q twin => ?_
    exact agree_then (agree_attempt (agree_call offered equipped twin.spot name args)) ih
  | callOn chain name args next ih =>
    exact agree_then (agree_attempt (agree_callOn equipped chain name args)) ih
  | query path options next ih =>
    exact agree_then (agree_attempt (agree_query equipped path options)) ih
  | look next ih =>
    refine agree_get (fun s => moves next _) (fun t => moves next _) fun s t alike => ?_
    rw [alike.scopes]
    exact ih _
  | enter path next ih => exact agree_then (agree_hold path) ih
  | drop guard next ih => exact agree_then (agree_drop guard) fun _ => ih
  | askHost action unaware next ih =>
    exact agree_then (agree_askHost (unaware_carry (unaware_carry (unaware_carry unaware)))) ih
  | remember action next ih => exact agree_then (agree_remember action) ih
  | within handle options body next hbody ih =>
    have inside (subject : Subject) := (body subject).moves hoffers
    have away (p : Place) :=
      moves_bind (moves_attempt (moves_within offered p options inside)) (moves next)
    refine agree_at handle away away fun p q twin => ?_
    exact agree_then (agree_attempt (agree_within offered equipped twin.spot options hbody)) ih

/-! ## What an errand shows -/

theorem map_toSpot_eq {places places' : List Place} (h : List.Forall₂ (Twin N M) places places') :
    places.map Place.toSpot = places'.map Place.toSpot := by
  induction h with
  | nil => rfl
  | cons hfirst _ ih => rw [List.map_cons, List.map_cons, hfirst.spot, ih]

theorem Navigator.ofSchema_fit (offers : String → Prop) (schema : Schema) (settings : Settings) :
    (ofSchema schema settings).Fit offers := by
  obtain ⟨charted, -⟩ := ofSchema_answered schema settings
  refine ⟨charted.sound, charted.root, ?_⟩
  intro names hnames
  exact absurd hnames (Option.not_mem_none names)

/-- An errand shows the same on a navigator that was used by any other errand, with a host of its
own, as on a new one. As it may keep in mind all that it is told, it is told the same as well. -/
theorem Errand.report_unaffected {hostA : Host τ Subject' Chain'} {hostB : Host σ Subject Chain}
    {Q : τ → τ → Prop} {R : σ → σ → Prop} (A : Errand Q ν Subject' Chain')
    (B : Errand R μ Subject Chain)
    (offered : ∀ state state' name,
      name ∈ (hostA.operationNames state).1 ↔ name ∈ (hostB.operationNames state').1)
    (unmoved : hostB.Unmoved R) (schema : Schema) (settings : Settings) (a : τ) (v : ν) (b : σ)
    (m : μ)
    (roomUsed : (B.navigatorAfter hostB
      (A.navigatorAfter hostA (.ofSchema schema settings) a v) b m).Roomy)
    (roomNew : (B.navigatorAfter hostB (.ofSchema schema settings) b m).Roomy) :
    B.report hostB (A.navigatorAfter hostA (.ofSchema schema settings) a v) b m =
      B.report hostB (.ofSchema schema settings) b m := by
  let offers : String → Prop := fun name => name ∈ (hostB.operationNames b).1
  have hA : hostA.Offers offers := fun state => offered state b
  have hB : hostB.Offers offers := fun state name =>
    (offered a state name).symm.trans (offered a b name)
  let new := Navigator.ofSchema schema settings
  let used := A.navigatorAfter hostA new a v
  have hused : Navigator.Later offers new used :=
    A.moves hA (start new a v)
  have hafter : Navigator.Later offers used (B.navigatorAfter hostB used b m) :=
    B.moves hB (start used b m)
  have hafter' : Navigator.Later offers new (B.navigatorAfter hostB new b m) :=
    B.moves hB (start new b m)
  have fit := Navigator.ofSchema_fit offers schema settings
  have alike : used.Alike offers new :=
    { left := fit.later hused (Nat.le_trans hafter.symbols roomUsed.symbols)
      right := fit
      settings := hused.settings
      layout := hused.layout
      root := congrArg Place.toSpot hused.root }
  let s : Session (State σ μ Chain) := start used b m
  let t : Session (State σ μ Chain) := start new b m
  have hstart : s.Alike offers
      (Errand.Alike R (B.navigatorAfter hostB used b m) (B.navigatorAfter hostB new b m)) t :=
    ⟨alike, rfl, ⟨⟨unmoved.equivalence.refl b, rfl⟩, ⟨.nil, rfl⟩⟩, rfl⟩
  have agree := B.agree hB unmoved.impartial (hafter.sound alike.left.sound roomUsed.symbols)
    roomUsed (hafter'.sound fit.sound roomNew.symbols) roomNew
  obtain ⟨houtcome, hend⟩ := agree.run s t hstart ⟨.refl _, roomUsed.symbols⟩
    ⟨.refl _, roomNew.symbols⟩
  obtain ⟨⟨⟨-, hrequests⟩, hluggage⟩, -⟩ := hend.host
  exact (Report.mk.injEq ..).mpr ⟨outcomes_eq_iff.mp houtcome, hrequests, hend.scopes,
    map_toSpot_eq hluggage.found, hluggage.memory⟩

/-- A host that counts how often it is asked for its operations, and tells nobody. -/
def countingHost : Host Nat Unit Unit where
  operationNames := fun count => (["within", "click"], count + 1)
  query _ _ := return ()
  scopedSubject := return ()
  call _ _ := return ()
  within _ _ state := .body () state .done

theorem countingHost_unmoved : countingHost.Unmoved fun _ _ => True where
  equivalence := ⟨fun _ => trivial, fun _ => trivial, fun _ _ => trivial⟩
  operationNames _ := trivial
  query _ _ _ _ _ := ⟨rfl, trivial⟩
  scopedSubject _ _ _ := ⟨rfl, trivial⟩
  call _ _ _ _ _ := ⟨rfl, trivial⟩
  within _ _ _ _ _ := ⟨rfl, trivial, fun _ _ _ _ => ⟨rfl, trivial⟩⟩

/-- Looks for the list, enters its scope and fails there, with the guard in hand. -/
def quitter : Errand (fun _ _ : Unit => True) Unit Unit Unit :=
  .resolve 0 "list" fun _ => .enter "list" fun _ => .done (.error (.host "out of time"))

/-- Goes to the list and clicks it, and once more inside its scope. -/
def visitor : Errand (fun _ _ : Nat => True) Unit Unit Unit :=
  .go 0 (.child "list") fun _ => .call 1 "click" [] fun _ =>
    .within 1 {} (fun _ => .call 1 "click" [] fun _ => .done (.ok ())) fun _ => .done (.ok ())

theorem quitter_builds : Builds 1 (quitter.run eagerHost) := by
  refine builds_then (fun _ => rfl) fun root => ?_
  refine builds_bind (j := 0) (builds_resolve _ root "list") fun _ => ?_
  exact builds_of_same fun _ => rfl

theorem click_builds {k : Nat}
    {next : Except Error Unit → Errand (fun _ _ : Nat => True) Unit Unit Unit}
    (hnext : ∀ outcome, Builds k ((next outcome).run countingHost)) :
    Builds (1 + k) ((Errand.call 1 "click" [] next).run countingHost) :=
  builds_then (fun _ => rfl) fun place =>
    builds_bind (builds_attempt (builds_call _ place "click" [])) hnext

theorem visitor_builds : Builds 4 (visitor.run countingHost) := by
  have hdone (outcome : Except Error Unit) :
      Builds 0 ((Errand.done outcome : Errand (fun _ _ : Nat => True) Unit Unit Unit).run
        countingHost) :=
    builds_of_same fun _ => rfl
  refine builds_then (fun _ => rfl) fun root => ?_
  have hlist (n : Navigator) : GrownBy 1 n (Nav.child root "list" n).2 :=
    Nav.visit?_grownBy (root.child? "list") n
  refine builds_bind (j := 3) (builds_navigate hlist) fun found => ?_
  refine builds_then (fun s => ?_) fun handle => ?_
  · cases found <;> rfl
  refine click_builds (k := 2) fun _ => ?_
  refine builds_then (fun _ => rfl) fun place => ?_
  refine builds_bind (i := 1 + 1 * 1) (j := 0) (builds_attempt ?_) fun _ => hdone _
  refine builds_within place (fun _ => click_builds fun _ => hdone _) (fun _ _ _ => ?_) {}
  exact fun _ _ => trivial

/-- What the one left behind makes no difference to the other. -/
theorem visitor_after_quitter :
    let new := Navigator.ofSchema listPage {}
    let used := quitter.navigatorAfter eagerHost new () ()
    (visitor.navigatorAfter countingHost used 0 ()).Roomy ∧
    (visitor.navigatorAfter countingHost new 0 ()).Roomy ∧
    visitor.report countingHost used 0 () = visitor.report countingHost new 0 () := by
  intro new used
  have hused : GrownBy 1 new used := quitter_builds (Errand.start new () ())
  have hvisitor (n : Navigator) : GrownBy 4 n (visitor.navigatorAfter countingHost n 0 ()) :=
    visitor_builds (Errand.start n 0 ())
  have roomUsed : (visitor.navigatorAfter countingHost used 0 ()).Roomy :=
    (hused.trans (hvisitor used)).roomy (by decide)
  have roomNew : (visitor.navigatorAfter countingHost new 0 ()).Roomy :=
    (hvisitor new).roomy (by decide)
  have offered : ∀ (state : Unit) (state' : Nat) (name : String),
      name ∈ (eagerHost.operationNames state).1 ↔ name ∈ (countingHost.operationNames state').1 := by
    intro state state' name
    change name ∈ ["click", "within"] ↔ name ∈ ["within", "click"]
    simp only [List.mem_cons, List.not_mem_nil, or_false]
    exact or_comm
  exact ⟨roomUsed, roomNew, Errand.report_unaffected quitter visitor offered countingHost_unmoved
    listPage {} () () 0 () roomUsed roomNew⟩

end PageNav
