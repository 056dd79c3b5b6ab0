import PageNav.Navigation.Listing
import PageNav.Navigation.Meaning
import PageNav.Proofs.Places

/-!
# Tours

What a navigator answers is what the layout alone says, whatever was visited before.
-/

namespace PageNav

/-! ## Hops -/

/-- One step of pure navigation. -/
inductive Hop where
  | child (name : String)
  | row (column text : String)
deriving DecidableEq, Repr

namespace Spot

def hop? (attr : String) (s : Spot) : Hop → Option Spot
  | .child name => s.child? name
  | .row column text => do s.row? attr (← s.rowFilter?) column text

/-- Where hops lead, by the layout alone. -/
def follow? (attr : String) (s : Spot) (hops : List Hop) : Option Spot :=
  hops.foldlM (hop? attr) s

def ofSchema (schema : Schema) (settings : Settings) : Spot :=
  ⟨"", some (Layout.ofSchema settings.rowTable schema)⟩

theorem follow?_append (attr : String) (s : Spot) (hops more : List Hop) :
    s.follow? attr (hops ++ more) = (s.follow? attr hops).bind (·.follow? attr more) := by
  unfold follow?
  rw [List.foldlM_append]
  rfl

theorem follow?_concat {attr : String} {s t : Spot} {hops : List Hop}
    (h : s.follow? attr hops = some t) (hop : Hop) :
    s.follow? attr (hops ++ [hop]) = t.hop? attr hop := by
  rw [follow?_append, h, Option.bind_some]
  simp [follow?]

end Spot

/-! ## Navigators that have grown -/

namespace Navigator

/-- Whether `m` is `n` after more visits. -/
structure Grown (n m : Navigator) : Prop where
  settings : m.settings = n.settings
  layout : m.layout = n.layout
  root : m.root = n.root
  symbols : n.atlas.symbols.size ≤ m.atlas.symbols.size
  places : ∀ p ∈ n.atlas.places, p ∈ m.atlas.places

theorem Grown.refl (n : Navigator) : Grown n n :=
  ⟨rfl, rfl, rfl, Nat.le_refl _, fun _ h => h⟩

theorem Grown.trans {n m k : Navigator} (hnm : Grown n m) (hmk : Grown m k) : Grown n k where
  settings := hmk.settings.trans hnm.settings
  layout := hmk.layout.trans hnm.layout
  root := hmk.root.trans hnm.root
  symbols := Nat.le_trans hnm.symbols hmk.symbols
  places := fun p hp => hmk.places p (hnm.places p hp)

/-- Whether `m` is `n` with so many places more at most. -/
structure GrownBy (count : Nat) (n m : Navigator) : Prop where
  symbols : m.atlas.symbols.size ≤ n.atlas.symbols.size + 2 * count
  places : m.atlas.places.size ≤ n.atlas.places.size + count

namespace GrownBy

variable {i j : Nat} {n m k : Navigator}

theorem refl (n : Navigator) : GrownBy 0 n n :=
  ⟨Nat.le_refl _, Nat.le_refl _⟩

theorem trans (hnm : GrownBy i n m) (hmk : GrownBy j m k) : GrownBy (i + j) n k where
  symbols := by have := hnm.symbols; have := hmk.symbols; omega
  places := by have := hnm.places; have := hmk.places; omega

theorem mono (h : GrownBy i n m) (hij : i ≤ j) : GrownBy j n m where
  symbols := by have := h.symbols; omega
  places := by have := h.places; omega

end GrownBy

def follow? (n : Navigator) (hops : List Hop) : Option Spot :=
  n.root.toSpot.follow? n.settings.testAttribute hops

theorem Grown.follow? {n m : Navigator} (h : Grown n m) (hops : List Hop) :
    m.follow? hops = n.follow? hops := by
  rw [Navigator.follow?, Navigator.follow?, h.root, h.settings]

/-- Every place of the navigator can be reached, and its root is one of them. -/
structure Charted (n : Navigator) : Prop where
  sound : n.atlas.Sound
  root : n.root ∈ n.atlas.places
  reached : ∀ p ∈ n.atlas.places, ∃ hops, n.follow? hops = some p.toSpot

/-- An answer that the layout gives as well. -/
def Agrees (n : Navigator) (hops : List Hop) (answer : Option Place) : Prop :=
  answer.map Place.toSpot = n.follow? hops ∧ ∀ p ∈ answer, p ∈ n.atlas.places

theorem Agrees.grown {n m : Navigator} (h : Grown n m) {hops : List Hop} {answer : Option Place}
    (agrees : n.Agrees hops answer) : m.Agrees hops answer := by
  refine ⟨?_, fun p hp => h.places p (agrees.2 p hp)⟩
  rw [h.follow?]
  exact agrees.1

theorem Agrees.follow? {n : Navigator} {hops : List Hop} {p : Place}
    (agrees : n.Agrees hops (some p)) : n.follow? hops = some p.toSpot :=
  agrees.1.symm

end Navigator

namespace Nav

open Navigator

theorem bind_apply {α β : Type} (action : Nav α) (next : α → Nav β) (n : Navigator) :
    (action >>= next) n = next (action n).1 (action n).2 :=
  rfl

theorem get_apply (n : Navigator) : (get : Nav Navigator) n = (n, n) :=
  rfl

/-! ## Visits -/

theorem visit?_some (spot : Spot) (n : Navigator) :
    visit? (some spot) n =
      (some (n.atlas.visit spot).1, { n with atlas := (n.atlas.visit spot).2 }) :=
  rfl

theorem visit?_grown (spot? : Option Spot) (n : Navigator) : n.Grown (visit? spot? n).2 := by
  cases spot? with
  | none => exact Grown.refl n
  | some spot =>
    rw [visit?_some]
    refine ⟨rfl, rfl, rfl, ?_, fun p hp => Atlas.mem_places_visit spot hp⟩
    rw [Atlas.symbols_visit]
    exact (Atlas.extends_keyOf n.atlas spot).1

theorem visit?_grownBy (spot? : Option Spot) (n : Navigator) :
    GrownBy 1 n (visit? spot? n).2 := by
  cases spot? with
  | none => exact ⟨Nat.le_add_right _ _, Nat.le_add_right _ _⟩
  | some spot =>
    refine ⟨?_, Atlas.size_places_visit_le n.atlas spot⟩
    rw [visit?_some, Atlas.symbols_visit]
    exact Atlas.size_keyOf_le n.atlas spot

section
variable {n : Navigator}

theorem visit?_charted (charted : n.Charted) {hops : List Hop} {spot? : Option Spot}
    (hspot : n.follow? hops = spot?)
    (few : (visit? spot? n).2.atlas.symbols.size ≤ UInt32.size) :
    (visit? spot? n).2.Charted ∧ (visit? spot? n).2.Agrees hops (visit? spot? n).1 := by
  have hgrown := visit?_grown spot? n
  cases spot? with
  | none => exact ⟨charted, hspot.symm, fun _ h => absurd h (Option.some_ne_none _).symm⟩
  | some spot =>
    rw [visit?_some] at few hgrown ⊢
    refine ⟨⟨Atlas.visit_sound charted.sound few, hgrown.places _ charted.root, ?_⟩, ?_, ?_⟩
    · intro p hp
      rcases Atlas.mem_of_mem_visit charted.sound few hp with hold | hnew
      · obtain ⟨before, hbefore⟩ := charted.reached p hold
        exact ⟨before, (hgrown.follow? before).trans hbefore⟩
      · exact ⟨hops, by rw [hgrown.follow?, hspot, hnew]⟩
    · rw [hgrown.follow?, hspot, Option.map_some, Atlas.visit_spot charted.sound few]
    · intro p hp
      obtain rfl := Option.some.inj hp
      exact Atlas.visit_mem charted.sound

variable {hops : List Hop} {place : Place}

theorem child_charted (charted : n.Charted) (agrees : n.Agrees hops (some place)) (name : String)
    (few : (child place name n).2.atlas.symbols.size ≤ UInt32.size) :
    (child place name n).2.Charted ∧
      (child place name n).2.Agrees (hops ++ [.child name]) (child place name n).1 :=
  visit?_charted charted (Spot.follow?_concat agrees.follow? (.child name)) few

theorem row_charted (charted : n.Charted) (agrees : n.Agrees hops (some place)) {filter : RowFilter}
    (hfilter : place.rowFilter? = some filter) (column text : String)
    (few : (row place filter column text n).2.atlas.symbols.size ≤ UInt32.size) :
    (row place filter column text n).2.Charted ∧
      (row place filter column text n).2.Agrees (hops ++ [.row column text])
        (row place filter column text n).1 := by
  have hhop := Spot.follow?_concat agrees.follow? (.row column text)
  rw [Spot.hop?, hfilter] at hhop
  exact visit?_charted charted hhop few

end

/-! ## Routes -/

theorem descend_cons (place : Place) (step : String) (steps : List String) (n : Navigator) :
    descend place (step :: steps) n =
      match (child place step n).1 with
      | none => (none, (child place step n).2)
      | some found => descend found steps (child place step n).2 := by
  rw [descend, bind_apply]
  cases (child place step n).1 <;> rfl

theorem descend_grown (steps : List String) (place : Place) (n : Navigator) :
    n.Grown (descend place steps n).2 := by
  induction steps generalizing place n with
  | nil => exact Grown.refl n
  | cons step steps ih =>
    have hstep := visit?_grown (place.child? step) n
    rw [descend_cons]
    cases h : (child place step n).1 with
    | none => exact hstep
    | some found => exact hstep.trans (ih found _)

theorem descend_charted (steps : List String) {n : Navigator} (charted : n.Charted)
    {hops : List Hop} {place : Place} (agrees : n.Agrees hops (some place))
    (few : (descend place steps n).2.atlas.symbols.size ≤ UInt32.size) :
    (descend place steps n).2.Charted ∧
      (descend place steps n).2.Agrees (hops ++ steps.map .child) (descend place steps n).1 := by
  induction steps generalizing n hops place with
  | nil =>
    rw [List.map_nil, List.append_nil]
    exact ⟨charted, agrees⟩
  | cons step steps ih =>
    rw [descend_cons] at few ⊢
    have hstep := child_charted charted agrees step
    cases h : (child place step n).1 with
    | none =>
      rw [h] at few hstep
      obtain ⟨hcharted, hnone⟩ := hstep few
      refine ⟨hcharted, ?_, by simp⟩
      have hstop : (child place step n).2.follow? (hops ++ [.child step]) = none := hnone.1.symm
      rw [List.map_cons, ← List.singleton_append, ← List.append_assoc, Navigator.follow?,
        Spot.follow?_append]
      rw [Navigator.follow?] at hstop
      rw [hstop]
      rfl
    | some found =>
      rw [h] at few hstep
      have hfew := Nat.le_trans (descend_grown steps found (child place step n).2).symbols few
      obtain ⟨hcharted, hfound⟩ := hstep hfew
      have hrest := ih hcharted hfound few
      rwa [List.append_assoc] at hrest

/-! ## Listings -/

/-- What is done at a place and visits nothing but what lies below it. -/
structure Surveys {α : Type} (survey : Place → Nav α) : Prop where
  grown : ∀ (place : Place) (n : Navigator), n.Grown (survey place n).2
  charted : ∀ {place : Place} {n : Navigator} {hops : List Hop}, n.Charted →
    n.Agrees hops (some place) → (survey place n).2.atlas.symbols.size ≤ UInt32.size →
    (survey place n).2.Charted

/-- The lines of one child, with those of the children after it. -/
def listChild (style : ListingStyle) (level : Nat) (below : Place → Nav String) (key : String)
    (rest : Nav String) : Option Place → Nav String
  | none => do return "" ++ (← rest)
  | some found => do
    let path := style.pathText (← get).settings.testAttribute found.toSpot
    let lines ← below found
    return style.keyLine level key path ++ lines ++ (← rest)

theorem listChildren_bind (style : ListingStyle) (level : Nat) (below : Place → Nav String)
    (place : Place) (key : String) (keys : List String) :
    listChildren style level below place (key :: keys) =
      child place key >>=
        listChild style level below key (listChildren style level below place keys) := by
  funext n
  rw [listChildren, bind_apply, bind_apply]
  cases (child place key n).1 with
  | none => rfl
  | some found => rfl

theorem listChild_some_state (style : ListingStyle) (level : Nat) (below : Place → Nav String)
    (key : String) (rest : Nav String) (found : Place) (n : Navigator) :
    (listChild style level below key rest (some found) n).2 = (rest (below found n).2).2 := by
  simp only [listChild, bind_apply, get_apply]
  -- The lines do not matter here, and to compute them takes long.
  generalize style.keyLine level key _ ++ _ ++ _ = lines
  rfl

theorem listChildren_cons (style : ListingStyle) (level : Nat) (below : Place → Nav String)
    (place : Place) (key : String) (keys : List String) (n : Navigator) :
    (listChildren style level below place (key :: keys) n).2 =
      match (child place key n).1 with
      | none => (listChildren style level below place keys (child place key n).2).2
      | some found =>
        (listChildren style level below place keys (below found (child place key n).2).2).2 := by
  rw [listChildren_bind, bind_apply]
  cases (child place key n).1 with
  | none => rfl
  | some found => rw [listChild_some_state]

theorem surveys_listChildren (style : ListingStyle) (level : Nat) {below : Place → Nav String}
    (hbelow : Surveys below) (keys : List String) :
    Surveys fun place => listChildren style level below place keys := by
  induction keys with
  | nil => exact ⟨fun _ n => Grown.refl n, fun charted _ _ => charted⟩
  | cons key keys ih =>
    constructor
    · intro place n
      have hchild := visit?_grown (place.child? key) n
      simp only [listChildren_cons]
      cases (child place key n).1 with
      | none => exact hchild.trans (ih.grown place _)
      | some found => exact (hchild.trans (hbelow.grown found _)).trans (ih.grown place _)
    · intro place n hops charted agrees few
      have hchild := visit?_grown (place.child? key) n
      have hcharted := child_charted charted agrees key
      simp only [listChildren_cons] at few ⊢
      cases h : (child place key n).1 with
      | none =>
        rw [h] at few hcharted
        have hfew := Nat.le_trans (ih.grown place _).symbols few
        exact ih.charted (hcharted hfew).1 (agrees.grown hchild) few
      | some found =>
        rw [h] at few hcharted
        have hlisted := hbelow.grown found (child place key n).2
        have hfew := Nat.le_trans (ih.grown place _).symbols few
        obtain ⟨hthere, hfound⟩ := hcharted (Nat.le_trans hlisted.symbols hfew)
        exact ih.charted (hbelow.charted hthere hfound hfew)
          (agrees.grown (hchild.trans hlisted)) few

theorem surveys_listBelow (style : ListingStyle) (height level : Nat) :
    Surveys fun place => listBelow style level place height := by
  induction height generalizing level with
  | zero =>
    have hleaf : Surveys fun _ : Place => (return "" : Nav String) :=
      ⟨fun _ n => Grown.refl n, fun charted _ _ => charted⟩
    exact ⟨fun place n => (surveys_listChildren style level hleaf place.keys).grown place n,
      fun {place} => (surveys_listChildren style level hleaf place.keys).charted⟩
  | succ height ih =>
    have hbelow := ih (level + 1)
    exact ⟨fun place n => (surveys_listChildren style level hbelow place.keys).grown place n,
      fun {place} => (surveys_listChildren style level hbelow place.keys).charted⟩

theorem listing_grown (style : ListingStyle) (n : Navigator) : n.Grown (listing style n).2 :=
  (surveys_listBelow style n.layout.height 0).grown n.root n

theorem listing_charted (style : ListingStyle) {n : Navigator} (charted : n.Charted)
    (few : (listing style n).2.atlas.symbols.size ≤ UInt32.size) : (listing style n).2.Charted := by
  have agrees : n.Agrees [] (some n.root) := by
    refine ⟨rfl, ?_⟩
    intro p hp
    obtain rfl := Option.some.inj hp
    exact charted.root
  exact (surveys_listBelow style n.layout.height 0).charted charted agrees few

/-! ## Meanings -/

/-- The places in the meaning of a name at the end of `hops`, each with the hops that lead to it. -/
def answers (hops : List Hop) (name : String) : Option Meaning → List (List Hop × Option Place)
  | some (.child place) => [(hops ++ [.child name], some place)]
  | some (.filter container _) => [(hops, some container)]
  | some (.operation operation) => [(hops, some operation.place)]
  | some (.path _) => []
  | none => []

theorem ownMeaning_child {place found : Place} {name : String} {n : Navigator}
    (h : (child place name n).1 = some found) :
    ownMeaning place name n = (some (.child found), (child place name n).2) := by
  rw [ownMeaning, bind_apply, h]
  rfl

theorem ownMeaning_other {place : Place} {name : String} {n : Navigator}
    (h : (child place name n).1 = none) :
    (ownMeaning place name n).2 = (child place name n).2 ∧
      ∀ hops, ∀ entry ∈ answers hops name (ownMeaning place name n).1,
        entry = (hops, some place) := by
  rw [ownMeaning, bind_apply, h]
  cases place.rowFilter? with
  | none =>
    simp only [ite_self]
    split <;> exact ⟨rfl, fun hops entry hentry => absurd hentry List.not_mem_nil⟩
  | some filter =>
    simp only
    split
    · exact ⟨rfl, fun hops entry hentry => List.mem_singleton.mp hentry⟩
    · split <;> exact ⟨rfl, fun hops entry hentry => absurd hentry List.not_mem_nil⟩

theorem resolve_eq (place : Place) (name : String) (names : OperationNames) (n : Navigator) :
    resolve place name names n =
      if place.isElement && names.contains name && !place.defines name then
        (some (.operation ⟨place, name, name == n.settings.scopingOperation⟩), n)
      else ownMeaning place name n := by
  unfold resolve
  split <;> rfl

theorem resolve_grown (place : Place) (name : String) (names : OperationNames) (n : Navigator) :
    n.Grown (resolve place name names n).2 := by
  have hchild := visit?_grown (place.child? name) n
  rw [resolve_eq]
  split
  · exact Grown.refl n
  · cases h : (child place name n).1 with
    | none => rw [(ownMeaning_other h).1]; exact hchild
    | some found => rw [ownMeaning_child h]; exact hchild

theorem resolve_charted {n : Navigator} (charted : n.Charted) {hops : List Hop} {place : Place}
    (agrees : n.Agrees hops (some place)) (name : String) (names : OperationNames)
    (few : (resolve place name names n).2.atlas.symbols.size ≤ UInt32.size) :
    (resolve place name names n).2.Charted ∧
      ∀ entry ∈ answers hops name (resolve place name names n).1,
        (resolve place name names n).2.Agrees entry.1 entry.2 := by
  have hgrown := visit?_grown (place.child? name) n
  have hchild := child_charted charted agrees name
  rw [resolve_eq] at few ⊢
  split
  · refine ⟨charted, ?_⟩
    intro entry hentry
    rw [List.mem_singleton.mp hentry]
    exact agrees
  · next hown =>
    rw [if_neg hown] at few
    cases h : (child place name n).1 with
    | none =>
      obtain ⟨hstate, hothers⟩ := ownMeaning_other h
      rw [hstate] at few ⊢
      refine ⟨(hchild few).1, ?_⟩
      intro entry hentry
      rw [hothers hops entry hentry]
      exact agrees.grown hgrown
    | some found =>
      rw [ownMeaning_child h] at few ⊢
      rw [h] at hchild
      refine ⟨(hchild few).1, ?_⟩
      intro entry hentry
      rw [List.mem_singleton.mp hentry]
      exact (hchild few).2

end Nav

/-! ## Tours -/

/-- The answers that were given so far, each with the hops that it is for. -/
abbrev Log := List (List Hop × Option Place)

/-- One use of a navigator, before which `log` was known. -/
inductive Navigator.Step (n : Navigator) (log : Log) : Navigator → Log → Prop where
  | child {hops place} (name : String) : (hops, some place) ∈ log →
      Step n log (Nav.child place name n).2
        ((hops ++ [.child name], (Nav.child place name n).1) :: log)
  | walk {hops place} (route : String) : (hops, some place) ∈ log →
      Step n log (Nav.walk place route n).2
        ((hops ++ (Path.steps route).map .child, (Nav.walk place route n).1) :: log)
  | row {hops place filter} (column text : String) : (hops, some place) ∈ log →
      place.rowFilter? = some filter →
      Step n log (Nav.row place filter column text n).2
        ((hops ++ [.row column text], (Nav.row place filter column text n).1) :: log)
  | resolve {hops place} (name : String) (names : OperationNames) : (hops, some place) ∈ log →
      Step n log (Nav.resolve place name names n).2
        (Nav.answers hops name (Nav.resolve place name names n).1 ++ log)
  /-- A place is asked for by its number. The hops are any that lead there. -/
  | place {hops place} (id : PlaceId) : n.place? id = some place →
      n.follow? hops = some place.toSpot → Step n log n ((hops, some place) :: log)
  | listing (style : ListingStyle) : Step n log (Nav.listing style n).2 log
  | capture (names : OperationNames) :
      Step n log { n with operations := some names, captures := n.captures + 1 } log

/-- Uses of one navigator in any order, from when it was made. -/
inductive Tour (schema : Schema) (settings : Settings) : Navigator → Log → Prop where
  | start : Tour schema settings (.ofSchema schema settings)
      [([], some (Navigator.ofSchema schema settings).root)]
  | step {n m : Navigator} {log log' : Log} : Tour schema settings n log → n.Step log m log' →
      Tour schema settings m log'

namespace Navigator

variable {n m : Navigator} {log log' : Log}

theorem Step.grown (step : n.Step log m log') : n.Grown m := by
  cases step with
  | child name _ => exact Nav.visit?_grown _ n
  | walk route _ => exact Nav.descend_grown _ _ n
  | row _ _ _ _ => exact Nav.visit?_grown _ n
  | resolve name names _ => exact Nav.resolve_grown _ name names n
  | place _ _ _ => exact Grown.refl n
  | listing style => exact Nav.listing_grown style n
  | capture _ => exact ⟨rfl, rfl, rfl, Nat.le_refl _, fun _ h => h⟩

/-- What all answers so far have in common. -/
structure Answered (n : Navigator) (log : Log) : Prop where
  charted : n.Charted
  agrees : ∀ entry ∈ log, n.Agrees entry.1 entry.2

theorem Step.answered (step : n.Step log m log') (answered : n.Answered log)
    (few : m.atlas.symbols.size ≤ UInt32.size) : m.Answered log' := by
  have hgrown := step.grown
  obtain ⟨charted, hlog⟩ := answered
  have hold : ∀ entry ∈ log, m.Agrees entry.1 entry.2 := fun entry hentry =>
    (hlog entry hentry).grown hgrown
  cases step with
  | child name hplace =>
    obtain ⟨hcharted, hnew⟩ := Nav.child_charted charted (hlog _ hplace) name few
    exact ⟨hcharted, List.forall_mem_cons.mpr ⟨hnew, hold⟩⟩
  | walk route hplace =>
    obtain ⟨hcharted, hnew⟩ := Nav.descend_charted (Path.steps route) charted (hlog _ hplace) few
    exact ⟨hcharted, List.forall_mem_cons.mpr ⟨hnew, hold⟩⟩
  | row column text hplace hfilter =>
    obtain ⟨hcharted, hnew⟩ := Nav.row_charted charted (hlog _ hplace) hfilter column text few
    exact ⟨hcharted, List.forall_mem_cons.mpr ⟨hnew, hold⟩⟩
  | resolve name names hplace =>
    obtain ⟨hcharted, hnew⟩ := Nav.resolve_charted charted (hlog _ hplace) name names few
    exact ⟨hcharted, List.forall_mem_append.mpr ⟨hnew, hold⟩⟩
  | place id hid hhops =>
    refine ⟨charted, List.forall_mem_cons.mpr ⟨⟨hhops.symm, ?_⟩, hold⟩⟩
    intro p hp
    obtain rfl := Option.some.inj hp
    exact Atlas.mem_of_place? hid
  | listing style => exact ⟨Nav.listing_charted style charted few, hold⟩
  | capture _ => exact ⟨⟨charted.sound, charted.root, charted.reached⟩, hold⟩

theorem ofSchema_eq (schema : Schema) (settings : Settings) :
    ofSchema schema settings =
      { settings
        layout := Layout.ofSchema settings.rowTable schema
        root := (Atlas.visit {} (Spot.ofSchema schema settings)).1
        atlas := (Atlas.visit {} (Spot.ofSchema schema settings)).2 } :=
  rfl

theorem few_ofSchema (schema : Schema) (settings : Settings) :
    (Atlas.visit {} (Spot.ofSchema schema settings)).2.symbols.size ≤ UInt32.size := by
  have hsize := Atlas.size_keyOf_le {} (Spot.ofSchema schema settings)
  rw [Atlas.symbols_visit]
  exact Nat.le_trans hsize (by decide)

theorem size_ofSchema (schema : Schema) (settings : Settings) :
    (ofSchema schema settings).atlas.symbols.size ≤ 2 ∧
      (ofSchema schema settings).atlas.places.size ≤ 1 := by
  rw [ofSchema_eq, Atlas.symbols_visit]
  exact ⟨Atlas.size_keyOf_le {} _, Atlas.size_places_visit_le {} _⟩

theorem ofSchema_root (schema : Schema) (settings : Settings) :
    (ofSchema schema settings).root.toSpot = Spot.ofSchema schema settings := by
  rw [ofSchema_eq]
  exact Atlas.visit_spot Atlas.sound_empty (few_ofSchema schema settings)

theorem ofSchema_answered (schema : Schema) (settings : Settings) :
    (ofSchema schema settings).Answered [([], some (ofSchema schema settings).root)] := by
  have few := few_ofSchema schema settings
  have hspot := ofSchema_root schema settings
  have hroot : (ofSchema schema settings).root ∈ (ofSchema schema settings).atlas.places := by
    rw [ofSchema_eq]
    exact Atlas.visit_mem Atlas.sound_empty
  refine ⟨⟨?_, hroot, fun p hp => ⟨[], ?_⟩⟩, ?_⟩
  · rw [ofSchema_eq]
    exact Atlas.visit_sound Atlas.sound_empty few
  · rw [ofSchema_eq] at hp
    rcases Atlas.mem_of_mem_visit Atlas.sound_empty few hp with hold | hnew
    · exact absurd hold (by simp)
    · rw [hnew, ← hspot]
      rfl
  · intro entry hentry
    rw [List.mem_singleton.mp hentry]
    refine ⟨rfl, ?_⟩
    intro p hp
    obtain rfl := Option.some.inj hp
    exact hroot

end Navigator

namespace Tour

variable {schema : Schema} {settings : Settings} {n : Navigator} {log : Log}

theorem settings_eq (tour : Tour schema settings n log) : n.settings = settings := by
  induction tour with
  | start => rfl
  | step _ step ih => exact step.grown.settings.trans ih

theorem root_eq (tour : Tour schema settings n log) :
    n.root = (Navigator.ofSchema schema settings).root := by
  induction tour with
  | start => rfl
  | step _ step ih => exact step.grown.root.trans ih

theorem follow?_eq (tour : Tour schema settings n log) (hops : List Hop) :
    n.follow? hops = (Spot.ofSchema schema settings).follow? settings.testAttribute hops := by
  rw [Navigator.follow?, tour.root_eq, tour.settings_eq, Navigator.ofSchema_root]

theorem answered (tour : Tour schema settings n log)
    (few : n.atlas.symbols.size ≤ UInt32.size) : n.Answered log := by
  induction tour with
  | start => exact Navigator.ofSchema_answered schema settings
  | step _ step ih => exact step.answered (ih (Nat.le_trans step.grown.symbols few)) few

/-- Every spot that lies a hop further has a place, for whoever asks for it. -/
theorem hop (tour : Tour schema settings n log) {hops : List Hop} {place : Place}
    (hplace : (hops, some place) ∈ log) {hop : Hop} {spot : Spot}
    (h : place.toSpot.hop? settings.testAttribute hop = some spot)
    (few : n.atlas.symbols.size + 2 ≤ UInt32.size) :
    ∃ m found, Tour schema settings m ((hops ++ [hop], some found) :: log) ∧
      found.toSpot = spot ∧ n.GrownBy 1 m := by
  have hgrown := Nav.visit?_grownBy (some spot) n
  have hsound := (tour.answered (Nat.le_trans (Nat.le_add_right _ 2) few)).charted.sound
  refine ⟨_, _, ?_, Atlas.visit_spot hsound (Nat.le_trans hgrown.symbols few), hgrown⟩
  cases hop with
  | child name =>
    have hstep := Navigator.Step.child (n := n) name hplace
    rw [Nav.child, show place.child? name = some spot from h] at hstep
    exact tour.step hstep
  | row column text =>
    obtain ⟨filter, hfilter, hrow⟩ := Option.bind_eq_some_iff.mp h
    have hstep := Navigator.Step.row (n := n) column text hplace hfilter
    have hvisit : Nav.row place filter column text n = Nav.visit? (some spot) n := by
      rw [← hrow, ← tour.settings_eq]
      rfl
    rw [hvisit] at hstep
    exact tour.step hstep

theorem follow {spot : Spot} {more : List Hop} (tour : Tour schema settings n log)
    {hops : List Hop} {place : Place} (hplace : (hops, some place) ∈ log)
    (h : place.toSpot.follow? settings.testAttribute more = some spot)
    (few : n.atlas.symbols.size + 2 * more.length ≤ UInt32.size) :
    ∃ m log' found, Tour schema settings m log' ∧ log ⊆ log' ∧
      (hops ++ more, some found) ∈ log' ∧ found.toSpot = spot ∧ n.GrownBy more.length m := by
  induction more generalizing n log hops place with
  | nil =>
    have hspot : place.toSpot = spot := Option.some.inj h
    exact ⟨n, log, place, tour, List.Subset.refl _, by rwa [List.append_nil], hspot,
      .refl n⟩
  | cons hop more ih =>
    rw [List.length_cons] at few
    obtain ⟨next, hnext, hrest⟩ := Option.bind_eq_some_iff.mp h
    obtain ⟨m, found, htour, hfound, hstep⟩ := tour.hop hplace hnext (by omega)
    have hsymbols := hstep.symbols
    rw [← hfound] at hrest
    obtain ⟨k, log', last, hend, hsub, hmem, hspot, hlater⟩ :=
      ih htour List.mem_cons_self hrest (by omega)
    rw [List.append_assoc] at hmem
    rw [List.length_cons, Nat.add_comm]
    exact ⟨k, log', last, hend, fun _ he => hsub (List.mem_cons_of_mem _ he), hmem, hspot,
      hstep.trans hlater⟩

/-- Wherever the layout of a page leads from its root, some tour of the page goes. -/
theorem reach {spot : Spot} {hops : List Hop}
    (h : (Spot.ofSchema schema settings).follow? settings.testAttribute hops = some spot)
    (few : 2 + 2 * hops.length ≤ UInt32.size) :
    ∃ n log place, Tour schema settings n log ∧ (hops, some place) ∈ log ∧ place.toSpot = spot ∧
      n.atlas.symbols.size ≤ 2 + 2 * hops.length := by
  obtain ⟨hstart, -⟩ := Navigator.size_ofSchema schema settings
  rw [← Navigator.ofSchema_root] at h
  obtain ⟨n, log, place, tour, -, found, hspot, symbols, -⟩ :=
    Tour.start.follow List.mem_cons_self h (by omega)
  exact ⟨n, log, place, tour, found, hspot, by omega⟩

end Tour

/-- Answers are what the layout alone says, places have different numbers if they are different, and
a number stays with its place. Places are numbered with 32 bits too. -/
theorem Tour.agrees_with_layout {schema : Schema} {settings : Settings} {n : Navigator} {log : Log}
    (tour : Tour schema settings n log) (few : n.atlas.symbols.size ≤ UInt32.size) :
    (∀ hops answer, (hops, answer) ∈ log →
      answer.map Place.toSpot =
        (Spot.ofSchema schema settings).follow? settings.testAttribute hops ∧
      ∀ p ∈ answer, p ∈ n.atlas.places) ∧
    (∀ p ∈ n.atlas.places, ∃ hops,
      (Spot.ofSchema schema settings).follow? settings.testAttribute hops = some p.toSpot) ∧
    (n.stats.placesBuilt < UInt32.size →
      (∀ p ∈ n.atlas.places, ∀ q ∈ n.atlas.places,
        p.id = q.id ↔ p.path = q.path ∧ p.layout = q.layout) ∧
      (∀ p ∈ n.atlas.places, n.place? p.id = some p) ∧
      ∀ id, n.place? id = none ↔ n.stats.placesBuilt ≤ id.index.toNat) := by
  obtain ⟨charted, agrees⟩ := tour.answered few
  have sound := charted.sound
  refine ⟨?_, ?_, fun room => ⟨?_, ?_, ?_⟩⟩
  · intro hops answer hentry
    rw [← tour.follow?_eq]
    exact agrees _ hentry
  · intro p hp
    obtain ⟨hops, hhops⟩ := charted.reached p hp
    exact ⟨hops, by rw [← tour.follow?_eq, hhops]⟩
  · intro p hp q hq
    constructor
    · intro hid
      rw [sound.id_injective room hp hq hid]
      exact ⟨rfl, rfl⟩
    · rintro ⟨hpath, hlayout⟩
      have hspot : p.toSpot = q.toSpot :=
        (Spot.mk.injEq _ _ _ _).mpr ⟨hpath, hlayout⟩
      rw [sound.place_unique hp hq hspot]
  · intro p hp
    exact sound.place?_id room hp
  · intro id
    exact Atlas.place?_eq_none room

/-- A page with two places of the path "a b". -/
def sharedPath : Schema :=
  .leaf "a b" (.branch "a" (.branch "b" .nil .nil) .nil)

/-- Places of one path have different numbers if different things lie below them. -/
theorem places_of_shared_path : ∃ n log p q, Tour sharedPath {} n log ∧
    n.atlas.symbols.size ≤ UInt32.size ∧ n.stats.placesBuilt < UInt32.size ∧
    ([.child "a b"], some p) ∈ log ∧ ([.child "a", .child "b"], some q) ∈ log ∧
    p.path = q.path ∧ p.id ≠ q.id := by
  have bound : (8 : Nat) < UInt32.size := by decide
  obtain ⟨symbols₀, places₀⟩ := Navigator.size_ofSchema sharedPath {}
  let start := (Navigator.ofSchema sharedPath {}).root
  have root : start.toSpot = _ := Navigator.ofSchema_root sharedPath {}
  have hp : start.toSpot.follow? ({} : Settings).testAttribute [.child "a b"] =
      some ⟨"a b", none⟩ := by
    rw [root]
    decide
  have hq : start.toSpot.follow? ({} : Settings).testAttribute [.child "a", .child "b"] =
      some ⟨"a b", some .plain⟩ := by
    rw [root]
    decide
  have hstart : ([], some start) ∈ [(([] : List Hop), some start)] := List.mem_cons_self
  obtain ⟨n₁, log₁, p, tour₁, sub₁, mem₁, spot₁, symbols₁, places₁⟩ :=
    Tour.start.follow hstart hp (by simp only [List.length_cons, List.length_nil]; omega)
  obtain ⟨n₂, log₂, q, tour₂, sub₂, mem₂, spot₂, symbols₂, places₂⟩ :=
    tour₁.follow (sub₁ hstart) hq (by simp only [List.length_cons, List.length_nil] at *; omega)
  simp only [List.length_cons, List.length_nil] at *
  have few : n₂.atlas.symbols.size ≤ UInt32.size := by omega
  have room : n₂.stats.placesBuilt < UInt32.size := by
    change n₂.atlas.places.size < UInt32.size
    omega
  obtain ⟨hanswers, -, hnumbers⟩ := Tour.agrees_with_layout tour₂ few
  obtain ⟨hdifferent, -⟩ := hnumbers room
  refine ⟨n₂, log₂, p, q, tour₂, few, room, sub₂ mem₁, mem₂, by rw [spot₁, spot₂], ?_⟩
  intro hid
  have hp := (hanswers _ _ (sub₂ mem₁)).2 p rfl
  have hq := (hanswers _ _ mem₂).2 q rfl
  have hlayout := ((hdifferent p hp q hq).mp hid).2
  rw [spot₁, spot₂] at hlayout
  exact absurd hlayout (by simp)

end PageNav
