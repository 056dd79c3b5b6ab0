import Mathlib.Data.List.Basic
import Mathlib.Data.List.Induction
import PageNav.Proofs.Alike
import PageNav.Proofs.Numbering
import PageNav.Proofs.Words

/-!
# What the counters count

Each hop of a navigator ends at a new place or at one that was there, and is counted once as the one
or the other. So the places are the spots that were reached, in the order in which they were reached
first.
-/

namespace PageNav

open Text

/-! ## First occurrences -/

section

variable {α β : Type} [BEq α] [LawfulBEq α] [BEq β] [LawfulBEq β]

theorem eraseDups_map {f : α → β} (injective : Function.Injective f) (as : List α) :
    (as.map f).eraseDups = as.eraseDups.map f := by
  induction as using List.reverseRecOn with
  | nil => rfl
  | append_singleton as a ih =>
    rw [List.map_append, List.map_singleton, eraseDups_concat, eraseDups_concat, ih]
    simp only [List.mem_map_of_injective injective]
    split
    · rfl
    · rw [List.map_append, List.map_singleton]

theorem eraseDups_of_nodup {as : List α} (h : as.Nodup) : as.eraseDups = as := by
  induction as using List.reverseRecOn with
  | nil => rfl
  | append_singleton as a ih =>
    obtain ⟨has, -, hdisjoint⟩ := List.nodup_append.mp h
    have hfresh : a ∉ as := fun ha => hdisjoint a ha a (List.mem_singleton.mpr rfl) rfl
    rw [eraseDups_concat, if_neg hfresh, ih has]

end

/-! ## Visits are counted -/

namespace Atlas

/-- Whether an atlas has counted visits to these spots and no others. -/
structure Tally (a : Atlas) (reached : List Spot) : Prop where
  sound : a.Sound
  spots : a.places.toList.map Place.toSpot = reached.eraseDups
  visits : a.places.size + a.hits = reached.length

theorem tally_empty : Tally {} [] :=
  ⟨sound_empty, rfl, rfl⟩

section

variable {a : Atlas} {spot : Spot}

theorem visit_fresh (sound : a.Sound) (few : (a.visit spot).2.symbols.size ≤ UInt32.size)
    (fresh : ∀ place ∈ a.places, place.toSpot ≠ spot) :
    (a.visit spot).2.places = a.places.push ⟨spot, ⟨a.places.size.toUInt32⟩⟩ ∧
      (a.visit spot).2.hits = a.hits := by
  have hspot := visit_spot sound few
  cases hknown : a.known[(a.keyOf spot).1]? with
  | some place =>
    rw [visit_known hknown] at hspot
    exact absurd hspot (fresh place (sound.names _ _ hknown).1)
  | none =>
    rw [visit_new hknown]
    exact ⟨rfl, rfl⟩

variable {reached : List Spot}

theorem Tally.mem_iff (tally : a.Tally reached) :
    spot ∈ reached ↔ ∃ place ∈ a.places, place.toSpot = spot := by
  rw [← List.mem_eraseDups, ← tally.spots, List.mem_map]
  simp only [Array.mem_toList_iff]

theorem Tally.visit (tally : a.Tally reached)
    (few : (a.visit spot).2.symbols.size ≤ UInt32.size) :
    (a.visit spot).2.Tally (reached ++ [spot]) := by
  have hsound := visit_sound tally.sound few
  have hspots := tally.spots
  have hvisits := tally.visits
  by_cases h : spot ∈ reached
  · obtain ⟨place, hplace, rfl⟩ := tally.mem_iff.mp h
    refine ⟨hsound, ?_, ?_⟩
    · rw [visit_again tally.sound hplace, eraseDups_concat, if_pos h]
      exact hspots
    · rw [visit_again tally.sound hplace, List.length_append, List.length_singleton, ← hvisits]
      exact (Nat.add_assoc _ _ _).symm
  · have hfresh : ∀ place ∈ a.places, place.toSpot ≠ spot :=
      fun place hplace heq => h (tally.mem_iff.mpr ⟨place, hplace, heq⟩)
    obtain ⟨hplaces, hhits⟩ := visit_fresh tally.sound few hfresh
    refine ⟨hsound, ?_, ?_⟩
    · rw [hplaces, Array.toList_push, List.map_append, hspots, eraseDups_concat, if_neg h]
      rfl
    · rw [hplaces, hhits, Array.size_push, List.length_append, List.length_singleton, ← hvisits]
      exact Nat.add_right_comm _ _ _

theorem Tally.visitAll (tally : a.Tally reached) {spots : List Spot}
    (few : (a.visitAll spots).symbols.size ≤ UInt32.size) :
    (a.visitAll spots).Tally (reached ++ spots) := by
  induction spots generalizing a reached with
  | nil => rwa [List.append_nil]
  | cons spot spots ih =>
    have hfirst := tally.visit (Nat.le_trans (size_visitAll_le _ spots) few)
    rw [← List.singleton_append, ← List.append_assoc]
    exact ih hfirst few

theorem Tally.holds (tally : a.Tally reached) {spots : List Spot} (h : spots ⊆ reached) :
    a.Holds spots :=
  fun _ hspot => tally.mem_iff.mp (h hspot)

end

end Atlas

/-! ## Uses of a navigator -/

namespace Spot

/-- The spots on the way down, as far as there are steps. -/
def along (s : Spot) : List String → List Spot
  | [] => []
  | step :: steps =>
    match s.child? step with
    | none => []
    | some next => next :: next.along steps

/-- What places are told apart by: the path and the signature, which a leaf does not have. -/
def label (s : Spot) : String × Option String :=
  (s.path, s.layout.map Layout.signature)

theorem label_injective : Function.Injective label := by
  rintro ⟨path, layout⟩ ⟨path', layout'⟩ h
  obtain ⟨hpath, hlayout⟩ := Prod.mk.inj h
  have hsame : layout = layout' :=
    Option.map_injective (fun _ _ h => Layout.signature_injective h) hlayout
  rw [Spot.mk.injEq]
  exact ⟨hpath, hsame⟩

end Spot

/-- One use of a navigator, with any place. -/
inductive Use where
  | child (place : Place) (name : String)
  | walk (place : Place) (route : String)
  | row (container : Place) (filter : RowFilter) (column text : String)
  | resolve (place : Place) (name : String) (names : OperationNames)
  | listing (style : ListingStyle)
  | capture (names : OperationNames)

/-- The spots that the hops of a use lead to, by the layout alone. A hop that fails leads to none,
and ends a walk. -/
def Use.hops (attr : String) (layout : Layout) : Use → List Spot
  | child place name => (place.child? name).toList
  | walk place route => place.along (Path.steps route)
  | row container filter column text => (container.row? attr filter column text).toList
  | resolve place name _ => (place.child? name).toList
  | listing _ => layout.spots ""
  | capture _ => []

namespace Navigator

def used (n : Navigator) : Use → Navigator
  | .child place name => (Nav.child place name n).2
  | .walk place route => (Nav.walk place route n).2
  | .row container filter column text => (Nav.row container filter column text n).2
  | .resolve place name names => (Nav.resolve place name names n).2
  | .listing style => (Nav.listing style n).2
  | .capture names => { n with operations := some names, captures := n.captures + 1 }

def after (n : Navigator) (uses : List Use) : Navigator :=
  uses.foldl used n

def hops (n : Navigator) (use : Use) : List Spot :=
  use.hops n.settings.testAttribute n.layout

def reached (n : Navigator) (uses : List Use) : List Spot :=
  uses.flatMap n.hops

theorem reached_cons (n : Navigator) (use : Use) (uses : List Use) :
    n.reached (use :: uses) = n.hops use ++ n.reached uses :=
  List.flatMap_cons

theorem used_grown (n : Navigator) (use : Use) : n.Grown (n.used use) := by
  cases use with
  | child place name => exact Nav.visit?_grown _ n
  | walk place route => exact Nav.descend_grown _ place n
  | row container filter column text => exact Nav.visit?_grown _ n
  | resolve place name names => exact Nav.resolve_grown place name names n
  | listing style => exact Nav.listing_grown style n
  | capture names => exact ⟨rfl, rfl, rfl, Nat.le_refl _, fun _ h => h⟩

theorem after_grown (n : Navigator) (uses : List Use) : n.Grown (n.after uses) := by
  induction uses generalizing n with
  | nil => exact Grown.refl n
  | cons use uses ih => exact (n.used_grown use).trans (ih _)

theorem Grown.reached {n m : Navigator} (h : Grown n m) (uses : List Use) :
    m.reached uses = n.reached uses := by
  unfold Navigator.reached Navigator.hops
  rw [h.settings, h.layout]

end Navigator

/-! ## The visits of a use -/

namespace Nav

theorem visit?_atlas (spot? : Option Spot) (n : Navigator) :
    (visit? spot? n).2.atlas = n.atlas.visitAll spot?.toList := by
  cases spot? <;> rfl

/-- That the symbols last is known from the navigator that is left or from the visits that are
due. -/
theorem descend_atlas (steps : List String) {place : Place} {n : Navigator} (sound : n.atlas.Sound)
    (few : (descend place steps n).2.atlas.symbols.size ≤ UInt32.size ∨
      (n.atlas.visitAll (place.along steps)).symbols.size ≤ UInt32.size) :
    (descend place steps n).2.atlas = n.atlas.visitAll (place.along steps) := by
  induction steps generalizing place n with
  | nil => rfl
  | cons step steps ih =>
    unfold Spot.along at few ⊢
    cases h : place.child? step with
    | none =>
      rw [descend_cons, child_of_none h]
      rfl
    | some next =>
      have hdescend : descend place (step :: steps) n =
          descend (n.atlas.visit next).1 steps (n.visitAll [next]) := by
        rw [descend_cons, child_apply h]
      rw [h, hdescend] at few
      rw [hdescend]
      have hfew : (n.atlas.visit next).2.symbols.size ≤ UInt32.size :=
        few.elim (Nat.le_trans (descend_grown steps _ (n.visitAll [next])).symbols)
          (Nat.le_trans (Atlas.size_visitAll_le _ _))
      have hspot : (n.atlas.visit next).1.toSpot = next := Atlas.visit_spot sound hfew
      have hrest := ih (Atlas.visit_sound sound hfew)
        (few.imp_right fun few => by rw [hspot]; exact few)
      rw [hspot] at hrest
      exact hrest

theorem resolve_atlas (place : Place) (name : String) (names : OperationNames) (n : Navigator) :
    (resolve place name names n).2.atlas = n.atlas.visitAll (place.child? name).toList := by
  rw [resolve_eq]
  split
  · next h =>
    -- an operation is meant by no name of a child
    have hnot : place.defines name = false := by
      rw [Bool.and_eq_true, Bool.not_eq_true'] at h
      exact h.2
    have hnone : place.child? name = none := by
      rw [← Option.not_isSome_iff_eq_none, Spot.child?_isSome_iff]
      intro hchild
      have howns : place.defines name = true :=
        Spot.defines_iff.mpr (hchild.elim .inl fun hkey => .inr (.inl hkey))
      rw [hnot] at howns
      exact absurd howns (by decide)
    rw [hnone]
    rfl
  · rw [ownMeaning_state]
    exact visit?_atlas _ n

end Nav

namespace Navigator

/-- A navigator of a page that was used for nothing but visits to `reached`. -/
structure Counts (n : Navigator) (reached : List Spot) : Prop where
  distinct : n.layout.Distinct
  root : n.root.toSpot = ⟨"", some n.layout⟩
  tally : n.atlas.Tally reached

variable {n : Navigator} {reached : List Spot}

theorem Counts.built (counts : n.Counts reached) :
    n.stats.placesBuilt = reached.eraseDups.length := by
  rw [← counts.tally.spots, List.length_map, Array.length_toList]
  rfl

theorem Counts.used_atlas (counts : n.Counts reached) (use : Use)
    (few : (n.used use).atlas.symbols.size ≤ UInt32.size ∨
      (n.atlas.visitAll (n.hops use)).symbols.size ≤ UInt32.size) :
    (n.used use).atlas = n.atlas.visitAll (n.hops use) := by
  have sound := counts.tally.sound
  cases use with
  | child place name => exact Nav.visit?_atlas _ n
  | walk place route => exact Nav.descend_atlas _ sound few
  | row container filter column text => exact Nav.visit?_atlas _ n
  | resolve place name names => exact Nav.resolve_atlas place name names n
  | listing style =>
    obtain ⟨-, hstate, -⟩ := Nav.listing_listed style counts.distinct counts.root sound few
    exact congrArg atlas hstate
  | capture names => rfl

theorem Counts.used (counts : n.Counts reached) (use : Use)
    (few : (n.used use).atlas.symbols.size ≤ UInt32.size ∨
      (n.atlas.visitAll (n.hops use)).symbols.size ≤ UInt32.size) :
    (n.used use).Counts (reached ++ n.hops use) := by
  have hgrown := n.used_grown use
  have hatlas := counts.used_atlas use few
  refine ⟨?_, ?_, ?_⟩
  · rw [hgrown.layout]
    exact counts.distinct
  · rw [hgrown.root, hgrown.layout]
    exact counts.root
  · rw [hatlas] at few ⊢
    exact counts.tally.visitAll (few.elim id id)

/-- Whatever a navigator is used for, it visits what the hops lead to and nothing else. -/
theorem Counts.after (counts : n.Counts reached) {uses : List Use}
    (few : (n.after uses).atlas.symbols.size ≤ UInt32.size ∨
      (n.atlas.visitAll (n.reached uses)).symbols.size ≤ UInt32.size) :
    (n.after uses).Counts (reached ++ n.reached uses) ∧
      (n.after uses).atlas = n.atlas.visitAll (n.reached uses) := by
  induction uses generalizing n reached with
  | nil =>
    unfold Navigator.reached
    rw [List.flatMap_nil, List.append_nil]
    exact ⟨counts, rfl⟩
  | cons use uses ih =>
    have hgrown := n.used_grown use
    rw [reached_cons, Atlas.visitAll_append] at few ⊢
    have hfirst : (n.used use).atlas.symbols.size ≤ UInt32.size ∨
        (n.atlas.visitAll (n.hops use)).symbols.size ≤ UInt32.size :=
      few.imp (Nat.le_trans ((n.used use).after_grown uses).symbols)
        (Nat.le_trans (Atlas.size_visitAll_le _ _))
    have hatlas := counts.used_atlas use hfirst
    rw [← hatlas, ← hgrown.reached] at few ⊢
    rw [← List.append_assoc]
    exact ih (counts.used use hfirst) few

theorem Counts.size_after_le (counts : n.Counts reached) {uses : List Use}
    (few : n.atlas.symbols.size + 2 * (n.reached uses).length ≤ UInt32.size) :
    (n.after uses).atlas.symbols.size ≤ n.atlas.symbols.size + 2 * (n.reached uses).length := by
  have hsize := Atlas.size_visitAll_le_add n.atlas (n.reached uses)
  obtain ⟨-, hatlas⟩ := counts.after (.inr (Nat.le_trans hsize few))
  rw [hatlas]
  exact hsize

/-- Hops to where others led before are hits, whatever they are made for. -/
theorem Counts.after_again (counts : n.Counts reached) {uses : List Use}
    (h : n.reached uses ⊆ reached) (few : n.atlas.symbols.size ≤ UInt32.size) :
    (n.after uses).atlas =
      { n.atlas with hits := n.atlas.hits + (n.reached uses).length } := by
  have hagain := Atlas.visitAll_again counts.tally.sound (counts.tally.holds h)
  have hfew : (n.atlas.visitAll (n.reached uses)).symbols.size ≤ UInt32.size := by
    rw [hagain]
    exact few
  obtain ⟨-, hatlas⟩ := counts.after (.inr hfew)
  rw [hatlas, hagain]

/-! ## From when the navigator was made -/

variable {schema : Schema} {settings : Settings}

theorem ofSchema_counts (distinct : schema.Distinct) :
    (ofSchema schema settings).Counts [Spot.ofSchema schema settings] := by
  refine ⟨Layout.distinct_ofSchema _ distinct, ofSchema_root schema settings, ?_⟩
  rw [ofSchema_eq]
  exact Atlas.tally_empty.visit (few_ofSchema schema settings)

theorem reached_listing (style : ListingStyle) :
    (ofSchema schema settings).reached [.listing style] =
      (Layout.ofSchema settings.rowTable schema).spots "" :=
  List.append_nil _

theorem length_listing (style : ListingStyle) :
    ((ofSchema schema settings).reached [.listing style]).length = schema.total := by
  rw [reached_listing, Layout.length_spots, Layout.toSchema_ofSchema]

theorem nodup_listing (distinct : schema.Distinct) (words : schema.EachKey Path.IsWord)
    (style : ListingStyle) :
    (Spot.ofSchema schema settings ::
      (ofSchema schema settings).reached [.listing style]).Nodup := by
  have hdistinct : (Layout.ofSchema settings.rowTable schema).Distinct :=
    Layout.distinct_ofSchema _ distinct
  rw [← Layout.toSchema_ofSchema settings.rowTable schema] at words
  rw [reached_listing]
  apply List.nodup_cons.mpr
  exact ⟨Layout.root_not_listed words, Layout.nodup_spots hdistinct words ""⟩

/-- Every hop is counted, as a place that was built or as a hit. The places are the spots that were
reached, told apart by their labels and numbered as they were reached first. -/
theorem hops_are_counted (distinct : schema.Distinct) {uses : List Use}
    (few : ((ofSchema schema settings).after uses).atlas.symbols.size ≤ UInt32.size) :
    let start := ofSchema schema settings
    let n := start.after uses
    let hops := start.reached uses
    let spots := Spot.ofSchema schema settings :: hops
    n.stats.placesBuilt + n.stats.hits = 1 + hops.length ∧
    n.stats.placesBuilt = (spots.map Spot.label).eraseDups.length ∧
    n.atlas.places.toList.map Place.toSpot = spots.eraseDups ∧
    (∀ (i : Nat) (place : Place), n.atlas.places[i]? = some place → i < UInt32.size →
      place.id.index.toNat = i) ∧
    (∀ again, start.reached again ⊆ spots →
      (n.after again).stats.placesBuilt = n.stats.placesBuilt) ∧
    (∀ style, uses = [.listing style] → schema.EachKey Path.IsWord →
      n.stats.placesBuilt = 1 + schema.total ∧ n.stats.hits = 0) ∧
    ∀ style again, .listing style ∈ uses →
      (n.after [.listing again]).stats.placesBuilt = n.stats.placesBuilt ∧
      (n.after [.listing again]).stats.hits = n.stats.hits + schema.total := by
  intro start n hops spots
  have hgrown : start.Grown n := start.after_grown uses
  have counts : n.Counts spots := ((ofSchema_counts distinct).after (.inl few)).1
  have hvisits : n.stats.placesBuilt + n.stats.hits = 1 + hops.length :=
    counts.tally.visits.trans (Nat.add_comm _ _)
  have hagain {again : List Use} (h : start.reached again ⊆ spots) :
      (n.after again).atlas =
        { n.atlas with hits := n.atlas.hits + (start.reached again).length } := by
    rw [← hgrown.reached] at h ⊢
    exact counts.after_again h few
  refine ⟨hvisits, ?_, counts.tally.spots, ?_, ?_, ?_, ?_⟩
  · rw [eraseDups_map Spot.label_injective, List.length_map, counts.built]
  · intro i place hplace hi
    rw [counts.tally.sound.numbered i place hplace]
    exact UInt32.toNat_ofNat_of_lt' hi
  · intro again h
    unfold stats
    rw [hagain h]
  · rintro style rfl words
    have hbuilt := counts.built
    rw [eraseDups_of_nodup (nodup_listing distinct words style), List.length_cons,
      length_listing] at hbuilt
    rw [length_listing] at hvisits
    omega
  · intro style again hstyle
    have hlisted : start.reached [.listing again] ⊆ spots := by
      intro spot hspot
      rw [reached_listing] at hspot
      exact List.mem_cons_of_mem _ (List.mem_flatMap.mpr ⟨_, hstyle, hspot⟩)
    unfold stats
    rw [hagain hlisted, length_listing]
    exact ⟨rfl, rfl⟩

/-- A page with a title and a list. -/
def titledPage : Schema :=
  .leaf "title" (.branch "rows" (.branch "row" (.leaf "day" .nil) .nil) .nil)

def titledUses : List Use :=
  [.listing {}, .walk ⟨Spot.ofSchema titledPage {}, ⟨0⟩⟩ "rows nothing day", .listing {}]

/-- A walk that stops halfway counts as far as it got. -/
theorem titledPage_counted :
    titledPage.Distinct ∧ titledPage.EachKey Path.IsWord ∧
    (∃ first, first = (ofSchema titledPage {}).after [.listing {}] ∧
      first.atlas.symbols.size ≤ UInt32.size ∧
      first.stats.placesBuilt = 5 ∧ first.stats.hits = 0) ∧
    ∃ last, last = (ofSchema titledPage {}).after titledUses ∧
      last.atlas.symbols.size ≤ UInt32.size ∧
      last.stats.placesBuilt = 5 ∧ last.stats.hits = 5 := by
  have bound : (20 : Nat) ≤ UInt32.size := by decide
  have distinct : titledPage.Distinct :=
    ⟨by decide, by decide, ⟨by decide, ⟨by decide, trivial⟩, trivial⟩, trivial⟩
  have words : titledPage.EachKey Path.IsWord :=
    ⟨⟨by decide, by decide⟩, ⟨by decide, by decide⟩,
      ⟨⟨by decide, by decide⟩, ⟨⟨by decide, by decide⟩, trivial⟩, trivial⟩, trivial⟩
  have counts : (ofSchema titledPage {}).Counts _ := ofSchema_counts distinct
  have hsize := (size_ofSchema titledPage {}).1
  have few (uses : List Use) (h : ((ofSchema titledPage {}).reached uses).length ≤ 9) :
      ((ofSchema titledPage {}).after uses).atlas.symbols.size ≤ UInt32.size := by
    have henough : (ofSchema titledPage {}).atlas.symbols.size +
        2 * ((ofSchema titledPage {}).reached uses).length ≤ UInt32.size := by omega
    exact Nat.le_trans (counts.size_after_le henough) henough
  have hfirst := few [.listing {}] (by decide)
  have hlast := few titledUses (by decide)
  have hdump := (hops_are_counted distinct hfirst).2.2.2.2.2.1 {} rfl words
  have hsum := (hops_are_counted distinct hlast).1
  have hbuilt := (hops_are_counted distinct hlast).2.1
  have hreached : ((ofSchema titledPage {}).reached titledUses).length = 9 := by decide
  have hlabels : ((Spot.ofSchema titledPage {} :: (ofSchema titledPage {}).reached titledUses).map
      Spot.label).eraseDups.length = 5 := by decide
  rw [hlabels] at hbuilt
  rw [hreached, hbuilt] at hsum
  exact ⟨distinct, words, ⟨_, rfl, hfirst, hdump⟩, _, rfl, hlast, hbuilt, Nat.add_left_cancel hsum⟩

end Navigator

end PageNav
