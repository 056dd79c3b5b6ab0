import PageNav.Proofs.Places

/-!
# Visits one after the other

A spot that has a place is found under it again, and nothing but the count of hits changes.
-/

namespace PageNav.Atlas

def visitAll (a : Atlas) (spots : List Spot) : Atlas :=
  spots.foldl (fun a spot => (a.visit spot).2) a

def Holds (a : Atlas) (spots : List Spot) : Prop :=
  ∀ spot ∈ spots, ∃ place ∈ a.places, place.toSpot = spot

theorem visitAll_cons (a : Atlas) (spot : Spot) (spots : List Spot) :
    a.visitAll (spot :: spots) = (a.visit spot).2.visitAll spots :=
  rfl

theorem visitAll_append (a : Atlas) (spots more : List Spot) :
    a.visitAll (spots ++ more) = (a.visitAll spots).visitAll more :=
  List.foldl_append

theorem size_visit_le (a : Atlas) (spot : Spot) :
    a.symbols.size ≤ (a.visit spot).2.symbols.size := by
  rw [symbols_visit]
  exact (extends_keyOf a spot).1

theorem size_visitAll_le (a : Atlas) (spots : List Spot) :
    a.symbols.size ≤ (a.visitAll spots).symbols.size := by
  induction spots generalizing a with
  | nil => exact Nat.le_refl _
  | cons spot spots ih => exact Nat.le_trans (size_visit_le a spot) (ih _)

theorem size_visitAll_le_add (a : Atlas) (spots : List Spot) :
    (a.visitAll spots).symbols.size ≤ a.symbols.size + 2 * spots.length := by
  induction spots generalizing a with
  | nil => exact Nat.le_refl _
  | cons spot spots ih =>
    have hspot : (a.visit spot).2.symbols.size ≤ a.symbols.size + 2 := by
      rw [symbols_visit]
      exact size_keyOf_le a spot
    have hspots := ih (a.visit spot).2
    rw [visitAll_cons, List.length_cons]
    omega

theorem mem_places_visitAll {a : Atlas} {place : Place} (spots : List Spot)
    (h : place ∈ a.places) : place ∈ (a.visitAll spots).places := by
  induction spots generalizing a with
  | nil => exact h
  | cons spot spots ih => exact ih (mem_places_visit spot h)

theorem visitAll_sound {a : Atlas} (sound : a.Sound) {spots : List Spot}
    (few : (a.visitAll spots).symbols.size ≤ UInt32.size) : (a.visitAll spots).Sound := by
  induction spots generalizing a with
  | nil => exact sound
  | cons spot spots ih =>
    exact ih (visit_sound sound (Nat.le_trans (size_visitAll_le _ spots) few)) few

theorem visitAll_holds {a : Atlas} (sound : a.Sound) {spots : List Spot}
    (few : (a.visitAll spots).symbols.size ≤ UInt32.size) : (a.visitAll spots).Holds spots := by
  induction spots generalizing a with
  | nil => exact List.forall_mem_nil _
  | cons spot spots ih =>
    have hfew := Nat.le_trans (size_visitAll_le _ spots) few
    refine List.forall_mem_cons.mpr ⟨?_, ih (visit_sound sound hfew) few⟩
    exact ⟨_, mem_places_visitAll spots (visit_mem sound), visit_spot sound hfew⟩

/-! ## Visits to places that are there -/

theorem keyOf_known {a : Atlas} (sound : a.symbols.Sound) {key : PlaceKey} {spot : Spot}
    (names : PlaceKey.Names a.symbols key spot) : a.keyOf spot = (key, a.symbols) := by
  have hpath := SymbolTable.insert_old ((sound _ _).mpr names.path)
  have hsignature := names.signature
  obtain ⟨path, signature⟩ := key
  unfold keyOf
  cases hlayout : spot.layout with
  | none =>
    rw [hlayout, Option.map_none, Option.map_eq_none_iff] at hsignature
    obtain rfl : signature = none := hsignature
    simp only [hpath]
  | some level =>
    rw [hlayout, Option.map_some, Option.map_eq_some_iff] at hsignature
    obtain ⟨symbol, rfl, htext⟩ := hsignature
    have hlevel := SymbolTable.insert_old ((sound _ _).mpr htext)
    simp only [hpath, hlevel]

theorem visit_again {a : Atlas} (sound : a.Sound) {place : Place} (h : place ∈ a.places) :
    a.visit place.toSpot = (place, { a with hits := a.hits + 1 }) := by
  obtain ⟨key, hkey⟩ := sound.known place h
  have hkeyOf := keyOf_known sound.symbols (sound.names key place hkey).2
  rw [visit_known (by rw [hkeyOf]; exact hkey), hkeyOf]

theorem Sound.with_hits {a : Atlas} (sound : a.Sound) (hits : Nat) : Sound { a with hits } :=
  ⟨sound.symbols, sound.names, sound.known, sound.numbered⟩

theorem visitAll_again {a : Atlas} (sound : a.Sound) {spots : List Spot} (h : a.Holds spots) :
    a.visitAll spots = { a with hits := a.hits + spots.length } := by
  induction spots generalizing a with
  | nil => rfl
  | cons spot spots ih =>
    obtain ⟨⟨place, hplace, rfl⟩, hrest⟩ := List.forall_mem_cons.mp h
    have hagain := ih (sound.with_hits (a.hits + 1)) hrest
    rw [Nat.add_right_comm] at hagain
    rw [visitAll_cons, visit_again sound hplace]
    exact hagain

end PageNav.Atlas
