import PageNav.Navigation.Atlas
import PageNav.Proofs.Signature
import PageNav.Proofs.Symbols

/-!
# Places stand for spots

An atlas finds a place by numbers in the stead of texts. As long as the numbers last, it finds the
place of the spot that is visited and no other, and each spot has one place.
-/

namespace PageNav

open SymbolTable (Extends)

/-! ## Keys -/

/-- The key has the symbols of the path and the signature of a spot. -/
structure PlaceKey.Names (t : SymbolTable) (key : PlaceKey) (spot : Spot) : Prop where
  path : t.text? key.path = some spot.path
  signature : key.signature.map t.text? = spot.layout.map fun level => some level.signature

namespace PlaceKey

theorem Names.mono {t u : SymbolTable} (h : Extends t u) {key : PlaceKey} {spot : Spot}
    (names : Names t key spot) : Names u key spot := by
  refine ⟨h.2 _ _ names.path, ?_⟩
  have hsignature := names.signature
  cases hkey : key.signature with
  | none => rw [hkey] at hsignature; exact hsignature
  | some symbol =>
    cases hlayout : spot.layout with
    | none => rw [hkey, hlayout] at hsignature; exact absurd hsignature (by simp)
    | some level =>
      rw [hkey, hlayout] at hsignature
      simp only [Option.map_some, Option.some.injEq] at hsignature ⊢
      exact h.2 _ _ hsignature

theorem Names.spot_unique {t : SymbolTable} {key : PlaceKey} {s u : Spot} (hs : Names t key s)
    (hu : Names t key u) : s = u := by
  have hpath : s.path = u.path := by
    have := hs.path
    rw [hu.path, Option.some.injEq] at this
    exact this.symm
  have hlayout : s.layout = u.layout := by
    have hsame := hs.signature.symm.trans hu.signature
    refine Option.map_injective (f := fun level : Layout => some level.signature) ?_ hsame
    intro l m h
    exact Layout.signature_injective (Option.some.inj h)
  cases s
  cases u
  simp_all

theorem Names.key_unique {t : SymbolTable} (sound : t.Sound) {key key' : PlaceKey} {spot : Spot}
    (h : Names t key spot) (h' : Names t key' spot) : key = key' := by
  have hpath : key.path = key'.path := sound.symbol_unique h.path h'.path
  have hsignature : key.signature = key'.signature := by
    have hsame := h.signature.trans h'.signature.symm
    cases hk : key.signature with
    | none =>
      rw [hk] at hsame
      exact (Option.map_eq_none_iff.mp hsame.symm).symm
    | some symbol =>
      cases hk' : key'.signature with
      | none => rw [hk, hk'] at hsame; exact absurd hsame (by simp)
      | some symbol' =>
        cases hlayout : spot.layout with
        | none =>
          have := h.signature
          rw [hk, hlayout] at this
          exact absurd this (by simp)
        | some level =>
          have hs := h.signature
          have hs' := h'.signature
          rw [hk, hlayout, Option.map_some, Option.map_some, Option.some.injEq] at hs
          rw [hk', hlayout, Option.map_some, Option.map_some, Option.some.injEq] at hs'
          rw [sound.symbol_unique hs hs']
  cases key
  cases key'
  simp_all

end PlaceKey

namespace Atlas

theorem extends_keyOf (a : Atlas) (spot : Spot) : Extends a.symbols (a.keyOf spot).2 := by
  unfold keyOf
  cases hlayout : spot.layout with
  | none => exact SymbolTable.extends_insert _ _
  | some level => exact (SymbolTable.extends_insert _ _).trans (SymbolTable.extends_insert _ _)

theorem size_keyOf_le (a : Atlas) (spot : Spot) : (a.keyOf spot).2.size ≤ a.symbols.size + 2 := by
  have hpath := SymbolTable.size_insert_le a.symbols spot.path
  unfold keyOf
  cases hlayout : spot.layout with
  | none => exact Nat.le_succ_of_le hpath
  | some level =>
    have hsignature :=
      SymbolTable.size_insert_le (a.symbols.insert spot.path).2 level.signature
    exact Nat.le_trans hsignature (Nat.succ_le_succ hpath)

theorem keyOf_names {a : Atlas} (sound : a.symbols.Sound) {spot : Spot}
    (few : (a.keyOf spot).2.size ≤ UInt32.size) :
    (a.keyOf spot).2.Sound ∧ PlaceKey.Names (a.keyOf spot).2 (a.keyOf spot).1 spot := by
  unfold keyOf at few ⊢
  cases hlayout : spot.layout with
  | none =>
    simp only [hlayout] at few ⊢
    exact ⟨SymbolTable.insert_sound sound few,
      SymbolTable.text?_insert sound few, by simp [hlayout]⟩
  | some level =>
    simp only [hlayout] at few ⊢
    have hext := SymbolTable.extends_insert (a.symbols.insert spot.path).2 level.signature
    have hfew := Nat.le_trans hext.1 few
    have hsound := SymbolTable.insert_sound sound hfew
    refine ⟨SymbolTable.insert_sound hsound few, ?_, ?_⟩
    · exact hext.2 _ _ (SymbolTable.text?_insert sound hfew)
    · simp only [hlayout, Option.map_some, Option.some.injEq]
      exact SymbolTable.text?_insert hsound few

/-! ## Visits -/

theorem visit_known {a : Atlas} {spot : Spot} {place : Place}
    (h : a.known[(a.keyOf spot).1]? = some place) :
    a.visit spot = (place, { a with symbols := (a.keyOf spot).2, hits := a.hits + 1 }) := by
  unfold visit
  simp only [h]

theorem visit_new {a : Atlas} {spot : Spot} (h : a.known[(a.keyOf spot).1]? = none) :
    a.visit spot = (⟨spot, ⟨a.places.size.toUInt32⟩⟩,
      { a with
        symbols := (a.keyOf spot).2
        places := a.places.push ⟨spot, ⟨a.places.size.toUInt32⟩⟩
        known := a.known.insert (a.keyOf spot).1 ⟨spot, ⟨a.places.size.toUInt32⟩⟩ }) := by
  unfold visit
  simp only [h]

theorem symbols_visit (a : Atlas) (spot : Spot) :
    (a.visit spot).2.symbols = (a.keyOf spot).2 := by
  cases h : a.known[(a.keyOf spot).1]? with
  | some place => rw [visit_known h]
  | none => rw [visit_new h]

theorem size_places_visit_le (a : Atlas) (spot : Spot) :
    (a.visit spot).2.places.size ≤ a.places.size + 1 := by
  cases h : a.known[(a.keyOf spot).1]? with
  | some place => rw [visit_known h]; exact Nat.le_succ _
  | none => exact Nat.le_of_eq (by rw [visit_new h, Array.size_push])

theorem mem_places_visit {a : Atlas} {place : Place} (spot : Spot) (h : place ∈ a.places) :
    place ∈ (a.visit spot).2.places := by
  cases hknown : a.known[(a.keyOf spot).1]? with
  | some _ => rw [visit_known hknown]; exact h
  | none => rw [visit_new hknown]; exact Array.mem_push_of_mem _ h

/-- What holds of an atlas that has made no place up and mixed none up. -/
structure Sound (a : Atlas) : Prop where
  symbols : a.symbols.Sound
  names : ∀ (key : PlaceKey) (place : Place), a.known[key]? = some place →
    place ∈ a.places ∧ PlaceKey.Names a.symbols key place.toSpot
  known : ∀ place ∈ a.places, ∃ key : PlaceKey, a.known[key]? = some place
  numbered : ∀ (i : Nat) (place : Place), a.places[i]? = some place → place.id = ⟨i.toUInt32⟩

theorem sound_empty : Sound {} where
  symbols := SymbolTable.sound_empty
  names := by simp
  known := by simp
  numbered := by simp

section
variable {a : Atlas} {spot : Spot}

theorem visit_sound (sound : a.Sound) (few : (a.visit spot).2.symbols.size ≤ UInt32.size) :
    (a.visit spot).2.Sound := by
  rw [symbols_visit] at few
  obtain ⟨hsymbols, hnames⟩ := keyOf_names sound.symbols few
  have hext := extends_keyOf a spot
  cases h : a.known[(a.keyOf spot).1]? with
  | some place =>
    rw [visit_known h]
    refine ⟨hsymbols, ?_, sound.known, sound.numbered⟩
    intro key found hfound
    obtain ⟨hmem, hold⟩ := sound.names key found hfound
    exact ⟨hmem, hold.mono hext⟩
  | none =>
    rw [visit_new h]
    refine ⟨hsymbols, ?_, ?_, ?_⟩
    · intro key found hfound
      rw [Std.HashMap.getElem?_insert] at hfound
      split at hfound
      · next hkey =>
        rw [← eq_of_beq hkey]
        obtain rfl := Option.some.inj hfound
        exact ⟨Array.mem_push_self, hnames⟩
      · obtain ⟨hmem, hold⟩ := sound.names key found hfound
        exact ⟨Array.mem_push_of_mem _ hmem, hold.mono hext⟩
    · intro place hplace
      rcases Array.mem_push.mp hplace with hplace | rfl
      · obtain ⟨key, hkey⟩ := sound.known place hplace
        refine ⟨key, ?_⟩
        -- The new key is not one of the old, as nothing was known under it.
        have hne : ((a.keyOf spot).1 == key) = false := by
          rw [beq_eq_false_iff_ne]
          rintro rfl
          rw [h] at hkey
          exact absurd hkey (by simp)
        rw [Std.HashMap.getElem?_insert, hne]
        exact hkey
      · exact ⟨(a.keyOf spot).1, by simp⟩
    · intro i place hplace
      rw [Array.getElem?_push] at hplace
      split at hplace
      · next hi =>
        obtain rfl := Option.some.inj hplace
        rw [hi]
      · exact sound.numbered i place hplace

theorem visit_spot (sound : a.Sound) (few : (a.visit spot).2.symbols.size ≤ UInt32.size) :
    (a.visit spot).1.toSpot = spot := by
  rw [symbols_visit] at few
  obtain ⟨-, hnames⟩ := keyOf_names sound.symbols few
  cases h : a.known[(a.keyOf spot).1]? with
  | some place =>
    rw [visit_known h]
    exact ((sound.names _ _ h).2.mono (extends_keyOf a spot)).spot_unique hnames
  | none => rw [visit_new h]

theorem visit_mem (sound : a.Sound) : (a.visit spot).1 ∈ (a.visit spot).2.places := by
  cases h : a.known[(a.keyOf spot).1]? with
  | some place => rw [visit_known h]; exact (sound.names _ _ h).1
  | none => rw [visit_new h]; exact Array.mem_push_self

theorem mem_of_mem_visit (sound : a.Sound) (few : (a.visit spot).2.symbols.size ≤ UInt32.size)
    {place : Place} (h : place ∈ (a.visit spot).2.places) :
    place ∈ a.places ∨ place.toSpot = spot := by
  have hspot := visit_spot sound few
  cases hknown : a.known[(a.keyOf spot).1]? with
  | some found => rw [visit_known hknown] at h; exact .inl h
  | none =>
    rw [visit_new hknown] at h hspot
    rcases Array.mem_push.mp h with h | rfl
    · exact .inl h
    · exact .inr hspot

end

/-! ## Places and their numbers -/

namespace Sound

variable {a : Atlas} (sound : a.Sound)
include sound

/-- A spot has one place only. -/
theorem place_unique {p q : Place} (hp : p ∈ a.places) (hq : q ∈ a.places)
    (h : p.toSpot = q.toSpot) : p = q := by
  obtain ⟨key, hkey⟩ := sound.known p hp
  obtain ⟨key', hkey'⟩ := sound.known q hq
  have hnames := (sound.names key p hkey).2
  rw [h] at hnames
  rw [hnames.key_unique sound.symbols (sound.names key' q hkey').2, hkey'] at hkey
  exact (Option.some.inj hkey).symm

section
variable (room : a.places.size < UInt32.size)
include room

theorem getElem?_id {p : Place} (hp : p ∈ a.places) : a.places[p.id.index.toNat]? = some p := by
  obtain ⟨i, hi, hget⟩ := Array.mem_iff_getElem.mp hp
  have hsome : a.places[i]? = some p := Array.getElem?_eq_some_iff.mpr ⟨hi, hget⟩
  rw [sound.numbered i p hsome]
  have hmod : (i.toUInt32).toNat = i := UInt32.toNat_ofNat_of_lt' (Nat.lt_trans hi room)
  rw [hmod]
  exact hsome

theorem place?_id {p : Place} (hp : p ∈ a.places) : a.place? p.id = some p := by
  have hget := sound.getElem?_id room hp
  obtain ⟨hlt, -⟩ := Array.getElem?_eq_some_iff.mp hget
  have hsize : a.places.size.toUInt32.toNat = a.places.size := UInt32.toNat_ofNat_of_lt' room
  rw [place?, if_pos (UInt32.lt_iff_toNat_lt.mpr (by rw [hsize]; exact hlt)), hget]

theorem id_injective {p q : Place} (hp : p ∈ a.places) (hq : q ∈ a.places) (h : p.id = q.id) :
    p = q := by
  have hget := sound.getElem?_id room hp
  rw [h, sound.getElem?_id room hq] at hget
  exact (Option.some.inj hget).symm

end

end Sound

theorem mem_of_place? {a : Atlas} {id : PlaceId} {p : Place} (h : a.place? id = some p) :
    p ∈ a.places := by
  unfold place? at h
  split at h
  · exact Array.mem_of_getElem? h
  · exact absurd h (by simp)

theorem place?_eq_none {a : Atlas} (room : a.places.size < UInt32.size) {id : PlaceId} :
    a.place? id = none ↔ a.places.size ≤ id.index.toNat := by
  have hsize : a.places.size.toUInt32.toNat = a.places.size := UInt32.toNat_ofNat_of_lt' room
  unfold place?
  split
  · next h =>
    rw [UInt32.lt_iff_toNat_lt, hsize] at h
    simp
  · next h =>
    rw [UInt32.lt_iff_toNat_lt, hsize] at h
    simpa using h

end Atlas

end PageNav
