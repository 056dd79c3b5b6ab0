import Mathlib.Tactic.ByContra
import PageNav.Proofs.Extension
import PageNav.Proofs.Tour

/-!
# What names mean at a place

A place gives a meaning to its keys and their camel case names, to its row filter and to its path. No
operation of a host takes such a name away from it. Every other name means an operation or nothing.
-/

namespace PageNav

open Text

/-! ## Names of a place -/

theorem Layout.resolve?_of_mem {l : Layout} {key : String} (h : key ∈ l.keys) :
    l.resolve? key = some key := by
  rw [resolve?, if_pos (contains_iff.mpr h)]

theorem Layout.resolve?_of_not_mem {l : Layout} {name : String} (h : name ∉ l.keys) :
    l.resolve? name = l.keys.find? (camelCase · == name) := by
  rw [resolve?, if_neg (fun hkey => h (contains_iff.mp hkey))]

theorem Layout.resolve?_isSome_iff {l : Layout} {name : String} :
    (l.resolve? name).isSome = true ↔ name ∈ l.keys ∨ ∃ key ∈ l.keys, camelCase key = name := by
  by_cases h : name ∈ l.keys
  · simp [resolve?_of_mem h, h]
  · simp [resolve?_of_not_mem h, h]

namespace Spot

/-- The names that a spot gives a meaning itself: its keys and their camel case names, the name of
its row filter if it has one, and that of its path. -/
def Owns (s : Spot) (name : String) : Prop :=
  name ∈ s.keys ∨ (∃ key ∈ s.keys, camelCase key = name) ∨
    (name = filterKey ∧ s.rowFilter?.isSome) ∨ name = pathKey

theorem keys_of_layout {s : Spot} {level : Layout} (h : s.layout = some level) :
    s.keys = level.keys := by
  rw [keys, h]
  rfl

theorem defines_iff {s : Spot} {name : String} : s.defines name = true ↔ s.Owns name := by
  cases hlayout : s.layout with
  | none => simp [defines, Owns, keys, rowFilter?, hlayout]
  | some level =>
    have hfilter : s.rowFilter? = level.rowFilter? := by rw [rowFilter?, hlayout]; rfl
    rw [Owns, keys_of_layout hlayout, hfilter, ← or_assoc, ← Layout.resolve?_isSome_iff]
    simp only [defines, hlayout, Option.any_some, Bool.or_eq_true, Bool.and_eq_true, beq_iff_eq]
    exact or_comm.trans or_assoc

theorem child?_of_layout {s : Spot} {level : Layout} (hlayout : s.layout = some level)
    (name : String) :
    s.child? name = (level.resolve? name).map fun key =>
      ⟨Path.below s.path key, match level.find? key with
        | some (.branch child) => some child
        | _ => none⟩ := by
  simp only [child?, hlayout, Option.bind_eq_bind, Option.bind_some]
  cases level.resolve? name <;> rfl

theorem child?_isSome_iff {s : Spot} {name : String} :
    (s.child? name).isSome = true ↔ name ∈ s.keys ∨ ∃ key ∈ s.keys, camelCase key = name := by
  cases hlayout : s.layout with
  | none => simp [child?, keys, hlayout]
  | some level =>
    rw [child?_of_layout hlayout, Option.isSome_map, keys_of_layout hlayout, Layout.resolve?_isSome_iff]

end Spot

/-- What a name means at a place if it stands for no key. -/
def Place.label? (place : Place) (name : String) : Option Meaning :=
  if name = filterKey then place.rowFilter?.map (.filter place)
  else if name = pathKey then some (.path place.path)
  else none

theorem Place.label?_isSome_iff {place : Place} {name : String} :
    (place.label? name).isSome = true ↔
      (name = filterKey ∧ place.rowFilter?.isSome = true) ∨ name = pathKey := by
  have hdifferent : filterKey ≠ pathKey := by decide
  unfold label?
  split
  · next h => simp [h, hdifferent]
  · next h => split <;> simp_all

/-! ## Meanings -/

namespace Atlas

theorem visit_of_mem {a : Atlas} (sound : a.Sound) {spot : Spot}
    (few : (a.visit spot).2.symbols.size ≤ UInt32.size) {place : Place} (hplace : place ∈ a.places)
    (hspot : place.toSpot = spot) : (a.visit spot).1 = place :=
  (visit_sound sound few).place_unique (visit_mem sound) (mem_places_visit spot hplace)
    ((visit_spot sound few).trans hspot.symm)

end Atlas

namespace Nav

open Navigator (Grown)

theorem child_of_spot {place : Place} {name : String} {spot : Spot}
    (h : place.child? name = some spot) (n : Navigator) :
    child place name n = (some (n.atlas.visit spot).1, { n with atlas := (n.atlas.visit spot).2 }) := by
  rw [child, h, visit?_some]

theorem child_of_none {place : Place} {name : String} (h : place.child? name = none)
    (n : Navigator) : child place name n = (none, n) := by
  rw [child, h]
  rfl

theorem ownMeaning_of_spot {place : Place} {name : String} {spot : Spot}
    (h : place.child? name = some spot) (n : Navigator) :
    ownMeaning place name n =
      (some (.child (n.atlas.visit spot).1), { n with atlas := (n.atlas.visit spot).2 }) := by
  have hchild := child_of_spot h n
  rw [ownMeaning_child (congrArg Prod.fst hchild), hchild]

theorem ownMeaning_of_none {place : Place} {name : String} (h : place.child? name = none)
    (n : Navigator) : ownMeaning place name n = (place.label? name, n) := by
  have hdifferent : filterKey ≠ pathKey := by decide
  rw [ownMeaning, bind_apply, child_of_none h, Place.label?]
  cases place.rowFilter? with
  | none =>
    simp only [ite_self, Option.map_none]
    split
    · next hpath =>
      rw [if_neg (by rw [hpath]; exact hdifferent.symm)]
      rfl
    · split <;> rfl
  | some filter =>
    simp only [Option.map_some]
    split
    · rfl
    · split <;> rfl

theorem ownMeaning_of_not_owned {place : Place} {name : String} (h : ¬ place.Owns name)
    (n : Navigator) : ownMeaning place name n = (none, n) := by
  have hchild : place.child? name = none := by
    rw [← Option.not_isSome_iff_eq_none, Spot.child?_isSome_iff]
    exact fun hkey => h (or_assoc.mp (.inl hkey))
  have hlabel : place.label? name = none := by
    rw [← Option.not_isSome_iff_eq_none, Place.label?_isSome_iff]
    exact fun hlabel => h (or_assoc.mp (.inr hlabel))
  rw [ownMeaning_of_none hchild, hlabel]

theorem ownMeaning_isSome {place : Place} {name : String} (h : place.Owns name) (n : Navigator) :
    (ownMeaning place name n).1.isSome = true := by
  cases hchild : place.child? name with
  | some spot =>
    rw [ownMeaning_of_spot hchild]
    rfl
  | none =>
    have hkey : ¬ (name ∈ place.keys ∨ ∃ key ∈ place.keys, camelCase key = name) := by
      rw [← Spot.child?_isSome_iff, hchild]
      simp
    rw [ownMeaning_of_none hchild, Place.label?_isSome_iff]
    exact (or_assoc.mpr h).resolve_left hkey

theorem resolve_of_owned {place : Place} {name : String} (h : place.Owns name)
    (names : OperationNames) (n : Navigator) :
    resolve place name names n = ownMeaning place name n := by
  rw [resolve_eq, Spot.defines_iff.mpr h, Bool.not_true, Bool.and_false]
  rfl

theorem resolve_of_not_owned {place : Place} {name : String} (h : ¬ place.Owns name)
    (names : OperationNames) (n : Navigator) :
    resolve place name names n =
      (if place.isElement && names.contains name then
        some (.operation ⟨place, name, name == n.settings.scopingOperation⟩) else none, n) := by
  have hdefines : place.defines name = false := by
    rw [← Bool.not_eq_true, Spot.defines_iff]
    exact h
  rw [resolve_eq, hdefines, Bool.not_false, Bool.and_true, ownMeaning_of_not_owned h]
  split <;> rfl

theorem ownMeaning_later {place : Place} {name : String} {n m : Navigator} (sound : n.atlas.Sound)
    (sound' : m.atlas.Sound) (grown : (ownMeaning place name n).2.Grown m)
    (few : (ownMeaning place name m).2.atlas.symbols.size ≤ UInt32.size) :
    (ownMeaning place name m).1 = (ownMeaning place name n).1 := by
  cases hchild : place.child? name with
  | none => rw [ownMeaning_of_none hchild, ownMeaning_of_none hchild]
  | some spot =>
    rw [ownMeaning_of_spot hchild] at few grown ⊢
    rw [ownMeaning_of_spot hchild]
    have hgrown := visit?_grown (some spot) m
    have hmem := grown.places _ (Atlas.visit_mem sound)
    have hspot : (n.atlas.visit spot).1.toSpot = spot :=
      Atlas.visit_spot sound (Nat.le_trans grown.symbols (Nat.le_trans hgrown.symbols few))
    exact congrArg (some ∘ Meaning.child) (Atlas.visit_of_mem sound' few hmem hspot)

theorem ownMeaning_cases {place : Place} {name : String} {n : Navigator} {meaning : Meaning}
    (h : (ownMeaning place name n).1 = some meaning) :
    (∃ found ∈ (child place name n).1, meaning = .child found) ∨
      (∃ filter ∈ place.rowFilter?, meaning = .filter place filter) ∨ meaning = .path place.path := by
  cases hchild : place.child? name with
  | some spot =>
    rw [ownMeaning_of_spot hchild] at h
    rw [child_of_spot hchild]
    exact .inl ⟨_, rfl, (Option.some.inj h).symm⟩
  | none =>
    rw [ownMeaning_of_none hchild, Place.label?] at h
    split at h
    · obtain ⟨filter, hfilter, rfl⟩ := Option.map_eq_some_iff.mp h
      exact .inr (.inl ⟨filter, hfilter, rfl⟩)
    · split at h
      · exact .inr (.inr (Option.some.inj h).symm)
      · exact absurd h (by simp)

/-- A name that a place defines means the same there whatever operations a host has, now and later. A
name that it does not define means an operation of that name, or nothing. -/
theorem resolve_by_place (place : Place) (name : String) (n : Navigator) :
    (place.defines name = true ↔ (resolve place name (.ofList []) n).1 ≠ none) ∧
    (place.defines name = true → ∀ names,
      resolve place name names n = resolve place name (.ofList []) n ∧
      (∃ meaning, (resolve place name names n).1 = some meaning ∧
        ((∃ found ∈ (child place name n).1, meaning = .child found) ∨
          (∃ filter ∈ place.rowFilter?, meaning = .filter place filter) ∨
          meaning = .path place.path)) ∧
      ∀ other m, n.atlas.Sound → m.atlas.Sound → (resolve place name names n).2.Grown m →
        (resolve place name other m).2.atlas.symbols.size ≤ UInt32.size →
        (resolve place name other m).1 = (resolve place name names n).1) ∧
    (place.defines name = false → ∀ names,
      resolve place name names n =
        (if place.isElement && names.contains name then
          some (.operation ⟨place, name, name == n.settings.scopingOperation⟩) else none, n)) := by
  refine ⟨?_, ?_, ?_⟩
  · rw [Spot.defines_iff]
    constructor
    · intro h
      rw [resolve_of_owned h, ← Option.isSome_iff_ne_none]
      exact ownMeaning_isSome h n
    · intro hmeant
      by_contra h
      rw [resolve_of_not_owned h] at hmeant
      exact hmeant (by simp [OperationNames.ofList, OperationNames.contains])
  · intro hdefines names
    have h := Spot.defines_iff.mp hdefines
    obtain ⟨meaning, hmeaning⟩ := Option.isSome_iff_exists.mp (ownMeaning_isSome h n)
    refine ⟨(resolve_of_owned h names n).trans (resolve_of_owned h _ n).symm, ?_, ?_⟩
    · exact ⟨meaning, (congrArg Prod.fst (resolve_of_owned h names n)).trans hmeaning,
        ownMeaning_cases hmeaning⟩
    · intro other m
      rw [resolve_of_owned h, resolve_of_owned h]
      exact ownMeaning_later
  · intro hdefines names
    have h : ¬ place.Owns name := by
      rw [← Spot.defines_iff, hdefines]
      simp
    exact resolve_of_not_owned h names n

/-- A page with a form that has a key named like an operation. -/
def formPage : Schema :=
  .branch "form" (.leaf "type" (.leaf "name" .nil)) .nil

theorem sound_visit? {n : Navigator} (sound : n.atlas.Sound) (spot : Spot)
    (few : n.atlas.symbols.size + 2 ≤ UInt32.size) : (visit? (some spot) n).2.atlas.Sound := by
  have hsize := (visit?_grownBy (some spot) n).symbols
  rw [visit?_some] at hsize ⊢
  exact Atlas.visit_sound sound (Nat.le_trans hsize few)

/-- A form has a child of the name "type", and its other child has an operation of that name. -/
theorem type_at_form_and_below :
    let names := OperationNames.ofList ["type"]
    let form : Place := ⟨⟨"form", some (.leaf "type" (.leaf "name" .plain))⟩, ⟨1⟩⟩
    let name : Place := ⟨⟨"form name", none⟩, ⟨2⟩⟩
    form.defines "type" = true ∧ name.defines "type" = false ∧
    ∃ n m kind, n = Navigator.ofSchema formPage {} ∧ n.atlas.Sound ∧ m.atlas.Sound ∧
      resolve form "type" names n = (some (.child kind), m) ∧
      (resolve form "type" (.ofList []) m).2.atlas.symbols.size ≤ UInt32.size ∧
      (resolve form "type" (.ofList []) m).1 = some (.child kind) ∧
      resolve name "type" names m =
        (some (.operation ⟨name, "type", "type" == m.settings.scopingOperation⟩), m) := by
  intro names form name
  have hform : form.defines "type" = true := by decide
  have hname : name.defines "type" = false := by decide
  have hchild : form.child? "type" = some ⟨"form type", none⟩ := by decide
  have howned := Spot.defines_iff.mp hform
  have hmeant (names : OperationNames) (n : Navigator) :
      resolve form "type" names n =
        (some (.child (n.atlas.visit ⟨"form type", none⟩).1),
          (visit? (some ⟨"form type", none⟩) n).2) :=
    (resolve_of_owned howned names n).trans (ownMeaning_of_spot hchild n)
  -- The navigators are kept from being unfolded: all that is needed of them is stated.
  obtain ⟨n, hn⟩ : ∃ n, n = Navigator.ofSchema formPage {} := ⟨_, rfl⟩
  obtain ⟨m, hm⟩ : ∃ m, m = (visit? (some ⟨"form type", none⟩) n).2 := ⟨_, rfl⟩
  have sound : n.atlas.Sound := hn ▸ (Navigator.ofSchema_answered formPage {}).charted.sound
  have hsize : n.atlas.symbols.size ≤ 2 := hn ▸ (Navigator.size_ofSchema formPage {}).1
  have bound : (6 : Nat) ≤ UInt32.size := by decide
  have sound' : m.atlas.Sound := hm ▸ sound_visit? sound _ (by omega)
  have hsize' : m.atlas.symbols.size ≤ n.atlas.symbols.size + 2 := hm ▸ (visit?_grownBy _ n).symbols
  have few : (resolve form "type" (.ofList []) m).2.atlas.symbols.size ≤ UInt32.size := by
    have hagain := (visit?_grownBy (some ⟨"form type", none⟩) m).symbols
    rw [hmeant]
    exact Nat.le_trans hagain (by omega)
  have hkind := hmeant names n
  rw [← hm] at hkind
  obtain ⟨-, hsame, -⟩ := resolve_by_place form "type" n
  obtain ⟨-, -, hother⟩ := resolve_by_place name "type" m
  have hlater := (hsame hform names).2.2 (.ofList []) m sound sound'
    (by rw [hkind]; exact .refl m) few
  rw [hkind] at hlater
  exact ⟨hform, hname, n, m, _, hn, sound, sound', hkind, few, hlater, hother hname names⟩

end Nav

end PageNav
