import PageNav.Proofs.FilterName
import PageNav.Proofs.Nesting

/-!
# What rows are told apart by

The step to a row says which column was looked at and which text was looked for there, although the
column stands in it as it is. So two rows of a container are the same place only if they were asked
for by the same column and the same text.
-/

namespace PageNav

open Text

/-! ## The step to a row -/

/-- What stands before a text that is looked for. An escaped text does not hold it. -/
def textMark : List Char := ['(', '\'']

theorem not_mark_infix_escapeChars (text : List Char) : ¬ textMark <:+: escapeChars text := by
  induction text with
  | nil => simp [escapeChars, textMark]
  | cons c cs ih =>
    unfold escapeChars
    split
    · next special =>
      have hc : '(' ≠ c := by
        rintro rfl
        exact absurd special (by decide)
      rw [textMark] at ih ⊢
      simp [List.infix_cons_iff, hc, ih]
    · next plain =>
      rw [List.infix_cons_iff, not_or]
      refine ⟨fun hprefix => ?_, ih⟩
      obtain ⟨-, hquote⟩ := List.cons_prefix_cons.mp hprefix
      cases cs with
      | nil => simp [escapeChars] at hquote
      | cons d ds =>
        unfold escapeChars at hquote
        split at hquote
        · simp at hquote
        · next hd =>
          obtain ⟨rfl, -⟩ := List.cons_prefix_cons.mp hquote
          exact hd (by decide)

theorem escapeChars_injective : Function.Injective escapeChars := by
  intro s t h
  rw [← unescaped_escapeChars s [], h, unescaped_escapeChars]

theorem eq_nil_of_mark_append {x s t : List Char} (hs : ¬ textMark <:+: s)
    (h : textMark ++ s = x ++ (textMark ++ t)) : x = [] := by
  match x with
  | [] => rfl
  | [c] => simp [textMark] at h
  | c :: d :: x =>
    have hrest : s = x ++ (textMark ++ t) := by
      simp only [textMark, List.cons_append, List.cons.injEq] at h
      exact h.2.2
    exact absurd ⟨x, t, by rw [hrest, List.append_assoc]⟩ hs

/-- A text is cut in one way only at the last place where the mark stands. -/
theorem mark_append_inj {a b s t : List Char} (hs : ¬ textMark <:+: s) (ht : ¬ textMark <:+: t)
    (h : a ++ (textMark ++ s) = b ++ (textMark ++ t)) : a = b ∧ s = t := by
  rcases List.append_eq_append_iff.mp h with ⟨x, rfl, hx⟩ | ⟨x, rfl, hx⟩
  · obtain rfl := eq_nil_of_mark_append hs hx
    exact ⟨(List.append_nil a).symm, List.append_cancel_left hx⟩
  · obtain rfl := eq_nil_of_mark_append ht hx
    exact ⟨List.append_nil b, (List.append_cancel_left hx).symm⟩

namespace Spot

theorem toList_rowStep_marked (attr itemKey column text : String) :
    (rowStep attr itemKey column text).toList =
      (itemKey ++ ":has([" ++ attr ++ "='").toList ++ (column.toList ++
        ("']:contains".toList ++ (textMark ++ (escapeChars text.toList ++ "'))".toList)))) := by
  have hmark : ":contains('".toList = ":contains".toList ++ textMark := rfl
  simp only [rowStep, Selector.ofName, Selector.testOf, escape, String.toList_append,
    String.toList_ofList, hmark]
  simp

theorem rowStep_inj {attr itemKey c d s t : String} :
    rowStep attr itemKey c s = rowStep attr itemKey d t ↔ c = d ∧ s = t := by
  constructor
  · intro h
    have hchars := congrArg String.toList h
    rw [toList_rowStep_marked, toList_rowStep_marked, List.append_cancel_left_eq] at hchars
    simp only [← List.append_assoc, List.append_cancel_right_eq] at hchars
    simp only [List.append_assoc _ textMark] at hchars
    obtain ⟨hcolumn, htext⟩ := mark_append_inj (not_mark_infix_escapeChars _)
      (not_mark_infix_escapeChars _) hchars
    exact ⟨String.toList_inj.mp (List.append_cancel_right hcolumn),
      String.toList_inj.mp (escapeChars_injective htext)⟩
  · rintro ⟨rfl, rfl⟩
    rfl

end Spot

theorem Path.below_inj {parent s t : String} :
    Path.below parent s = Path.below parent t ↔ s = t := by
  unfold Path.below
  split
  · rfl
  · exact String.append_right_inj _

/-! ## Rows of a container -/

namespace Spot

theorem row?_eq (s : Spot) (attr : String) (filter : RowFilter) (column text : String) :
    s.row? attr filter column text = (filter.columns.resolve? column).map fun key =>
      ⟨Path.below s.path (rowStep attr filter.itemKey key text), some filter.columns⟩ := by
  unfold row?
  cases filter.columns.resolve? column <;> rfl

theorem row?_inj {s p q : Spot} {attr : String} {filter : RowFilter} {c d t u : String}
    (hp : s.row? attr filter c t = some p) (hq : s.row? attr filter d u = some q) :
    p = q ↔ filter.columns.resolve? c = filter.columns.resolve? d ∧ t = u := by
  rw [row?_eq] at hp hq
  obtain ⟨k, hk, rfl⟩ := Option.map_eq_some_iff.mp hp
  obtain ⟨l, hl, rfl⟩ := Option.map_eq_some_iff.mp hq
  rw [hk, hl, Option.some.injEq, Spot.mk.injEq, Path.below_inj, rowStep_inj]
  exact and_iff_left rfl

theorem row?_eq_none_iff {s : Spot} {attr : String} {filter : RowFilter} {column text : String} :
    s.row? attr filter column text = none ↔
      column ∉ filter.columns.keys ∧ ∀ key ∈ filter.columns.keys, camelCase key ≠ column := by
  rw [row?_eq, Option.map_eq_none_iff, ← Option.not_isSome_iff_eq_none, Layout.resolve?_isSome_iff]
  simp

theorem child?_itemKey {schema : Schema} {settings : Settings} {hops : List Hop} {s : Spot}
    {filter : RowFilter}
    (reached : (ofSchema schema settings).follow? settings.testAttribute hops = some s)
    (filtered : s.rowFilter? = some filter) :
    ∃ item, s.child? filter.itemKey = some item ∧ item.layout = some filter.columns := by
  obtain ⟨level, hlevel, hfilter⟩ := Option.bind_eq_some_iff.mp filtered
  obtain ⟨above, habove⟩ := follow?_liesIn (liesIn_ofSchema schema settings) reached level hlevel
  obtain ⟨container, -, hkey, hitem, -⟩ := (Layout.rowFilter?_level habove filter).mp hfilter
  rw [← hkey] at hitem
  rw [child?_of_layout hlevel, Layout.resolve?_of_mem (Layout.mem_keys_of_find? hitem)]
  exact ⟨_, rfl, by simp only [hitem]⟩

end Spot

namespace Nav

theorem visit?_answer {n : Navigator} (sound : n.atlas.Sound) (spot? : Option Spot)
    (few : (visit? spot? n).2.atlas.symbols.size ≤ UInt32.size) :
    (visit? spot? n).2.atlas.Sound ∧ (visit? spot? n).1.map Place.toSpot = spot? ∧
      ∀ p ∈ (visit? spot? n).1, p ∈ (visit? spot? n).2.atlas.places := by
  cases spot? with
  | none => exact ⟨sound, rfl, fun p hp => absurd hp (Option.not_mem_none p)⟩
  | some spot =>
    refine ⟨Atlas.visit_sound sound few, congrArg some (Atlas.visit_spot sound few), fun p hp => ?_⟩
    obtain rfl := Option.some.inj hp
    exact Atlas.visit_mem sound

theorem row_answer {n : Navigator} (sound : n.atlas.Sound) {container : Place} {filter : RowFilter}
    {column text : String}
    (few : (row container filter column text n).2.atlas.symbols.size ≤ UInt32.size) :
    (row container filter column text n).2.atlas.Sound ∧
      (row container filter column text n).1.map Place.toSpot =
        container.row? n.settings.testAttribute filter column text ∧
      ∀ p ∈ (row container filter column text n).1,
        p ∈ (row container filter column text n).2.atlas.places :=
  visit?_answer sound _ few

theorem row_eq_none_iff {container : Place} {filter : RowFilter} {column text : String}
    {n : Navigator} : (row container filter column text n).1 = none ↔
      column ∉ filter.columns.keys ∧ ∀ key ∈ filter.columns.keys, camelCase key ≠ column := by
  have hvisit : ∀ spot? : Option Spot, (visit? spot? n).1 = none ↔ spot? = none := by
    intro spot?
    cases spot? with
    | none => exact iff_of_true rfl rfl
    | some spot => exact iff_of_false (Option.some_ne_none _) (Option.some_ne_none _)
  exact (hvisit _).trans Spot.row?_eq_none_iff

theorem row_grownBy (container : Place) (filter : RowFilter) (column text : String)
    (n : Navigator) : n.GrownBy 1 (row container filter column text n).2 :=
  visit?_grownBy _ n

/-- Rows of a container that were asked for at any two times have one number exactly if the columns
are the same, by their keys, and the texts are the same. A row has the keys of the item of the
container. There is a row for each name that is a column or the camel case name of one. -/
theorem row_by_column_and_text {schema : Schema} {settings : Settings} {n m : Navigator}
    {log log' : Log} {hops : List Hop} {container : Place} {filter : RowFilter} {c d t u : String}
    (tour : Tour schema settings n log) (found : (hops, some container) ∈ log)
    (filtered : container.rowFilter? = some filter) (tour' : Tour schema settings m log')
    (later : (row container filter c t n).2.Grown m)
    (few : (row container filter d u m).2.atlas.symbols.size ≤ UInt32.size)
    (room : (row container filter d u m).2.stats.placesBuilt < UInt32.size) :
    (∀ p ∈ (row container filter c t n).1, ∀ q ∈ (row container filter d u m).1,
      p.id = q.id ↔ filter.columns.resolve? c = filter.columns.resolve? d ∧ t = u) ∧
    (∀ p ∈ (row container filter c t n).1, ∃ item, container.child? filter.itemKey = some item ∧
      p.layout = item.layout ∧ p.keys = item.keys) ∧
    ((row container filter c t n).1 = none ↔
      c ∉ filter.columns.keys ∧ ∀ key ∈ filter.columns.keys, camelCase key ≠ c) := by
  have hgrown : m.Grown (row container filter d u m).2 := visit?_grown _ m
  have hfewm := Nat.le_trans hgrown.symbols few
  have hfewn := Nat.le_trans later.symbols hfewm
  obtain ⟨charted, agrees⟩ := tour.answered (Nat.le_trans (visit?_grown _ n).symbols hfewn)
  obtain ⟨-, hn, hpn⟩ := row_answer charted.sound hfewn
  obtain ⟨sound, hm, hqm⟩ := row_answer (tour'.answered hfewm).charted.sound few
  rw [tour.settings_eq] at hn
  rw [tour'.settings_eq] at hm
  refine ⟨?_, ?_, row_eq_none_iff⟩
  · intro p hp q hq
    have hpq := Spot.row?_inj (hn.symm.trans (congrArg (Option.map Place.toSpot) hp))
      (hm.symm.trans (congrArg (Option.map Place.toSpot) hq))
    have hpmem := hgrown.places p (later.places p (hpn p hp))
    rw [← hpq]
    constructor
    · intro hid
      rw [sound.id_injective room hpmem (hqm q hq) hid]
    · intro hspot
      rw [sound.place_unique hpmem (hqm q hq) hspot]
  · intro p hp
    have reached := (agrees _ found).follow?
    rw [tour.follow?_eq] at reached
    obtain ⟨item, hitem, hlayout⟩ := Spot.child?_itemKey reached filtered
    have hp' := hn.symm.trans (congrArg (Option.map Place.toSpot) hp)
    rw [Spot.row?_eq] at hp'
    obtain ⟨key, -, hspot⟩ := Option.map_eq_some_iff.mp hp'
    have hsame : p.layout = item.layout := by rw [hlayout, ← hspot]
    exact ⟨item, hitem, hsame, by rw [Spot.keys, Spot.keys, hsame]⟩

/-- A list of rows with a column whose name goes on like the step to a row of the other column. -/
def lookalikePage : Schema :=
  .branch "rows" (.branch "row" (.leaf "a" (.leaf "a']:contains('b" .nil)) .nil) .nil

/-- Without the backslashes in the texts the two rows would have the same path. -/
theorem lookalike_rows : ∃ n log rows filter p q, Tour lookalikePage {} n log ∧
    ([.child "rows"], some rows) ∈ log ∧ rows.rowFilter? = some filter ∧
    (row rows filter "a" "b']:contains('c" n).1 = some p ∧
    (row rows filter "a']:contains('b" "c" (row rows filter "a" "b']:contains('c" n).2).1 = some q ∧
    p.id ≠ q.id := by
  have bound : (8 : Nat) < UInt32.size := by decide
  obtain ⟨symbols₀, places₀⟩ := Navigator.size_ofSchema lookalikePage {}
  let columns : Layout := .leaf "a" (.leaf "a']:contains('b" .plain)
  let filter : RowFilter := ⟨"row", columns⟩
  have root := Navigator.ofSchema_root lookalikePage {}
  have hrows : (Navigator.ofSchema lookalikePage {}).root.toSpot.follow?
      ({} : Settings).testAttribute [.child "rows"] =
        some ⟨"rows", some (.branch "row" columns (.filtered "row" columns))⟩ := by
    rw [root]
    decide
  obtain ⟨n, log, rows, tour, -, found, hspot, symbols₁, places₁⟩ :=
    Tour.start.follow List.mem_cons_self hrows (by simp only [List.length_cons, List.length_nil]; omega)
  simp only [List.length_cons, List.length_nil] at symbols₁ places₁
  have filtered : rows.rowFilter? = some filter := by
    rw [hspot]
    rfl
  have hrow : ∀ column ∈ columns.keys, ∀ text k, ∃ p, (row rows filter column text k).1 = some p := by
    intro column hcolumn text k
    exact Option.ne_none_iff_exists'.mp fun hnone => (row_eq_none_iff.mp hnone).1 hcolumn
  have tour' := tour.step (.row "a" "b']:contains('c" found filtered)
  obtain ⟨symbols₂, places₂⟩ := row_grownBy rows filter "a" "b']:contains('c" n
  obtain ⟨p, hp⟩ := hrow "a" (by decide) "b']:contains('c" n
  generalize hm : (row rows filter "a" "b']:contains('c" n).2 = m at tour' symbols₂ places₂
  have later : (row rows filter "a" "b']:contains('c" n).2.Grown m := by
    rw [hm]
    exact Navigator.Grown.refl m
  obtain ⟨symbols₃, places₃⟩ := row_grownBy rows filter "a']:contains('b" "c" m
  obtain ⟨q, hq⟩ := hrow "a']:contains('b" (by decide) "c" m
  obtain ⟨hsame, -, -⟩ := row_by_column_and_text (d := "a']:contains('b") (u := "c") tour found
    filtered tour' later (by omega) (Nat.lt_of_le_of_lt places₃ (by omega))
  refine ⟨n, log, rows, filter, p, q, tour, found, filtered, hp, by rw [hm]; exact hq, ?_⟩
  intro hid
  exact absurd ((hsame p hp q hq).mp hid).2 (by decide)

end Nav

end PageNav
