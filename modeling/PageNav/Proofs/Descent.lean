import PageNav.Proofs.Plain
import PageNav.Proofs.Tour

/-!
# Paths of plain pages

On a page whose keys are plain, each hop adds one token to the path, and no token is lost or cut.
-/

namespace PageNav

open PageNav.Path

/-! ## Plain keys -/

/-- All keys are plain, on all levels. -/
def Schema.PlainKeys : Schema → Prop
  | .nil => True
  | .leaf key rest => Plain key ∧ rest.PlainKeys
  | .branch key child rest => Plain key ∧ child.PlainKeys ∧ rest.PlainKeys

namespace Layout

def PlainKeys : Layout → Prop
  | plain => True
  | filtered itemKey columns => Plain itemKey ∧ columns.PlainKeys
  | leaf key rest => Plain key ∧ rest.PlainKeys
  | branch key child rest => Plain key ∧ child.PlainKeys ∧ rest.PlainKeys

theorem PlainKeys.key {l : Layout} (h : l.PlainKeys) {key : String} (hkey : key ∈ l.keys) :
    Plain key := by
  induction l with
  | plain => exact absurd hkey List.not_mem_nil
  | filtered _ _ => exact absurd hkey List.not_mem_nil
  | leaf k rest ih =>
    rcases List.mem_cons.mp hkey with rfl | hkey
    · exact h.1
    · exact ih h.2 hkey
  | branch k child rest _ ih =>
    rcases List.mem_cons.mp hkey with rfl | hkey
    · exact h.1
    · exact ih h.2.2 hkey

theorem PlainKeys.child {l : Layout} (h : l.PlainKeys) {key : String} {c : Layout}
    (hfind : l.find? key = some (.branch c)) : c.PlainKeys :=
  of_find? (P := PlainKeys) (fun _ _ h => h.2) (fun _ _ _ h => h.2) h hfind

theorem PlainKeys.rowFilter {l : Layout} (h : l.PlainKeys) {filter : RowFilter}
    (hfilter : l.rowFilter? = some filter) : Plain filter.itemKey ∧ filter.columns.PlainKeys := by
  induction l with
  | plain => exact absurd hfilter (by simp [rowFilter?])
  | filtered itemKey columns =>
    obtain rfl := Option.some.inj hfilter
    exact h
  | leaf k rest ih => exact ih h.2 hfilter
  | branch k child rest _ ih => exact ih h.2.2 hfilter

theorem mem_keys_of_resolve? {l : Layout} {name key : String} (h : l.resolve? name = some key) :
    key ∈ l.keys := by
  unfold resolve? at h
  split at h
  · next hname =>
    obtain rfl := Option.some.inj h
    obtain ⟨entry, hentry⟩ := Option.isSome_iff_exists.mp hname
    exact mem_keys_of_find? hentry
  · exact List.mem_of_find?_eq_some h

theorem plainKeys_withFilter {filter : RowFilter} (hitem : Plain filter.itemKey)
    (hcolumns : filter.columns.PlainKeys) {l : Layout} (h : l.PlainKeys) :
    (l.withFilter filter).PlainKeys := by
  induction l with
  | plain => exact ⟨hitem, hcolumns⟩
  | filtered _ _ => exact h
  | leaf k rest ih => exact ⟨h.1, ih h.2⟩
  | branch k child rest _ ih => exact ⟨h.1, h.2.1, ih h.2.2⟩

/-- The item of a row filter is a key of its level, so that no word of the table can spoil it. -/
theorem plainKeys_under (table : RowTable) (key : String) {l : Layout} (h : l.PlainKeys) :
    (l.under table key).PlainKeys := by
  unfold under
  cases hfilter : l.filterFor? table key with
  | none => exact h
  | some filter =>
    obtain ⟨hitem, -⟩ := filterFor?_eq_some hfilter
    exact plainKeys_withFilter (h.key (mem_keys_of_find? hitem)) (h.child hitem) h

theorem plainKeys_ofSchema (table : RowTable) {schema : Schema} (h : schema.PlainKeys) :
    (ofSchema table schema).PlainKeys := by
  induction schema with
  | nil => trivial
  | leaf key rest ih => exact ⟨h.1, ih h.2⟩
  | branch key child rest ihchild ih =>
    exact ⟨h.1, plainKeys_under table key (ihchild h.2.1), ih h.2.2⟩

end Layout

/-! ## Hops add tokens -/

theorem Path.toList_below {ts : List (List Char)} (filled : ∀ t ∈ ts, t ≠ []) {parent : String}
    (h : parent.toList = join ts) (step : String) :
    (Path.below parent step).toList = join (ts ++ [step.toList]) := by
  unfold Path.below
  cases ts with
  | nil =>
    have hempty : parent = "" := by simpa [join] using h
    simp [hempty, join]
  | cons t ts =>
    have hfilled : parent ≠ "" := by
      rintro rfl
      exact join_ne_nil (filled t List.mem_cons_self) ts h.symm
    rw [join_append (by simp) (by simp)]
    simp [hfilled, h, join]

namespace Spot

/-- The path of the spot is made of whole steps, and so are the paths of all that lies below. -/
structure Tidy (s : Spot) : Prop where
  steps : ∃ ts, s.path.toList = join ts ∧ ∀ t ∈ ts, IsStep t
  keys : ∀ level ∈ s.layout, level.PlainKeys

theorem tidy_ofSchema {schema : Schema} (plain : schema.PlainKeys) (settings : Settings) :
    (ofSchema schema settings).Tidy := by
  refine ⟨⟨[], rfl, fun t ht => absurd ht List.not_mem_nil⟩, ?_⟩
  intro level hlevel
  obtain rfl := Option.some.inj hlevel
  exact Layout.plainKeys_ofSchema settings.rowTable plain

theorem Tidy.below {s : Spot} (tidy : s.Tidy) {step : String} (hstep : IsStep step.toList)
    {layout : Option Layout} (hkeys : ∀ level ∈ layout, level.PlainKeys) :
    Tidy ⟨Path.below s.path step, layout⟩ ∧
      tokensOf s.path.toList <+: tokensOf (Path.below s.path step).toList := by
  obtain ⟨ts, hpath, hsteps⟩ := tidy.steps
  have hall : ∀ t ∈ ts ++ [step.toList], IsStep t :=
    List.forall_mem_append.mpr ⟨hsteps, List.forall_mem_singleton.mpr hstep⟩
  have hbelow := Path.toList_below (fun t ht => (hsteps t ht).filled) hpath step
  refine ⟨⟨⟨_, hbelow, hall⟩, hkeys⟩, ?_⟩
  rw [hbelow, hpath, tokensOf_join (wellCut_of_steps hall), tokensOf_join (wellCut_of_steps hsteps)]
  exact List.prefix_append _ _

theorem Tidy.hop {attr : String} (hattr : Plain attr) {s t : Spot} (tidy : s.Tidy) {hop : Hop}
    (h : s.hop? attr hop = some t) :
    t.Tidy ∧ tokensOf s.path.toList <+: tokensOf t.path.toList := by
  cases hop with
  | child name =>
    obtain ⟨level, hlevel, h⟩ := Option.bind_eq_some_iff.mp h
    obtain ⟨key, hkey, h⟩ := Option.bind_eq_some_iff.mp h
    obtain rfl := Option.some.inj h
    have hplain := (tidy.keys level hlevel).key (Layout.mem_keys_of_resolve? hkey)
    apply tidy.below hplain.isStep
    intro child hchild
    split at hchild
    · next hfind =>
      obtain rfl := Option.some.inj hchild
      exact (tidy.keys level hlevel).child hfind
    · exact absurd hchild.symm (Option.some_ne_none child)
  | row column text =>
    obtain ⟨filter, hfilter, h⟩ := Option.bind_eq_some_iff.mp h
    obtain ⟨key, hkey, h⟩ := Option.bind_eq_some_iff.mp h
    obtain rfl := Option.some.inj h
    obtain ⟨level, hlevel, hrow⟩ := Option.bind_eq_some_iff.mp hfilter
    obtain ⟨hitem, hcolumns⟩ := (tidy.keys level hlevel).rowFilter hrow
    have hcolumn := hcolumns.key (Layout.mem_keys_of_resolve? hkey)
    apply tidy.below (isStep_rowStep hattr hitem hcolumn text)
    intro child hchild
    obtain rfl := Option.some.inj hchild
    exact hcolumns

theorem Tidy.follow {attr : String} (hattr : Plain attr) {hops : List Hop} {s t : Spot}
    (tidy : s.Tidy) (h : s.follow? attr hops = some t) :
    t.Tidy ∧ tokensOf s.path.toList <+: tokensOf t.path.toList := by
  induction hops generalizing s with
  | nil =>
    obtain rfl := Option.some.inj h
    exact ⟨tidy, List.prefix_rfl⟩
  | cons hop hops ih =>
    obtain ⟨u, hu, h⟩ := Option.bind_eq_some_iff.mp h
    obtain ⟨htidy, hprefix⟩ := tidy.hop hattr hu
    obtain ⟨hend, hrest⟩ := ih htidy h
    exact ⟨hend, hprefix.trans hrest⟩

end Spot

end PageNav
