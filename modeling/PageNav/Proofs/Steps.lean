import PageNav.Proofs.Descent
import PageNav.Proofs.Nesting

/-!
# The steps of a path

On a page with plain keys the tokens of a path are the steps of its hops, one for each, and its
selector is made of theirs.
-/

namespace PageNav

open PageNav.Path Text

/-! ## Steps -/

/-- The text that a row is told by. -/
def Hop.text? : Hop → Option String
  | .child _ => none
  | .row _ text => some text

namespace Spot

/-- The step that a hop adds to the path: a key, or the item of a row filter with a test of one
column. -/
def step? (attr : String) (s : Spot) : Hop → Option String
  | .child name => do (← s.layout).resolve? name
  | .row column text => do
    let filter ← s.rowFilter?
    let key ← filter.columns.resolve? column
    return filter.itemKey ++ ":has([" ++ attr ++ "='" ++ key ++ "']:contains('" ++ escape text ++ "'))"

def steps? (attr : String) (s : Spot) : List Hop → Option (List String)
  | [] => some []
  | hop :: hops => do
    let step ← s.step? attr hop
    let steps ← (← s.hop? attr hop).steps? attr hops
    return step :: steps

theorem rowStep_eq (attr itemKey column text : String) :
    rowStep attr itemKey column text =
      itemKey ++ ":has([" ++ attr ++ "='" ++ column ++ "']:contains('" ++ escape text ++ "'))" := by
  apply String.toList_inj.mp
  simp [rowStep, Selector.ofName, Selector.testOf]

theorem Tidy.step {attr : String} (hattr : Plain attr) {s t : Spot} (tidy : s.Tidy) {hop : Hop}
    (h : s.hop? attr hop = some t) :
    ∃ step, s.step? attr hop = some step ∧ t.path = Path.below s.path step ∧
      IsStep step.toList ∧
      Fair (Selector.ofToken attr.toList step.toList) hop.text?.toList := by
  cases hop with
  | child name =>
    obtain ⟨level, hlevel, h⟩ := Option.bind_eq_some_iff.mp h
    obtain ⟨key, hkey, h⟩ := Option.bind_eq_some_iff.mp h
    obtain rfl := Option.some.inj h
    have hplain := (tidy.keys level hlevel).key (Layout.mem_keys_of_resolve? hkey)
    refine ⟨key, Option.bind_eq_some_iff.mpr ⟨level, hlevel, hkey⟩, rfl, hplain.isStep, ?_⟩
    exact fair_ofToken hattr.2 hplain.2
  | row column text =>
    obtain ⟨filter, hfilter, h⟩ := Option.bind_eq_some_iff.mp h
    obtain ⟨key, hkey, h⟩ := Option.bind_eq_some_iff.mp h
    obtain rfl := Option.some.inj h
    obtain ⟨level, hlevel, hrow⟩ := Option.bind_eq_some_iff.mp hfilter
    obtain ⟨hitem, hcolumns⟩ := (tidy.keys level hlevel).rowFilter hrow
    have hcolumn := hcolumns.key (Layout.mem_keys_of_resolve? hkey)
    refine ⟨rowStep attr filter.itemKey key text, ?_, rfl, isStep_rowStep hattr hitem hcolumn text,
      fair_rowStep hattr hitem hcolumn text⟩
    rw [rowStep_eq]
    exact Option.bind_eq_some_iff.mpr ⟨filter, hfilter, Option.bind_eq_some_iff.mpr ⟨key, hkey, rfl⟩⟩

theorem Tidy.follow_steps {attr : String} (hattr : Plain attr) {hops : List Hop} {s t : Spot}
    (tidy : s.Tidy) (h : s.follow? attr hops = some t) {ts : List (List Char)}
    (hpath : s.path.toList = join ts) (hts : ∀ t ∈ ts, IsStep t) :
    ∃ steps, s.steps? attr hops = some steps ∧
      t.path.toList = join (ts ++ steps.map String.toList) ∧
      (∀ step ∈ steps, IsStep step.toList) ∧
      List.Forall₂ Fair (steps.map fun step => Selector.ofToken attr.toList step.toList)
        (hops.map fun hop => hop.text?.toList) := by
  induction hops generalizing s ts with
  | nil =>
    obtain rfl := Option.some.inj h
    exact ⟨[], rfl, by simpa using hpath, fun _ h => absurd h List.not_mem_nil, .nil⟩
  | cons hop hops ih =>
    obtain ⟨u, hu, h⟩ := Option.bind_eq_some_iff.mp h
    obtain ⟨step, hstep, hbelow, his, hfair⟩ := tidy.step hattr hu
    have hupath := Path.toList_below (fun t ht => (hts t ht).filled) hpath step
    rw [← hbelow] at hupath
    have hall : ∀ t ∈ ts ++ [step.toList], IsStep t :=
      List.forall_mem_append.mpr ⟨hts, List.forall_mem_singleton.mpr his⟩
    obtain ⟨steps, hsteps, hend, hrest, hfairs⟩ := ih (tidy.hop hattr hu).1 h hupath hall
    refine ⟨step :: steps, ?_, ?_, List.forall_mem_cons.mpr ⟨his, hrest⟩, .cons hfair hfairs⟩
    · simp [steps?, hstep, hu, hsteps]
    · rw [hend]
      simp

end Spot

/-! ## Paths and selectors of places -/

theorem ofList_join (ts : List (List Char)) :
    String.ofList (join ts) = " ".intercalate (ts.map String.ofList) := by
  apply String.toList_inj.mp
  rw [String.toList_ofList, String.toList_intercalate, List.map_map]
  simp [join, Function.comp_def]

theorem ofPath_of_isStep (attr : String) {step : String} (h : IsStep step.toList) :
    Selector.ofPath attr step = String.ofList (Selector.ofToken attr.toList step.toList) := by
  rw [Selector.ofPath, tokensOf_solid h.solid h.filled]
  simp [join]

/-- Each hop to a place is one token of its path. The selectors of the hops make up its selector,
which is closed, and in which a reader finds the texts that its rows are told by. -/
theorem Tour.hops_are_tokens {schema : Schema} {settings : Settings} {n : Navigator} {log : Log}
    {hops : List Hop} {place : Place} (plainKeys : schema.PlainKeys)
    (plainAttribute : Plain settings.testAttribute) (tour : Tour schema settings n log)
    (few : n.atlas.symbols.size ≤ UInt32.size) (found : (hops, some place) ∈ log) :
    ∃ steps, (Spot.ofSchema schema settings).steps? settings.testAttribute hops = some steps ∧
      Path.tokens place.path = steps ∧
      place.selector settings.testAttribute =
        " ".intercalate (steps.map (Selector.ofPath settings.testAttribute)) ∧
      Closed (place.selector settings.testAttribute).toList ∧
      Nested (place.selector settings.testAttribute).toList ∧
      Selector.sought (place.selector settings.testAttribute) = hops.filterMap Hop.text? := by
  have hfollow := ((tour.answered few).agrees _ found).follow?
  rw [tour.follow?_eq] at hfollow
  have hroot : (Spot.ofSchema schema settings).path.toList = join [] := rfl
  obtain ⟨steps, hsteps, hpath, his, hfairs⟩ := (Spot.tidy_ofSchema plainKeys settings).follow_steps
    plainAttribute hfollow hroot (fun t ht => absurd ht List.not_mem_nil)
  have htokens : tokensOf place.path.toList = steps.map String.toList := by
    rw [hpath, List.nil_append]
    exact tokensOf_join (wellCut_of_steps (List.forall_mem_map.mpr his))
  have hselector : place.selector settings.testAttribute = String.ofList
      (join (steps.map fun step => Selector.ofToken settings.testAttribute.toList step.toList)) := by
    rw [Spot.selector, Selector.ofPath, htokens, List.map_map]
    rfl
  have hfair : Fair (place.selector settings.testAttribute).toList (hops.filterMap Hop.text?) := by
    have hjoin := fair_join hfairs
    rw [← List.flatMap_def, ← List.filterMap_eq_flatMap_toList] at hjoin
    rwa [hselector, String.toList_ofList]
  refine ⟨steps, hsteps, ?_, ?_, hfair.closed, hfair.nested, hfair.sought_eq⟩
  · rw [Path.tokens, htokens]
    simp
  · rw [hselector, ofList_join, List.map_map]
    congr 1
    exact List.map_congr_left fun step hstep => (ofPath_of_isStep _ (his step hstep)).symm

/-- A page whose rows have a longer name. -/
def todoPage : Schema :=
  .branch "todo_rows" (.branch "todo_row" (.leaf "label" .nil) .nil) .nil

/-- A row that is told by a text with a quote, a backslash, blanks and brackets. -/
theorem awkward_row_is_one_token :
    let hops : List Hop := [.child "todoRows", .row "label" "it's \\ (\n[", .child "label"]
    let steps := ["todo_rows",
      "todo_row:has([data-test='label']:contains('it\\'s \\\\ (\n['))", "label"]
    ∃ n log place, Tour todoPage {} n log ∧ n.atlas.symbols.size ≤ UInt32.size ∧
      (hops, some place) ∈ log ∧ todoPage.PlainKeys ∧ Plain ({} : Settings).testAttribute ∧
      Path.tokens place.path = steps ∧ Nested (place.selector "data-test").toList ∧
      Selector.sought (place.selector "data-test") = ["it's \\ (\n["] := by
  intro hops steps
  have root := Navigator.ofSchema_root todoPage {}
  have hplace : (Navigator.ofSchema todoPage {}).root.toSpot.follow? ({} : Settings).testAttribute
      hops = some ⟨" ".intercalate steps, none⟩ := by
    rw [root]
    decide
  obtain ⟨symbols₀, -⟩ := Navigator.size_ofSchema todoPage {}
  obtain ⟨n, log, place, tour, -, found, -, symbols, -⟩ := Tour.start.follow List.mem_cons_self
    hplace (Nat.le_trans (Nat.add_le_add_right symbols₀ _) (by decide))
  have few : n.atlas.symbols.size ≤ UInt32.size :=
    Nat.le_trans symbols (Nat.le_trans (Nat.add_le_add_right symbols₀ _) (by decide))
  have plainKeys : todoPage.PlainKeys :=
    ⟨by decide, ⟨by decide, ⟨by decide, trivial⟩, trivial⟩, trivial⟩
  obtain ⟨taken, hsteps, htokens, -, -, nested, sought⟩ :=
    Tour.hops_are_tokens plainKeys (by decide) tour few found
  have hgiven : (Spot.ofSchema todoPage {}).steps? ({} : Settings).testAttribute hops =
      some steps := by decide
  have htaken : steps = taken := Option.some.inj (hgiven.symm.trans hsteps)
  rw [← htaken] at htokens
  exact ⟨n, log, place, tour, few, found, plainKeys, by decide, htokens, nested, sought⟩

end PageNav
