import PageNav.Proofs.Later
import PageNav.Proofs.Meanings
import PageNav.Proofs.Visits

/-!
# What a listing shows

A listing is made by visits, and still shows what can be read off the layout alone: for each level
its row filter, and for each key its path and the level below it.
-/

namespace PageNav

/-! ## The listing of a layout -/

namespace ListingStyle

def shown (style : ListingStyle) (attr path : String) : String :=
  if style.selectors then Selector.ofPath attr path else path

def filterText (style : ListingStyle) (level : Nat) (filter? : Option RowFilter) : String :=
  filter?.elim "" (style.filterLine level)

end ListingStyle

namespace Layout

/-- The spots below a path, in the order of a listing. -/
def spots (path : String) : Layout → List Spot
  | plain => []
  | filtered _ _ => []
  | leaf k rest => ⟨Path.below path k, none⟩ :: rest.spots path
  | branch k child rest =>
    ⟨Path.below path k, some child⟩ :: (child.spots (Path.below path k) ++ rest.spots path)

def text (style : ListingStyle) (attr : String) (level : Nat) (path : String) : Layout → String
  | plain => ""
  | filtered _ _ => ""
  | leaf k rest =>
    style.keyLine level k (style.shown attr (Path.below path k)) ++ rest.text style attr level path
  | branch k child rest =>
    style.keyLine level k (style.shown attr (Path.below path k)) ++
      (style.filterText (level + 1) child.rowFilter? ++
        child.text style attr (level + 1) (Path.below path k)) ++
      rest.text style attr level path

end Layout

def Entry.child? {α : Type} : Entry α → Option α
  | leaf => none
  | branch child => some child

namespace Spot

theorem child?_of_find? {s : Spot} {level : Layout} (hlayout : s.layout = some level) {key : String}
    {entry : Entry Layout} (hfind : level.find? key = some entry) :
    s.child? key = some ⟨Path.below s.path key, entry.child?⟩ := by
  rw [child?_of_layout hlayout, Layout.resolve?_of_mem (Layout.mem_keys_of_find? hfind)]
  simp only [Option.map_some, hfind]
  cases entry <;> rfl

end Spot

namespace Navigator

def visitAll (n : Navigator) (spots : List Spot) : Navigator :=
  { n with atlas := n.atlas.visitAll spots }

end Navigator

namespace Nav

open Navigator (Grown)

/-! ## Listings without a bound -/

/-- How the lines of these keys are made if nothing bounds the depth, and which navigator is left. -/
inductive Prints (style : ListingStyle) :
    Nat → Place → List String → Navigator → String → Navigator → Prop
  | done {level : Nat} {place : Place} {n : Navigator} : Prints style level place [] n "" n
  | missing {level : Nat} {place : Place} {key : String} {keys : List String} {n m : Navigator}
      {lines : String} (hchild : (child place key n).1 = none)
      (rest : Prints style level place keys (child place key n).2 lines m) :
      Prints style level place (key :: keys) n lines m
  | found {level : Nat} {place found : Place} {key : String} {keys : List String}
      {n k m : Navigator} {below lines : String} (hchild : (child place key n).1 = some found)
      (inner : Prints style (level + 1) found found.keys (child place key n).2 below k)
      (rest : Prints style level place keys k lines m) :
      Prints style level place (key :: keys) n
        (style.keyLine level key (style.pathText n.settings.testAttribute found.toSpot) ++
          (style.filterText (level + 1) found.rowFilter? ++ below) ++ lines) m

theorem child_apply {place : Place} {key : String} {spot : Spot} (h : place.child? key = some spot)
    (n : Navigator) : child place key n = (some (n.atlas.visit spot).1, n.visitAll [spot]) :=
  child_of_spot h n

/-- What lists the level below a place, `height` levels deep. -/
def beneath (style : ListingStyle) (level : Nat) : Nat → Place → Nav String
  | 0, _ => return ""
  | height + 1, found => listBelow style (level + 1) found height

theorem listBelow_apply (style : ListingStyle) (level height : Nat) (place : Place) (n : Navigator) :
    listBelow style level place height n =
      (style.filterText level place.rowFilter? ++
        (listChildren style level (beneath style level height) place place.keys n).1,
       (listChildren style level (beneath style level height) place place.keys n).2) := by
  cases height with
  | zero => rw [listBelow_zero]; rfl
  | succ height => rw [listBelow_succ]; rfl

theorem surveys_beneath (style : ListingStyle) (level height : Nat) :
    Surveys (beneath style level height) := by
  cases height with
  | zero => exact ⟨fun _ n => Grown.refl n, fun charted _ _ => charted⟩
  | succ height => exact surveys_listBelow style height (level + 1)

/-- Whether the lines of these keys come out as `lines` and leave `m`, with the bound and without. -/
structure Listed (style : ListingStyle) (level height : Nat) (place : Place) (keys : List String)
    (n : Navigator) (lines : String) (m : Navigator) : Prop where
  bounded : listChildren style level (beneath style level height) place keys n = (lines, m)
  prints : Prints style level place keys n lines m

section

variable {style : ListingStyle} {level height : Nat} {place : Place} {n : Navigator}

theorem Listed.nil : Listed style level height place [] n "" n :=
  ⟨rfl, .done⟩

/-- Whether the level below a place comes out as `lines`, without its row filter. -/
structure Beneath (style : ListingStyle) (level height : Nat) (found : Place) (n : Navigator)
    (lines : String) (m : Navigator) : Prop where
  bounded : beneath style level height found n =
    (style.filterText (level + 1) found.rowFilter? ++ lines, m)
  prints : Prints style (level + 1) found found.keys n lines m

theorem Beneath.leaf {found : Place} (h : found.layout = none) :
    Beneath style level height found n "" n := by
  have hfilter : found.rowFilter? = none := by rw [Spot.rowFilter?, h]; rfl
  have hkeys : found.keys = [] := by rw [Spot.keys, h]; rfl
  refine ⟨?_, by rw [hkeys]; exact .done⟩
  rw [hfilter]
  cases height with
  | zero => rfl
  | succ height => rw [beneath, listBelow_apply, hkeys, hfilter]; rfl

theorem Beneath.of_listed {found : Place} {lines : String} {m : Navigator}
    (h : Listed style (level + 1) height found found.keys n lines m) :
    Beneath style level (height + 1) found n lines m := by
  refine ⟨?_, h.prints⟩
  rw [beneath, listBelow_apply, h.bounded]

theorem Listed.cons {key : String} {keys : List String} {spot : Spot} {k m : Navigator}
    {below lines : String} (sound : n.atlas.Sound) (hchild : place.child? key = some spot)
    (few : (n.atlas.visit spot).2.symbols.size ≤ UInt32.size)
    (inner : Beneath style level height (n.atlas.visit spot).1 (n.visitAll [spot]) below k)
    (rest : Listed style level height place keys k lines m) :
    Listed style level height place (key :: keys) n
      (style.keyLine level key (style.shown n.settings.testAttribute spot.path) ++
        (style.filterText (level + 1) spot.rowFilter? ++ below) ++ lines) m := by
  have hspot := Atlas.visit_spot sound few
  have hpath : style.shown n.settings.testAttribute spot.path =
      style.pathText n.settings.testAttribute (n.atlas.visit spot).1.toSpot := by
    rw [hspot]
    rfl
  have hfound := child_apply hchild n
  rw [hpath, ← congrArg Spot.rowFilter? hspot]
  constructor
  · rw [listChildren_bind, bind_apply, hfound]
    simp only [listChild, bind_apply, get_apply, inner.bounded, rest.bounded]
    rfl
  · exact .found (congrArg Prod.fst hfound) (by rw [hfound]; exact inner.prints) rest.prints

theorem few_of_cons {key : String} {keys : List String} {spot : Spot}
    (hchild : place.child? key = some spot)
    (few : (listChildren style level (beneath style level height) place (key :: keys)
      n).2.atlas.symbols.size ≤ UInt32.size) :
    let inner := (beneath style level height (n.atlas.visit spot).1 (n.visitAll [spot])).2
    (n.visitAll [spot]).atlas.symbols.size ≤ UInt32.size ∧
      inner.atlas.symbols.size ≤ UInt32.size ∧
      (listChildren style level (beneath style level height) place keys inner).2.atlas.symbols.size ≤
        UInt32.size := by
  intro inner
  rw [listChildren_cons, child_apply hchild] at few
  have hbelow := surveys_beneath style level height
  have hinner := (hbelow.grown (n.atlas.visit spot).1 (n.visitAll [spot])).symbols
  have hrest := ((surveys_listChildren style level hbelow keys).grown place inner).symbols
  have hfew := Nat.le_trans hrest few
  exact ⟨Nat.le_trans hinner hfew, hfew, few⟩

end

theorem visitAll_cons (n : Navigator) (spot : Spot) (spots : List Spot) :
    n.visitAll (spot :: spots) = (n.visitAll [spot]).visitAll spots :=
  rfl

theorem visitAll_append (n : Navigator) (spots more : List Spot) :
    n.visitAll (spots ++ more) = (n.visitAll spots).visitAll more := by
  rw [Navigator.visitAll, Atlas.visitAll_append]
  rfl

/-- The keys `l` of a level `whole` are listed as the layout has them. That the symbols last is known
from the navigator that is left or from the visits that are due. -/
theorem listed (style : ListingStyle) {l : Layout} (distinct : l.Distinct) {whole : Layout}
    {level height : Nat} (enough : l.height ≤ height) {place : Place}
    (hplace : place.layout = some whole)
    (hfind : ∀ key entry, l.find? key = some entry → whole.find? key = some entry)
    {n : Navigator} (sound : n.atlas.Sound)
    (few : (listChildren style level (beneath style level height) place l.keys
        n).2.atlas.symbols.size ≤ UInt32.size ∨
      (n.visitAll (l.spots place.path)).atlas.symbols.size ≤ UInt32.size) :
    Listed style level height place l.keys n
      (l.text style n.settings.testAttribute level place.path)
      (n.visitAll (l.spots place.path)) := by
  induction l generalizing whole level height place n with
  | plain => exact .nil
  | filtered _ _ => exact .nil
  | leaf k rest ih =>
    let spot : Spot := ⟨Path.below place.path k, none⟩
    have hchild : place.child? k = some spot :=
      Spot.child?_of_find? hplace (hfind k .leaf (by simp [Layout.find?]))
    have hfew : (n.visitAll [spot]).atlas.symbols.size ≤ UInt32.size :=
      few.elim (fun few => (few_of_cons hchild few).1) (Nat.le_trans (Atlas.size_visitAll_le _ _))
    have hrest := few.imp_left fun few => (few_of_cons hchild few).2.2
    have hspot : (n.atlas.visit spot).1.toSpot = spot := Atlas.visit_spot sound hfew
    have inner : Beneath style level height (n.atlas.visit spot).1 (n.visitAll [spot]) "" _ :=
      Beneath.leaf (congrArg Spot.layout hspot)
    rw [inner.bounded] at hrest
    have hlines := ih distinct.2 enough hplace
      (fun key entry h => hfind key entry (Layout.find?_leaf_of_rest distinct.1 h))
      (Atlas.visit_sound sound hfew) hrest
    have hcons := Listed.cons sound hchild hfew inner hlines
    have hnone : style.filterText (level + 1) spot.rowFilter? = "" := rfl
    rw [hnone, String.append_empty, String.append_empty] at hcons
    rw [Layout.text, Layout.spots, visitAll_cons]
    exact hcons
  | branch k child rest ihchild ih =>
    let spot : Spot := ⟨Path.below place.path k, some child⟩
    have hchild : place.child? k = some spot :=
      Spot.child?_of_find? hplace (hfind k (.branch child) (by simp [Layout.find?]))
    obtain ⟨hheight, henough⟩ := Nat.max_le.mp enough
    obtain ⟨height, rfl⟩ := Nat.exists_eq_add_one_of_ne_zero (Nat.ne_zero_of_lt hheight)
    rw [Layout.spots, visitAll_cons, visitAll_append] at few ⊢
    have hfew : (n.visitAll [spot]).atlas.symbols.size ≤ UInt32.size :=
      few.elim (fun few => (few_of_cons hchild few).1) fun few =>
        Nat.le_trans (Atlas.size_visitAll_le _ _) (Nat.le_trans (Atlas.size_visitAll_le _ _) few)
    have hinner := few.imp (fun few => (few_of_cons hchild few).2.1)
      (Nat.le_trans (Atlas.size_visitAll_le _ _))
    have hrest := few.imp_left fun few => (few_of_cons hchild few).2.2
    have hspot : (n.atlas.visit spot).1.toSpot = spot := Atlas.visit_spot sound hfew
    have hpath : (n.atlas.visit spot).1.path = Path.below place.path k := congrArg Spot.path hspot
    have hkeys : (n.atlas.visit spot).1.keys = child.keys :=
      Spot.keys_of_layout (congrArg Spot.layout hspot)
    rw [beneath, listBelow_apply, hkeys] at hinner
    have hbelow := ihchild (n := n.visitAll [spot]) distinct.2.1 (Nat.le_of_succ_le_succ hheight)
      (congrArg Spot.layout hspot) (fun _ _ h => h) (Atlas.visit_sound sound hfew)
      (by rw [hpath]; exact hinner)
    rw [hpath] at hbelow
    rw [hbelow.bounded, or_self] at hinner
    have inner := Beneath.of_listed (hkeys.symm ▸ hbelow)
    rw [inner.bounded] at hrest
    have hlines := ih distinct.2.2 henough hplace
      (fun key entry h => hfind key entry (Layout.find?_branch_of_rest distinct.1 h))
      (Atlas.visitAll_sound (Atlas.visit_sound sound hfew) hinner) hrest
    have hcons := Listed.cons sound hchild hfew inner hlines
    rw [Layout.text]
    exact hcons

theorem listing_listed (style : ListingStyle) {n : Navigator} (distinct : n.layout.Distinct)
    (hroot : n.root.toSpot = ⟨"", some n.layout⟩) (sound : n.atlas.Sound)
    (few : (listing style n).2.atlas.symbols.size ≤ UInt32.size ∨
      (n.visitAll (n.layout.spots "")).atlas.symbols.size ≤ UInt32.size) :
    (listing style n).1 = style.filterText 0 n.layout.rowFilter? ++
      n.layout.text style n.settings.testAttribute 0 "" ∧
    (listing style n).2 = n.visitAll (n.layout.spots "") ∧
    Prints style 0 n.root n.layout.keys n (n.layout.text style n.settings.testAttribute 0 "")
      (n.visitAll (n.layout.spots "")) := by
  have hlayout : n.root.layout = some n.layout := congrArg Spot.layout hroot
  have hpath : n.root.path = "" := congrArg Spot.path hroot
  have hlisting : listing style n = listBelow style 0 n.root n.layout.height n := rfl
  rw [hlisting, listBelow_apply, Spot.keys_of_layout hlayout] at few ⊢
  rw [← hpath] at few
  have hlisted := listed style distinct (Nat.le_refl _) hlayout (fun _ _ h => h) sound few
  rw [hpath] at hlisted
  rw [hlisted.bounded, Spot.rowFilter?, hlayout]
  exact ⟨rfl, rfl, hlisted.prints⟩

end Nav

/-! ## Lines without colours -/

namespace Layout

def filterLines (l : Layout) : List String :=
  match l.rowFilter? with
  | none => []
  | some filter => ["with(" ++ filter.itemKey ++ ") = " ++ ", ".intercalate filter.columns.keys]

/-- The lines of the keys below a path. `shown` tells what is shown for a path. -/
def keyLines (shown : String → String) (path : String) : Layout → List String
  | plain => []
  | filtered _ _ => []
  | leaf k rest => (k ++ " = " ++ shown (Path.below path k)) :: rest.keyLines shown path
  | branch k child rest =>
    (k ++ " = " ++ shown (Path.below path k)) ::
      ((child.filterLines ++ child.keyLines shown (Path.below path k)).map ("  " ++ ·) ++
        rest.keyLines shown path)

def lines (shown : String → String) (path : String) (l : Layout) : List String :=
  l.filterLines ++ l.keyLines shown path

/-- Lines as they are printed at a level. -/
def printed (level : Nat) (lines : List String) : String :=
  String.join (lines.map fun line => ListingStyle.indent level ++ line ++ "\n")

theorem printed_nil (level : Nat) : printed level [] = "" := by
  rw [printed, List.map_nil, String.join_nil]

theorem printed_cons (level : Nat) (line : String) (lines : List String) :
    printed level (line :: lines) =
      ListingStyle.indent level ++ line ++ "\n" ++ printed level lines := by
  rw [printed, List.map_cons, String.join_cons, printed]

theorem printed_append (level : Nat) (lines more : List String) :
    printed level (lines ++ more) = printed level lines ++ printed level more := by
  rw [printed, List.map_append, String.join_append, printed, printed]

theorem printed_indented (level : Nat) (lines : List String) :
    printed level (lines.map ("  " ++ ·)) = printed (level + 1) lines := by
  have hindent : ListingStyle.indent (level + 1) = ListingStyle.indent level ++ "  " := by
    have hspaces : List.replicate (2 * level) ' ' ++ List.replicate 2 ' ' =
        List.replicate (2 * (level + 1)) ' ' := by
      rw [List.replicate_append_replicate, Nat.mul_succ]
    rw [← String.toList_inj]
    simpa [ListingStyle.indent] using hspaces.symm
  rw [printed, printed, List.map_map, hindent]
  simp only [Function.comp_def, String.append_assoc]

theorem printed_zero (lines : List String) :
    printed 0 lines = String.join (lines.map (· ++ "\n")) := by
  have hindent : ListingStyle.indent 0 = "" := rfl
  simp only [printed, hindent, String.empty_append]

section

variable {style : ListingStyle} (uncolored : style.colored = false)
include uncolored

theorem keyLine_printed (level : Nat) (key path : String) :
    style.keyLine level key path = ListingStyle.indent level ++ (key ++ " = " ++ path) ++ "\n" := by
  rw [← String.toList_inj]
  simp [ListingStyle.keyLine, ListingStyle.palette, uncolored, Palette.plain]

theorem filterText_printed (level : Nat) (l : Layout) :
    style.filterText level l.rowFilter? = printed level l.filterLines := by
  rw [filterLines]
  cases l.rowFilter? with
  | none => exact (printed_nil level).symm
  | some filter =>
    have hkey : filterKey ++ "(" = "with(" := rfl
    rw [printed_cons, printed_nil, ← String.toList_inj, ← hkey]
    simp [ListingStyle.filterText, ListingStyle.filterLine, ListingStyle.palette, uncolored,
      Palette.plain]

theorem text_printed (attr : String) (level : Nat) (path : String) (l : Layout) :
    l.text style attr level path = printed level (l.keyLines (style.shown attr) path) := by
  induction l generalizing level path with
  | plain => exact (printed_nil level).symm
  | filtered _ _ => exact (printed_nil level).symm
  | leaf k rest ih => rw [text, keyLines, printed_cons, keyLine_printed uncolored, ih]
  | branch k child rest ihchild ih =>
    rw [text, keyLines, printed_cons, printed_append, printed_indented, printed_append,
      keyLine_printed uncolored, ih, ihchild, filterText_printed uncolored]
    simp only [String.append_assoc]

end

end Layout

/-! ## Listings in the course of a tour -/

namespace Tour

open Nav

variable {schema : Schema} {settings : Settings} {n : Navigator} {log : Log}

theorem layout_eq (tour : Tour schema settings n log) :
    n.layout = Layout.ofSchema settings.rowTable schema := by
  induction tour with
  | start => rfl
  | step _ step ih => exact step.grown.layout.trans ih

theorem root_layout (tour : Tour schema settings n log) :
    n.root.toSpot = ⟨"", some n.layout⟩ := by
  rw [tour.root_eq, Navigator.ofSchema_root, tour.layout_eq]
  rfl

theorem root_rowFilter? (tour : Tour schema settings n log) :
    n.root.rowFilter? = n.layout.rowFilter? := by
  rw [tour.root_layout]
  rfl

theorem listing_listed (tour : Tour schema settings n log) (distinct : schema.Distinct)
    (style : ListingStyle)
    (few : (listing style n).2.atlas.symbols.size ≤ UInt32.size ∨
      (n.visitAll (n.layout.spots "")).atlas.symbols.size ≤ UInt32.size) :
    n.atlas.Sound ∧
    (listing style n).1 = style.filterText 0 n.layout.rowFilter? ++
      n.layout.text style settings.testAttribute 0 "" ∧
    (listing style n).2 = n.visitAll (n.layout.spots "") ∧
    Prints style 0 n.root n.layout.keys n (n.layout.text style settings.testAttribute 0 "")
      (n.visitAll (n.layout.spots "")) := by
  have hdistinct : n.layout.Distinct := by
    rw [tour.layout_eq]
    exact Layout.distinct_ofSchema _ distinct
  have sound : n.atlas.Sound := by
    refine (tour.answered ?_).charted.sound
    exact few.elim (Nat.le_trans (listing_grown style n).symbols)
      (Nat.le_trans (Atlas.size_visitAll_le _ _))
  rw [← tour.settings_eq]
  exact ⟨sound, Nav.listing_listed style hdistinct tour.root_layout sound few⟩

theorem size_listing_le (tour : Tour schema settings n log) (distinct : schema.Distinct)
    (style : ListingStyle)
    (few : n.atlas.symbols.size + 2 * (n.layout.spots "").length ≤ UInt32.size) :
    (listing style n).2.atlas.symbols.size ≤
      n.atlas.symbols.size + 2 * (n.layout.spots "").length := by
  have hsize := Atlas.size_visitAll_le_add n.atlas (n.layout.spots "")
  obtain ⟨-, -, hstate, -⟩ := tour.listing_listed distinct style (.inr (Nat.le_trans hsize few))
  rw [hstate]
  exact hsize

/-- A listing shows what the layout alone says, after whatever else was done. It would end without a
bound on its depth too, with the same lines. A later one shows the same and has all its places. -/
theorem listing_by_layout (tour : Tour schema settings n log) (distinct : schema.Distinct)
    (style : ListingStyle) (few : (listing style n).2.atlas.symbols.size ≤ UInt32.size) :
    (style.colored = false →
      (listing style n).1 = String.join
        (((Layout.ofSchema settings.rowTable schema).lines (style.shown settings.testAttribute)
          "").map (· ++ "\n"))) ∧
    (∃ lines, (listing style n).1 = style.filterText 0 n.root.rowFilter? ++ lines ∧
      Prints style 0 n.root n.root.keys n lines (listing style n).2) ∧
    ∀ m log', Tour schema settings m log' → (listing style n).2.Grown m →
      (listing style m).2.atlas.symbols.size ≤ UInt32.size →
      (listing style m).1 = (listing style n).1 ∧
      (listing style m).2.stats.placesBuilt = m.stats.placesBuilt := by
  obtain ⟨sound, htext, hstate, hprints⟩ := tour.listing_listed distinct style (.inl few)
  refine ⟨?_, ?_, ?_⟩
  · intro uncolored
    rw [htext, ← tour.layout_eq, ← Layout.printed_zero, Layout.lines, Layout.printed_append,
      Layout.filterText_printed uncolored, Layout.text_printed uncolored]
  · rw [htext, hstate, tour.root_rowFilter?,
      Spot.keys_of_layout (congrArg Spot.layout tour.root_layout)]
    exact ⟨_, rfl, hprints⟩
  · intro m log' tour' later few'
    obtain ⟨sound', htext', hstate', -⟩ := tour'.listing_listed distinct style (.inl few')
    refine ⟨by rw [htext', htext, tour'.layout_eq, tour.layout_eq], ?_⟩
    rw [hstate] at few later
    -- the spots of the listing have had places since the first one
    have holds : m.atlas.Holds (m.layout.spots "") := by
      intro spot hspot
      rw [tour'.layout_eq, ← tour.layout_eq] at hspot
      obtain ⟨place, hplace, rfl⟩ := Atlas.visitAll_holds sound few spot hspot
      exact ⟨place, later.places place hplace, rfl⟩
    rw [hstate', Navigator.visitAll, Atlas.visitAll_again sound' holds]
    rfl

/-- The key of one group is empty, so what lies in it has the path of what lies beside it. -/
def overlappingPage : Schema :=
  .branch "" (.leaf "x" .nil) (.leaf "x"
    (.branch "rows" (.branch "row" (.leaf "day" .nil) .nil) .nil))

/-- A place is listed wherever its spot lies. -/
theorem overlappingPage_listed : ∃ n log, Tour overlappingPage {} n log ∧ overlappingPage.Distinct ∧
    (listing {} n).2.atlas.symbols.size ≤ UInt32.size ∧
    (listing {} n).1 = String.join [" = \n", "  x = x\n", "x = x\n", "rows = rows\n",
      "  with(row) = day\n", "  row = rows row\n", "    day = rows row day\n"] ∧
    (listing {} (listing {} n).2).1 = (listing {} n).1 ∧
    (listing {} (listing {} n).2).2.stats.placesBuilt = (listing {} n).2.stats.placesBuilt := by
  have bound : (32 : Nat) ≤ UInt32.size := by decide
  have distinct : overlappingPage.Distinct :=
    ⟨by decide, ⟨by decide, trivial⟩, by decide, by decide, ⟨by decide, ⟨by decide, trivial⟩, trivial⟩,
      trivial⟩
  have hspots : ((Layout.ofSchema RowTable.standard overlappingPage).spots "").length = 6 := by decide
  obtain ⟨n, hn⟩ : ∃ n, n = Navigator.ofSchema overlappingPage {} := ⟨_, rfl⟩
  have hsize : n.atlas.symbols.size ≤ 2 := hn ▸ (Navigator.size_ofSchema overlappingPage {}).1
  have begun : Tour overlappingPage {} n [([], some n.root)] := hn ▸ .start
  have tour := begun.step (.child "rows" List.mem_cons_self)
  have hvisit := (visit?_grownBy (n.root.child? "rows") n).symbols
  generalize hm : (child n.root "rows" n).2 = m at tour
  rw [← child, hm] at hvisit
  have hfirst := tour.size_listing_le distinct {} (by rw [tour.layout_eq, hspots]; omega)
  rw [tour.layout_eq, hspots] at hfirst
  have tour' := tour.step (.listing {})
  have hsecond := tour'.size_listing_le distinct {} (by rw [tour'.layout_eq, hspots]; omega)
  rw [tour'.layout_eq, hspots] at hsecond
  obtain ⟨hlines, -, hagain⟩ := tour.listing_by_layout distinct {} (by omega)
  exact ⟨m, _, tour, distinct, by omega, hlines rfl, hagain _ _ tour' (.refl _) (by omega)⟩

end Tour

end PageNav
