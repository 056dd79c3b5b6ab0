import Mathlib.Data.List.Forall2
import PageNav.Proofs.CamelForm
import PageNav.Proofs.FilterName
import PageNav.Proofs.Steps

/-!
# Routes back to a place

The path of a place is a route from the root that leads to the place again, and so is every text
that spells the steps of the path in another way: by camel case names, and with other separators.
-/

namespace PageNav

open Text

/-! ## Steps of a route -/

namespace Path

def isGap (c : Char) : Bool :=
  c = '.' || isBlank c

/-- The names stand in the text in this order, with gaps between them and maybe around them. -/
inductive Route : List String → List Char → Prop
  | gap {w : List Char} (gap : ∀ c ∈ w, isGap c = true) : Route [] w
  | step {w rest : List Char} {name : String} {names : List String}
      (gap : ∀ c ∈ w, isGap c = true) (apart : ∀ c ∈ rest.head?, isGap c = true)
      (later : Route names rest) : Route (name :: names) (w ++ (name.toList ++ rest))

theorem Route.cons_gap {names : List String} {text : List Char} (h : Route names text) {c : Char}
    (hc : isGap c = true) : Route names (c :: text) := by
  cases h with
  | gap gap => exact .gap (List.forall_mem_cons.mpr ⟨hc, gap⟩)
  | step gap apart later => exact .step (List.forall_mem_cons.mpr ⟨hc, gap⟩) apart later

/-- A name that a route can hold as one step. -/
structure OneStep (name : String) : Prop where
  filled : name ≠ ""
  solid : ∀ c ∈ name.toList, isGap c = false

instance (name : String) : Decidable (OneStep name) :=
  decidable_of_iff (name ≠ "" ∧ name.toList.any isGap = false)
    ⟨fun ⟨filled, solid⟩ => ⟨filled, by simpa using solid⟩,
      fun h => ⟨h.filled, by simpa using h.solid⟩⟩

def filledPieces (text : List Char) : List (List Char) :=
  (text.splitOnP isGap).filter (!·.isEmpty)

theorem filledPieces_cons {c : Char} (gap : isGap c = true) (rest : List Char) :
    filledPieces (c :: rest) = filledPieces rest := by
  simp [filledPieces, List.splitOnP_cons_eq_if_modifyHead, gap]

theorem filledPieces_gap {w : List Char} (gap : ∀ c ∈ w, isGap c = true) (rest : List Char) :
    filledPieces (w ++ rest) = filledPieces rest := by
  induction w with
  | nil => rfl
  | cons c w ih =>
    obtain ⟨hc, hw⟩ := List.forall_mem_cons.mp gap
    rw [List.cons_append, filledPieces_cons hc, ih hw]

theorem filledPieces_name {name rest : List Char} (filled : name ≠ [])
    (solid : ∀ c ∈ name, isGap c = false) (apart : ∀ c ∈ rest.head?, isGap c = true) :
    filledPieces (name ++ rest) = name :: filledPieces rest := by
  cases rest with
  | nil => simp [filledPieces, List.splitOnP_eq_singleton solid, filled]
  | cons c rest =>
    have hc : isGap c = true := apart c rfl
    rw [filledPieces_cons hc, filledPieces,
      List.splitOnP_append_cons_of_forall_mem solid c hc rest]
    simp [filledPieces, filled]

theorem Route.steps_eq {names : List String} {route : String} (h : Route names route.toList)
    (whole : ∀ name ∈ names, OneStep name) : steps route = names := by
  change (filledPieces route.toList).map String.ofList = names
  generalize route.toList = text at h
  induction h with
  | gap gap =>
    have hnone := filledPieces_gap gap []
    rw [List.append_nil] at hnone
    rw [hnone]
    rfl
  | @step w rest name names gap apart later ih =>
    obtain ⟨hname, hnames⟩ := List.forall_mem_cons.mp whole
    have hfilled : name.toList ≠ [] := fun h => hname.filled (String.toList_eq_nil_iff.mp h)
    rw [filledPieces_gap gap, filledPieces_name hfilled hname.solid apart, List.map_cons, ih hnames,
      String.ofList_toList]

theorem route_join (names : List String) : Route names (join (names.map String.toList)) := by
  have hspace : isGap ' ' = true := by decide
  have hnone : ∀ c ∈ ([] : List Char), isGap c = true := fun c hc => absurd hc List.not_mem_nil
  induction names with
  | nil => exact .gap hnone
  | cons name names ih =>
    cases names with
    | nil =>
      have h := @Route.step [] [] name [] hnone (by simp) (.gap hnone)
      simpa [join] using h
    | cons next names =>
      rw [List.map_cons, List.map_cons, join_cons_cons]
      exact .step hnone (by simp [hspace]) (ih.cons_gap hspace)

end Path

/-! ## Camel case names -/

namespace Text

open PageNav.Path (isGap OneStep)

theorem not_isGap_of_isAlpha {c : Char} (h : c.isAlpha = true) : isGap c = false := by
  have hcode : 65 ≤ c.toNat ∧ c.toNat ≤ 90 ∨ 97 ≤ c.toNat ∧ c.toNat ≤ 122 := by
    rwa [isAlpha_iff, isUpper_iff, isLower_iff] at h
  have hdot : c ≠ '.' := by
    rintro rfl
    exact absurd h (by decide)
  have hblank : isBlank c = false := by
    simp only [isBlank, blankRanges, List.any_cons, List.any_nil, Bool.or_eq_false_iff,
      Bool.and_eq_false_iff, decide_eq_false_iff_not, and_true]
    omega
  simp [isGap, hdot, hblank]

theorem oneStep_camelCase {key : String} (step : OneStep key) (filled : camelCase key ≠ "") :
    OneStep (camelCase key) := by
  refine ⟨filled, ?_⟩
  rw [camelCase, String.toList_ofList]
  apply forall_mem_camelChars fun c => not_isGap_of_isAlpha
  exact fun c hc => step.solid c (List.mem_of_mem_filter hc)

end Text

def Calls (name key : String) : Prop :=
  name = key ∨ name = camelCase key

/-- Keys of one level that routes can call by either name, and that are not taken for each other. -/
structure Callable (keys : List String) : Prop where
  step : ∀ key ∈ keys, Path.OneStep key
  called : ∀ key ∈ keys, camelCase key ≠ ""
  apart : ∀ key ∈ keys, ∀ other ∈ keys, key ≠ other →
    camelCase key ≠ camelCase other ∧ camelCase key ≠ other

instance (keys : List String) : Decidable (Callable keys) :=
  decidable_of_iff ((∀ key ∈ keys, Path.OneStep key) ∧ (∀ key ∈ keys, camelCase key ≠ "") ∧
      ∀ key ∈ keys, ∀ other ∈ keys, key ≠ other →
        camelCase key ≠ camelCase other ∧ camelCase key ≠ other)
    ⟨fun ⟨step, called, apart⟩ => ⟨step, called, apart⟩, fun h => ⟨h.step, h.called, h.apart⟩⟩

/-- The keys of all levels below this one, level by level. -/
def Schema.keysBelow : Schema → List (List String)
  | .nil => []
  | .leaf _ rest => rest.keysBelow
  | .branch _ child rest => child.keys :: (child.keysBelow ++ rest.keysBelow)

theorem Schema.keysBelow_of_find? {schema child : Schema} {key : String}
    (h : schema.find? key = some (.branch child)) :
    child.keys :: child.keysBelow ⊆ schema.keysBelow := by
  induction schema with
  | nil => exact absurd h (by simp [find?])
  | leaf k rest ih =>
    rw [find?] at h
    split at h
    · exact absurd h (by simp)
    · exact ih h
  | branch k below rest _ ih =>
    rw [find?] at h
    split at h
    · obtain rfl := Entry.branch.inj (Option.some.inj h)
      exact List.cons_subset_cons _ (List.subset_append_left _ _)
    · exact fun keys hkeys => List.mem_cons_of_mem _ (List.mem_append_right _ (ih h hkeys))

theorem Schema.mem_keysBelow {schema level : Schema} {above : List String}
    (h : schema.level? above = some level) : level.keys ∈ schema.keys :: schema.keysBelow := by
  induction above generalizing schema with
  | nil =>
    obtain rfl := Option.some.inj h
    exact List.mem_cons_self
  | cons key above ih =>
    rw [level?] at h
    split at h
    · next hfind => exact List.mem_cons_of_mem _ (keysBelow_of_find? hfind (ih h))
    · exact absurd h (by simp)

theorem Callable.oneStep {keys : List String} (callable : Callable keys) {key name : String}
    (mem : key ∈ keys) (calls : Calls name key) : Path.OneStep name := by
  rcases calls with rfl | rfl
  · exact callable.step _ mem
  · exact oneStep_camelCase (callable.step key mem) (callable.called key mem)

theorem oneStep_of_calls {names keys : List String} (calls : List.Forall₂ Calls names keys)
    (steps : ∀ key ∈ keys, ∀ name, Calls name key → Path.OneStep name) :
    ∀ name ∈ names, Path.OneStep name := by
  induction calls with
  | nil => exact fun name hname => absurd hname List.not_mem_nil
  | cons call calls ih =>
    obtain ⟨hkey, hkeys⟩ := List.forall_mem_cons.mp steps
    exact List.forall_mem_cons.mpr ⟨hkey _ call, ih hkeys⟩

theorem Layout.resolve?_of_calls {l : Layout} (callable : Callable l.keys) {key name : String}
    (mem : key ∈ l.keys) (calls : Calls name key) : l.resolve? name = some key := by
  rcases calls with rfl | rfl
  · exact resolve?_of_mem mem
  · by_cases hshadow : camelCase key ∈ l.keys
    · -- a key is looked for by its own name first, so this one has to be `key`
      have hsame : key = camelCase key := by
        by_contra hne
        exact (callable.apart key mem _ hshadow hne).2 rfl
      rw [← hsame]
      exact resolve?_of_mem mem
    · rw [resolve?_of_not_mem hshadow]
      cases hfind : l.keys.find? (camelCase · == camelCase key) with
      | none => exact absurd (List.find?_eq_none.mp hfind key mem) (by simp)
      | some other =>
        have hother : camelCase other = camelCase key := by simpa using List.find?_some hfind
        by_contra hne
        exact (callable.apart other (List.mem_of_find?_eq_some hfind) key mem
          (fun h => hne (congrArg some h))).1 hother

/-! ## Child hops -/

namespace Spot

theorem keys_of_children {attr : String} {table : RowTable} {schema : Schema} {names : List String}
    {s t : Spot} (lies : s.LiesIn (.ofSchema table schema))
    (h : s.follow? attr (names.map .child) = some t) :
    ∃ keys, s.steps? attr (names.map .child) = some keys ∧ t.path = keys.foldl Path.below s.path ∧
      ∀ key ∈ keys, ∃ above level, schema.level? above = some level ∧ key ∈ level.keys := by
  induction names generalizing s with
  | nil =>
    obtain rfl := Option.some.inj h
    exact ⟨[], rfl, rfl, fun _ h => absurd h List.not_mem_nil⟩
  | cons name names ih =>
    obtain ⟨u, hu, hrest⟩ := Option.bind_eq_some_iff.mp h
    obtain ⟨keys, hkeys, hpath, hlevels⟩ := ih (lies.hop hu) hrest
    obtain ⟨level, hlevel, hchild⟩ := Option.bind_eq_some_iff.mp hu
    obtain ⟨key, hkey, hchild⟩ := Option.bind_eq_some_iff.mp hchild
    obtain ⟨above, habove⟩ := lies level hlevel
    have hstep : s.step? attr (.child name) = some key :=
      Option.bind_eq_some_iff.mpr ⟨level, hlevel, hkey⟩
    have hmem : key ∈ level.toSchema.keys := by
      rw [Layout.keys_toSchema]
      exact Layout.mem_keys_of_resolve? hkey
    refine ⟨key :: keys, ?_, ?_, List.forall_mem_cons.mpr
      ⟨⟨above, level.toSchema, Layout.level?_of_ofSchema habove, hmem⟩, hlevels⟩⟩
    · simp [steps?, hstep, hu, hkeys]
    · rw [hpath, ← Option.some.inj hchild]
      rfl

theorem follow?_of_calls {attr : String} {table : RowTable} {schema : Schema}
    (callable : ∀ above level, schema.level? above = some level → Callable level.keys)
    {names keys others : List String} {s t : Spot} (lies : s.LiesIn (.ofSchema table schema))
    (h : s.follow? attr (names.map .child) = some t)
    (hkeys : s.steps? attr (names.map .child) = some keys)
    (calls : List.Forall₂ Calls others keys) : s.follow? attr (others.map .child) = some t := by
  induction names generalizing s keys others with
  | nil =>
    obtain rfl := Option.some.inj hkeys
    cases calls
    exact h
  | cons name names ih =>
    obtain ⟨u, hu, hrest⟩ := Option.bind_eq_some_iff.mp h
    rw [List.map_cons, steps?, hu] at hkeys
    obtain ⟨key, hkey, hkeys⟩ := Option.bind_eq_some_iff.mp hkeys
    rw [Option.bind_eq_bind, Option.bind_some] at hkeys
    obtain ⟨later, hlater, hkeys⟩ := Option.bind_eq_some_iff.mp hkeys
    obtain rfl := Option.some.inj hkeys
    obtain ⟨level, hlevel, hname⟩ := Option.bind_eq_some_iff.mp hkey
    obtain ⟨above, habove⟩ := lies level hlevel
    have hlevels : Callable level.keys := by
      rw [← Layout.keys_toSchema]
      exact callable above level.toSchema (Layout.level?_of_ofSchema habove)
    cases calls with
    | @cons other _ others _ hcall hcalls =>
      -- both names lead to the same spot, so the later hops start from there as before
      have hother : level.resolve? other = some key :=
        Layout.resolve?_of_calls hlevels (Layout.mem_keys_of_resolve? hname) hcall
      have hchild : s.hop? attr (.child other) = some u := by
        rw [← hu]
        simp only [hop?, child?_of_layout hlevel, hother, hname]
      exact Option.bind_eq_some_iff.mpr ⟨u, hchild, ih (lies.hop hu) hrest hlater hcalls⟩

end Spot

theorem Path.toList_foldl_below {ts : List (List Char)} (filled : ∀ t ∈ ts, t ≠ []) {path : String}
    (hpath : path.toList = join ts) {keys : List String} (hkeys : ∀ key ∈ keys, key ≠ "") :
    (keys.foldl Path.below path).toList = join (ts ++ keys.map String.toList) := by
  induction keys generalizing ts path with
  | nil => simpa using hpath
  | cons key keys ih =>
    obtain ⟨hkey, hrest⟩ := List.forall_mem_cons.mp hkeys
    have hall : ∀ t ∈ ts ++ [key.toList], t ≠ [] :=
      List.forall_mem_append.mpr ⟨filled, List.forall_mem_singleton.mpr (by simpa using hkey)⟩
    have h := ih hall (Path.toList_below filled hpath key) hrest
    rwa [List.append_assoc] at h

/-! ## Walking back -/

namespace Nav

theorem descend_grownBy (steps : List String) (place : Place) (n : Navigator) :
    n.GrownBy steps.length (descend place steps n).2 := by
  induction steps generalizing place n with
  | nil => exact .refl n
  | cons step steps ih =>
    have hstep : n.GrownBy 1 (child place step n).2 := visit?_grownBy (place.child? step) n
    rw [descend_cons, List.length_cons, Nat.add_comm]
    cases h : (child place step n).1 with
    | none => exact hstep.mono (Nat.le_add_right 1 _)
    | some found => exact hstep.trans (ih found (child place step n).2)

end Nav

theorem Navigator.Charted.agrees_root {n : Navigator} (charted : n.Charted) :
    n.Agrees [] (some n.root) := by
  refine ⟨rfl, ?_⟩
  intro p hp
  obtain rfl := Option.some.inj hp
  exact charted.root

/-- A route from the root leads to every place that the layout has at its end. -/
theorem Nav.walk_eq_some {n : Navigator} (charted : n.Charted) {place : Place}
    (mem : place ∈ n.atlas.places) {route : String}
    (follows : n.follow? ((Path.steps route).map .child) = some place.toSpot)
    (few : (walk n.root route n).2.atlas.symbols.size ≤ UInt32.size) :
    (walk n.root route n).1 = some place := by
  have hgrown := descend_grown (Path.steps route) n.root n
  obtain ⟨hcharted, hanswer, hplaces⟩ :=
    descend_charted (Path.steps route) charted charted.agrees_root few
  rw [List.nil_append, hgrown.follow?] at hanswer
  obtain ⟨found, hfound, hspot⟩ := Option.map_eq_some_iff.mp (hanswer.trans follows)
  rw [walk, hfound, hcharted.sound.place_unique (hplaces found hfound) (hgrown.places _ mem) hspot]

section
variable {schema : Schema} {settings : Settings} {n : Navigator} {log : Log} {place : Place}

theorem Tour.spot_of_found (tour : Tour schema settings n log)
    (few : n.atlas.symbols.size ≤ UInt32.size) {hops : List Hop}
    (found : (hops, some place) ∈ log) :
    (Spot.ofSchema schema settings).follow? settings.testAttribute hops = some place.toSpot ∧
      place ∈ n.atlas.places := by
  obtain ⟨hfollow, hplaces⟩ := (tour.answered few).agrees _ found
  rw [tour.follow?_eq] at hfollow
  exact ⟨hfollow.symm, hplaces place rfl⟩

theorem Tour.keys_of_place {names : List String}
    (filled : ∀ above level, schema.level? above = some level → ∀ key ∈ level.keys, key ≠ "")
    (tour : Tour schema settings n log) (few : n.atlas.symbols.size ≤ UInt32.size)
    (found : (names.map .child, some place) ∈ log) :
    ∃ keys, (Spot.ofSchema schema settings).steps? settings.testAttribute (names.map .child) =
        some keys ∧
      place.path.toList = Path.join (keys.map String.toList) ∧
      ∀ key ∈ keys, ∃ above level, schema.level? above = some level ∧ key ∈ level.keys := by
  obtain ⟨hfollow, -⟩ := tour.spot_of_found few found
  obtain ⟨keys, hkeys, hpath, hlevels⟩ :=
    Spot.keys_of_children (Spot.liesIn_ofSchema schema settings) hfollow
  have hfilled : ∀ key ∈ keys, key ≠ "" := by
    intro key hkey
    obtain ⟨above, level, hlevel, hmem⟩ := hlevels key hkey
    exact filled above level hlevel key hmem
  refine ⟨keys, hkeys, ?_, hlevels⟩
  rw [hpath]
  exact Path.toList_foldl_below (fun t ht => absurd ht List.not_mem_nil) rfl hfilled

end

/-- The path of a place leads from the root to the place again, and so does every route that calls
the same keys, whatever the gaps. -/
theorem Tour.walk_back {schema : Schema} {settings : Settings} {n : Navigator} {log : Log}
    {names : List String} {place : Place}
    (callable : ∀ above level, schema.level? above = some level → Callable level.keys)
    (tour : Tour schema settings n log) (few : n.atlas.symbols.size ≤ UInt32.size)
    (found : (names.map .child, some place) ∈ log) :
    ∃ keys, (Spot.ofSchema schema settings).steps? settings.testAttribute (names.map .child) =
        some keys ∧
      place.path = " ".intercalate keys ∧
      ((Nav.walk n.root place.path n).2.atlas.symbols.size ≤ UInt32.size →
        (Nav.walk n.root place.path n).1 = some place) ∧
      ∀ others route, List.Forall₂ Calls others keys → Path.Route others route.toList →
        (Nav.walk n.root route n).2.atlas.symbols.size ≤ UInt32.size →
        (Nav.walk n.root route n).1 = some place := by
  have charted := (tour.answered few).charted
  obtain ⟨hfollow, hplaces⟩ := tour.spot_of_found few found
  have hfilled : ∀ above level, schema.level? above = some level → ∀ key ∈ level.keys, key ≠ "" :=
    fun above level hlevel key hkey => ((callable above level hlevel).step key hkey).filled
  obtain ⟨keys, hkeys, hspelled, hlevels⟩ := tour.keys_of_place hfilled few found
  have hcalls : ∀ key ∈ keys, ∀ name, Calls name key → Path.OneStep name := by
    intro key hkey name hname
    obtain ⟨above, level, hlevel, hmem⟩ := hlevels key hkey
    exact (callable above level hlevel).oneStep hmem hname
  have hroute : ∀ others route, List.Forall₂ Calls others keys → Path.Route others route.toList →
      (Nav.walk n.root route n).2.atlas.symbols.size ≤ UInt32.size →
      (Nav.walk n.root route n).1 = some place := by
    intro others route calls hroute hfew
    have hsteps := hroute.steps_eq (oneStep_of_calls calls hcalls)
    refine Nav.walk_eq_some charted hplaces ?_ hfew
    rw [hsteps, tour.follow?_eq]
    exact Spot.follow?_of_calls callable (Spot.liesIn_ofSchema schema settings) hfollow hkeys calls
  have hjoined : place.path = " ".intercalate keys := by
    have h := congrArg String.ofList hspelled
    rwa [String.ofList_toList, ofList_join, List.map_map, Function.comp_def,
      List.map_congr_left fun _ _ => String.ofList_toList, List.map_id'] at h
  -- the path is one of the routes: it calls each key by the key itself
  have hown : Path.Route keys place.path.toList := hspelled ▸ Path.route_join keys
  have hsame : List.Forall₂ Calls keys keys := List.forall₂_same.mpr fun key _ => .inl rfl
  exact ⟨keys, hkeys, hjoined, hroute keys place.path hsame hown, hroute⟩

/-- A page whose keys have camel case names that differ from them. -/
def shopPage : Schema :=
  .branch "shop-front" (.branch "item_list" (.leaf "first-item" .nil) (.leaf "total" .nil))
    (.leaf "log_out" .nil)

/-- A route with one camel case name and gaps of every kind, also before and after the names. -/
theorem walk_back_mixed :
    let names := ["shopFront", "item_list", "firstItem"]
    let others := ["shop-front", "itemList", "first-item"]
    let route := ". shop-front	.
itemList..first-item "
    ∃ n log place, Tour shopPage {} n log ∧ (names.map .child, some place) ∈ log ∧
      place.path = "shop-front item_list first-item" ∧
      (Nav.walk n.root place.path n).1 = some place ∧
      Path.Route others route.toList ∧ (Nav.walk n.root route n).1 = some place := by
  intro names others route
  have hplace : (Spot.ofSchema shopPage {}).follow? ({} : Settings).testAttribute
      (names.map .child) = some ⟨"shop-front item_list first-item", none⟩ := by decide
  obtain ⟨n, log, place, tour, found, -, hsize⟩ := Tour.reach hplace (by decide)
  have few : n.atlas.symbols.size ≤ UInt32.size := Nat.le_trans hsize (by decide)
  have callable : ∀ above level, shopPage.level? above = some level → Callable level.keys := by
    have hall : ∀ keys ∈ shopPage.keys :: shopPage.keysBelow, Callable keys := by decide
    exact fun above level hlevel => hall _ (Schema.mem_keysBelow hlevel)
  have hfew : ∀ steps : List String, steps.length = 3 →
      (Nav.descend n.root steps n).2.atlas.symbols.size ≤ UInt32.size := by
    intro steps hsteps
    have hgrowth := (Nav.descend_grownBy steps n.root n).symbols
    rw [hsteps] at hgrowth
    exact Nat.le_trans hgrowth (Nat.le_trans (Nat.add_le_add_right hsize _) (by decide))
  obtain ⟨keys, hkeys, hpath, hback, hroutes⟩ := Tour.walk_back callable tour few found
  have hgiven : (Spot.ofSchema shopPage {}).steps? ({} : Settings).testAttribute
      (names.map .child) = some ["shop-front", "item_list", "first-item"] := by decide
  obtain rfl := Option.some.inj (hgiven.symm.trans hkeys)
  have hroute : Path.Route others route.toList := by
    have hlast := @Path.Route.step "..".toList " ".toList "first-item" []
      (List.all_eq_true.mp (by decide)) (by rintro _ ⟨⟩; rfl)
      (.gap (List.all_eq_true.mp (by decide)))
    have hnext := @Path.Route.step "\t.\n".toList _ "itemList" _
      (List.all_eq_true.mp (by decide)) (by rintro _ ⟨⟩; rfl) hlast
    have hall := @Path.Route.step ". ".toList _ "shop-front" _
      (List.all_eq_true.mp (by decide)) (by rintro _ ⟨⟩; rfl) hnext
    have htext : route.toList = ". ".toList ++ ("shop-front".toList ++ ("\t.\n".toList ++
        ("itemList".toList ++ ("..".toList ++ ("first-item".toList ++ " ".toList))))) := by decide
    rwa [htext]
  refine ⟨n, log, place, tour, found, hpath, hback ?_, hroute, hroutes others route ?_ hroute ?_⟩
  · rw [hpath]
    exact hfew _ (by decide)
  · exact .cons (.inl rfl) (.cons (.inr (by decide)) (.cons (.inl rfl) .nil))
  · exact hfew _ (by decide)

end PageNav
