import PageNav.Proofs.Lookups
import PageNav.Proofs.Telescope
import PageNav.Proofs.Verdicts

/-!
# Attributes that were checked

Selectors are made with the attribute of settings that passed their check, wherever they are printed
or sent to a host. The one exception is an attribute that is given to `compile` itself.
-/

namespace PageNav

open Text PageNav.Path

/-- Whether settings with this attribute pass their check. -/
def Settings.Admits (attr : String) : Prop :=
  ({ testAttribute := attr } : Settings).check = .ok ()

theorem Settings.admits_iff {attr : String} : Admits attr ↔ allBlank attr = false := by
  have hoperation : allBlank "within" = false := by decide
  rw [Admits, check_eq_ok_iff]
  exact and_iff_left hoperation

theorem Settings.admits_of_check {s : Settings} (valid : s.check = .ok ()) :
    Admits s.testAttribute :=
  admits_iff.mpr (check_eq_ok_iff.mp valid).1

/-! ## Tests on nothing -/

namespace Selector

/-- A test on an attribute without a name. -/
def TestsBlank (token : List Char) : Prop :=
  ∃ attr name, (∀ c ∈ attr, isBlank c = true) ∧ '\'' ∉ name ∧ token = testOf attr name

theorem append_quote_inj {a b c d : List Char} (ha : '\'' ∉ a) (hb : '\'' ∉ b)
    (h : a ++ '\'' :: c = b ++ '\'' :: d) : a = b := by
  have hfront (x y : List Char) (hx : '\'' ∉ x) : (x ++ '\'' :: y).takeWhile (· != '\'') = x := by
    rw [List.takeWhile_append_of_pos, List.takeWhile_cons_of_neg (by simp), List.append_nil]
    intro e he
    simpa using fun heq : e = '\'' => hx (heq ▸ he)
  rw [← hfront a c ha, h, hfront b d hb]

/-- The first quote of a test stands behind its attribute, and there are two of them in a test on
nothing. So an attribute that has quotes itself does not lead to one either. -/
theorem blank_of_testOf_append {attr name rest : List Char}
    (h : TestsBlank (testOf attr name ++ rest)) : ∀ c ∈ attr, isBlank c = true := by
  obtain ⟨blank, text, hblank, htext, heq⟩ := h
  have hnone : '\'' ∉ blank := fun hmem => absurd (hblank _ hmem) (by decide)
  -- the test on the left has two quotes behind its attribute, and the other has no more than two
  have hcount := congrArg (List.count '\'') heq
  simp only [testOf, List.cons_append, List.append_assoc, List.count_cons, List.count_append,
    List.count_eq_zero_of_not_mem hnone, List.count_eq_zero_of_not_mem htext] at hcount
  have hattr : '\'' ∉ attr := by
    rw [← List.count_eq_zero]
    simp at hcount
    omega
  have hsame : (attr ++ ['=']) ++ '\'' :: (name ++ ['\'', ']'] ++ rest) =
      (blank ++ ['=']) ++ '\'' :: (text ++ ['\'', ']']) := by
    simpa [testOf] using heq
  have hfront := append_quote_inj (by simpa using hattr) (by simpa using hnone) hsame
  rwa [List.append_cancel_right hfront]

theorem eq_of_testsBlank {attr : String} {token : List Char} (admitted : Settings.Admits attr)
    (h : TestsBlank (ofToken attr.toList token)) : ofToken attr.toList token = token := by
  unfold ofToken at h ⊢
  simp only at h ⊢
  split at h
  · next hkeep => rw [if_pos hkeep]
  · have hblank := List.all_eq_true.mpr (blank_of_testOf_append h)
    rw [Settings.admits_iff, allBlank, hblank] at admitted
    exact absurd admitted (by decide)

end Selector

/-! ## The entries of a listing -/

/-- What one line of a listing is about. -/
inductive ListingEntry where
  | filter (level : Nat) (filter : RowFilter)
  | key (level : Nat) (key path : String)

namespace ListingEntry

/-- The line of an entry. A selector is that of the path which would be shown in its place. -/
def line (style : ListingStyle) (attr : String) : ListingEntry → String
  | filter level rows => style.filterLine level rows
  | key level name path =>
    style.keyLine level name (if style.selectors then Selector.ofPath attr path else path)

def lines (style : ListingStyle) (attr : String) (entries : List ListingEntry) : String :=
  String.join (entries.map (line style attr))

theorem lines_append (style : ListingStyle) (attr : String) (entries more : List ListingEntry) :
    lines style attr (entries ++ more) = lines style attr entries ++ lines style attr more := by
  rw [lines, List.map_append, String.join_append, lines, lines]

theorem lines_cons (style : ListingStyle) (attr : String) (entry : ListingEntry)
    (entries : List ListingEntry) :
    lines style attr (entry :: entries) = entry.line style attr ++ lines style attr entries := by
  rw [lines, List.map_cons, String.join_cons, lines]

end ListingEntry

namespace Nav

open ListingEntry (lines lines_append lines_cons)

/-- Whether a listing has the same entries in every style. -/
def Uniform (listing : ListingStyle → Nav String) : Prop :=
  ∀ n : Navigator, ∃ entries m, m.settings = n.settings ∧
    ∀ style, listing style n = (lines style n.settings.testAttribute entries, m)

theorem uniform_nil : Uniform fun _ => pure "" :=
  fun n => ⟨[], n, rfl, fun _ => rfl⟩

theorem uniform_listChildren (level : Nat) {below : ListingStyle → Place → Nav String}
    (hbelow : ∀ found, Uniform fun style => below style found) (place : Place)
    (keys : List String) :
    Uniform fun style => listChildren style level (below style) place keys := by
  induction keys with
  | nil => exact uniform_nil
  | cons key keys ih =>
    intro n
    have hsettings := (wanders_child place key).settings n
    simp only [listChildren_bind, bind_apply]
    cases (child place key n).1 with
    | none =>
      obtain ⟨entries, m, hm, hlines⟩ := ih (child place key n).2
      beta_reduce at hlines
      refine ⟨entries, m, hm.trans hsettings, fun style => ?_⟩
      rw [listChild, bind_apply, hlines style, hsettings]
      exact congrArg (·, m) (String.empty_append ..)
    | some found =>
      -- the attribute is looked up anew for each line, but the settings stay as they are
      obtain ⟨inner, k, hk, hinner⟩ := hbelow found (child place key n).2
      obtain ⟨entries, m, hm, hlines⟩ := ih k
      beta_reduce at hinner hlines
      refine ⟨.key level key found.path :: (inner ++ entries), m, hm.trans (hk.trans hsettings),
        fun style => ?_⟩
      rw [listChild, bind_apply, get_apply, bind_apply, hinner style, bind_apply, hlines style, hk,
        hsettings, lines_cons, lines_append, ← String.append_assoc]
      rfl

theorem uniform_filter {listing : ListingStyle → Nav String} (h : Uniform listing) (level : Nat)
    (rows? : Option RowFilter) :
    Uniform fun style => do return rows?.elim "" (style.filterLine level) ++ (← listing style) := by
  intro n
  obtain ⟨entries, m, hm, hlines⟩ := h n
  cases rows? with
  | none =>
    refine ⟨entries, m, hm, fun style => ?_⟩
    simp only [bind_apply, hlines style]
    exact congrArg (·, m) (String.empty_append ..)
  | some rows =>
    refine ⟨.filter level rows :: entries, m, hm, fun style => ?_⟩
    simp only [bind_apply, hlines style, lines_cons]
    rfl

theorem uniform_listBelow (height level : Nat) (place : Place) :
    Uniform fun style => listBelow style level place height := by
  induction height generalizing level place with
  | zero => exact uniform_filter (uniform_listChildren level (fun _ => uniform_nil) _ _) level _
  | succ height ih =>
    exact uniform_filter (uniform_listChildren level (ih (level + 1)) _ _) level _

theorem uniform_listing : Uniform listing :=
  fun n => uniform_listBelow n.layout.height 0 n.root n

end Nav

/-! ## Navigators and commands -/

namespace Navigator

theorem check_ofSchema? {schema : Schema} {settings : Settings} {n : Navigator}
    (h : ofSchema? schema settings = .ok n) : n.settings = settings ∧ settings.check = .ok () := by
  obtain ⟨_, hcheck, hnavigator⟩ := Json.bind_eq_ok.mp h
  obtain rfl := Except.ok.inj hnavigator
  exact ⟨rfl, hcheck⟩

theorem ofSchema?_of_ofText? {text : String} {settings : Settings} {n : Navigator}
    (h : ofText? text settings = .ok n) : ∃ schema, ofSchema? schema settings = .ok n := by
  obtain ⟨schema, -, hschema⟩ := Json.bind_eq_ok.mp h
  exact ⟨schema, hschema⟩

end Navigator

namespace Command

variable {reading : Reading Id} {terminal : Bool} {config : Option String} {source : Source}

theorem ok_of_code {outcome : Except Failure String} (h : (Report.ofOutcome outcome).code = 0) :
    ∃ output, outcome = .ok output := by
  cases outcome with
  | ok output => exact ⟨output, rfl⟩
  | error failure => exact absurd h (by simp [Report.ofOutcome])

theorem run_compile_eq_ok {attr : Option String} {paths : List String} {output : String} :
    Id.run (run reading terminal (.compile config attr paths)).run = .ok output ↔
      ∃ settings, Id.run (readSettings reading config).run = .ok settings ∧
        output = String.join (paths.map fun path =>
          Selector.ofPath (attr.getD settings.testAttribute) path ++ "\n") := by
  rw [run, bind_eq_ok]
  refine exists_congr fun settings => and_congr_right fun _ => ?_
  exact (Iff.of_eq (Except.ok.injEq _ _)).trans eq_comm

theorem readSchema_of_tree {selectors : Bool} {color : ColorWhen} {output : String}
    (h : Id.run (run reading terminal (.tree config source selectors color)).run = .ok output) :
    ∃ settings schema, Id.run (readSettings reading config).run = .ok settings ∧
      Id.run (readSchema reading source).run = .ok schema := by
  rw [run] at h
  obtain ⟨settings, hsettings, h⟩ := bind_eq_ok.mp h
  obtain ⟨schema, hschema, -⟩ := bind_eq_ok.mp h
  exact ⟨settings, schema, hsettings, hschema⟩

theorem admits_readSettings {settings : Settings}
    (h : Id.run (readSettings reading config).run = .ok settings) :
    Settings.Admits settings.testAttribute :=
  Settings.admits_of_check (check_readSettings h)

theorem not_admits_getD {settings : Settings} (h : Settings.Admits settings.testAttribute)
    (attr : Option String) :
    ¬ Settings.Admits (attr.getD settings.testAttribute) ↔
      ∃ given ∈ attr, ¬ Settings.Admits given := by
  cases attr with
  | none => simpa using h
  | some given => simp

theorem report_compile {arguments : List String} {attr : Option String} {paths : List String}
    (harguments : ofArguments arguments = .ok (.compile config attr paths))
    (hcode : (Id.run (report reading terminal arguments)).code = 0) :
    ∃ settings used, Id.run (readSettings reading config).run = .ok settings ∧
      used = attr.getD settings.testAttribute ∧
      (Id.run (report reading terminal arguments)).output =
        String.join (paths.map fun path => Selector.ofPath used path ++ "\n") ∧
      (¬ Settings.Admits used ↔ ∃ given ∈ attr, ¬ Settings.Admits given) := by
  rw [report_of_ofArguments harguments] at hcode ⊢
  obtain ⟨output, houtput⟩ := ok_of_code hcode
  obtain ⟨settings, hsettings, rfl⟩ := run_compile_eq_ok.mp houtput
  rw [houtput]
  exact ⟨settings, _, hsettings, rfl, rfl, not_admits_getD (admits_readSettings hsettings) attr⟩

theorem report_tree {arguments : List String} {selectors : Bool} {color : ColorWhen}
    (harguments : ofArguments arguments = .ok (.tree config source selectors color))
    (hcode : (Id.run (report reading terminal arguments)).code = 0) :
    ∃ settings entries, Id.run (readSettings reading config).run = .ok settings ∧
      Settings.Admits settings.testAttribute ∧
      ∀ terminal arguments selectors color,
        ofArguments arguments = .ok (.tree config source selectors color) →
        (Id.run (report reading terminal arguments)).output =
          ListingEntry.lines { selectors, colored := color.holds terminal }
            settings.testAttribute entries := by
  rw [report_of_ofArguments harguments] at hcode
  obtain ⟨output, houtput⟩ := ok_of_code hcode
  obtain ⟨settings, schema, hsettings, hschema⟩ := readSchema_of_tree houtput
  obtain ⟨entries, m, -, hlines⟩ := Nav.uniform_listing (Navigator.ofSchema schema settings)
  refine ⟨settings, entries, hsettings, admits_readSettings hsettings, ?_⟩
  intro terminal arguments selectors color harguments
  rw [report_of_ofArguments harguments,
    run_tree_in_order hsettings hschema terminal selectors color]
  exact congrArg Prod.fst (hlines _)

end Command

/-! ## All ways to a selector -/

open Command in
/-- Settings that are read, and those of navigators, have an attribute that the check admits. Sessions
and the commands `compile` and `tree` make their selectors with it, for paths that were asked for or
that the page gives, and no such attribute makes a test on nothing where there was none. Only an
attribute that is given to `compile` is taken as it is. -/
theorem attributes_are_checked {σ μ Subject Chain : Type} {R : σ → σ → Prop} :
    (∀ text settings, Settings.ofText text = .ok settings →
      Settings.Admits settings.testAttribute) ∧
    (∀ schema settings n, Navigator.ofSchema? schema settings = .ok n →
      n.settings = settings ∧ Settings.Admits settings.testAttribute) ∧
    (∀ text settings n, Navigator.ofText? text settings = .ok n →
      n.settings = settings ∧ Settings.Admits settings.testAttribute) ∧
    (∀ (host : Host σ Subject Chain) (errand : Errand R μ Subject Chain) n state memory,
      (errand.navigatorAfter host n state memory).settings = n.settings ∧
      ∀ selector options,
        Request.query selector options ∈ (errand.report host n state memory).requests →
        ∃ path, selector = Selector.ofPath n.settings.testAttribute path ∧
          (errand.Asks path ∨ ∃ spot ∈ n.root.toSpot :: (errand.report host n state memory).found,
            ∃ scopes : Scopes, path = scopes.relative spot.path)) ∧
    (∀ (reading : Reading Id) terminal arguments config attr paths,
      ofArguments arguments = .ok (.compile config attr paths) →
      (Id.run (report reading terminal arguments)).code = 0 →
      ∃ settings used, Id.run (readSettings reading config).run = .ok settings ∧
        used = attr.getD settings.testAttribute ∧
        (Id.run (report reading terminal arguments)).output =
          String.join (paths.map fun path => Selector.ofPath used path ++ "\n") ∧
        (¬ Settings.Admits used ↔ ∃ given ∈ attr, ¬ Settings.Admits given)) ∧
    (∀ (reading : Reading Id) terminal arguments config source selectors color,
      ofArguments arguments = .ok (.tree config source selectors color) →
      (Id.run (report reading terminal arguments)).code = 0 →
      ∃ settings entries, Id.run (readSettings reading config).run = .ok settings ∧
        Settings.Admits settings.testAttribute ∧
        ∀ terminal arguments selectors color,
          ofArguments arguments = .ok (.tree config source selectors color) →
          (Id.run (report reading terminal arguments)).output =
            ListingEntry.lines { selectors, colored := color.holds terminal }
              settings.testAttribute entries) ∧
    ∀ attr token, Settings.Admits attr → Selector.TestsBlank (Selector.ofToken attr.toList token) →
      Selector.ofToken attr.toList token = token := by
  refine ⟨fun text settings h => Settings.admits_of_check (Settings.check_ofText h), ?_, ?_,
    fun host errand n state memory => errand.lookups host n state memory,
    fun _ _ _ _ _ _ => report_compile, fun _ _ _ _ _ _ _ => report_tree,
    fun attr token => Selector.eq_of_testsBlank⟩
  · intro schema settings n h
    obtain ⟨hsettings, hcheck⟩ := Navigator.check_ofSchema? h
    exact ⟨hsettings, Settings.admits_of_check hcheck⟩
  · intro text settings n h
    obtain ⟨schema, hschema⟩ := Navigator.ofSchema?_of_ofText? h
    obtain ⟨hsettings, hcheck⟩ := Navigator.check_ofSchema? hschema
    exact ⟨hsettings, Settings.admits_of_check hcheck⟩

def asker : Errand (fun _ _ : Unit => True) Unit Unit Unit :=
  .query "list rows" {} fun _ => .done (.ok ())

open Command in
/-- Settings with an attribute of their own, a session and a listing with the standard one, and a
command that is given a blank one. -/
theorem attributes_on_shelf :
    Settings.Admits "qa" ∧
    (∃ n, Navigator.ofSchema? listPage {} = .ok n ∧ Settings.Admits n.settings.testAttribute ∧
      ∃ path, Selector.ofPath "data-test" "list rows" =
          Selector.ofPath n.settings.testAttribute path ∧
        (asker.Asks path ∨ ∃ spot ∈ n.root.toSpot :: (asker.report eagerHost n () ()).found,
          ∃ scopes : Scopes, path = scopes.relative spot.path)) ∧
    ((Id.run (report shelf false ["compile", "-a", " ", "x"])).output = "[ ='x']\n" ∧
      ∃ given ∈ some " ", ¬ Settings.Admits given) ∧
    (∃ entries, (Id.run (report shelf false ["tree", "--compiled", "page.json"])).output =
      ListingEntry.lines { selectors := true } "data-test" entries) := by
  obtain ⟨hread, hschema, -, hlookups, hcompile, htree, -⟩ :=
    @attributes_are_checked Unit Unit Unit Unit fun _ _ => True
  refine ⟨?_, ?_, ?_, ?_⟩
  · have distinct : RowTable.standard.Distinct := List.nodup_singleton _
    have htext := @Settings.ofText_of_textOf { testAttribute := "qa" } distinct rfl _
      (List.Subperm.refl _) _ (Settings.textOf_compact _)
    exact hread _ _ htext
  · have hnavigator : Navigator.ofSchema? listPage {} = .ok (Navigator.ofSchema listPage {}) := rfl
    obtain ⟨hsettings, hadmits⟩ := hschema listPage {} _ hnavigator
    refine ⟨_, hnavigator, hadmits, ?_⟩
    exact (hlookups eagerHost asker _ () ()).2 _ {} (List.mem_singleton.mpr rfl)
  · have hcode : (Id.run (report shelf false ["compile", "-a", " ", "x"])).code = 0 := rfl
    obtain ⟨settings, used, -, hused, houtput, hblank⟩ := hcompile shelf false _ none (some " ") ["x"]
      rfl hcode
    obtain rfl : used = " " := hused
    refine ⟨houtput.trans (by decide), hblank.mp ?_⟩
    rw [Settings.admits_iff]
    decide
  · have harguments : ofArguments ["tree", "--compiled", "page.json"] =
      .ok (.tree none (.file "page.json") true .auto) := rfl
    have hcode : (Id.run (report shelf false ["tree", "--compiled", "page.json"])).code = 0 := by
      obtain ⟨settings, schema, hsettings, hschema⟩ := fault?_eq_none fault?_shelf_page
      rw [report_of_ofArguments harguments, run_tree_in_order hsettings hschema]
      rfl
    obtain ⟨settings, entries, hsettings, -, hlines⟩ := htree shelf false _ none _ true .auto
      harguments hcode
    obtain rfl : {} = settings := Except.ok.inj hsettings
    exact ⟨entries, hlines false _ true .auto harguments⟩

open Command in
/-- The command does not check the attribute that it is given. -/
theorem blank_attribute_compiled :
    Id.run (report shelf false ["compile", "--attribute", "", "x"]) = { output := "[='x']\n" } ∧
      ¬ Settings.Admits "" ∧ Selector.TestsBlank "[='x']".toList := by
  refine ⟨by decide, ?_, [], ['x'], by simp, by decide, rfl⟩
  rw [Settings.admits_iff]
  decide

end PageNav
