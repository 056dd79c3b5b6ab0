import PageNav.Proofs.Settled
import PageNav.Proofs.SettingsText

/-!
# What the commands agree on

Three commands read settings and then a schema. They find the same faults, since none of them looks
at anything else: what one of them prints, it prints of settings and a schema that are in order.
-/

namespace PageNav

/-! ## Settings that were read -/

theorem Settings.check_ofText {text : String} {s : Settings} (h : ofText text = .ok s) :
    s.check = .ok () := by
  rw [ofText] at h
  split at h
  · exact absurd h (by simp)
  · next settings _ =>
    obtain ⟨_, hcheck, hsettings⟩ := Json.bind_eq_ok.mp h
    obtain rfl : settings = s := Except.ok.inj hsettings
    exact hcheck

theorem Navigator.ofSchema?_of_check {settings : Settings} (valid : settings.check = .ok ())
    (schema : Schema) : ofSchema? schema settings = .ok (ofSchema schema settings) := by
  rw [ofSchema?, valid]
  rfl

namespace Command

/-! ## Other verbs for the same arguments -/

theorem throw_ne_ok {α : Type} {stop : Stop} {a : α} : (throw stop : Except Stop α) ≠ .ok a := by
  simp [throw, throwThe, MonadExceptOf.throw]

theorem Opt.of_fits_check {opt : Opt} (h : opt.fits .check = true) :
    (opt = .switch .help ∨ opt = .switch .verbose ∨ opt = .choice .settings) ∧
      ∀ verb, opt.fits verb = true := by
  rcases opt with (_ | _ | _) | (_ | _ | _) <;> simp_all [Opt.fits]

namespace Given

theorem choice_settings (given : Given) (value : String) :
    given.choice value .settings =
      if value = "" then throw .misuse
      else once given.settings value >>= fun settings => pure { given with settings } := by
  rw [choice]
  split <;> rfl

/-- What is left of the argument behind such a letter is the value. -/
theorem letters_choice {given : Given} {letter d : Char} {choice : Choice}
    (h : given.known (Opt.ofLetter? letter) = .ok (.choice choice)) (rest : List Char) :
    given.letters (letter :: d :: rest) =
      given.choice (String.ofList (if d = '=' then rest else d :: rest)) choice >>=
        fun next => pure (next, none) := by
  rw [letters, h]
  by_cases hd : d = '='
  · rw [if_pos hd, hd]
    rfl
  · rw [if_neg hd]
    simp only [Bind.bind, Except.bind]
    split
    · exact absurd ‹_› (List.cons_ne_nil d rest)
    · next heq => exact absurd (List.cons.inj heq).1 hd
    · rfl

/-- The same options and operands behind another verb. -/
def as (given : Given) (verb : Verb) : Given := { given with verb }

/-- What may be given to `check`, which has no options of its own. -/
structure Bare (given : Given) : Prop where
  verb : given.verb = .check
  selectors : given.selectors = false
  color : given.color = none

section

variable {given next : Given} (bare : given.Bare) (verb : Verb)
include bare

theorem Bare.known {opt? : Option Opt} {opt : Opt} (h : given.known opt? = .ok opt) :
    (opt = .switch .help ∨ opt = .switch .verbose ∨ opt = .choice .settings) ∧
      (given.as verb).known opt? = .ok opt := by
  unfold Given.known at h ⊢
  rw [bare.verb] at h
  split at h
  · next found hfound =>
    obtain rfl : found = opt := Except.ok.inj h
    obtain ⟨rfl, hfits⟩ := Option.filter_eq_some_iff.mp hfound
    obtain ⟨hopt, hall⟩ := Opt.of_fits_check hfits
    refine ⟨hopt, ?_⟩
    rw [Option.filter_some, if_pos (hall _)]
    rfl
  · exact absurd h throw_ne_ok

theorem Bare.operand {text : String} (h : given.operand text = .ok next) :
    next.Bare ∧ (given.as verb).operand text = .ok (next.as verb) := by
  unfold Given.operand at h
  split at h
  · next hfits =>
    obtain rfl := Except.ok.inj h
    have hempty := hfits.resolve_left (by simp [bare.verb])
    exact ⟨⟨bare.verb, bare.selectors, bare.color⟩, if_pos (Or.inr hempty)⟩
  · exact absurd h throw_ne_ok

theorem Bare.settings {value : String} (h : given.choice value .settings = .ok next) :
    next.Bare ∧ (given.as verb).choice value .settings = .ok (next.as verb) := by
  rw [choice_settings] at h ⊢
  split at h
  · exact absurd h throw_ne_ok
  · next hvalue =>
    obtain ⟨settings, honce, h⟩ := Json.bind_eq_ok.mp h
    obtain rfl := Except.ok.inj h
    refine ⟨⟨bare.verb, bare.selectors, bare.color⟩, ?_⟩
    rw [if_neg hvalue, as, honce]
    rfl

/-- Only the option for settings can wait for its value. -/
theorem Bare.letters {cs : List Char} {waiting : Option Choice}
    (h : given.letters cs = .ok (next, waiting)) :
    next.Bare ∧ (waiting = none ∨ waiting = some .settings) ∧
      (given.as verb).letters cs = .ok (next.as verb, waiting) := by
  induction cs generalizing given with
  | nil =>
    obtain ⟨rfl, rfl⟩ := Prod.mk.inj (Except.ok.inj h)
    exact ⟨bare, .inl rfl, rfl⟩
  | cons letter rest ih =>
    obtain ⟨opt, hknown, hletters⟩ := Json.bind_eq_ok.mp h
    obtain ⟨hopt, hknown'⟩ := bare.known verb hknown
    rcases hopt with rfl | rfl | rfl
    · exact absurd hletters throw_ne_ok
    · rw [Given.letters, hknown']
      exact ih bare hletters
    · cases rest with
      | nil =>
        obtain ⟨rfl, rfl⟩ := Prod.mk.inj (Except.ok.inj hletters)
        rw [Given.letters, hknown']
        exact ⟨bare, .inr rfl, rfl⟩
      | cons d rest =>
        rw [letters_choice hknown] at h
        rw [letters_choice hknown']
        obtain ⟨final, hchoice, hfinal⟩ := Json.bind_eq_ok.mp h
        obtain ⟨rfl, rfl⟩ := Prod.mk.inj (Except.ok.inj hfinal)
        obtain ⟨hbare, hchoice'⟩ := bare.settings verb hchoice
        rw [hchoice']
        exact ⟨hbare, .inl rfl, rfl⟩

theorem Bare.named {name : String} {value? : Option String} {waiting : Option Choice}
    (h : given.named name value? = .ok (next, waiting)) :
    next.Bare ∧ (waiting = none ∨ waiting = some .settings) ∧
      (given.as verb).named name value? = .ok (next.as verb, waiting) := by
  obtain ⟨opt, hknown, h⟩ := Json.bind_eq_ok.mp h
  obtain ⟨hopt, hknown'⟩ := bare.known verb hknown
  rw [Given.named, hknown']
  rcases hopt with rfl | rfl | rfl
  · cases value? <;> exact absurd h throw_ne_ok
  · cases value? with
    | none =>
      obtain ⟨rfl, rfl⟩ := Prod.mk.inj (Except.ok.inj h)
      exact ⟨bare, .inl rfl, rfl⟩
    | some value => exact absurd h throw_ne_ok
  · cases value? with
    | none =>
      obtain ⟨rfl, rfl⟩ := Prod.mk.inj (Except.ok.inj h)
      exact ⟨bare, .inr rfl, rfl⟩
    | some value =>
      obtain ⟨final, hchoice, hfinal⟩ := Json.bind_eq_ok.mp h
      obtain ⟨rfl, rfl⟩ := Prod.mk.inj (Except.ok.inj hfinal)
      obtain ⟨hbare, hchoice'⟩ := bare.settings verb hchoice
      refine ⟨hbare, .inl rfl, ?_⟩
      change ((given.as verb).choice value .settings >>= _) = _
      rw [hchoice']
      rfl

theorem Bare.operands {texts : List String} (h : texts.foldlM Given.operand given = .ok next) :
    next.Bare ∧ texts.foldlM Given.operand (given.as verb) = .ok (next.as verb) := by
  induction texts generalizing given with
  | nil =>
    obtain rfl := Except.ok.inj h
    exact ⟨bare, rfl⟩
  | cons text texts ih =>
    rw [List.foldlM_cons] at h ⊢
    obtain ⟨first, hfirst, h⟩ := Json.bind_eq_ok.mp h
    obtain ⟨hbare, hfirst'⟩ := bare.operand verb hfirst
    rw [hfirst']
    exact ih hbare h

theorem Bare.arguments {texts : List String} {waiting : Option Choice}
    (hwaiting : waiting = none ∨ waiting = some .settings)
    (h : given.arguments waiting texts = .ok next) :
    next.Bare ∧ (given.as verb).arguments waiting texts = .ok (next.as verb) := by
  -- what waits is nothing or the option for settings, as after letters and names
  induction texts generalizing given waiting with
  | nil =>
    rcases hwaiting with rfl | rfl
    · obtain rfl := Except.ok.inj h
      exact ⟨bare, rfl⟩
    · exact absurd h throw_ne_ok
  | cons text texts ih =>
    unfold Given.arguments at h ⊢
    rcases hwaiting with rfl | rfl
    · cases hshape : Shape.ofArgument text with
      | divider =>
        rw [hshape] at h
        exact bare.operands verb h
      | named name value? =>
        rw [hshape] at h
        obtain ⟨⟨first, waiting⟩, hfirst, h⟩ := Json.bind_eq_ok.mp h
        obtain ⟨hbare, hwaiting, hfirst'⟩ := bare.named verb hfirst
        simp only [hfirst']
        exact ih hbare hwaiting h
      | letters cs =>
        rw [hshape] at h
        obtain ⟨⟨first, waiting⟩, hfirst, h⟩ := Json.bind_eq_ok.mp h
        obtain ⟨hbare, hwaiting, hfirst'⟩ := bare.letters verb hfirst
        simp only [hfirst']
        exact ih hbare hwaiting h
      | plain =>
        rw [hshape] at h
        obtain ⟨first, hfirst, h⟩ := Json.bind_eq_ok.mp h
        obtain ⟨hbare, hfirst'⟩ := bare.operand verb hfirst
        simp only [hfirst']
        exact ih hbare (.inl rfl) h
    · cases hshape : Shape.ofArgument text with
      | plain =>
        rw [hshape] at h
        obtain ⟨first, hfirst, h⟩ := Json.bind_eq_ok.mp h
        obtain ⟨hbare, hfirst'⟩ := bare.settings verb hfirst
        simp only [hfirst']
        exact ih hbare (.inl rfl) h
      | divider | named | letters =>
        rw [hshape] at h
        exact absurd h throw_ne_ok

end

end Given

theorem Given.Bare.command {given : Given} (bare : given.Bare) {config : Option String}
    {source : Source} (h : given.command = .ok (.check config source)) :
    (given.as .extend).command = .ok (.extend config source) ∧
      (given.as .tree).command = .ok (.tree config source false .auto) := by
  rcases given with ⟨verb, operands, settings, attr, selectors, color⟩
  obtain ⟨rfl, rfl, rfl⟩ := bare
  cases operands with
  | nil => exact absurd h throw_ne_ok
  | cons operand operands =>
    obtain ⟨rfl, rfl⟩ := Command.check.inj (Except.ok.inj h)
    exact ⟨rfl, rfl⟩

/-- Arguments that `check` takes are taken by `extend` and `tree` too, for the same settings and the
same schema. -/
theorem ofArguments_of_check {arguments : List String} {config : Option String} {source : Source}
    (h : ofArguments ("check" :: arguments) = .ok (.check config source)) :
    ofArguments ("extend" :: arguments) = .ok (.extend config source) ∧
      ofArguments ("tree" :: arguments) = .ok (.tree config source false .auto) := by
  obtain ⟨given, hgiven, hcommand⟩ := Json.bind_eq_ok.mp h
  have bare : Given.Bare { verb := .check } := ⟨rfl, rfl, rfl⟩
  obtain ⟨hbare, hextend⟩ := bare.arguments .extend (.inl rfl) hgiven
  have htree := (bare.arguments .tree (.inl rfl) hgiven).2
  have hcommands := hbare.command hcommand
  constructor
  · change ((Given.as { verb := .check } .extend).arguments none arguments >>= Given.command) = _
    rw [hextend]
    exact hcommands.1
  · change ((Given.as { verb := .check } .tree).arguments none arguments >>= Given.command) = _
    rw [htree]
    exact hcommands.2

/-! ## Reading -/

section

variable {reading : Reading Id} {config : Option String} {source : Source}

theorem run_bind_of_ok {α β : Type} {x : ExceptT Failure Id α} {a : α}
    (h : Id.run x.run = .ok a) (f : α → ExceptT Failure Id β) :
    Id.run (x >>= f).run = Id.run (f a).run := by
  change Id.run (ExceptT.bindCont f (Id.run x.run)) = _
  rw [h]
  rfl

theorem run_bind_of_error {α β : Type} {x : ExceptT Failure Id α} {failure : Failure}
    (h : Id.run x.run = .error failure) (f : α → ExceptT Failure Id β) :
    Id.run (x >>= f).run = .error failure := by
  change Id.run (ExceptT.bindCont f (Id.run x.run)) = _
  rw [h]
  rfl

theorem check_readSettings {settings : Settings}
    (h : Id.run (readSettings reading config).run = .ok settings) :
    settings.check = .ok () := by
  cases config with
  | none =>
    obtain rfl := Except.ok.inj h
    exact Settings.check_eq_ok_iff.mpr ⟨by decide, by decide⟩
  | some path =>
    obtain ⟨text, -, htext⟩ := bind_eq_ok.mp h
    exact Settings.check_ofText (mapError_eq_ok.mp htext)

/-- The first thing that is wrong with the settings or, if those are in order, with the schema. -/
def fault? (reading : Reading Id) (config : Option String) (source : Source) : Option Failure :=
  match Id.run (readSettings reading config).run with
  | .error failure => some failure
  | .ok _ =>
    match Id.run (readSchema reading source).run with
    | .error failure => some failure
    | .ok _ => none

theorem fault?_eq_none (h : fault? reading config source = none) :
    ∃ settings schema, Id.run (readSettings reading config).run = .ok settings ∧
      Id.run (readSchema reading source).run = .ok schema := by
  unfold fault? at h
  split at h
  · exact absurd h (by simp)
  · next settings hsettings =>
    split at h
    · exact absurd h (by simp)
    · next schema hschema => exact ⟨settings, schema, hsettings, hschema⟩

/-- What a command does that reads settings and a schema before all else. -/
theorem run_of_fault {failure : Failure} (h : fault? reading config source = some failure)
    (rest : Settings → Schema → ExceptT Failure Id String) :
    Id.run (do
      let settings ← readSettings reading config
      let schema ← readSchema reading source
      rest settings schema : ExceptT Failure Id String).run = .error failure := by
  unfold fault? at h
  split at h
  · next hsettings =>
    obtain rfl := Option.some.inj h
    exact run_bind_of_error hsettings _
  · next settings hsettings =>
    rw [run_bind_of_ok hsettings]
    split at h
    · next hschema =>
      obtain rfl := Option.some.inj h
      exact run_bind_of_error hschema _
    · exact absurd h (by simp)

theorem run_in_order {settings : Settings} {schema : Schema}
    (hsettings : Id.run (readSettings reading config).run = .ok settings)
    (hschema : Id.run (readSchema reading source).run = .ok schema)
    (rest : Settings → Schema → ExceptT Failure Id String) :
    Id.run (do
      let settings ← readSettings reading config
      let schema ← readSchema reading source
      rest settings schema : ExceptT Failure Id String).run = Id.run (rest settings schema).run := by
  rw [run_bind_of_ok hsettings, run_bind_of_ok hschema]

theorem run_tree_in_order {settings : Settings} {schema : Schema}
    (hsettings : Id.run (readSettings reading config).run = .ok settings)
    (hschema : Id.run (readSchema reading source).run = .ok schema) (terminal selectors : Bool)
    (color : ColorWhen) :
    Id.run (run reading terminal (.tree config source selectors color)).run =
      .ok ((Nav.listing { selectors, colored := color.holds terminal }).run
        (Navigator.ofSchema schema settings)).1 := by
  rw [run, run_in_order hsettings hschema,
    Navigator.ofSchema?_of_check (check_readSettings hsettings)]
  rfl

end

/-! ## Reports -/

theorem report_of_ofArguments {reading : Reading Id} {arguments : List String} {command : Command}
    (h : ofArguments arguments = .ok command) (terminal : Bool) :
    Id.run (report reading terminal arguments) =
      .ofOutcome (Id.run (command.run reading terminal).run) := by
  rw [report, h]
  rfl

/-- The commands `check`, `extend` and `tree` agree on what is in order. The arguments of one are
arguments of the others. With the same settings and the same schema all three fail, and with the same
complaint, or none of them does; and what was found in the settings goes before what was found in the
schema. No settings that were read are a reason to refuse a schema later on. -/
theorem commands_agree (reading : Reading Id) (terminal : Bool) (config : Option String)
    (source : Source) :
    (∀ arguments, ofArguments ("check" :: arguments) = .ok (.check config source) →
      ofArguments ("extend" :: arguments) = .ok (.extend config source) ∧
      ofArguments ("tree" :: arguments) = .ok (.tree config source false .auto)) ∧
    (∀ settings, Id.run (readSettings reading config).run = .ok settings → ∀ schema,
      Navigator.ofSchema? schema settings = .ok (Navigator.ofSchema schema settings)) ∧
    ∀ checking extending drawing selectors color,
      ofArguments checking = .ok (.check config source) →
      ofArguments extending = .ok (.extend config source) →
      ofArguments drawing = .ok (.tree config source selectors color) →
      match fault? reading config source with
      | some failure => ∀ arguments ∈ [checking, extending, drawing],
        Id.run (report reading terminal arguments) =
          { output := "", complaint := s!"error: {failure.message}\n", code := 1 }
      | none => Id.run (report reading terminal checking) = {} ∧
        ∀ arguments ∈ [extending, drawing], ∃ output,
          Id.run (report reading terminal arguments) = { output, complaint := "", code := 0 } := by
  refine ⟨fun arguments h => ofArguments_of_check h,
    fun settings h schema => Navigator.ofSchema?_of_check (check_readSettings h) schema, ?_⟩
  intro checking extending drawing selectors color hcheck hextend htree
  cases hfault : fault? reading config source with
  | some failure =>
    simp only [List.forall_mem_cons, List.not_mem_nil, IsEmpty.forall_iff, implies_true, and_true]
    rw [report_of_ofArguments hcheck, report_of_ofArguments hextend, report_of_ofArguments htree]
    exact ⟨congrArg Report.ofOutcome (run_of_fault hfault _),
      congrArg Report.ofOutcome (run_of_fault hfault _),
      congrArg Report.ofOutcome (run_of_fault hfault _)⟩
  | none =>
    obtain ⟨settings, schema, hsettings, hschema⟩ := fault?_eq_none hfault
    simp only [List.forall_mem_cons, List.not_mem_nil, IsEmpty.forall_iff, implies_true, and_true]
    rw [report_of_ofArguments hcheck, report_of_ofArguments hextend, report_of_ofArguments htree]
    exact ⟨congrArg Report.ofOutcome (run_in_order hsettings hschema _),
      ⟨_, congrArg Report.ofOutcome (run_in_order hsettings hschema _)⟩,
      ⟨_, congrArg Report.ofOutcome (run_tree_in_order hsettings hschema terminal selectors color)⟩⟩

/-- A standard input that is no text, a file of settings with a blank attribute, and a page. -/
def shelf : Reading Id := fun source => pure <|
  match source with
  | .standardInput => .error .notText
  | .file path =>
    if path = "blank.json" then .ok "\x7b\"attribute\": \" \"\x7d" else .ok "\x7b\"rows\": null\x7d"

theorem fault?_shelf_page : fault? shelf none (.file "page.json") = none :=
  Option.isNone_iff_eq_none.mp (by decide +kernel)

/-- Where both are wrong, it is the settings that all of them complain about. -/
theorem commands_agree_on_shelf :
    (∀ arguments ∈ [["check", "-c", "blank.json", "-"], ["extend", "-", "--config=blank.json"],
        ["tree", "--compiled", "-vcblank.json", "--color", "never", "-"]],
      Id.run (report shelf false arguments) =
        { output := "", complaint := "error: invalid config: `attribute` must not be empty\n",
          code := 1 }) ∧
    Id.run (report shelf false ["check", "page.json"]) = {} := by
  have hblank := (commands_agree shelf false (some "blank.json") .standardInput).2.2
    ["check", "-c", "blank.json", "-"] ["extend", "-", "--config=blank.json"]
    ["tree", "--compiled", "-vcblank.json", "--color", "never", "-"] true .never rfl rfl rfl
  have hfault : (fault? shelf (some "blank.json") .standardInput).map Failure.message =
    some "invalid config: `attribute` must not be empty" := by decide +kernel
  have hpage := (commands_agree shelf false none (.file "page.json")).2.2
    ["check", "page.json"] ["extend", "page.json"] ["tree", "page.json"] false .auto rfl rfl rfl
  obtain ⟨failure, hfailure, hmessage⟩ := Option.map_eq_some_iff.mp hfault
  rw [hfailure] at hblank
  rw [fault?_shelf_page] at hpage
  simp only [hmessage] at hblank
  exact ⟨hblank, hpage.1⟩

end Command

end PageNav
