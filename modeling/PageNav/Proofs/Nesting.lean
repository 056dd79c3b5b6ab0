import PageNav.Path.Selector
import PageNav.Proofs.Plain

/-!
# Selectors that are closed

In the selector of a step all quotes are closed and brackets stand inside each other, whatever text
the step holds. Who reads the selector finds the text that was given.
-/

namespace PageNav

open Text

/-! ## Brackets inside each other -/

namespace Bracket

/-- The open brackets, innermost first, after one more character outside quotes. There is no answer
when a bracket is closed that is not the innermost. -/
def step? (opened : List Bracket) (c : Char) : Option (List Bracket) :=
  match kinds.find? (·.opening = c), kinds.find? (·.closing = c) with
  | some k, _ => some (k :: opened)
  | none, some k => if opened.head? = some k then some opened.tail else none
  | none, none => some opened

theorem step?_opening (opened : List Bracket) (k : Bracket) :
    step? opened k.opening = some (k :: opened) := by
  cases k <;> rfl

theorem step?_closing (opened : List Bracket) (k : Bracket) :
    step? opened k.closing = if opened.head? = some k then some opened.tail else none := by
  cases k <;> rfl

theorem step?_other (opened : List Bracket) {c : Char}
    (h : ∀ k : Bracket, c ≠ k.opening ∧ c ≠ k.closing) : step? opened c = some opened := by
  have hopening : kinds.find? (·.opening = c) = none := by
    rw [List.find?_eq_none]
    intro k _
    simpa using Ne.symm (h k).1
  have hclosing : kinds.find? (·.closing = c) = none := by
    rw [List.find?_eq_none]
    intro k _
    simpa using Ne.symm (h k).2
  simp only [step?, hopening, hclosing]

def opened? (q : Quote) (opened : List Bracket) : List Char → Option (List Bracket)
  | [] => some opened
  | c :: cs =>
    match q with
    | .outside => (step? opened c).bind (opened? (Quote.outside.next c) · cs)
    | q => opened? (q.next c) opened cs

theorem opened?_append (q : Quote) (opened : List Bracket) (a b : List Char) :
    opened? q opened (a ++ b) = (opened? q opened a).bind (opened? (q.after a) · b) := by
  induction a generalizing q opened with
  | nil => rfl
  | cons c a ih =>
    cases q with
    | outside => simp only [List.cons_append, opened?, Quote.after_cons, ih, Option.bind_assoc]
    | inside => exact ih _ _
    | escaped => exact ih _ _

end Bracket

/-- Outside quotes every bracket is closed, and the one that was opened last is closed first. -/
def Nested (text : List Char) : Prop := Bracket.opened? .outside [] text = some []

/-- Whatever brackets are open before the text, the same are open after it. -/
def Even (text : List Char) : Prop :=
  ∀ opened, Bracket.opened? .outside opened text = some opened

/-! ## Texts that are looked for -/

/-- What stands up to the closing quote, with the backslashes taken away. -/
def unescaped : Quote → List Char → List Char
  | _, [] => []
  | .escaped, c :: cs => c :: unescaped .inside cs
  | _, c :: cs =>
    if c = '\\' then unescaped .escaped cs
    else if c = '\'' then []
    else c :: unescaped .inside cs

theorem unescaped_escapeChars (text rest : List Char) :
    unescaped .inside (escapeChars text ++ '\'' :: rest) = text := by
  induction text with
  | nil => rfl
  | cons c cs ih =>
    unfold escapeChars
    split
    · simp [unescaped, ih]
    · next h =>
      simp only [Bool.or_eq_true, decide_eq_true_eq, not_or] at h
      simp [unescaped, h.1, h.2, ih]

namespace Selector

def containsName : List Char := ":contains".toList

/-- What stands before a text that is looked for. -/
def contains : List Char := containsName ++ ['(']

/-- The quoted texts that stand after `contains`. `before` has been read already. -/
def soughtFrom (before : List Char) (q : Quote) : List Char → List String
  | [] => []
  | c :: cs =>
    let later := soughtFrom (before ++ [c]) (q.next c) cs
    if q = .outside && c = '\'' && contains.isSuffixOf before then
      String.ofList (unescaped .inside cs) :: later
    else later

def sought (selector : String) : List String :=
  soughtFrom [] .outside selector.toList

end Selector

open Selector (soughtFrom)

/-- Wherever the text stands, these are the texts that it looks for. -/
def Seeks (text : List Char) (texts : List String) : Prop :=
  ∀ before rest, soughtFrom before .outside (text ++ rest) =
    texts ++ soughtFrom (before ++ text) .outside rest

theorem Seeks.append {a b : List Char} {s t : List String} (ha : Seeks a s) (hb : Seeks b t) :
    Seeks (a ++ b) (s ++ t) := by
  intro before rest
  rw [List.append_assoc, ha, hb, List.append_assoc, List.append_assoc]

/-! ## Mute text -/

def Mute (c : Char) : Prop :=
  c ≠ '\'' ∧ ∀ k : Bracket, c ≠ k.opening ∧ c ≠ k.closing

theorem mute_of_plain {c : Char} (h : isPlainChar c = true) : Mute c := by
  obtain ⟨-, hquote, -, hbracket⟩ := not_special_of_plain h
  exact ⟨hquote, hbracket⟩

theorem Mute.step? {c : Char} (h : Mute c) (opened : List Bracket) :
    Bracket.step? opened c = some opened :=
  Bracket.step?_other opened h.2

theorem next_of_ne_quote {c : Char} (h : c ≠ '\'') : Quote.outside.next c = .outside := by
  rw [Quote.next, if_neg h]

theorem seeks_of_no_quote {a : List Char} (h : '\'' ∉ a) : Seeks a [] := by
  intro before rest
  induction a generalizing before with
  | nil => simp
  | cons c a ih =>
    have hc : c ≠ '\'' := fun hquote => h (hquote ▸ List.mem_cons_self)
    have hlater := ih (fun hquote => h (List.mem_cons_of_mem _ hquote)) (before ++ [c])
    rw [List.append_assoc, List.singleton_append] at hlater
    simp [soughtFrom, hc, next_of_ne_quote hc, hlater]

/-! ## Closed texts -/

/-- All quotes and brackets of the text are closed, and these are the texts that it looks for. -/
structure Fair (text : List Char) (texts : List String) : Prop where
  closed : Closed text
  even : Even text
  seeks : Seeks text texts

theorem closed_append {a b : List Char} (ha : Closed a) (hb : Closed b) : Closed (a ++ b) := by
  rw [Closed, Quote.after_append, ha, hb]

theorem Even.append {a b : List Char} (closed : Closed a) (ha : Even a) (hb : Even b) :
    Even (a ++ b) := by
  intro opened
  rw [Bracket.opened?_append, ha, closed]
  exact hb opened

theorem Fair.append {a b : List Char} {s t : List String} (ha : Fair a s) (hb : Fair b t) :
    Fair (a ++ b) (s ++ t) :=
  ⟨closed_append ha.closed hb.closed, ha.even.append ha.closed hb.even, ha.seeks.append hb.seeks⟩

theorem fair_mute {a : List Char} (h : ∀ c ∈ a, Mute c) : Fair a [] := by
  refine ⟨?_, ?_, seeks_of_no_quote fun hquote => (h _ hquote).1 rfl⟩
  · induction a with
    | nil => rfl
    | cons c a ih =>
      obtain ⟨hc, ha⟩ := List.forall_mem_cons.mp h
      rw [Closed, Quote.after_cons, next_of_ne_quote hc.1, ih ha]
  · induction a with
    | nil => exact fun _ => rfl
    | cons c a ih =>
      obtain ⟨hc, ha⟩ := List.forall_mem_cons.mp h
      intro opened
      rw [Bracket.opened?, hc.step?, next_of_ne_quote hc.1, Option.bind_some, ih ha]

theorem fair_plain {a : List Char} (plain : ∀ c ∈ a, isPlainChar c = true) : Fair a [] :=
  fair_mute fun c hc => mute_of_plain (plain c hc)

/-! ## Text in brackets -/

def Bracket.around (k : Bracket) (text : List Char) : List Char :=
  k.opening :: text ++ [k.closing]

theorem Bracket.ne_quote (k : Bracket) : k.opening ≠ '\'' ∧ k.closing ≠ '\'' := by
  cases k <;> decide

theorem closed_around {a : List Char} (h : Closed a) (k : Bracket) : Closed (k.around a) := by
  rw [Closed, Bracket.around, List.cons_append, Quote.after_cons, next_of_ne_quote k.ne_quote.1]
  exact closed_append h (next_of_ne_quote k.ne_quote.2)

theorem even_around {a : List Char} (closed : Closed a) (h : Even a) (k : Bracket) :
    Even (k.around a) := by
  intro opened
  rw [Bracket.around, List.cons_append, Bracket.opened?, Bracket.step?_opening, Option.bind_some,
    next_of_ne_quote k.ne_quote.1, Bracket.opened?_append, h, Option.bind_some, closed,
    Bracket.opened?, Bracket.step?_closing, List.head?_cons, if_pos rfl]
  rfl

theorem Fair.around {a : List Char} {texts : List String} (h : Fair a texts) (k : Bracket) :
    Fair (k.around a) texts := by
  refine ⟨closed_around h.closed k, even_around h.closed h.even k, ?_⟩
  have hfirst : Seeks [k.opening] [] :=
    seeks_of_no_quote fun hquote => k.ne_quote.1 (List.mem_singleton.mp hquote).symm
  have hlast : Seeks [k.closing] [] :=
    seeks_of_no_quote fun hquote => k.ne_quote.2 (List.mem_singleton.mp hquote).symm
  have hall := (hfirst.append h.seeks).append hlast
  rwa [List.nil_append, List.append_nil] at hall

/-! ## Quoted text -/

theorem opened?_escapeChars (opened : List Bracket) (text : List Char) :
    Bracket.opened? .inside opened (escapeChars text) = some opened := by
  induction text with
  | nil => rfl
  | cons c cs ih =>
    unfold escapeChars
    split
    · exact ih
    · next h =>
      rw [Bracket.opened?, next_inside h, ih]
      exact fun hq => absurd hq (by decide)

theorem even_quoted (text : List Char) : Even (quoted text) := by
  intro opened
  rw [quoted, List.cons_append]
  change Bracket.opened? .inside opened (escapeChars text ++ ['\'']) = some opened
  rw [Bracket.opened?_append, opened?_escapeChars, after_escapeChars]
  rfl

theorem soughtFrom_inside {q : Quote} (hq : q ≠ .outside) (before : List Char) (c : Char)
    (cs : List Char) :
    soughtFrom before q (c :: cs) = soughtFrom (before ++ [c]) (q.next c) cs := by
  simp [soughtFrom, hq]

theorem soughtFrom_escapeChars (before text rest : List Char) :
    soughtFrom before .inside (escapeChars text ++ rest) =
      soughtFrom (before ++ escapeChars text) .inside rest := by
  induction text generalizing before with
  | nil => simp [escapeChars]
  | cons c cs ih =>
    unfold escapeChars
    split
    · have hlater := ih (before ++ ['\\'] ++ [c])
      rw [List.cons_append, List.cons_append, soughtFrom_inside (by decide),
        soughtFrom_inside (by decide)]
      simpa [Quote.next] using hlater
    · next h =>
      have hlater := ih (before ++ [c])
      rw [List.cons_append, soughtFrom_inside (by decide), next_inside h]
      simpa using hlater

theorem seeks_quoted {lead : List Char} {found : Bool} (text : List Char)
    (h : '\'' ∉ lead) (hfound : ∀ before, Selector.contains.isSuffixOf (before ++ lead) = found) :
    Seeks (lead ++ quoted text) (if found then [String.ofList text] else []) := by
  intro before rest
  have hinside := soughtFrom_escapeChars (before ++ lead ++ ['\'']) text ('\'' :: rest)
  rw [soughtFrom_inside (by decide)] at hinside
  have hread := unescaped_escapeChars text rest
  rw [List.append_assoc, seeks_of_no_quote h, List.nil_append]
  have hquoted : quoted text ++ rest = '\'' :: (escapeChars text ++ '\'' :: rest) := by
    simp [quoted]
  rw [hquoted, soughtFrom]
  have hnext : Quote.outside.next '\'' = .inside := rfl
  have hclose : Quote.inside.next '\'' = .outside := rfl
  simp only [decide_true, Bool.true_and, hfound, hread, hnext, hinside, hclose]
  split <;> simp [quoted]

/-! ## Selectors of steps -/

theorem fair_testOf {attr name : List Char} (hattr : ∀ c ∈ attr, isPlainChar c = true)
    (hname : ∀ c ∈ name, isPlainChar c = true) : Fair (Selector.testOf attr name) [] := by
  have hlead : ∀ before : List Char, Selector.contains.isSuffixOf (before ++ ['=']) = false := by
    intro before
    rw [Bool.eq_false_iff, Ne, List.isSuffixOf_iff_suffix]
    rintro ⟨front, hfront⟩
    have hlast := congrArg List.getLast? hfront
    rw [List.getLast?_concat, List.getLast?_append_of_ne_nil _ (by decide)] at hlast
    exact absurd hlast (by decide)
  have hequals : Fair ['='] [] := fair_plain (List.forall_mem_singleton.mpr (by decide))
  have hvalue : Fair (['='] ++ quoted name) [] :=
    ⟨closed_append hequals.closed (whole_quoted name).closed,
      hequals.even.append hequals.closed (even_quoted name), seeks_quoted name (by decide) hlead⟩
  have htest := ((fair_plain hattr).append hvalue).around .square
  have htext : Selector.testOf attr name = Bracket.square.around (attr ++ (['='] ++ quoted name)) := by
    simp [Selector.testOf, Bracket.around, quoted, escapeChars_plain hname, Bracket.opening,
      Bracket.closing]
  rw [htext]
  exact htest

def containsTest (text : List Char) : List Char :=
  Selector.containsName ++ Bracket.round.around (quoted text)

theorem fair_containsTest (text : List Char) : Fair (containsTest text) [String.ofList text] := by
  have hname : Fair Selector.containsName [] := fair_plain (List.all_eq_true.mp (by decide))
  have hclosed := (whole_quoted text).closed
  refine ⟨closed_append hname.closed (closed_around hclosed .round),
    hname.even.append hname.closed (even_around hclosed (even_quoted text) .round), ?_⟩
  have hlead : ∀ before : List Char,
      Selector.contains.isSuffixOf (before ++ Selector.contains) = true := by
    intro before
    rw [List.isSuffixOf_iff_suffix]
    exact List.suffix_append _ _
  have hquoted : Seeks (Selector.contains ++ quoted text) [String.ofList text] :=
    seeks_quoted text (by decide) hlead
  have hlast : Seeks [')'] [] := seeks_of_no_quote (by decide)
  have hall := hquoted.append hlast
  rwa [Selector.contains, List.append_assoc, List.append_assoc] at hall

theorem fair_ofToken {attr name : List Char} (hattr : ∀ c ∈ attr, isPlainChar c = true)
    (hname : ∀ c ∈ name, isPlainChar c = true) : Fair (Selector.ofToken attr name) [] := by
  unfold Selector.ofToken
  simp only
  split
  · exact fair_plain hname
  · have hfront : ∀ c ∈ name.takeWhile (!Selector.endsName ·), isPlainChar c = true :=
      fun c hc => hname c ((List.takeWhile_prefix _).subset hc)
    have hback : ∀ c ∈ name.dropWhile (!Selector.endsName ·), isPlainChar c = true :=
      fun c hc => hname c ((List.dropWhile_suffix _).subset hc)
    exact (fair_testOf hattr hfront).append (fair_plain hback)

theorem ofToken_append (attr : List Char) {name rest : List Char} (filled : name ≠ [])
    (hrest : ∀ c ∈ rest.head?, Selector.endsName c = true) :
    Selector.ofToken attr (name ++ rest) = Selector.ofToken attr name ++ rest := by
  have htake : rest.takeWhile (!Selector.endsName ·) = [] := by
    cases rest with
    | nil => rfl
    | cons c cs => simp [hrest c rfl]
  have hdrop : rest.dropWhile (!Selector.endsName ·) = rest := by
    cases rest with
    | nil => rfl
    | cons c cs => simp [hrest c rfl]
  have hfront : (name ++ rest).takeWhile (!Selector.endsName ·) =
      name.takeWhile (!Selector.endsName ·) := by
    rw [List.takeWhile_append, htake, List.append_nil]
    split
    · next h => exact ((List.takeWhile_prefix _).eq_of_length h).symm
    · rfl
  have hback : (name ++ rest).dropWhile (!Selector.endsName ·) =
      name.dropWhile (!Selector.endsName ·) ++ rest := by
    rw [List.dropWhile_append, hdrop]
    split
    · next h => rw [List.isEmpty_iff.mp h, List.nil_append]
    · rfl
  have hhead : (name ++ rest).head? = name.head? := by
    obtain ⟨c, cs, rfl⟩ := List.exists_cons_of_ne_nil filled
    rfl
  unfold Selector.ofToken
  simp only [hfront, hback, hhead]
  split
  · rfl
  · rw [List.append_assoc]

theorem toList_rowStep_parts (attr itemKey column text : String) :
    (Spot.rowStep attr itemKey column text).toList =
      itemKey.toList ++ (":has".toList ++ Bracket.round.around
        (Selector.testOf attr.toList column.toList ++ containsTest text.toList)) := by
  have hhas : ":has(".toList = ":has".toList ++ ['('] := rfl
  have hcontains : ":contains('".toList = Selector.containsName ++ ['(', '\''] := rfl
  have hclose : "'))".toList = ['\'', ')', ')'] := rfl
  simp only [Spot.rowStep, Selector.ofName, String.toList_append, String.toList_ofList, hhas,
    hcontains, hclose, escape, containsTest, Bracket.around, Bracket.opening, Bracket.closing,
    quoted, List.append_assoc, List.cons_append, List.nil_append]

/-- The selector of a step to a row looks for the text of the row, and for nothing else. -/
theorem fair_rowStep {attr itemKey column : String} (hattr : Plain attr) (hitem : Plain itemKey)
    (hcolumn : Plain column) (text : String) :
    Fair (Selector.ofToken attr.toList (Spot.rowStep attr itemKey column text).toList) [text] := by
  have hcontains := fair_containsTest text.toList
  rw [String.ofList_toList] at hcontains
  have htests := ((fair_testOf hattr.2 hcolumn.2).append hcontains).around .round
  have hhas : Fair ":has".toList [] := fair_plain (List.all_eq_true.mp (by decide))
  have hsplit : ∀ c ∈ (":has".toList ++ Bracket.round.around (Selector.testOf attr.toList
      column.toList ++ containsTest text.toList)).head?, Selector.endsName c = true := by
    intro c hc
    obtain rfl := Option.some.inj hc
    decide
  rw [toList_rowStep_parts, ofToken_append _ hitem.isStep.filled hsplit]
  exact (fair_ofToken hattr.2 hitem.2).append (hhas.append htests)

/-! ## Selectors of paths -/

theorem fair_join {ts : List (List Char)} {texts : List (List String)}
    (h : List.Forall₂ Fair ts texts) : Fair (Path.join ts) texts.flatten := by
  induction h with
  | nil => exact fair_mute (by simp [Path.join])
  | @cons t first ts texts ht hts ih =>
    cases hts with
    | nil => simpa [Path.join] using ht
    | @cons u second ts texts hu hts =>
      have hspace : Fair [' '] [] := fair_mute (by
        refine List.forall_mem_singleton.mpr ⟨by decide, fun k => ?_⟩
        cases k <;> decide)
      have hall := ht.append (hspace.append ih)
      rw [Path.join_cons_cons]
      simpa using hall

theorem Fair.nested {text : List Char} {texts : List String} (h : Fair text texts) : Nested text :=
  h.even []

theorem Fair.sought_eq {selector : String} {texts : List String} (h : Fair selector.toList texts) :
    Selector.sought selector = texts := by
  have hall := h.seeks [] []
  rw [List.append_nil] at hall
  rw [Selector.sought, hall]
  exact List.append_nil _

end PageNav
