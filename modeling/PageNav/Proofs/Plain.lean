import PageNav.Navigation.Spot
import PageNav.Proofs.Tokens

/-!
# Plain names

A plain name is a token in every path, and so is the step to a row, whatever the row is told by.
-/

namespace PageNav

open Text PageNav.Path

/-- A character that means nothing to a reader of paths. -/
def isPlainChar (c : Char) : Bool :=
  !isBlank c && !(['\'', '\\', '(', ')', '[', ']', '{', '}'].contains c)

/-- A name that is not empty and has plain characters only. -/
def Plain (name : String) : Prop :=
  name ≠ "" ∧ ∀ c ∈ name.toList, isPlainChar c = true

instance (name : String) : Decidable (Plain name) :=
  decidable_of_iff (name ≠ "" ∧ name.toList.all isPlainChar = true)
    (and_congr_right fun _ => List.all_eq_true)

/-! ## Texts without blanks outside quotes -/

/-- No blank of the text stands outside quotes. -/
def Solid : Quote → List Char → Prop
  | _, [] => True
  | q, c :: cs => (q = .outside → isBlank c = false) ∧ Solid (q.next c) cs

theorem solid_append {q : Quote} {a b : List Char} :
    Solid q (a ++ b) ↔ Solid q a ∧ Solid (q.after a) b := by
  induction a generalizing q with
  | nil => simp [Solid]
  | cons c a ih => simp only [List.cons_append, Solid, Quote.after_cons, ih, and_assoc]

theorem split_solid {q : Quote} {text : List Char} (h : Solid q text) :
    split q text = (text, []) := by
  induction text generalizing q with
  | nil => rfl
  | cons c cs ih =>
    have hkeep : ¬ separates q c cs = true := by
      intro hcut
      obtain ⟨hq, blank, -⟩ := separates_iff.mp hcut
      rw [h.1 hq] at blank
      exact absurd blank (by decide)
    rw [split_cons_keep hkeep, ih h.2]

theorem tokensOf_solid {text : List Char} (h : Solid .outside text) (filled : text ≠ []) :
    tokensOf text = [text] := by
  rw [tokensOf, split_solid h]
  simp [consToken, filled]

theorem solid_of_no_blank {text : List Char} (h : text.any isBlank = false) (q : Quote) :
    Solid q text := by
  induction text generalizing q with
  | nil => trivial
  | cons c cs ih =>
    rw [List.any_cons, Bool.or_eq_false_iff] at h
    obtain ⟨hc, hcs⟩ := h
    exact ⟨fun _ => hc, ih hcs _⟩

/-- A text that ends outside quotes and has no blanks there. -/
structure Whole (text : List Char) : Prop where
  solid : Solid .outside text
  closed : Closed text

theorem Whole.append {a b : List Char} (ha : Whole a) (hb : Whole b) : Whole (a ++ b) := by
  refine ⟨solid_append.mpr ⟨ha.solid, ?_⟩, ?_⟩
  · rw [ha.closed]
    exact hb.solid
  · rw [Closed, Quote.after_append, ha.closed, hb.closed]

/-- A text that is a token in every path whose other tokens are such texts. -/
structure IsStep (text : List Char) : Prop extends Whole text where
  filled : text ≠ []
  ungrouped : inGroup text = false

theorem wellCut_of_steps {ts : List (List Char)} (h : ∀ t ∈ ts, IsStep t) : WellCut ts := by
  refine ⟨fun t ht => tokensOf_solid (h t ht).solid (h t ht).filled, ?_⟩
  apply List.Pairwise.isChain
  exact List.pairwise_of_forall_mem_list fun t ht u hu => ⟨(h t ht).closed, (h u hu).ungrouped⟩

/-! ## Plain text -/

theorem not_special_of_plain {c : Char} (h : isPlainChar c = true) :
    isBlank c = false ∧ c ≠ '\'' ∧ c ≠ '\\' ∧ ∀ k : Bracket, c ≠ k.opening ∧ c ≠ k.closing := by
  unfold isPlainChar at h
  simp only [List.contains_cons, Bool.and_eq_true, Bool.not_eq_true', Bool.or_eq_false_iff,
    beq_eq_false_iff_ne] at h
  obtain ⟨hblank, hquote, hslash, hro, hrc, hso, hsc, hco, hcc, -⟩ := h
  refine ⟨hblank, hquote, hslash, ?_⟩
  intro k
  cases k with
  | square => exact ⟨hso, hsc⟩
  | round => exact ⟨hro, hrc⟩
  | curly => exact ⟨hco, hcc⟩

section
variable {a : List Char} (plain : ∀ c ∈ a, isPlainChar c = true)
include plain

theorem after_plain : Quote.outside.after a = .outside := by
  induction a with
  | nil => rfl
  | cons c a ih =>
    obtain ⟨hc, ha⟩ := List.forall_mem_cons.mp plain
    have hnext : Quote.outside.next c = .outside := by
      rw [Quote.next, if_neg (not_special_of_plain hc).2.1]
    rw [Quote.after_cons, hnext, ih ha]

theorem whole_plain : Whole a := by
  have no_blank : a.any isBlank = false := by
    rw [List.any_eq_false]
    intro c hc
    rw [(not_special_of_plain (plain c hc)).1]
    exact Bool.false_ne_true
  exact ⟨solid_of_no_blank no_blank _, after_plain plain⟩

theorem escapeChars_plain : escapeChars a = a := by
  induction a with
  | nil => rfl
  | cons c a ih =>
    obtain ⟨hc, ha⟩ := List.forall_mem_cons.mp plain
    obtain ⟨-, hquote, hslash, -⟩ := not_special_of_plain hc
    simp [escapeChars, hquote, hslash, ih ha]

theorem closesFirst_plain (k : Bracket) (b : List Char) :
    k.closesFirst .outside (a ++ b) = k.closesFirst .outside b := by
  induction a with
  | nil => rfl
  | cons c a ih =>
    obtain ⟨hc, ha⟩ := List.forall_mem_cons.mp plain
    obtain ⟨-, hquote, -, hbracket⟩ := not_special_of_plain hc
    have hnext : Quote.outside.next c = .outside := by rw [Quote.next, if_neg hquote]
    rw [List.cons_append, Bracket.closesFirst, if_neg (hbracket k).1, if_neg (hbracket k).2, hnext,
      ih ha]

end

theorem Plain.isStep {name : String} (h : Plain name) : IsStep name.toList := by
  refine ⟨whole_plain h.2, by simpa using h.1, ?_⟩
  rw [inGroup_eq_false]
  intro k
  have hnone := closesFirst_plain h.2 k []
  rw [List.append_nil] at hnone
  rw [hnone]
  rfl

/-! ## Quoted text -/

def quoted (text : List Char) : List Char :=
  '\'' :: escapeChars text ++ ['\'']

theorem next_inside {c : Char} (h : ¬ (c = '\\' || c = '\'') = true) :
    Quote.inside.next c = .inside := by
  simp only [Bool.or_eq_true, decide_eq_true_eq, not_or] at h
  rw [Quote.next, if_neg h.1, if_neg h.2]

theorem after_escapeChars (text : List Char) : Quote.inside.after (escapeChars text) = .inside := by
  induction text with
  | nil => rfl
  | cons c cs ih =>
    unfold escapeChars
    split
    · exact ih
    · next h => rw [Quote.after_cons, next_inside h, ih]

theorem solid_escapeChars (text : List Char) : Solid .inside (escapeChars text) := by
  induction text with
  | nil => trivial
  | cons c cs ih =>
    unfold escapeChars
    split
    · exact ⟨by simp, by simp [Quote.next], ih⟩
    · next h =>
      refine ⟨by simp, ?_⟩
      rw [next_inside h]
      exact ih

theorem closesFirst_escapeChars (k : Bracket) (text b : List Char) :
    k.closesFirst .inside (escapeChars text ++ b) = k.closesFirst .inside b := by
  induction text with
  | nil => rfl
  | cons c cs ih =>
    unfold escapeChars
    split
    · exact ih
    · next h =>
      rw [List.cons_append, Bracket.closesFirst, next_inside h, ih]
      intro hq
      exact absurd hq (by decide)

theorem whole_quoted (text : List Char) : Whole (quoted text) := by
  have hinside : Quote.outside.after ('\'' :: escapeChars text) = .inside := after_escapeChars text
  constructor
  · rw [quoted, solid_append, hinside]
    exact ⟨⟨fun _ => by decide, solid_escapeChars text⟩, fun hq => absurd hq (by decide), trivial⟩
  · rw [Closed, quoted, Quote.after_append, hinside]
    rfl

theorem closesFirst_quoted (k : Bracket) (text b : List Char) :
    k.closesFirst .outside (quoted text ++ b) = k.closesFirst .outside b := by
  have hopen : k.closesFirst .outside (quoted text ++ b) =
      k.closesFirst .inside (escapeChars text ++ '\'' :: b) := by
    rw [quoted, List.append_assoc, List.cons_append]
    cases k <;> rfl
  rw [hopen, closesFirst_escapeChars]
  rfl

/-! ## Rows -/

theorem toList_rowStep {attr itemKey column : String} (hcolumn : Plain column) (text : String) :
    (Spot.rowStep attr itemKey column text).toList =
      itemKey.toList ++ (":has([".toList ++ (attr.toList ++ ("=".toList ++ (quoted column.toList ++
        ("]:contains(".toList ++ (quoted text.toList ++ "))".toList)))))) := by
  simp [Spot.rowStep, Selector.ofName, Selector.testOf, quoted, escape, escapeChars_plain hcolumn.2]

theorem whole_rowStep {attr itemKey column : String} (hattr : Plain attr) (hitem : Plain itemKey)
    (hcolumn : Plain column) (text : String) :
    Whole (Spot.rowStep attr itemKey column text).toList := by
  have has : Whole ":has([".toList := ⟨solid_of_no_blank rfl _, rfl⟩
  have equals : Whole "=".toList := ⟨solid_of_no_blank rfl _, rfl⟩
  have contains : Whole "]:contains(".toList := ⟨solid_of_no_blank rfl _, rfl⟩
  have close : Whole "))".toList := ⟨solid_of_no_blank rfl _, rfl⟩
  rw [toList_rowStep hcolumn]
  exact (whole_plain hitem.2).append (has.append ((whole_plain hattr.2).append (equals.append
    ((whole_quoted _).append (contains.append ((whole_quoted _).append close))))))

theorem isStep_rowStep {attr itemKey column : String} (hattr : Plain attr) (hitem : Plain itemKey)
    (hcolumn : Plain column) (text : String) :
    IsStep (Spot.rowStep attr itemKey column text).toList := by
  refine ⟨whole_rowStep hattr hitem hcolumn text, ?_, ?_⟩
  · rw [toList_rowStep hcolumn]
    exact fun h => hitem.isStep.filled (List.append_eq_nil_iff.mp h).1
  · rw [toList_rowStep hcolumn, inGroup_eq_false]
    intro k
    rw [closesFirst_plain hitem.2]
    cases k with
    | square => rfl
    | round => rfl
    | curly =>
      change Bracket.curly.closesFirst .outside (attr.toList ++ _) = false
      rw [closesFirst_plain hattr.2]
      change Bracket.curly.closesFirst .outside (quoted column.toList ++ _) = false
      rw [closesFirst_quoted]
      change Bracket.curly.closesFirst .outside (quoted text.toList ++ _) = false
      rw [closesFirst_quoted]
      rfl

end PageNav
