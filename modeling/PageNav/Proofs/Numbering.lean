import Mathlib.Data.List.Basic
import PageNav.Proofs.Symbols

/-!
# How texts are numbered

A table that is asked for one text after the other numbers the texts in the order in which they come
up first. A text that comes up again gets the symbol it had, and every symbol keeps its text.
-/

namespace PageNav

/-! ## First occurrences -/

theorem eraseDups_concat {α : Type} [BEq α] [LawfulBEq α] (as : List α) (b : α) :
    (as ++ [b]).eraseDups = if b ∈ as then as.eraseDups else as.eraseDups ++ [b] := by
  rw [List.eraseDups_append]
  split
  · next h => simp [List.removeAll, h]
  · next h => simp [List.removeAll, h, List.eraseDups_cons]

theorem length_eraseDups_le {α : Type} [BEq α] [LawfulBEq α] (as bs : List α) :
    as.eraseDups.length ≤ (as ++ bs).eraseDups.length := by
  rw [List.eraseDups_append, List.length_append]
  omega

namespace SymbolTable

/-! ## Texts one after the other -/

/-- What the table answers to these texts, each text with its symbol, and the table after that. -/
def insertAll (t : SymbolTable) : List String → List (String × Symbol) × SymbolTable
  | [] => ([], t)
  | text :: texts =>
    let (symbol, t) := t.insert text
    let (answers, t) := t.insertAll texts
    ((text, symbol) :: answers, t)

/-- Whether a table was asked for `texts`, answered so, and holds nothing else. -/
structure Numbers (t : SymbolTable) (texts : List String) (answers : List (String × Symbol)) :
    Prop where
  sound : t.Sound
  asked : answers.map Prod.fst = texts
  texts : t.texts.toList = texts.eraseDups
  answers : ∀ text symbol, t.text? symbol = some text ↔ (text, symbol) ∈ answers

theorem numbers_empty : Numbers {} [] [] := by
  refine ⟨sound_empty, rfl, rfl, ?_⟩
  intro text symbol
  simp [text?]

section

variable {t : SymbolTable} {texts : List String} {answers : List (String × Symbol)} {text : String}

theorem Numbers.size_eq (numbers : t.Numbers texts answers) :
    t.size = texts.eraseDups.length := by
  rw [← numbers.texts, Array.length_toList]
  rfl

theorem Numbers.mem_iff (numbers : t.Numbers texts answers) :
    text ∈ texts ↔ ∃ symbol, t.symbols[text]? = some symbol := by
  rw [← numbers.asked]
  simp [numbers.sound text, numbers.answers]

theorem Numbers.insert_again (numbers : t.Numbers texts answers) {symbol : Symbol}
    (h : t.symbols[text]? = some symbol) :
    t.Numbers (texts ++ [text]) (answers ++ [(text, symbol)]) := by
  have hmem : text ∈ texts := numbers.mem_iff.mpr ⟨symbol, h⟩
  refine ⟨numbers.sound, by simp [numbers.asked], ?_, ?_⟩
  · rw [eraseDups_concat, if_pos hmem]
    exact numbers.texts
  · intro u s
    rw [numbers.answers, List.mem_append, List.mem_singleton, iff_self_or]
    rintro ⟨⟩
    exact (numbers.answers text symbol).mp ((numbers.sound text symbol).mp h)

theorem Numbers.insert_fresh (numbers : t.Numbers texts answers) (h : t.symbols[text]? = none)
    (sound : (t.insert text).2.Sound) :
    (t.insert text).2.Numbers (texts ++ [text]) (answers ++ [(text, (t.insert text).1)]) := by
  have hfresh : text ∉ texts := by
    intro hmem
    obtain ⟨symbol, hsymbol⟩ := numbers.mem_iff.mp hmem
    rw [h] at hsymbol
    exact absurd hsymbol (by simp)
  refine ⟨sound, by simp [numbers.asked], ?_, ?_⟩
  · rw [eraseDups_concat, if_neg hfresh, ← numbers.texts, insert_new h]
    exact Array.toList_push
  · intro u s
    rw [← sound u s, insert_new h, Std.HashMap.getElem?_insert, List.mem_append,
      List.mem_singleton, Prod.mk.injEq]
    by_cases hu : text = u
    · subst hu
      have hnone : (text, s) ∉ answers := by
        intro hanswer
        apply hfresh
        rw [← numbers.asked]
        exact List.mem_map_of_mem hanswer
      simp only [BEq.rfl, if_true, Option.some.injEq, hnone, true_and, false_or]
      exact eq_comm
    · have hbeq : (text == u) = false := by simpa using hu
      rw [hbeq, if_neg (by decide), numbers.sound u s, numbers.answers]
      simp [Ne.symm hu]

theorem Numbers.insert (numbers : t.Numbers texts answers)
    (few : (texts ++ [text]).eraseDups.length ≤ UInt32.size) :
    (t.insert text).2.Numbers (texts ++ [text]) (answers ++ [(text, (t.insert text).1)]) := by
  cases h : t.symbols[text]? with
  | some symbol =>
    rw [insert_old h]
    exact numbers.insert_again h
  | none =>
    apply numbers.insert_fresh h
    apply insert_sound numbers.sound
    have hfresh : text ∉ texts := by
      rw [numbers.mem_iff, h]
      simp
    rw [eraseDups_concat, if_neg hfresh, List.length_append, ← numbers.size_eq] at few
    exact Nat.le_trans (size_insert_le t text) few

theorem Numbers.insertAll (numbers : t.Numbers texts answers) {more : List String}
    (few : (texts ++ more).eraseDups.length ≤ UInt32.size) :
    (t.insertAll more).2.Numbers (texts ++ more) (answers ++ (t.insertAll more).1) := by
  induction more generalizing t texts answers with
  | nil => simpa [SymbolTable.insertAll] using numbers
  | cons text more ih =>
    rw [List.append_cons] at few
    have hfirst := numbers.insert (Nat.le_trans (length_eraseDups_le _ more) few)
    simpa [SymbolTable.insertAll] using ih hfirst few

end

/-- Texts get the same symbol exactly if they are equal. The symbols of a table are those that it gave
out, and each gives back its text, now and after any more texts. There are as many as there are
different texts. -/
theorem symbols_name_texts (texts more : List String)
    (few : (texts ++ more).eraseDups.length ≤ UInt32.size) :
    let run := insertAll {} texts
    run.1.map Prod.fst = texts ∧
    (∀ first ∈ run.1, ∀ second ∈ run.1, first.2 = second.2 ↔ first.1 = second.1) ∧
    (∀ text symbol, run.2.text? symbol = some text ↔ (text, symbol) ∈ run.1) ∧
    (∀ answer ∈ run.1, (run.2.insertAll more).2.text? answer.2 = some answer.1) ∧
    run.2.size = texts.eraseDups.length := by
  intro run
  have numbers : run.2.Numbers texts run.1 :=
    numbers_empty.insertAll (Nat.le_trans (length_eraseDups_le texts more) few)
  have later := numbers.insertAll few
  refine ⟨numbers.asked, ?_, numbers.answers, ?_, numbers.size_eq⟩
  · intro first hfirst second hsecond
    have htext := (numbers.answers first.1 first.2).mpr hfirst
    have htext' := (numbers.answers second.1 second.2).mpr hsecond
    constructor
    · intro h
      rw [h, htext'] at htext
      exact (Option.some.inj htext).symm
    · intro h
      rw [h] at htext
      exact numbers.sound.symbol_unique htext htext'
  · intro answer hanswer
    rw [later.answers]
    exact List.mem_append_left _ hanswer

/-- The empty text has a symbol too, and a path that came up before keeps its own. -/
theorem symbols_of_repeated_paths :
    let texts := ["main", "", "main rows", "main"]
    let run := insertAll {} texts
    (texts ++ ["rows", ""]).eraseDups.length ≤ UInt32.size ∧ run.2.size = 3 ∧
      ∀ answer ∈ run.1, (run.2.insertAll ["rows", ""]).2.text? answer.2 = some answer.1 := by
  intro texts run
  have few : (texts ++ ["rows", ""]).eraseDups.length ≤ UInt32.size := by decide
  obtain ⟨-, -, -, hlater, hsize⟩ := symbols_name_texts texts ["rows", ""] few
  exact ⟨few, hsize, hlater⟩

end SymbolTable

end PageNav
