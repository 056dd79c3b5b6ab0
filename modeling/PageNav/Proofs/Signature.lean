import PageNav.Page.Layout
import PageNav.Proofs.Quoting

/-!
# Signatures tell layouts apart

The text of a level ends where its closing bracket stands, and each entry shows by its first letters
what it is. So different layouts have different signatures.
-/

namespace PageNav.Layout

open Json

theorem comma_cons_ne_close (isFirst : Bool) {c : Char} (hc : c ≠ '}') (a b : List Char) :
    comma isFirst ++ c :: a ≠ '}' :: b := by
  cases isFirst with
  | true => simp [comma, hc]
  | false => simp [comma]

def entryChars : Layout → List Char
  | plain => []
  | filtered itemKey columns =>
    '+' :: filterKey.toList ++ '(' :: quote itemKey ++ [')', ':', '{'] ++
      columns.signatureChars true ++ ['}']
  | leaf k rest => quote k ++ [':', 'n', 'u', 'l', 'l'] ++ rest.signatureChars false
  | branch k child rest =>
    quote k ++ [':', '{'] ++ child.signatureChars true ++ '}' :: rest.signatureChars false

theorem signatureChars_eq {l : Layout} (isFirst : Bool) (h : l ≠ plain) :
    l.signatureChars isFirst = comma isFirst ++ l.entryChars := by
  cases l with
  | plain => exact absurd rfl h
  | filtered itemKey columns => simp [signatureChars, entryChars]
  | leaf k rest => simp [signatureChars, entryChars]
  | branch k child rest => simp [signatureChars, entryChars]

theorem exists_entryChars {l : Layout} (h : l ≠ plain) :
    ∃ c cs, l.entryChars = c :: cs ∧ c ≠ '}' := by
  cases l with
  | plain => exact absurd rfl h
  | filtered itemKey columns => exact ⟨'+', _, rfl, by decide⟩
  | leaf k rest => exact ⟨'"', _, rfl, by decide⟩
  | branch k child rest => exact ⟨'"', _, rfl, by decide⟩

theorem signatureChars_ne_close {l : Layout} (h : l ≠ plain) (isFirst : Bool) (a b : List Char) :
    l.signatureChars isFirst ++ '}' :: a ≠ '}' :: b := by
  obtain ⟨c, cs, hentry, hc⟩ := exists_entryChars h
  rw [signatureChars_eq isFirst h, hentry, List.append_assoc, List.cons_append]
  exact comma_cons_ne_close isFirst hc _ b

theorem entryChars_append_eq {l m : Layout} {isFirst : Bool} {a b : List Char} (hl : l ≠ plain)
    (h : l.signatureChars isFirst ++ '}' :: a = m.signatureChars isFirst ++ '}' :: b) :
    m ≠ plain ∧ l.entryChars ++ '}' :: a = m.entryChars ++ '}' :: b := by
  have hm : m ≠ plain := by
    rintro rfl
    exact signatureChars_ne_close hl isFirst a b h
  rw [signatureChars_eq isFirst hl, signatureChars_eq isFirst hm, List.append_assoc,
    List.append_assoc, List.append_cancel_left_eq] at h
  exact ⟨hm, h⟩

theorem signatureChars_append_inj (l m : Layout) (isFirst : Bool) (a b : List Char)
    (h : l.signatureChars isFirst ++ '}' :: a = m.signatureChars isFirst ++ '}' :: b) :
    l = m ∧ a = b := by
  induction l generalizing m isFirst a b with
  | plain =>
    by_cases hm : m = plain
    · subst hm
      exact ⟨rfl, by simpa [signatureChars] using h⟩
    · exact absurd h.symm (signatureChars_ne_close hm isFirst b a)
  | filtered itemKey columns ih =>
    obtain ⟨hm, h⟩ := entryChars_append_eq (by simp) h
    cases m with
    | plain => exact absurd rfl hm
    | filtered itemKey' columns' =>
      simp only [entryChars, List.append_assoc, List.cons_append, List.nil_append,
        List.cons.injEq, true_and, List.append_cancel_left_eq] at h
      obtain ⟨rfl, hrest⟩ := quote_append_inj h
      simp only [List.cons.injEq, true_and] at hrest
      obtain ⟨rfl, hab⟩ := ih columns' true _ _ hrest
      exact ⟨rfl, by simpa using hab⟩
    | leaf k rest => simp [entryChars, quote] at h
    | branch k child rest => simp [entryChars, quote] at h
  | leaf k rest ih =>
    obtain ⟨hm, h⟩ := entryChars_append_eq (by simp) h
    cases m with
    | plain => exact absurd rfl hm
    | filtered itemKey' columns' => simp [entryChars, quote] at h
    | leaf k' rest' =>
      simp only [entryChars, List.append_assoc] at h
      obtain ⟨rfl, hrest⟩ := quote_append_inj h
      rw [List.append_cancel_left_eq] at hrest
      obtain ⟨rfl, hab⟩ := ih rest' false _ _ hrest
      exact ⟨rfl, hab⟩
    | branch k' child' rest' =>
      simp only [entryChars, List.append_assoc] at h
      obtain ⟨-, hrest⟩ := quote_append_inj h
      simp at hrest
  | branch k child rest ihchild ihrest =>
    obtain ⟨hm, h⟩ := entryChars_append_eq (by simp) h
    cases m with
    | plain => exact absurd rfl hm
    | filtered itemKey' columns' => simp [entryChars, quote] at h
    | leaf k' rest' =>
      simp only [entryChars, List.append_assoc] at h
      obtain ⟨-, hrest⟩ := quote_append_inj h
      simp at hrest
    | branch k' child' rest' =>
      simp only [entryChars, List.append_assoc] at h
      obtain ⟨rfl, hrest⟩ := quote_append_inj h
      rw [List.append_cancel_left_eq] at hrest
      obtain ⟨rfl, hafter⟩ := ihchild child' true _ _ hrest
      obtain ⟨rfl, hab⟩ := ihrest rest' false _ _ hafter
      exact ⟨rfl, hab⟩

theorem signature_injective : Function.Injective signature := by
  intro l m h
  have hchars := congrArg String.toList h
  simp only [signature, String.toList_ofList, List.cons_append, List.cons.injEq, true_and] at hchars
  exact (signatureChars_append_inj l m true [] [] hchars).1

end PageNav.Layout
