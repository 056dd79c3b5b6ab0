import PageNav.Path.Relative
import PageNav.Path.Selector
import PageNav.Proofs.Tokens

/-!
# Selectors of relative paths

What a scope takes away from a path, its selector takes away from the selector of the path.
-/

namespace PageNav

/-- The texts that are not empty, with one space between them. -/
def joinFilled (texts : List String) : String :=
  " ".intercalate (texts.filter (!·.isEmpty))

@[simp] theorem joinFilled_nil : joinFilled [] = "" := by
  simp [joinFilled]

@[simp] theorem joinFilled_empty (texts : List String) :
    joinFilled ("" :: texts) = joinFilled texts := by
  simp [joinFilled]

theorem joinFilled_cons {text : String} (ht : text ≠ "") (texts : List String) :
    joinFilled (text :: texts) =
      if joinFilled texts = "" then text else text ++ " " ++ joinFilled texts := by
  rw [joinFilled, List.filter_cons_of_pos (by simpa using ht)]
  cases hrest : texts.filter (!·.isEmpty) with
  | nil => simp [joinFilled, hrest]
  | cons u us =>
    have hu : u ≠ "" := by
      have hmem : u ∈ texts.filter (!·.isEmpty) := by rw [hrest]; exact List.mem_cons_self
      simpa using (List.mem_filter.mp hmem).2
    have hne : " ".intercalate (u :: us) ≠ "" := by
      intro h
      cases us with
      | nil => exact hu (by simpa using h)
      | cons v vs =>
        rw [String.intercalate_cons_cons, String.append_eq_empty_iff,
          String.append_eq_empty_iff] at h
        exact hu h.1.1
    rw [joinFilled, hrest, if_neg hne, String.intercalate_cons_cons]

namespace Selector

open PageNav.Path

/-- The selector of a path that has these tokens. -/
def ofTokens (attr : List Char) (ts : List (List Char)) : String :=
  String.ofList (join (ts.map (ofToken attr)))

theorem ofPath_eq_ofTokens (attr path : String) :
    ofPath attr path = ofTokens attr.toList (tokensOf path.toList) := rfl

theorem ofToken_ne_nil (attr : List Char) {t : List Char} (ht : t ≠ []) : ofToken attr t ≠ [] := by
  unfold ofToken
  simp only
  split
  · exact ht
  · simp [testOf]

theorem ofTokens_nil (attr : List Char) : ofTokens attr [] = "" := rfl

theorem ofTokens_ne_empty (attr : List Char) {t : List Char} {ts : List (List Char)}
    (ht : t ≠ []) : ofTokens attr (t :: ts) ≠ "" := by
  intro h
  rw [ofTokens, String.ofList_eq_empty_iff, List.map_cons] at h
  exact join_ne_nil (ofToken_ne_nil attr ht) _ h

theorem ofTokens_append (attr : List Char) {ts us : List (List Char)} (hts : ts ≠ [])
    (hus : us ≠ []) : ofTokens attr (ts ++ us) = ofTokens attr ts ++ " " ++ ofTokens attr us := by
  have hts' : ts.map (ofToken attr) ≠ [] := by simpa using hts
  have hus' : us.map (ofToken attr) ≠ [] := by simpa using hus
  rw [ofTokens, List.map_append, join_append hts' hus', String.ofList_append, String.ofList_cons]
  simp [ofTokens, String.append_assoc]

theorem joinFilled_ofTokens_cons (attr : List Char) {ts us : List (List Char)}
    (filled : ∀ t ∈ ts ++ us, t ≠ []) {texts : List String}
    (h : joinFilled texts = ofTokens attr us) :
    joinFilled (ofTokens attr ts :: texts) = ofTokens attr (ts ++ us) := by
  cases ts with
  | nil => rw [ofTokens_nil, joinFilled_empty, h, List.nil_append]
  | cons t ts =>
    have ht : t ≠ [] := filled t List.mem_cons_self
    rw [joinFilled_cons (ofTokens_ne_empty attr ht), h]
    cases us with
    | nil => rw [ofTokens_nil, if_pos rfl, List.append_nil]
    | cons u us =>
      have hu : u ≠ [] := filled u (List.mem_append_right _ List.mem_cons_self)
      rw [if_neg (ofTokens_ne_empty attr hu), ofTokens_append attr (by simp) (by simp)]

theorem joinFilled_ofTokens (attr : List Char) {ts : List (List Char)} (filled : ∀ t ∈ ts, t ≠ []) :
    joinFilled [ofTokens attr ts] = ofTokens attr ts := by
  have hall : ∀ t ∈ ts ++ [], t ≠ [] := by simpa using filled
  have h := joinFilled_ofTokens_cons attr hall (joinFilled_nil.trans (ofTokens_nil attr).symm)
  rwa [List.append_nil] at h

end Selector

/-! ## Paths below a scope -/

namespace Path

theorem ofList_injective : Function.Injective String.ofList := fun a b h => by
  rw [← String.toList_ofList (l := a), h, String.toList_ofList]

theorem tokens_prefix_iff {scope path : String} :
    tokens scope <+: tokens path ↔ tokensOf scope.toList <+: tokensOf path.toList := by
  unfold tokens
  constructor
  · intro h
    obtain ⟨ts, hts, hmap⟩ := List.prefix_map_iff.mp h
    rwa [(List.map_injective_iff.mpr ofList_injective) hmap]
  · intro h
    exact h.map String.ofList

theorem tokensOf_dropScope (scope path : List Char) :
    tokensOf (join (dropScope (tokensOf scope) (tokensOf path))) =
      dropScope (tokensOf scope) (tokensOf path) := by
  have hall := wellCut_tokensOf path
  unfold dropScope
  split
  · apply tokensOf_join
    rw [← List.take_append_drop (tokensOf scope).length (tokensOf path)] at hall
    exact hall.right_of_append
  · exact tokensOf_join hall

theorem tokensOf_relativeTo (scope path : String) :
    tokensOf (relativeTo scope path).toList =
      dropScope (tokensOf scope.toList) (tokensOf path.toList) := by
  rw [relativeTo, String.toList_ofList, tokensOf_dropScope]

theorem dropScope_below {scope tokens : List (List Char)} (h : scope <+: tokens) :
    dropScope scope tokens = tokens.drop scope.length := by
  rw [dropScope, if_pos (List.isPrefixOf_iff_prefix.mpr h)]

theorem dropScope_beside {scope tokens : List (List Char)} (h : ¬ scope <+: tokens) :
    dropScope scope tokens = tokens := by
  rw [dropScope, if_neg (fun hp => h (List.isPrefixOf_iff_prefix.mp hp))]

end Path

open PageNav.Path Selector

/-- To take a scope away from a path and to compile the path commute. -/
theorem ofPath_relativeTo (attr path scope : String) :
    (tokens scope <+: tokens path →
      ofPath attr path = joinFilled [ofPath attr scope, ofPath attr (relativeTo scope path)]) ∧
    (¬ tokens scope <+: tokens path →
      ofPath attr (relativeTo scope path) = ofPath attr path) := by
  simp only [ofPath_eq_ofTokens, tokensOf_relativeTo, tokens_prefix_iff]
  constructor
  · intro h
    rw [dropScope_below h]
    obtain ⟨rest, hrest⟩ := h
    have hfilled : ∀ t ∈ tokensOf scope.toList ++ rest, t ≠ [] := by
      rw [hrest]
      exact fun t => (wellCut_tokensOf path.toList).ne_nil
    have hlast := joinFilled_ofTokens attr.toList fun t ht =>
      hfilled t (List.mem_append_right _ ht)
    rw [← hrest, List.drop_left, joinFilled_ofTokens_cons attr.toList hfilled hlast]
  · intro h
    rw [dropScope_beside h]

end PageNav
