import PageNav.Proofs.Containers
import PageNav.Proofs.Writing
import PageNav.Settings

/-!
# Settings read back from JSON

Settings that pass their check are read back from their own text as they were. A text with some of
their fields, in any order and however it is written, gives these fields and the defaults for the
others.
-/

namespace PageNav

open Json (Members TextOf Writes)
open Json.Reader

/-! ## Row tables -/

namespace RowTable

theorem insertPair_of_not_mem {word : String} {pairs : List (String × String)}
    (fresh : word ∉ pairs.map Prod.fst) (item : String) :
    insertPair word item pairs = pairs ++ [(word, item)] := by
  induction pairs with
  | nil => rfl
  | cons pair pairs ih =>
    rw [List.map_cons, List.mem_cons, not_or] at fresh
    rw [insertPair, if_neg (Ne.symm fresh.1), ih fresh.2]
    rfl

def readPair (table : RowTable) (word : String) : Json.Reader RowTable := do
  .colon
  return table.insert word (← .string)

theorem absorbs_pairs {done pairs : List (String × String)}
    (distinct : ((done ++ pairs).map Prod.fst).Nodup) :
    Absorbs readPair ⟨done⟩ (.ofList (pairs.map fun (word, item) => (word, .string item)))
      ⟨done ++ pairs⟩ := by
  induction pairs generalizing done with
  | nil =>
    rw [List.append_nil]
    exact .nil _
  | cons pair pairs ih =>
    obtain ⟨word, item⟩ := pair
    have hlater : ((done ++ [(word, item)] ++ pairs).map Prod.fst).Nodup := by simpa using distinct
    have hfresh : word ∉ done.map Prod.fst := by
      intro h
      rw [List.map_append, List.nodup_append'] at distinct
      exact List.disjoint_left.mp distinct.2.2 h List.mem_cons_self
    have hrest := ih hlater
    rw [List.append_assoc] at hrest
    refine .cons (fun blanks written => ?_) hrest
    rw [← insertPair_of_not_mem hfresh item]
    exact takes_after_colon (takes_string written) (RowTable.insert ⟨done⟩ word) blanks

theorem takes_reader {table : RowTable} (distinct : table.Distinct) {text : List Char}
    (written : Writes text table.toJson) : Takes reader text table := by
  have h := @absorbs_pairs [] table.pairs distinct
  exact h.takes_map written

theorem writes_toJson (table : RowTable) : Writes (Json.chars table.toJson) table.toJson := by
  refine Json.writes_object ?_
  exact List.forall_mem_map.mpr fun pair _ => Json.writes_string pair.2

end RowTable

/-! ## Fields -/

namespace Settings

def fields (s : Settings) : List (String × Json) :=
  [("attribute", .string s.testAttribute), ("containers", s.rowTable.toJson),
    ("scoping_operation", .string s.scopingOperation)]

/-- The settings of `s` under these names, and the defaults for all others. -/
def only (s : Settings) (names : List String) : Settings :=
  let standard : Settings := {}
  { testAttribute := if "attribute" ∈ names then s.testAttribute else standard.testAttribute
    rowTable := if "containers" ∈ names then s.rowTable else standard.rowTable
    scopingOperation :=
      if "scoping_operation" ∈ names then s.scopingOperation else standard.scopingOperation }

/-- What has been read of `s` once the fields of these names are. -/
def draft (s : Settings) (names : List String) : Draft where
  testAttribute := if "attribute" ∈ names then some s.testAttribute else none
  rowTable := if "containers" ∈ names then some s.rowTable else none
  scopingOperation := if "scoping_operation" ∈ names then some s.scopingOperation else none

theorem settings_draft (s : Settings) (names : List String) :
    (s.draft names).settings = s.only names := by
  simp only [Draft.settings, draft, only]
  split_ifs <;> rfl

theorem takes_once {α : Type} {name : String} {given : Option α} (fresh : given = none)
    {next : Json.Reader Draft} {text : List Char} {d : Draft} (h : Takes next text d) :
    Takes (do once name given; next) text d := by
  rw [fresh]
  exact h

theorem takes_field {s : Settings} (distinct : s.rowTable.Distinct) {done : List String}
    {name : String} {value : Json} (mem : (name, value) ∈ s.fields) (fresh : name ∉ done)
    {gap text : List Char} (blanks : gap.all isSpace) (written : Writes text value) :
    Takes (readField (s.draft done) name) (gap ++ ':' :: text) (s.draft (done ++ [name])) := by
  simp only [fields, List.mem_cons, Prod.mk.injEq, List.not_mem_nil, or_false] at mem
  rcases mem with ⟨rfl, rfl⟩ | ⟨rfl, rfl⟩ | ⟨rfl, rfl⟩
  · have hadded : s.draft (done ++ ["attribute"]) =
        { s.draft done with testAttribute := some s.testAttribute } := by simp [draft]
    rw [readField, if_pos rfl, hadded]
    refine takes_once (if_neg fresh) ?_
    exact takes_after_colon (takes_string written)
      (fun a => { s.draft done with testAttribute := some a }) blanks
  · have hadded : s.draft (done ++ ["containers"]) =
        { s.draft done with rowTable := some s.rowTable } := by simp [draft]
    rw [readField, if_neg (by decide), if_pos rfl, hadded]
    refine takes_once (if_neg fresh) ?_
    exact takes_after_colon (RowTable.takes_reader distinct written)
      (fun a => { s.draft done with rowTable := some a }) blanks
  · have hadded : s.draft (done ++ ["scoping_operation"]) =
        { s.draft done with scopingOperation := some s.scopingOperation } := by simp [draft]
    rw [readField, if_neg (by decide), if_neg (by decide), if_pos rfl, hadded]
    refine takes_once (if_neg fresh) ?_
    exact takes_after_colon (takes_string written)
      (fun a => { s.draft done with scopingOperation := some a }) blanks

theorem absorbs_fields {s : Settings} (distinct : s.rowTable.Distinct)
    {given : List (String × Json)} (hgiven : given ⊆ s.fields) {done : List String}
    (different : (done ++ given.map Prod.fst).Nodup) :
    Absorbs readField (s.draft done) (.ofList given) (s.draft (done ++ given.map Prod.fst)) := by
  induction given generalizing done with
  | nil =>
    rw [List.map_nil, List.append_nil]
    exact .nil _
  | cons field given ih =>
    obtain ⟨name, value⟩ := field
    obtain ⟨hfield, hgiven⟩ := List.cons_subset.mp hgiven
    have hfresh : name ∉ done := by
      intro h
      exact (List.nodup_append.mp different).2.2 name h name List.mem_cons_self rfl
    have hlater : (done ++ [name] ++ given.map Prod.fst).Nodup := by simpa using different
    have hrest := ih hgiven hlater
    rw [List.append_assoc] at hrest
    exact .cons (takes_field distinct hfield hfresh) hrest

/-! ## Whole texts -/

theorem only_all (s : Settings) : s.only (s.fields.map Prod.fst) = s := by
  simp [only, fields]

theorem check_eq_ok_iff {s : Settings} :
    s.check = .ok () ↔ Text.allBlank s.testAttribute = false ∧
      Text.allBlank s.scopingOperation = false := by
  rw [check]
  cases Text.allBlank s.testAttribute with
  | true => exact iff_of_false (fun h => nomatch h) (fun h => nomatch h.1)
  | false =>
    cases Text.allBlank s.scopingOperation with
    | true => exact iff_of_false (fun h => nomatch h) (fun h => nomatch h.2)
    | false => exact iff_of_true rfl ⟨rfl, rfl⟩

theorem check_only {s : Settings} (valid : s.check = .ok ()) (names : List String) :
    (s.only names).check = .ok () := by
  obtain ⟨hattr, hoperation⟩ := check_eq_ok_iff.mp valid
  refine check_eq_ok_iff.mpr ⟨?_, ?_⟩
  · change Text.allBlank (if "attribute" ∈ names then s.testAttribute else _) = false
    split
    · exact hattr
    · decide
  · change Text.allBlank (if "scoping_operation" ∈ names then s.scopingOperation else _) = false
    split
    · exact hoperation
    · decide

theorem names_nodup {s : Settings} {given : List (String × Json)} (h : given.Subperm s.fields) :
    (given.map Prod.fst).Nodup := by
  obtain ⟨part, hperm, hpart⟩ := h
  have hall : (s.fields.map Prod.fst).Nodup := by
    change (["attribute", "containers", "scoping_operation"] : List String).Nodup
    decide
  exact (hperm.map Prod.fst).nodup_iff.mp (hall.sublist (hpart.map Prod.fst))

theorem run_reader {s : Settings} (distinct : s.rowTable.Distinct)
    {given : List (String × Json)} (hgiven : given.Subperm s.fields) {text : String}
    (written : TextOf text (.object (.ofList given))) :
    reader.run text = .ok (s.only (given.map Prod.fst)) := by
  obtain ⟨front, back, htext, written, blanks⟩ := written
  have hstart : s.draft [] = {} := by simp [draft]
  have habsorbs := @absorbs_fields s distinct given hgiven.subset [] (names_nodup hgiven)
  rw [hstart] at habsorbs
  obtain ⟨gap, inner, rfl, hgap, hmembers⟩ := habsorbs.takes_object written
  have hpeek := peek_gap_cons hgap (c := '{') (by decide) (inner ++ back)
  have hread : reader text.toList = .ok (s.only (given.map Prod.fst), back) := by
    rw [reader, htext, List.append_assoc]
    refine (bind_of_ok hpeek).trans ?_
    change (members .kept readField {} >>= fun d => pure d.settings) (inner ++ back) = _
    rw [bind_of_ok (hmembers back), List.nil_append, settings_draft]
    rfl
  exact run_of_ok hread blanks

theorem ofText_of_textOf {s : Settings} (distinct : s.rowTable.Distinct) (valid : s.check = .ok ())
    {given : List (String × Json)} (hgiven : given.Subperm s.fields) {text : String}
    (written : TextOf text (.object (.ofList given))) :
    ofText text = .ok (s.only (given.map Prod.fst)) := by
  rw [ofText, run_reader distinct hgiven written]
  simp only [check_only valid]
  rfl

theorem textOf_compact (s : Settings) : TextOf s.toJson.compact (.object (.ofList s.fields)) := by
  refine ⟨_, [], (List.append_nil _).symm, ?_, rfl⟩
  rw [Json.compact, String.toList_ofList]
  refine Json.writes_object ?_
  exact List.forall_mem_cons.mpr ⟨Json.writes_string _, List.forall_mem_cons.mpr
    ⟨s.rowTable.writes_toJson, List.forall_mem_singleton.mpr (Json.writes_string _)⟩⟩

/-- Settings that pass their check are read back from their text. So is any choice of their fields
in any order, with the defaults for the others. -/
theorem fields_read_back (s : Settings) (distinct : s.rowTable.Distinct)
    (valid : s.check = .ok ()) :
    ofText s.toJson.compact = .ok s ∧
      ∀ (given : List (String × Json)) (text : String), given.Subperm s.fields →
        TextOf text (.object (.ofList given)) →
        ofText text = .ok (s.only (given.map Prod.fst)) := by
  refine ⟨?_, fun given text hgiven written => ofText_of_textOf distinct valid hgiven written⟩
  have hall := ofText_of_textOf distinct valid (List.Subperm.refl _) (textOf_compact s)
  rwa [only_all] at hall

/-- Settings with quotes, a backslash and a line break, and with two kinds of rows. -/
def awkward : Settings where
  testAttribute := "data-\"qa\"\n"
  rowTable := .ofList [("lines", "line"), ("rows", "\\")]
  scopingOperation := "inside"

/-- The text of all fields, and a text of two fields in another order, with blanks and with an
escape for a letter. -/
theorem awkward_read_back :
    let text := "\x7b \"scoping_operation\" : \"in\\u0073ide\",\n" ++
      "\"containers\":\x7b\"lines\":\"line\",\"rows\":\"\\\\\"\x7d \x7d\n"
    let given := [("scoping_operation", Json.string "inside"),
      ("containers", awkward.rowTable.toJson)]
    awkward.rowTable.Distinct ∧ awkward.check = .ok () ∧ given.Subperm awkward.fields ∧
      TextOf text (.object (.ofList given)) ∧ ofText awkward.toJson.compact = .ok awkward ∧
      ofText text = .ok { awkward with testAttribute := "data-test" } := by
  intro text given
  have distinct : awkward.rowTable.Distinct := RowTable.distinct_ofList _
  have valid : awkward.check = .ok () := rfl
  have hgiven : given.Subperm awkward.fields :=
    ⟨_, List.Perm.swap _ _ [], List.sublist_cons_self _ _⟩
  have hletter : Json.Escape "u0073".toList 's' :=
    .number (.mk (i := 0) (j := 0) (k := 7) (l := 3) (by decide) (by decide) (by decide) (by decide))
      (.inl (by decide))
  have hinside : Json.Spells ("in".toList ++ '\\' :: ("u0073".toList ++ "ide".toList))
      "inside".toList :=
    .plain (by decide) (by decide) (by decide) (.plain (by decide) (by decide) (by decide)
      (.escape hletter (Json.spells_escapeChars "ide".toList)))
  have written : TextOf text (.object (.ofList given)) := by
    have hfirst := Json.WritesMember.mk (w := [' ']) (v := [' ']) rfl
      (Json.spells_escapeChars "scoping_operation".toList) rfl
      (Json.Writes.string (w := [' ']) rfl hinside)
    have hlast := Json.WritesMember.mk (w := ['\n']) (v := []) rfl
      (Json.spells_escapeChars "containers".toList) rfl awkward.rowTable.writes_toJson
    have hall := Json.Writes.object (w := []) rfl
      (.more (w := []) hfirst rfl (.last (w := [' ']) hlast rfl))
    exact ⟨_, ['\n'], by decide, hall, rfl⟩
  obtain ⟨hall, hpart⟩ := fields_read_back awkward distinct valid
  exact ⟨distinct, valid, hgiven, written, hall, hpart given text hgiven written⟩

end Settings

end PageNav
