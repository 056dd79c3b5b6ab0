import PageNav.Json.Typed
import PageNav.Proofs.ReadBack

/-!
# Ways to write JSON

A value can be written in many ways: with blanks between its parts and with escapes in its strings.
For strings and objects these ways are given here as a grammar, and what is written by it is read.
-/

namespace PageNav.Json

open Reader Scalar

/-! ## The grammar -/

/-- The characters between two quotes stand for the text, each as it is or as an escape. -/
inductive Spells : List Char → List Char → Prop
  | nil : Spells [] []
  | plain {c : Char} {body text : List Char} (quote : c ≠ '"') (slash : c ≠ '\\')
      (control : ¬ c.toNat < 0x20) (later : Spells body text) : Spells (c :: body) (c :: text)
  | escape {c : Char} {code body text : List Char} (meant : Escape code c)
      (later : Spells body text) : Spells ('\\' :: (code ++ body)) (c :: text)

mutual

/-- The text writes the value, with blanks in front but none behind. -/
inductive Writes : List Char → Json → Prop
  | string {w body : List Char} {s : String} : w.all isSpace → Spells body s.toList →
      Writes (w ++ '"' :: (body ++ ['"'])) (.string s)
  | empty {w v : List Char} : w.all isSpace → v.all isSpace →
      Writes (w ++ '{' :: (v ++ ['}'])) (.object .nil)
  | object {w text : List Char} {m : Members} : w.all isSpace → WritesMembers text m →
      Writes (w ++ '{' :: text) (.object m)

/-- The text writes one member or more and the bracket that closes the object. -/
inductive WritesMembers : List Char → Members → Prop
  | last {text w : List Char} {key : String} {value : Json} : WritesMember text key value →
      w.all isSpace → WritesMembers (text ++ (w ++ ['}'])) (.cons key value .nil)
  | more {text w later : List Char} {key : String} {value : Json} {rest : Members} :
      WritesMember text key value → w.all isSpace → WritesMembers later rest →
      WritesMembers (text ++ (w ++ ',' :: later)) (.cons key value rest)

inductive WritesMember : List Char → String → Json → Prop
  | mk {w body v text : List Char} {key : String} {value : Json} : w.all isSpace →
      Spells body key.toList → v.all isSpace → Writes text value →
      WritesMember (w ++ '"' :: (body ++ '"' :: (v ++ ':' :: text))) key value

end

/-- The whole text writes the value, maybe with blanks around it. -/
def TextOf (text : String) (j : Json) : Prop :=
  ∃ front back, text.toList = front ++ back ∧ Writes front j ∧ back.all isSpace

/-! ## Strings -/

theorem Spells.stringBody {body text : List Char} (h : Spells body text) (rest : List Char) :
    stringBody .kept (body ++ '"' :: rest) = .ok (text, rest) := by
  induction h with
  | nil => rw [List.nil_append, Scalar.stringBody, if_pos rfl]
  | plain quote slash control _ ih =>
    rw [List.cons_append, Scalar.stringBody, if_neg quote, if_neg slash, if_neg control, ih]
    rfl
  | escape meant _ ih =>
    rw [List.cons_append, List.append_assoc, meant.stringBody, ih]
    rfl

theorem spells_escapeChars (text : List Char) : Spells (text.flatMap escapeChar) text := by
  induction text with
  | nil => exact .nil
  | cons c text ih =>
    rw [List.flatMap_cons]
    rcases escapeChar_cases c with ⟨hc, hquote, hslash, hcontrol⟩ | ⟨code, hc, hcode⟩
    · rw [hc]
      exact .plain hquote hslash hcontrol ih
    · rw [hc]
      exact .escape hcode ih

theorem WritesMembers.exists_quote {text : List Char} {m : Members} (h : WritesMembers text m) :
    ∃ gap later, text = gap ++ '"' :: later ∧ gap.all isSpace ∧ WritesMembers ('"' :: later) m := by
  cases h with
  | last written blanks =>
    cases written with
    | mk gap_blanks spells inner_blanks value =>
      refine ⟨_, _, List.append_assoc _ _ _, gap_blanks, ?_⟩
      exact .last (.mk (w := []) rfl spells inner_blanks value) blanks
  | more written blanks later =>
    cases written with
    | mk gap_blanks spells inner_blanks value =>
      refine ⟨_, _, List.append_assoc _ _ _, gap_blanks, ?_⟩
      exact .more (.mk (w := []) rfl spells inner_blanks value) blanks later

namespace Reader

variable {σ : Type}

theorem quoted_of_spells {body : List Char} {s : String} (h : Spells body s.toList) :
    Takes (quoted .kept) ('"' :: (body ++ ['"'])) s := by
  intro rest
  have hbody := h.stringBody rest
  have hskip : skip ('"' :: (body ++ ['"']) ++ rest) = .ok ((), body ++ '"' :: rest) := by
    simp [skip]
  rw [quoted, bind_of_ok hskip, bind_of_ok hbody, String.ofList_toList]
  rfl

theorem key_of_spells {gap body : List Char} (blanks : gap.all isSpace) {s : String}
    (h : Spells body s.toList) : Takes (key .kept) (gap ++ '"' :: (body ++ ['"'])) s := by
  intro rest
  have hpeek := peek_gap_cons blanks (c := '"') (by decide) (body ++ ['"'] ++ rest)
  rw [key, List.append_assoc]
  exact (bind_of_ok hpeek).trans (quoted_of_spells h rest)

theorem takes_string {text : List Char} {s : String} (h : Writes text (.string s)) :
    Takes string text s := by
  cases h with
  | @string gap body _ blanks spells =>
    intro rest
    have hpeek := peek_gap_cons blanks (c := '"') (by decide) (body ++ ['"'] ++ rest)
    rw [string, List.append_assoc]
    exact (bind_of_ok hpeek).trans (quoted_of_spells spells rest)

theorem takes_gap_colon {gap : List Char} (blanks : gap.all isSpace) :
    Takes colon (gap ++ [':']) () := by
  intro rest
  have hpeek := peek_gap_cons blanks (c := ':') (by decide) rest
  rw [colon, List.append_assoc]
  exact bind_of_ok hpeek

theorem takes_after_colon {α β : Type} {reader : Reader α} {text : List Char} {a : α}
    (h : Takes reader text a) (f : α → β) {gap : List Char} (blanks : gap.all isSpace) :
    Takes (do colon; return f (← reader)) (gap ++ ':' :: text) (f a) := by
  have hvalue : Takes (do return f (← reader)) (text ++ []) (f a) := h.bind (takes_pure _)
  have hall : Takes (do colon; return f (← reader)) (gap ++ [':'] ++ (text ++ [])) (f a) :=
    (takes_gap_colon blanks).bind hvalue
  simpa using hall

/-! ## Objects -/

/-- The members lead from one result to another, in whatever way each of them is written. -/
inductive Absorbs (entry : σ → String → Reader σ) : σ → Members → σ → Prop
  | nil (s : σ) : Absorbs entry s .nil s
  | cons {s s' u : σ} {key : String} {value : Json} {rest : Members}
      (first : ∀ {gap text}, gap.all isSpace → Writes text value →
        Takes (entry s key) (gap ++ ':' :: text) s')
      (more : Absorbs entry s' rest u) : Absorbs entry s (.cons key value rest) u

def withKey (entry : σ → String → Reader σ) (s : σ) : Reader σ := do
  entry s (← key .kept)

section
variable {entry : σ → String → Reader σ}

theorem takes_withKey {s s' : σ} {key : String} {value : Json}
    (first : ∀ {gap text}, gap.all isSpace → Writes text value →
      Takes (entry s key) (gap ++ ':' :: text) s')
    {text : List Char} (written : WritesMember text key value) :
    Takes (withKey entry s) text s' := by
  cases written with
  | mk gap_blanks spells inner_blanks written =>
    have h := (key_of_spells gap_blanks spells).bind (first inner_blanks written)
    simpa [withKey] using h

theorem Absorbs.takes_moreEntries {s u : σ} {m : Members} (h : Absorbs entry s m u)
    {text : List Char} (written : WritesMembers text m) {rounds : Nat}
    (enough : text.length ≤ rounds) : Takes (moreEntries '}' (withKey entry) rounds s) text u := by
  -- each member takes one round, and its text is not empty
  induction h generalizing text rounds with
  | nil s => cases written
  | cons first more ih =>
    intro rest
    cases written with
    | @last text gap _ _ written blanks =>
      cases more
      have hrounds : rounds ≠ 0 := by
        simp at enough
        omega
      obtain ⟨rounds, rfl⟩ := Nat.exists_eq_add_one_of_ne_zero hrounds
      have hpeek := peek_gap_cons blanks (c := '}') (by decide) rest
      rw [moreEntries, List.append_assoc, bind_of_ok (takes_withKey first written _),
        List.append_assoc]
      exact bind_of_ok hpeek
    | @more text gap later _ _ _ written blanks hlater =>
      have hlength : later.length + 1 ≤ rounds := by
        simp at enough
        omega
      obtain ⟨rounds, rfl⟩ := Nat.exists_eq_add_one_of_ne_zero (Nat.ne_zero_of_lt hlength)
      have hrounds : later.length ≤ rounds := Nat.le_of_succ_le_succ hlength
      have hpeek := peek_gap_cons blanks (c := ',') (by decide) (later ++ rest)
      rw [moreEntries, List.append_assoc, bind_of_ok (takes_withKey first written _),
        List.append_assoc]
      exact (bind_of_ok hpeek).trans (ih hlater hrounds rest)

theorem Absorbs.takes_members {s u : σ} {m : Members} (h : Absorbs entry s m u)
    {text : List Char} (written : WritesMembers text m) : Takes (members .kept entry s) text u := by
  obtain ⟨gap, later, rfl, blanks, written⟩ := written.exists_quote
  intro rest
  have hpeek := peek_gap_cons blanks (c := '"') (by decide) (later ++ rest)
  change entries '}' (withKey entry) s _ = _
  rw [entries, List.append_assoc]
  refine (bind_of_ok hpeek).trans ?_
  exact h.takes_moreEntries written (by simp) rest

theorem Absorbs.takes_object {s u : σ} {m : Members} (h : Absorbs entry s m u) {text : List Char}
    (written : Writes text (.object m)) :
    ∃ gap inner, text = gap ++ '{' :: inner ∧ gap.all isSpace ∧
      Takes (members .kept entry s) inner u := by
  cases written with
  | @empty gap inner blanks inner_blanks =>
    refine ⟨gap, inner ++ ['}'], rfl, blanks, fun rest => ?_⟩
    cases h
    have hpeek := peek_gap_cons inner_blanks (c := '}') (by decide) rest
    change entries '}' (withKey entry) s _ = _
    rw [entries, List.append_assoc]
    exact bind_of_ok hpeek
  | object blanks written => exact ⟨_, _, rfl, blanks, h.takes_members written⟩

theorem Absorbs.takes_map {s u : σ} {m : Members} (h : Absorbs entry s m u) {text : List Char}
    (written : Writes text (.object m)) : Takes (map entry s) text u := by
  obtain ⟨gap, inner, rfl, blanks, hmembers⟩ := h.takes_object written
  intro rest
  have hpeek := peek_gap_cons blanks (c := '{') (by decide) (inner ++ rest)
  rw [map, List.append_assoc]
  exact (bind_of_ok hpeek).trans (hmembers rest)

end

end Reader

/-! ## What the printer writes -/

theorem writes_member {member : String × Json} (h : Writes (chars member.2) member.2) :
    WritesMember (quote member.1 ++ ':' :: chars member.2) member.1 member.2 := by
  have hkey := spells_escapeChars member.1.toList
  simpa [quote] using WritesMember.mk (w := []) (v := []) rfl hkey rfl h

theorem writes_memberChars {member : String × Json} {members : List (String × Json)}
    (h : ∀ p ∈ member :: members, Writes (chars p.2) p.2) :
    WritesMembers (memberChars (.ofList (member :: members)) ++ ['}'])
      (.ofList (member :: members)) := by
  induction members generalizing member with
  | nil =>
    have hlast := WritesMembers.last (w := []) (writes_member (h member List.mem_cons_self)) rfl
    simpa [memberChars, Members.ofList] using hlast
  | cons next members ih =>
    obtain ⟨hmember, hrest⟩ := List.forall_mem_cons.mp h
    have hmore := WritesMembers.more (w := []) (writes_member hmember) rfl (ih hrest)
    simpa [memberChars, Members.ofList] using hmore

theorem writes_object {members : List (String × Json)}
    (h : ∀ p ∈ members, Writes (chars p.2) p.2) :
    Writes (chars (.object (.ofList members))) (.object (.ofList members)) := by
  rw [chars]
  cases members with
  | nil => exact .empty (w := []) (v := []) rfl rfl
  | cons member members => exact .object (w := []) rfl (writes_memberChars h)

theorem writes_string (s : String) : Writes (chars (.string s)) (.string s) := by
  have h := Writes.string (w := []) rfl (spells_escapeChars s.toList)
  simpa [chars, scalarChars, quote] using h

end PageNav.Json
