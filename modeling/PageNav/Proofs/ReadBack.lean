import PageNav.Json.Reader
import PageNav.Page.Schema
import PageNav.Proofs.Quoting

/-!
# Schemas read back from JSON

A schema that is written over several lines is read back as it was, if its keys are different and its
levels are not too many. Every schema that was read from a text is like that.
-/

namespace PageNav.Json

theorem bind_eq_ok {ε α β : Type} {x : Except ε α} {next : α → Except ε β} {b : β} :
    x >>= next = .ok b ↔ ∃ a, x = .ok a ∧ next a = .ok b := by
  cases x <;> simp [bind, Except.bind]

/-! ## Members one after the other -/

namespace Members

def append : Members → Members → Members
  | nil, other => other
  | cons k value rest, other => cons k value (rest.append other)

theorem append_nil : ∀ m : Members, m.append nil = m
  | nil => rfl
  | cons k value rest => by rw [append, append_nil rest]

theorem append_assoc (a b c : Members) : (a.append b).append c = a.append (b.append c) := by
  match a with
  | nil => rfl
  | cons k value rest => rw [append, append, append, append_assoc rest]

theorem keys_append (a b : Members) : (a.append b).keys = a.keys ++ b.keys := by
  match a with
  | nil => rfl
  | cons k value rest => rw [append, keys, keys, keys_append rest, List.cons_append]

theorem insert_of_not_mem {key : String} {m : Members} (h : key ∉ m.keys) (value : Json) :
    m.insert key value = m.append (cons key value nil) := by
  match m with
  | nil => rfl
  | cons k old rest =>
    rw [keys, List.mem_cons, not_or] at h
    rw [insert, if_neg (Ne.symm h.1), insert_of_not_mem h.2, append]

theorem mem_keys_insert {k key : String} {m : Members} {value : Json}
    (h : k ∈ (m.insert key value).keys) : k = key ∨ k ∈ m.keys := by
  match m with
  | nil => exact Or.inl (List.mem_singleton.mp h)
  | cons l old rest =>
    rw [insert] at h
    split at h
    · exact Or.inr h
    · rcases List.mem_cons.mp h with rfl | h
      · exact Or.inr List.mem_cons_self
      · exact (mem_keys_insert h).imp_right (List.mem_cons_of_mem _)

/-- Whether the keys are different and what stands under each of them is like this. -/
def Each (P : Json → Prop) : Members → Prop
  | nil => True
  | cons key value rest => key ∉ rest.keys ∧ P value ∧ rest.Each P

theorem Each.insert {P : Json → Prop} {m : Members} (h : m.Each P) (key : String) {value : Json}
    (hvalue : P value) : (m.insert key value).Each P := by
  match m with
  | nil => exact ⟨List.not_mem_nil, hvalue, trivial⟩
  | cons k old rest =>
    obtain ⟨hk, hold, hrest⟩ := h
    rw [Members.insert]
    split
    · exact ⟨hk, hvalue, hrest⟩
    · next hne =>
      refine ⟨fun hmem => ?_, hold, hrest.insert key hvalue⟩
      exact (mem_keys_insert hmem).elim hne hk

end Members

/-! ## Readers -/

namespace Reader

variable {α β σ : Type}

/-- Whether a reader takes exactly this text, whatever follows it. -/
def Takes (reader : Reader α) (text : List Char) (a : α) : Prop :=
  ∀ rest, reader (text ++ rest) = .ok (a, rest)

theorem bind_of_ok {reader : Reader α} {next : α → Reader β} {cs rest : List Char} {a : α}
    (h : reader cs = .ok (a, rest)) : (reader >>= next) cs = next a rest := by
  change (reader cs >>= fun p => next p.1 p.2) = next a rest
  rw [h]
  rfl

theorem ok_of_bind {reader : Reader α} {next : α → Reader β} {cs : List Char} {r : β × List Char}
    (h : (reader >>= next) cs = .ok r) :
    ∃ a rest, reader cs = .ok (a, rest) ∧ next a rest = .ok r := by
  obtain ⟨⟨a, rest⟩, hread, h⟩ := bind_eq_ok.mp h
  exact ⟨a, rest, hread, h⟩

theorem throw_ne_ok {fault : Fault} {cs : List Char} {r : α × List Char} :
    (throw fault : Reader α) cs ≠ .ok r := by
  change Except.error fault ≠ .ok r
  exact fun h => absurd h (by simp)

theorem eq_of_pure {a b : α} {cs rest : List Char} (h : (pure a : Reader α) cs = .ok (b, rest)) :
    a = b :=
  (Prod.mk.inj (Except.ok.inj h)).1

theorem ok_of_run {reader : Reader α} {text : String} {a : α} (h : reader.run text = .ok a) :
    ∃ rest, reader text.toList = .ok (a, rest) := by
  obtain ⟨⟨found, rest⟩, hread, h⟩ := bind_eq_ok.mp h
  simp only at h
  split at h
  · obtain rfl := Except.ok.inj h
    exact ⟨rest, hread⟩
  · exact absurd h (by simp [throw, throwThe, MonadExceptOf.throw])

theorem run_of_ok {reader : Reader α} {text : String} {rest : List Char} {a : α}
    (h : reader text.toList = .ok (a, rest)) (blanks : rest.all isSpace) :
    reader.run text = .ok a := by
  change (reader text.toList >>= fun p => if p.2.all isSpace then return p.1 else throw _) = _
  rw [h]
  exact if_pos blanks

theorem Takes.bind {reader : Reader α} {next : α → Reader β} {s t : List Char} {a : α} {b : β}
    (first : Takes reader s a) (second : Takes (next a) t b) :
    Takes (reader >>= next) (s ++ t) b := by
  intro rest
  rw [List.append_assoc, bind_of_ok (first _), second]

theorem takes_pure (a : α) : Takes (pure a) [] a := fun _ => rfl

theorem takes_word (letters : List Char) : Takes (word letters) letters () := by
  intro rest
  induction letters with
  | nil => rfl
  | cons c cs ih =>
    change (if c = c then word cs (cs ++ rest) else _) = _
    rw [if_pos rfl, ih]

/-! ### Blanks -/

theorem peek_gap {gap : List Char} (blanks : gap.all isSpace) (cs : List Char) :
    peek (gap ++ cs) = peek cs := by
  rw [peek, peek, List.dropWhile_append_of_pos (List.all_eq_true.mp blanks)]

theorem peek_cons {c : Char} (h : isSpace c = false) (cs : List Char) :
    peek (c :: cs) = .ok (some c, c :: cs) := by
  rw [peek, List.dropWhile_cons_of_neg (by rw [h]; exact Bool.false_ne_true), List.head?_cons]

theorem peek_gap_cons {gap : List Char} (blanks : gap.all isSpace) {c : Char}
    (h : isSpace c = false) (cs : List Char) :
    peek (gap ++ c :: cs) = .ok (some c, c :: cs) := by
  rw [peek_gap blanks, peek_cons h]

theorem newLine_blanks (level : Nat) : (newLine level).all isSpace := by
  rw [newLine, List.all_cons, List.all_replicate]
  split <;> rfl

theorem takes_quoted (text : String) : Takes (quoted .kept) (quote text) text := by
  intro rest
  have hbody : Scalar.stringBody .kept (quote text ++ rest).tail = .ok (text.toList, rest) := by
    simpa [quote] using stringBody_quote text.toList rest
  have hskip : skip (quote text ++ rest) = .ok ((), (quote text ++ rest).tail) := rfl
  rw [quoted, bind_of_ok hskip, bind_of_ok hbody, String.ofList_toList]
  rfl

theorem takes_key {gap : List Char} (blanks : gap.all isSpace) (text : String) :
    Takes (key .kept) (gap ++ quote text) text := by
  intro rest
  have hpeek : peek (gap ++ quote text ++ rest) = .ok (some '"', quote text ++ rest) := by
    rw [List.append_assoc]
    exact peek_gap_cons blanks (by decide) _
  rw [key, bind_of_ok hpeek]
  exact takes_quoted text rest

theorem bind_congr_of_eq {reader : Reader α} {next : α → Reader β} {cs ds : List Char}
    (h : reader cs = reader ds) : (reader >>= next) cs = (reader >>= next) ds := by
  change (reader cs >>= fun p => next p.1 p.2) = (reader ds >>= fun p => next p.1 p.2)
  rw [h]

theorem key_gap {gap : List Char} (blanks : gap.all isSpace) (cs : List Char) :
    key .kept (gap ++ cs) = key .kept cs :=
  bind_congr_of_eq (peek_gap blanks cs)

theorem takes_colon : Takes colon [':'] () := by
  intro rest
  rw [colon, List.singleton_append, bind_of_ok (peek_cons (by decide) rest)]
  rfl

/-! ### Entries -/

/-- Whether the entries take one text after the other and lead from one result to another. -/
inductive Fills (entry : σ → Reader σ) : σ → List (List Char) → σ → Prop
  | nil (s : σ) : Fills entry s [] s
  | cons {s s' u : σ} {text : List Char} {texts : List (List Char)} (first : Takes (entry s) text s')
      (more : Fills entry s' texts u) : Fills entry s (text :: texts) u

def following (texts : List (List Char)) : List Char :=
  texts.flatMap (',' :: ·)

theorem length_le_following (texts : List (List Char)) :
    texts.length ≤ (following texts).length := by
  induction texts with
  | nil => exact Nat.le_refl _
  | cons text texts ih =>
    rw [following, List.flatMap_cons, List.length_append, List.length_cons, List.length_cons]
    rw [following] at ih
    omega

section

variable {entry : σ → Reader σ} {close : Char} {gap : List Char}
variable (blanks : gap.all isSpace) (hspace : isSpace close = false)
include blanks hspace

theorem takes_moreEntries (hcomma : ',' ≠ close) {s s' u : σ} {text : List Char}
    {texts : List (List Char)} (first : Takes (entry s) text s') (more : Fills entry s' texts u)
    {rounds : Nat} (enough : texts.length < rounds) :
    Takes (moreEntries close entry rounds s) (text ++ (following texts ++ (gap ++ [close]))) u := by
  intro rest
  induction more generalizing rounds text s with
  | nil s =>
    obtain ⟨rounds, rfl⟩ := Nat.exists_eq_add_one_of_ne_zero (Nat.ne_zero_of_lt enough)
    have hpeek := peek_gap_cons blanks hspace rest
    rw [moreEntries, List.append_assoc, bind_of_ok (first _), following, List.flatMap_nil,
      List.nil_append, List.append_assoc, List.singleton_append, bind_of_ok hpeek]
    simp only [if_true]
    rfl
  | @cons s s' u next texts hnext more ih =>
    obtain ⟨rounds, rfl⟩ := Nat.exists_eq_add_one_of_ne_zero (Nat.ne_zero_of_lt enough)
    let left := next ++ (following texts ++ (gap ++ [close])) ++ rest
    have hpeek := peek_cons (c := ',') (by decide) left
    have htext : following (next :: texts) ++ (gap ++ [close]) ++ rest = ',' :: left := by
      simp [following, left]
    rw [moreEntries, List.append_assoc, bind_of_ok (first _), htext, bind_of_ok hpeek]
    simp only [if_neg hcomma, if_true]
    exact ih hnext (Nat.lt_of_succ_lt_succ enough)

/-- Entries with commas between them are read up to the closing bracket. -/
theorem takes_entries (hcomma : ',' ≠ close) {front : List Char} (front_blanks : front.all isSpace)
    {c : Char} (hc : isSpace c = false) (hclose : c ≠ close) {s s' u : σ} {text : List Char}
    {texts : List (List Char)} (first : Takes (entry s) (c :: text) s')
    (more : Fills entry s' texts u) :
    Takes (entries close entry s)
      (front ++ c :: text ++ (following texts ++ (gap ++ [close]))) u := by
  intro rest
  let left := text ++ (following texts ++ (gap ++ [close])) ++ rest
  have hpeek := peek_gap_cons front_blanks hc left
  have htext : front ++ c :: text ++ (following texts ++ (gap ++ [close])) ++ rest =
      front ++ c :: left := by
    simp [left]
  rw [entries, htext, bind_of_ok hpeek]
  simp only [if_neg hclose]
  refine takes_moreEntries blanks hspace hcomma first more ?_ rest
  have hcommas := length_le_following texts
  simp only [left, List.length_cons, List.length_append]
  omega

end

section

variable {P : σ → Prop} {entry : σ → Reader σ} {close : Char}
variable (step : ∀ s cs s' rest, P s → entry s cs = .ok (s', rest) → P s')
include step

theorem moreEntries_keeps {rounds : Nat} {s u : σ} {cs rest : List Char} (hs : P s)
    (h : moreEntries close entry rounds s cs = .ok (u, rest)) : P u := by
  induction rounds generalizing s cs with
  | zero => exact absurd h throw_ne_ok
  | succ rounds ih =>
    rw [moreEntries] at h
    obtain ⟨s', _, hentry, h⟩ := ok_of_bind h
    have hs' := step _ _ _ _ hs hentry
    obtain ⟨next, _, -, h⟩ := ok_of_bind h
    split at h
    · exact absurd h throw_ne_ok
    · split at h
      · obtain ⟨_, _, -, h⟩ := ok_of_bind h
        exact eq_of_pure h ▸ hs'
      · split at h
        · obtain ⟨_, _, -, h⟩ := ok_of_bind h
          exact ih hs' h
        · exact absurd h throw_ne_ok

theorem entries_keeps {s u : σ} {cs rest : List Char} (hs : P s)
    (h : entries close entry s cs = .ok (u, rest)) : P u := by
  rw [entries] at h
  obtain ⟨next, _, -, h⟩ := ok_of_bind h
  split at h
  · exact absurd h throw_ne_ok
  · split at h
    · obtain ⟨_, _, -, h⟩ := ok_of_bind h
      exact eq_of_pure h ▸ hs
    · obtain ⟨_, _, -, h⟩ := ok_of_bind h
      exact moreEntries_keeps step hs h

end

/-! ### Values -/

def memberValue (depth : Nat) (found : Members) (key : String) : Reader Members := do
  colon
  return found.insert key (← value .kept depth)

def member (depth : Nat) (found : Members) : Reader Members := do
  memberValue depth found (← key .kept)

theorem takes_null (depth : Nat) {gap : List Char} (blanks : gap.all isSpace) :
    Takes (value .kept depth) (gap ++ ['n', 'u', 'l', 'l']) .null := by
  intro rest
  have hpeek := peek_gap_cons blanks (c := 'n') (by decide) (['u', 'l', 'l'] ++ rest)
  rw [value, List.append_assoc]
  refine (bind_of_ok hpeek).trans ?_
  exact bind_of_ok (takes_word ['n', 'u', 'l', 'l'] rest)

theorem takes_object {depth : Nat} {gap text : List Char} (blanks : gap.all isSpace) {m : Members}
    (h : Takes (entries '}' (member depth) .nil) text m) :
    Takes (value .kept (depth + 1)) (gap ++ '{' :: text) (.object m) := by
  intro rest
  have hpeek := peek_gap_cons blanks (c := '{') (by decide) (text ++ rest)
  rw [value, List.append_assoc]
  refine (bind_of_ok hpeek).trans ?_
  change (entries '}' (member depth) .nil >>= fun found => pure (object found)) (text ++ rest) = _
  exact bind_of_ok (h rest)

theorem not_object_of_bind {reader : Reader α} {f : α → Json} {m : Members}
    (hf : ∀ a, f a ≠ object m) {cs rest : List Char} :
    (reader >>= fun a => pure (f a)) cs ≠ .ok (object m, rest) := by
  intro h
  obtain ⟨a, _, -, h⟩ := ok_of_bind h
  exact hf a (eq_of_pure h)

theorem entries_of_value {room : Nat} {cs rest : List Char} {m : Members}
    (h : value .kept room cs = .ok (object m, rest)) :
    ∃ inner text left, room = inner + 1 ∧
      entries '}' (member inner) .nil text = .ok (m, left) := by
  unfold value at h
  obtain ⟨next, text, -, h⟩ := ok_of_bind h
  split at h
  · exact absurd h throw_ne_ok
  split at h
  · exact absurd h (not_object_of_bind (f := fun _ => Json.null) (by simp))
  split at h
  · exact absurd h (not_object_of_bind (f := fun _ => Json.bool true) (by simp))
  split at h
  · exact absurd h (not_object_of_bind (f := fun _ => Json.bool false) (by simp))
  split at h
  · exact absurd h (not_object_of_bind (f := Json.number) (by simp))
  split at h
  · exact absurd h (not_object_of_bind (f := Json.string) (by simp))
  cases room with
  | zero => exact absurd h throw_ne_ok
  | succ inner =>
    dsimp only at h
    split at h
    · obtain ⟨_, _, -, h⟩ := ok_of_bind h
      exact absurd h (not_object_of_bind (by simp))
    · split at h
      · obtain ⟨_, text, -, h⟩ := ok_of_bind h
        obtain ⟨found, left, hmembers, h⟩ := ok_of_bind h
        obtain rfl := object.inj (eq_of_pure h)
        exact ⟨inner, text, left, rfl, hmembers⟩
      · exact absurd h throw_ne_ok

end Reader

open Reader

/-! ## Objects over several lines -/

/-- A member without the line break in front of it. -/
def memberText (level : Nat) (key : String) (j : Json) : List Char :=
  quote key ++ ':' :: ' ' :: prettyChars level j

def memberTexts (level : Nat) : Members → List (List Char)
  | .nil => []
  | .cons key j rest => (newLine level ++ memberText level key j) :: memberTexts level rest

theorem prettyMembers_cons (level : Nat) (key : String) (j : Json) (rest : Members) :
    prettyMembers level (.cons key j rest) =
      newLine level ++ memberText level key j ++ following (memberTexts level rest) := by
  match rest with
  | .nil => simp [prettyMembers, memberText, memberTexts, following]
  | .cons k i rest =>
    simp only [prettyMembers, prettyMembers_cons level k i rest, memberText, memberTexts, following,
      List.flatMap_cons]
    simp

theorem takes_member {depth level : Nat} {found : Members} {key : String} (fresh : key ∉ found.keys)
    {j : Json}
    (h : ∀ gap, gap.all isSpace → Takes (value .kept depth) (gap ++ prettyChars level j) j)
    {gap : List Char} (blanks : gap.all isSpace) :
    Takes (member depth found) (gap ++ memberText level key j) (found.append (.cons key j .nil)) := by
  rw [← Members.insert_of_not_mem fresh, memberText, ← List.append_assoc]
  have hvalue : Takes (do return found.insert key (← value .kept depth))
      ([' '] ++ prettyChars level j ++ []) (found.insert key j) :=
    (h [' '] rfl).bind (takes_pure _)
  rw [List.append_nil] at hvalue
  exact (takes_key blanks key).bind (takes_colon.bind hvalue)

theorem takes_pretty {depth level : Nat} {m : Members}
    (h : Fills (member depth) .nil (memberTexts (level + 1) m) m) {gap : List Char}
    (blanks : gap.all isSpace) :
    Takes (value .kept (depth + 1)) (gap ++ prettyChars level (.object m)) (.object m) := by
  match m with
  | .nil =>
    rw [prettyChars]
    exact takes_object blanks fun rest => rfl
  | .cons key j rest =>
    rw [prettyChars, prettyMembers_cons]
    · cases h with
      | @cons _ found _ _ _ first more =>
        have first' : Takes (member depth .nil) (memberText (level + 1) key j) found := by
          intro rest
          rw [← first rest, List.append_assoc]
          exact (bind_congr_of_eq (key_gap (newLine_blanks _) _)).symm
        have hentries : Takes (entries '}' (member depth) .nil) _ (.cons key j rest) :=
          takes_entries (newLine_blanks level) (by decide) (by decide) (newLine_blanks (level + 1))
            (c := '"') (by decide) (by decide) first' more
        refine takes_object blanks ?_
        simpa [memberText, quote] using hentries
    · exact fun hnil => absurd hnil (by simp)

end PageNav.Json

namespace PageNav.Schema

open Json Json.Reader

def depth : Schema → Nat
  | nil => 0
  | leaf _ rest => rest.depth
  | branch _ child rest => max (child.depth + 1) rest.depth

theorem fresh_append {keys : List String} {found : Members} {key : String}
    (fresh : ∀ k ∈ key :: keys, k ∉ found.keys) (hkey : key ∉ keys) (j : Json) :
    ∀ k ∈ keys, k ∉ (found.append (.cons key j .nil)).keys := by
  intro k hk
  rw [Members.keys_append, List.mem_append, not_or, Members.keys, Members.keys,
    List.mem_singleton]
  exact ⟨fresh k (List.mem_cons_of_mem _ hk), fun he => hkey (he ▸ hk)⟩

/-- The members of a schema are read after others with different keys. -/
theorem fills_members {s : Schema} (distinct : s.Distinct) {room : Nat} (fits : s.depth ≤ room)
    (level : Nat) {found : Members} (fresh : ∀ key ∈ s.keys, key ∉ found.keys) :
    Fills (member room) found (memberTexts level s.toMembers) (found.append s.toMembers) := by
  induction s generalizing room level found with
  | nil =>
    rw [toMembers, Members.append_nil]
    exact .nil found
  | leaf k rest ih =>
    have hrest := ih distinct.2 fits level (fresh_append fresh distinct.1 .null)
    rw [Members.append_assoc] at hrest
    refine .cons (takes_member (fresh k List.mem_cons_self) ?_ (newLine_blanks level)) hrest
    exact fun gap blanks => takes_null room blanks
  | branch k child rest ihchild ih =>
    obtain ⟨hchild, hfits⟩ := Nat.max_le.mp fits
    obtain ⟨room, rfl⟩ := Nat.exists_eq_add_one_of_ne_zero (Nat.ne_zero_of_lt hchild)
    have hmembers : Fills (member room) .nil (memberTexts (level + 1) child.toMembers)
        child.toMembers :=
      ihchild distinct.2.1 (Nat.le_of_succ_le_succ hchild) (level + 1) (fun _ _ => List.not_mem_nil)
    have hrest := ih distinct.2.2 hfits level
      (fresh_append fresh distinct.1 (.object child.toMembers))
    rw [Members.append_assoc] at hrest
    refine .cons (takes_member (fresh k List.mem_cons_self) ?_ (newLine_blanks level)) hrest
    exact fun gap blanks => takes_pretty hmembers blanks

/-- A schema is read back from its text. -/
theorem ofText_pretty {s : Schema} (distinct : s.Distinct) (fits : s.depth < maxDepth) :
    Json.ofText (s.toJson.pretty ++ "\n") = .ok s.toJson := by
  have hmembers : Fills (member 126) .nil (memberTexts 1 s.toMembers) s.toMembers :=
    fills_members distinct (Nat.le_of_lt_succ fits) 1 (fun _ _ => List.not_mem_nil)
  have hvalue : value .kept maxDepth (s.toJson.pretty ++ "\n").toList = .ok (s.toJson, ['\n']) := by
    rw [pretty, String.toList_append, String.toList_ofList]
    exact takes_pretty hmembers List.all_nil ['\n']
  exact run_of_ok hvalue rfl

/-! ## Schemas that were read -/

/-- Whether a schema that a value stands for has different keys and room for its levels. -/
def Fits (room : Nat) (j : Json) : Prop :=
  ∀ path s, entryOfJson path j = .ok (.branch s) → s.Distinct ∧ s.depth < room

theorem of_members {room : Nat} {m : Members} (h : m.Each (Fits room)) {path : List String}
    {s : Schema} (hs : ofMembers path m = .ok s) :
    s.keys = m.keys ∧ s.Distinct ∧ s.depth ≤ room := by
  match m with
  | .nil =>
    obtain rfl := Except.ok.inj hs
    exact ⟨rfl, trivial, Nat.zero_le _⟩
  | .cons key j rest =>
    obtain ⟨hkey, hj, hrest⟩ := h
    rw [ofMembers] at hs
    obtain ⟨entry, hentry, hs⟩ := bind_eq_ok.mp hs
    obtain ⟨tail, hread, hs⟩ := bind_eq_ok.mp hs
    obtain rfl := Except.ok.inj hs
    obtain ⟨hkeys, distinct, fits⟩ := of_members hrest hread
    rw [← hkeys] at hkey
    cases entry with
    | leaf => exact ⟨congrArg (key :: ·) hkeys, ⟨hkey, distinct⟩, fits⟩
    | branch child =>
      obtain ⟨hchild, hroom⟩ := hj _ _ hentry
      exact ⟨congrArg (key :: ·) hkeys, ⟨hkey, hchild, distinct⟩, Nat.max_le.mpr ⟨hroom, fits⟩⟩

theorem entryOfJson_eq_branch {path : List String} {j : Json} {s : Schema} :
    entryOfJson path j = .ok (.branch s) ↔ ∃ m, j = .object m ∧ ofMembers path m = .ok s := by
  constructor
  · intro h
    cases j with
    | object m =>
      rw [entryOfJson] at h
      obtain ⟨child, hread, h⟩ := bind_eq_ok.mp h
      obtain rfl := Entry.branch.inj (Except.ok.inj h)
      exact ⟨m, rfl, hread⟩
    | null => exact absurd (Except.ok.inj h) (by simp)
    | _ => exact absurd h (by simp [entryOfJson])
  · rintro ⟨m, rfl, h⟩
    rw [entryOfJson, h]
    rfl

theorem value_fits {room : Nat} {cs rest : List Char} {j : Json}
    (h : value .kept room cs = .ok (j, rest)) : Fits room j := by
  induction room using Nat.strongRecOn generalizing cs rest j with
  | ind room ih =>
    intro path s hs
    obtain ⟨m, rfl, hread⟩ := entryOfJson_eq_branch.mp hs
    obtain ⟨inner, text, left, rfl, hmembers⟩ := entries_of_value h
    have hfits : m.Each (Fits inner) := by
      have hnil : Members.nil.Each (Fits inner) := trivial
      refine entries_keeps ?_ hnil hmembers
      intro found _ found' _ hfound hmember
      obtain ⟨key, _, -, hmember⟩ := ok_of_bind hmember
      obtain ⟨_, _, -, hmember⟩ := ok_of_bind hmember
      obtain ⟨j, _, hvalue, hmember⟩ := ok_of_bind hmember
      rw [← eq_of_pure hmember]
      exact hfound.insert key (ih inner (Nat.lt_succ_self inner) hvalue)
    obtain ⟨-, distinct, fits⟩ := of_members hfits hread
    exact ⟨distinct, Nat.lt_succ_of_le fits⟩

/-- A schema that was read has different keys, and no more levels than are read again. -/
theorem of_ofText {text : String} {s : Schema} (h : ofText text = .ok s) :
    s.Distinct ∧ s.depth < maxDepth := by
  unfold ofText at h
  split at h
  · next j hj =>
    obtain ⟨rest, hvalue⟩ := ok_of_run hj
    refine value_fits hvalue [] s (entryOfJson_eq_branch.mpr ?_)
    cases j with
    | object m => exact ⟨m, rfl, h⟩
    | _ => exact absurd h (by simp [ofJson])
  · exact absurd h (by simp)

end PageNav.Schema
