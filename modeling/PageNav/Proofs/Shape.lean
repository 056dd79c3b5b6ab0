import PageNav.Proofs.Settled

/-!
# Which values are schemas

A value is read as a schema if it is an object of objects and nulls. Nothing of it is lost. If it is
not one, the first value that does not fit is reported.
-/

namespace PageNav

/-! ## Values inside a value -/

namespace Json

mutual

/-- A value and all that are inside it, in the order of the text, each with the keys that lead to
it. -/
def located (path : List String) : Json → List (List String × Json)
  | .array items => (path, .array items) :: locatedItems path items
  | .object members => (path, .object members) :: locatedMembers path members
  | .null => [(path, .null)]
  | .bool b => [(path, .bool b)]
  | .number n => [(path, .number n)]
  | .string s => [(path, .string s)]

/-- An item has no key of its own. -/
def locatedItems (path : List String) : Items → List (List String × Json)
  | .nil => []
  | .cons head tail => located path head ++ locatedItems path tail

def locatedMembers (path : List String) : Members → List (List String × Json)
  | .nil => []
  | .cons key value rest => located (path ++ [key]) value ++ locatedMembers path rest

end

theorem located_eq (path : List String) (j : Json) :
    j.located path = (path, j) :: (j.located path).tail := by
  cases j <;> simp [located]

mutual

theorem prefix_of_mem_located {path : List String} {entry : List String × Json} :
    ∀ {j : Json}, entry ∈ j.located path → path <+: entry.1
  | .array items, h => by
    rw [located, List.mem_cons] at h
    rcases h with rfl | h
    · exact List.prefix_rfl
    · exact prefix_of_mem_locatedItems h
  | .object members, h => by
    rw [located, List.mem_cons] at h
    rcases h with rfl | h
    · exact List.prefix_rfl
    · obtain ⟨key, hkey⟩ := prefix_of_mem_locatedMembers h
      exact (List.prefix_append _ _).trans hkey
  | .null, h | .bool _, h | .number _, h | .string _, h => by
    rw [located, List.mem_singleton] at h
    exact h ▸ List.prefix_rfl

theorem prefix_of_mem_locatedItems {path : List String} {entry : List String × Json} :
    ∀ {items : Items}, entry ∈ locatedItems path items → path <+: entry.1
  | .nil, h => absurd h List.not_mem_nil
  | .cons head tail, h => by
    rw [locatedItems, List.mem_append] at h
    rcases h with h | h
    · exact prefix_of_mem_located h
    · exact prefix_of_mem_locatedItems h

theorem prefix_of_mem_locatedMembers {path : List String} {entry : List String × Json} :
    ∀ {members : Members}, entry ∈ locatedMembers path members →
      ∃ key, path ++ [key] <+: entry.1
  | .nil, h => absurd h List.not_mem_nil
  | .cons key value rest, h => by
    rw [locatedMembers, List.mem_append] at h
    rcases h with h | h
    · exact ⟨key, prefix_of_mem_located h⟩
    · exact prefix_of_mem_locatedMembers h

end

/-! ## Different keys -/

mutual

def Distinct : Json → Prop
  | .array items => DistinctItems items
  | .object members => DistinctMembers members
  | .null | .bool _ | .number _ | .string _ => True

def DistinctItems : Items → Prop
  | .nil => True
  | .cons head tail => Distinct head ∧ DistinctItems tail

def DistinctMembers : Members → Prop
  | .nil => True
  | .cons key value rest => key ∉ rest.keys ∧ Distinct value ∧ DistinctMembers rest

end

end Json

def Entry.toJson : Entry Schema → Json
  | .leaf => .null
  | .branch child => child.toJson

open Json

namespace Schema

/-! ## Schemas that are built -/

/-- Schemas that come from putting entries under keys, one after the other. -/
inductive Built : Schema → Prop
  | nil : Built nil
  | leaf {s : Schema} (key : String) : Built s → Built (s.insert key .leaf)
  | branch {s child : Schema} (key : String) : Built s → Built child →
      Built (s.insert key (.branch child))

@[simp] theorem keys_cons (key : String) (entry : Entry Schema) (rest : Schema) :
    (cons key entry rest).keys = key :: rest.keys := by
  cases entry <;> rfl

theorem keys_insert (s : Schema) (key : String) (entry : Entry Schema) :
    (s.insert key entry).keys = if key ∈ s.keys then s.keys else s.keys ++ [key] := by
  induction s with
  | nil => simp [insert, keys]
  | leaf k rest ih | branch k child rest _ ih =>
    unfold insert
    by_cases hk : k = key
    · simp [hk, keys]
    · simp only [hk, if_false, keys, ih, List.mem_cons, Ne.symm hk, false_or]
      split <;> simp

theorem distinct_insert {s : Schema} (h : s.Distinct) (key : String) {entry : Entry Schema}
    (hentry : ∀ child, entry = .branch child → child.Distinct) : (s.insert key entry).Distinct := by
  have hcons {k : String} {rest : Schema} (hk : k ∉ rest.keys) (hrest : rest.Distinct) :
      (cons k entry rest).Distinct := by
    cases entry with
    | leaf => exact ⟨hk, hrest⟩
    | branch child => exact ⟨hk, hentry child rfl, hrest⟩
  have hkeep {k : String} {rest : Schema} (hk : k ∉ rest.keys) (hne : k ≠ key) :
      k ∉ (rest.insert key entry).keys := by
    rw [keys_insert]
    split <;> simp [hk, hne]
  induction s with
  | nil => exact hcons List.not_mem_nil trivial
  | leaf k rest ih =>
    unfold insert
    split
    · exact hcons h.1 h.2
    · next hne => exact ⟨hkeep h.1 hne, ih h.2⟩
  | branch k child rest _ ih =>
    unfold insert
    split
    · exact hcons h.1 h.2.2
    · next hne => exact ⟨hkeep h.1 hne, h.2.1, ih h.2.2⟩

theorem Built.distinct {s : Schema} (built : Built s) : s.Distinct := by
  induction built with
  | nil => trivial
  | leaf key _ ih => exact distinct_insert ih key (by simp)
  | branch key _ _ ih ihchild =>
    refine distinct_insert ih key ?_
    rintro _ ⟨⟩
    exact ihchild

def append : Schema → Schema → Schema
  | nil, other => other
  | leaf k rest, other => leaf k (rest.append other)
  | branch k child rest, other => branch k child (rest.append other)

theorem append_nil (s : Schema) : s.append nil = s := by
  induction s with
  | nil => rfl
  | leaf k rest ih => rw [append, ih]
  | branch k child rest _ ih => rw [append, ih]

theorem append_cons {s : Schema} {key : String} (h : key ∉ s.keys) (entry : Entry Schema)
    (rest : Schema) : s.append (cons key entry rest) = (s.insert key entry).append rest := by
  induction s with
  | nil => cases entry <;> rfl
  | leaf k tail ih =>
    rw [keys, List.mem_cons, not_or] at h
    rw [append, insert, if_neg (Ne.symm h.1), append, ih h.2]
  | branch k child tail _ ih =>
    rw [keys, List.mem_cons, not_or] at h
    rw [append, insert, if_neg (Ne.symm h.1), append, ih h.2]

theorem Built.append {s t : Schema} (hs : Built s) (ht : t.Distinct)
    (hnew : ∀ key ∈ t.keys, key ∉ s.keys) : Built (s.append t) := by
  induction t generalizing s with
  | nil =>
    rw [append_nil]
    exact hs
  | leaf k rest ih =>
    obtain ⟨hk, hrest⟩ := List.forall_mem_cons.mp hnew
    have hcons := append_cons hk .leaf rest
    rw [cons] at hcons
    rw [hcons]
    refine ih (hs.leaf k) ht.2 fun key hkey => ?_
    rw [keys_insert, if_neg hk, List.mem_append, List.mem_singleton]
    rintro (hold | rfl)
    · exact hrest key hkey hold
    · exact ht.1 hkey
  | branch k child rest ihchild ih =>
    obtain ⟨hk, hrest⟩ := List.forall_mem_cons.mp hnew
    have hcons := append_cons hk (.branch child) rest
    rw [cons] at hcons
    rw [hcons]
    have hchild : Built child := ihchild .nil ht.2.1 (by simp [keys])
    refine ih (hs.branch k hchild) ht.2.2 fun key hkey => ?_
    rw [keys_insert, if_neg hk, List.mem_append, List.mem_singleton]
    rintro (hold | rfl)
    · exact hrest key hkey hold
    · exact ht.1 hkey

theorem built_iff {s : Schema} : Built s ↔ s.Distinct :=
  ⟨Built.distinct, fun h => Built.nil.append h (by simp [keys])⟩

@[simp] theorem keys_toMembers (s : Schema) : s.toMembers.keys = s.keys := by
  induction s with
  | nil => rfl
  | leaf k rest ih => rw [toMembers, Members.keys, ih, keys]
  | branch k child rest _ ih => rw [toMembers, Members.keys, ih, keys]

theorem distinct_toMembers {s : Schema} : DistinctMembers s.toMembers ↔ s.Distinct := by
  induction s with
  | nil => simp [toMembers, DistinctMembers, Distinct]
  | leaf k rest ih => simp [toMembers, DistinctMembers, Json.Distinct, Distinct, ih]
  | branch k child rest ihchild ih =>
    simp [toMembers, DistinctMembers, Json.Distinct, Distinct, ih, ihchild]

theorem distinct_toJson {s : Schema} : s.toJson.Distinct ↔ s.Distinct := by
  rw [toJson, Json.Distinct, distinct_toMembers]

/-! ## Reading -/

/-- Whether a value may stand where it does. To the root no key leads, and it cannot be a leaf. -/
def Suits (entry : List String × Json) : Prop :=
  entry.2.kind = .object ∨ entry.1 ≠ [] ∧ entry.2.kind = .null

/-- How reading the values of `entries` ends: with something `good` if all of them suit, and else
with an error for the first one that does not. -/
inductive Reads {α : Type} (entries : List (List String × Json)) (good : α → Prop) :
    Except Error α → Prop
  | ok {a : α} : (∀ entry ∈ entries, Suits entry) → good a → Reads entries good (.ok a)
  | error (before : List (List String × Json)) (path : List String) (j : Json)
      (after : List (List String × Json)) : entries = before ++ (path, j) :: after →
      (∀ entry ∈ before, Suits entry) → ¬ Suits (path, j) →
      Reads entries good (.error (.schemaShape path j.kind))

section

variable {α β : Type} {entries more : List (List String × Json)} {good : α → Prop}
  {good' : β → Prop} {x : Except Error α}

theorem Reads.bind {next : α → Except Error β} (h : Reads entries good x)
    (hnext : ∀ a, good a → Reads more good' (next a)) :
    Reads (entries ++ more) good' (x >>= next) := by
  cases h with
  | @ok a hall ha =>
    have hrest := hnext a ha
    change Reads (entries ++ more) good' (next a)
    generalize next a = y at hrest ⊢
    cases hrest with
    | ok hall' hb => exact .ok (List.forall_mem_append.mpr ⟨hall, hall'⟩) hb
    | error before path j after hsplit hbefore hnot =>
      refine .error (entries ++ before) path j after ?_ ?_ hnot
      · rw [hsplit, List.append_assoc]
      · exact List.forall_mem_append.mpr ⟨hall, hbefore⟩
  | error before path j after hsplit hbefore hnot =>
    refine .error before path j (after ++ more) ?_ hbefore hnot
    rw [hsplit, List.append_assoc]
    rfl

theorem Reads.pure {a : α} (ha : good a) : Reads [] good (Except.ok a) :=
  .ok (List.forall_mem_nil _) ha

theorem Reads.cons {entry : List String × Json} (hentry : Suits entry)
    (h : Reads entries good x) : Reads (entry :: entries) good x := by
  cases h with
  | ok hall ha => exact .ok (List.forall_mem_cons.mpr ⟨hentry, hall⟩) ha
  | error before path j after hsplit hbefore hnot =>
    refine .error (entry :: before) path j after ?_ ?_ hnot
    · rw [hsplit, List.cons_append]
    · exact List.forall_mem_cons.mpr ⟨hentry, hbefore⟩

theorem Reads.refused {path : List String} {j : Json} (h : ¬ Suits (path, j)) :
    Reads (j.located path) good (.error (.schemaShape path j.kind)) :=
  .error [] path j _ (located_eq path j) (List.forall_mem_nil _) h

end

mutual

theorem entryOfJson_reads {path : List String} (hpath : path ≠ []) :
    ∀ j : Json, Reads (j.located path) (fun entry => entry.toJson = j) (entryOfJson path j)
  | .null => .ok (by simp [located, Suits, kind, hpath]) rfl
  | .object members => by
    have hread : Reads (locatedMembers path members ++ [])
        (fun entry : Entry Schema => entry.toJson = .object members)
        (ofMembers path members >>= fun s => pure (.branch s)) :=
      (ofMembers_reads path members).bind fun s hs => .pure (congrArg Json.object hs)
    rw [List.append_nil] at hread
    rw [located, entryOfJson]
    exact hread.cons (.inl rfl)
  | .bool _ | .number _ | .string _ | .array _ => .refused (by simp [Suits, kind])

theorem ofMembers_reads (path : List String) :
    ∀ members : Members,
      Reads (locatedMembers path members) (fun s => s.toMembers = members) (ofMembers path members)
  | .nil => .pure rfl
  | .cons key value rest => by
    rw [locatedMembers, ofMembers, ← List.append_nil (locatedMembers path rest)]
    refine (entryOfJson_reads (by simp) value).bind fun entry hentry => ?_
    refine (ofMembers_reads path rest).bind fun s hs => .pure ?_
    rw [← hentry, ← hs]
    cases entry <;> rfl

end

theorem ofJson_reads (v : Json) : Reads (v.located []) (fun s => s.toJson = v) (ofJson v) := by
  cases v with
  | object members =>
    have hread := ofMembers_reads [] members
    rw [located, ofJson]
    generalize ofMembers [] members = x at hread
    refine Reads.cons (.inl rfl) ?_
    cases hread with
    | ok hall hs => exact .ok hall (congrArg Json.object hs)
    | error before path j after hsplit hbefore hnot =>
      exact .error before path j after hsplit hbefore hnot
  | null | bool _ | number _ | string _ | array _ => exact .refused (by simp [Suits, kind])

/-! ## The root and what is below it -/

theorem ne_nil_of_mem_tail {v : Json} (hv : v.kind = .object) {entry : List String × Json}
    (h : entry ∈ (v.located []).tail) : entry.1 ≠ [] := by
  cases v with
  | object members =>
    rw [located, List.tail_cons] at h
    obtain ⟨key, hkey⟩ := prefix_of_mem_locatedMembers h
    intro hnil
    rw [hnil, List.prefix_nil] at hkey
    exact absurd hkey (by simp)
  | null | bool _ | number _ | string _ | array _ => exact absurd hv (by simp [kind])

theorem suits_root {v : Json} : Suits ([], v) ↔ v.kind = .object := by
  simp [Suits]

theorem forall_suits_iff {v : Json} :
    (∀ entry ∈ v.located [], Suits entry) ↔
      v.kind = .object ∧
        ∀ entry ∈ (v.located []).tail, entry.2.kind = .object ∨ entry.2.kind = .null := by
  rw [located_eq, List.forall_mem_cons, suits_root, List.tail_cons]
  refine and_congr_right fun hv => forall₂_congr fun entry hentry => ?_
  simp [Suits, ne_nil_of_mem_tail hv hentry]

theorem path_eq_nil_iff {v j : Json} {before after : List (List String × Json)} {path : List String}
    (hsplit : v.located [] = before ++ (path, j) :: after)
    (hbefore : ∀ entry ∈ before, Suits entry) : path = [] ↔ before = [] := by
  rw [located_eq] at hsplit
  cases before with
  | nil =>
    obtain ⟨hroot, -⟩ := List.cons.inj hsplit
    simpa using (congrArg Prod.fst hroot).symm
  | cons root before =>
    obtain ⟨rfl, htail⟩ := List.cons.inj hsplit
    have hv := suits_root.mp (hbefore _ List.mem_cons_self)
    have hmem : (path, j) ∈ (v.located []).tail := by simp [htail]
    simpa using ne_nil_of_mem_tail hv hmem

end Schema

/-! ## Reports -/

theorem intercalate_dots (first : String) (path : List String) :
    ".".intercalate (first :: path) = first ++ String.join (path.map ("." ++ ·)) := by
  induction path generalizing first with
  | nil => simp
  | cons key path ih =>
    rw [String.intercalate_cons_cons, ih, List.map_cons, String.join_cons]
    simp only [String.append_assoc]

namespace Schema

/-- A value is read if it is an object of objects and nulls, and is then written back as it was.
Else the first value that does not suit is reported. What is built is written with all its keys and
read back. -/
theorem read_exactly_if_shaped (v : Json) :
    ((∃ s, ofJson v = .ok s) ↔
      v.kind = .object ∧
        ∀ entry ∈ (v.located []).tail, entry.2.kind = .object ∨ entry.2.kind = .null) ∧
    (∀ s, ofJson v = .ok s → s.toJson = v ∧ (v.Distinct → Built s)) ∧
    (∀ e, ofJson v = .error e → ∃ before path j after,
      v.located [] = before ++ (path, j) :: after ∧ (∀ entry ∈ before, Suits entry) ∧
      ¬ Suits (path, j) ∧ (path = [] ↔ before = []) ∧ e = .schemaShape path j.kind ∧
      e.message = "expected " ++ (if path = [] then "an object" else "an object or null") ++
        " at `" ++ ("$" ++ String.join (path.map ("." ++ ·))) ++ "`, found " ++ j.kind.text) ∧
    ∀ s, Built s → s.toJson.Distinct ∧ ofJson s.toJson = .ok s := by
  have hread := ofJson_reads v
  refine ⟨?_, ?_, ?_, fun s built => ⟨distinct_toJson.mpr built.distinct, ofJson_toJson s⟩⟩
  · rw [← forall_suits_iff]
    generalize ofJson v = x at hread
    cases hread with
    | ok hall hs => exact iff_of_true ⟨_, rfl⟩ hall
    | error before path j after hsplit hbefore hnot =>
      refine iff_of_false (by simp) fun hall => hnot (hall _ ?_)
      simp [hsplit]
  · intro s hs
    rw [hs] at hread
    cases hread with
    | ok hall hs =>
      refine ⟨hs, fun distinct => ?_⟩
      rw [← hs, distinct_toJson] at distinct
      exact built_iff.mpr distinct
  · intro e he
    rw [he] at hread
    cases hread with
    | error before path j after hsplit hbefore hnot =>
      have hroot := path_eq_nil_iff hsplit hbefore
      refine ⟨before, path, j, after, hsplit, hbefore, hnot, hroot, rfl, ?_⟩
      rw [← intercalate_dots]
      cases path <;> rfl

/-- A key that gets a branch in place of its leaf keeps its place and is read back there. A text
below a page is reported before the list that follows it. -/
theorem rebuilt_page_and_misfit :
    let page := ((nil.insert "list" .leaf).insert "title" .leaf).insert "list"
      (.branch (nil.insert "row" .leaf))
    let misfit : Json := .object (.cons "page" (.object (.cons "rows" .null
      (.cons "title" (.string "oops") (.cons "menu" (.array .nil) .nil)))) .nil)
    Built page ∧ page.keys = ["list", "title"] ∧ page.toJson.Distinct ∧
      ofJson page.toJson = .ok page ∧
      (∀ entry ∈ (page.toJson.located []).tail, entry.2.kind = .object ∨ entry.2.kind = .null) ∧
      ∃ e, ofJson misfit = .error e ∧
        (∃ path kind, e = .schemaShape path kind ∧ path = ["page", "title"]) ∧
        e.message = "expected an object or null at `$.page.title`, found a string" := by
  intro page misfit
  have built : Built page := .branch _ (.leaf _ (.leaf _ .nil)) (.leaf _ .nil)
  obtain ⟨hshape, -, -, hbuilt⟩ := read_exactly_if_shaped page.toJson
  obtain ⟨distinct, hread⟩ := hbuilt page built
  have hmisfit : ofJson misfit = .error (.schemaShape ["page", "title"] .string) := rfl
  obtain ⟨-, -, hreport, -⟩ := read_exactly_if_shaped misfit
  obtain ⟨_, path, j, _, -, -, -, -, he, hmessage⟩ := hreport _ hmisfit
  obtain ⟨hpath, hkind⟩ := Error.schemaShape.inj he
  refine ⟨built, by decide, distinct, hread, (hshape.mp ⟨page, hread⟩).2, _, hmisfit,
    ⟨path, j.kind, he, hpath.symm⟩, ?_⟩
  rw [hmessage, ← hpath, ← hkind]
  decide

end Schema

end PageNav
