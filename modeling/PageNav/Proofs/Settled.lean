import Mathlib.Tactic.ByContra
import PageNav.Command.Run
import PageNav.Proofs.Extension
import PageNav.Proofs.ReadBack

/-!
# Extending a page twice

What a layout shows is a schema again, with each row filter as a branch of its own. Extending that
schema adds nothing, as long as no container word is the key of a row filter.
-/

namespace PageNav

/-! ## Schemas as JSON -/

namespace Schema

theorem ofMembers_toMembers (path : List String) (s : Schema) :
    ofMembers path s.toMembers = .ok s := by
  induction s generalizing path with
  | nil => rfl
  | leaf k rest ih => rw [toMembers, ofMembers, entryOfJson, ih]; rfl
  | branch k child rest ihchild ih => rw [toMembers, ofMembers, entryOfJson, ihchild, ih]; rfl

theorem ofJson_toJson (s : Schema) : ofJson s.toJson = .ok s :=
  ofMembers_toMembers [] s

theorem of_find? {P Q : Schema → Prop} (hleaf : ∀ k rest, P (leaf k rest) → P rest)
    (hbranch : ∀ k child rest, P (branch k child rest) → Q child ∧ P rest) {s c : Schema} (h : P s)
    {key : String} (hfind : s.find? key = some (.branch c)) : Q c := by
  induction s with
  | nil => exact absurd hfind (by simp [find?])
  | leaf k rest ih =>
    rw [find?] at hfind
    split at hfind
    · exact absurd hfind (by simp)
    · exact ih (hleaf k rest h) hfind
  | branch k child rest _ ih =>
    obtain ⟨hchild, hrest⟩ := hbranch k child rest h
    rw [find?] at hfind
    split at hfind
    · obtain rfl := Entry.branch.inj (Option.some.inj hfind)
      exact hchild
    · exact ih hrest hfind

/-- Whether no branch gets a row filter. -/
def Settled (table : RowTable) : Schema → Prop
  | nil => True
  | leaf _ rest => rest.Settled table
  | branch k child rest =>
    (Layout.ofSchema table child).filterFor? table k = none ∧ child.Settled table ∧
      rest.Settled table

end Schema

namespace Layout

theorem toMembers_ofSchema {table : RowTable} {s : Schema} (h : s.Settled table) :
    (ofSchema table s).toMembers = s.toMembers := by
  induction s with
  | nil => rfl
  | leaf k rest ih => rw [ofSchema, toMembers, ih h, Schema.toMembers]
  | branch k child rest ihchild ih =>
    obtain ⟨hnone, hchild, hrest⟩ := h
    rw [ofSchema, under, hnone, toMembers, ihchild hchild, ih hrest, Schema.toMembers]

/-! ## What a layout shows -/

/-- The schema with the row filters as branches after the other keys. -/
def shown : Layout → Schema
  | plain => .nil
  | filtered _ columns => .branch filterKey columns.shown .nil
  | leaf k rest => .leaf k rest.shown
  | branch k child rest => .branch k child.shown rest.shown

theorem toMembers_shown (l : Layout) : l.shown.toMembers = l.toMembers := by
  induction l <;> simp_all [shown, toMembers, Schema.toMembers]

theorem toJson_shown (l : Layout) : l.shown.toJson = l.toJson := by
  rw [Schema.toJson, toMembers_shown, toJson]

theorem keys_shown {l : Layout} (h : l.rowFilter? = none) : l.shown.keys = l.keys := by
  induction l with
  | plain => rfl
  | filtered _ _ => exact absurd h (by simp [rowFilter?])
  | leaf k rest ih | branch k child rest _ ih => rw [shown, Schema.keys, keys, ih h]

theorem find?_shown {l : Layout} (h : l.rowFilter? = none) (key : String) :
    l.shown.find? key = (l.find? key).map (Entry.map shown) := by
  induction l with
  | plain => rfl
  | filtered _ _ => exact absurd h (by simp [rowFilter?])
  | leaf k rest ih | branch k child rest _ ih =>
    rw [shown, Schema.find?, find?, ih h]
    split <;> rfl

theorem find?_shown_of_find? {l c : Layout} {key : String} (h : l.find? key = some (.branch c)) :
    l.shown.find? key = some (.branch c.shown) := by
  induction l with
  | plain => exact absurd h (by simp [find?])
  | filtered _ _ => exact absurd h (by simp [find?])
  | leaf k rest ih =>
    rw [find?] at h
    rw [shown, Schema.find?]
    split at h
    · exact absurd h (by simp)
    · next hne => rw [if_neg hne, ih h]
  | branch k child rest _ ih =>
    rw [find?] at h
    rw [shown, Schema.find?]
    split at h
    · next heq =>
      obtain rfl := Entry.branch.inj (Option.some.inj h)
      rw [if_pos heq]
    · next hne => rw [if_neg hne, ih h]

theorem filterKey_mem_shown {l : Layout} (h : l.rowFilter?.isSome) : filterKey ∈ l.shown.keys := by
  induction l with
  | plain => exact absurd h (by simp [rowFilter?])
  | filtered _ _ => exact List.mem_cons_self
  | leaf k rest ih | branch k child rest _ ih => exact List.mem_cons_of_mem _ (ih h)

/-! ## No further row filters -/

theorem suffix_of_stem? {word key : List Char} (h : RowTable.stem? word key ≠ none) :
    word <:+ key := by
  simp only [RowTable.stem?] at h
  split at h
  · next hstem =>
    simp only [Bool.and_eq_true, List.isSuffixOf_iff_suffix] at hstem
    exact hstem.1.2
  · exact absurd rfl h

theorem stem?_filterKey {word : List Char} (h : RowTable.stem? word filterKey.toList ≠ none) :
    word = filterKey.toList := by
  have hkey : filterKey.toList = ['w', 'i', 't', 'h'] := rfl
  rw [hkey] at h ⊢
  have hsuffix := suffix_of_stem? h
  simp only [List.suffix_cons_iff, List.suffix_nil] at hsuffix
  -- what stands before a shorter end of the key does not end in a separator
  rcases hsuffix with rfl | rfl | rfl | rfl | rfl
  · rfl
  all_goals exact absurd (by decide) h

/-- The key of a row filter is a container only if it is a container word itself. -/
theorem container?_filterKey {table : RowTable} (apart : ∀ pair ∈ table.pairs, pair.1 ≠ filterKey) :
    table.container? filterKey = none := by
  have hnone : table.pairs.filterMap (RowTable.containerBy? filterKey) = [] := by
    rw [List.filterMap_eq_nil_iff]
    intro pair hpair
    rw [RowTable.containerBy?, Option.map_eq_none_iff]
    by_contra hstem
    exact apart pair hpair (String.toList_inj.mp (stem?_filterKey hstem))
  rw [RowTable.container?, hnone]
  rfl

theorem keys_shown_eq_nil {table : RowTable} {s : Schema} {key : String}
    (h : ((ofSchema table s).under table key).keys = []) :
    ((ofSchema table s).under table key).shown.keys = [] := by
  have hfilter := rowFilter?_under (rowFilter?_ofSchema table s) table key
  cases hsome : (ofSchema table s).filterFor? table key with
  | none => rw [keys_shown (hfilter.trans hsome), h]
  | some filter =>
    have hitem := mem_keys_of_find? (filterFor?_eq_some hsome).1
    rw [keys_under] at h
    rw [h] at hitem
    exact absurd hitem List.not_mem_nil

/-- A level that shows its row filter gets no other one. One that got none still gets none, since it
shows the same keys. -/
theorem filterFor?_shown (table : RowTable) (key : String) (s : Schema) :
    (ofSchema table ((ofSchema table s).under table key).shown).filterFor? table key = none := by
  by_contra hsome
  obtain ⟨filter, hsome⟩ := Option.ne_none_iff_exists'.mp hsome
  obtain ⟨container, hcontainer, -, hitem, hcolumns, hapart⟩ := filterFor?_eq_some_iff.mp hsome
  rw [keys_ofSchema] at hapart
  have hnone : ((ofSchema table s).under table key).rowFilter? = none := by
    by_contra hfilter
    exact hapart (filterKey_mem_shown (Option.isSome_iff_ne_none.mpr hfilter))
  have hshown := find?_shown hnone container.itemKey
  rw [← toSchema_ofSchema table (Layout.shown _), find?_toSchema, hitem] at hshown
  obtain ⟨entry, hentry, hbranch⟩ := Option.map_eq_some_iff.mp hshown.symm
  cases entry with
  | leaf => exact absurd hbranch (by simp [Entry.map])
  | branch item =>
    have hsame : item.shown = filter.columns.toSchema := Entry.branch.inj hbranch
    rw [find?_under] at hentry
    have hkeys : item.keys ≠ [] := by
      intro hnil
      obtain ⟨raw, rfl⟩ := find?_ofSchema hentry
      have hnil' := keys_shown_eq_nil hnil
      rw [hsame, keys_toSchema] at hnil'
      exact hcolumns hnil'
    rw [keys_shown hnone, keys_under] at hapart
    have hgets : (ofSchema table s).filterFor? table key = some ⟨container.itemKey, item⟩ :=
      filterFor?_eq_some_iff.mpr ⟨container, hcontainer, rfl, hentry, hkeys, hapart⟩
    rw [rowFilter?_under (rowFilter?_ofSchema table s), hgets] at hnone
    exact absurd hnone (by simp)

section

variable {table : RowTable} (apart : ∀ pair ∈ table.pairs, pair.1 ≠ filterKey)
include apart

theorem settled_withFilter {filter : RowFilter} (hcolumns : filter.columns.shown.Settled table)
    {l : Layout} (h : l.shown.Settled table) : (l.withFilter filter).shown.Settled table := by
  have hnone (level : Layout) : level.filterFor? table filterKey = none := by
    rw [filterFor?, container?_filterKey apart]
    rfl
  induction l with
  | plain => exact ⟨hnone _, hcolumns, trivial⟩
  | filtered _ _ => exact h
  | leaf k rest ih => exact ih h
  | branch k child rest _ ih => exact ⟨h.1, h.2.1, ih h.2.2⟩

theorem settled_under {l : Layout} (h : l.shown.Settled table) (key : String) :
    (l.under table key).shown.Settled table := by
  unfold under
  cases hfilter : l.filterFor? table key with
  | none => exact h
  | some filter =>
    have hitem := find?_shown_of_find? (filterFor?_eq_some hfilter).1
    refine settled_withFilter apart ?_ h
    exact Schema.of_find? (P := Schema.Settled table) (fun _ _ h => h) (fun _ _ _ h => h.2) h hitem

theorem settled_shown (s : Schema) : (ofSchema table s).shown.Settled table := by
  induction s with
  | nil => trivial
  | leaf k rest ih => exact ih
  | branch k child rest ihchild ih =>
    exact ⟨filterFor?_shown table k child, settled_under apart ihchild k, ih⟩

theorem toJson_ofSchema_shown (s : Schema) :
    (ofSchema table (ofSchema table s).shown).toJson = (ofSchema table s).toJson := by
  rw [toJson, toMembers_ofSchema (settled_shown apart s), toMembers_shown, toJson]

end

/-! ## The shown schema as a text -/

theorem mem_keys_shown_withFilter {filter : RowFilter} {l : Layout} {k : String}
    (h : k ∈ (l.withFilter filter).shown.keys) : k ∈ l.shown.keys ∨ k = filterKey := by
  induction l with
  | plain => exact Or.inr (List.mem_singleton.mp h)
  | filtered _ _ => exact Or.inl h
  | leaf key rest ih | branch key child rest _ ih =>
    rcases List.mem_cons.mp h with rfl | h
    · exact Or.inl List.mem_cons_self
    · exact (ih h).imp_left (List.mem_cons_of_mem _)

theorem distinct_withFilter_shown {filter : RowFilter} (hcolumns : filter.columns.shown.Distinct)
    {l : Layout} (apart : filterKey ∉ l.keys) (h : l.shown.Distinct) :
    (l.withFilter filter).shown.Distinct := by
  have hkey {k : String} {rest : Layout} (hk : k ∉ rest.shown.keys) (hne : k ≠ filterKey) :
      k ∉ (rest.withFilter filter).shown.keys :=
    fun hmem => (mem_keys_shown_withFilter hmem).elim hk hne
  induction l with
  | plain => exact ⟨List.not_mem_nil, hcolumns, trivial⟩
  | filtered _ _ => exact h
  | leaf k rest ih =>
    rw [keys, List.mem_cons, not_or] at apart
    exact ⟨hkey h.1 (Ne.symm apart.1), ih apart.2 h.2⟩
  | branch k child rest _ ih =>
    rw [keys, List.mem_cons, not_or] at apart
    exact ⟨hkey h.1 (Ne.symm apart.1), h.2.1, ih apart.2 h.2.2⟩

theorem distinct_shown (table : RowTable) {s : Schema} (h : s.Distinct) :
    (ofSchema table s).shown.Distinct := by
  induction s with
  | nil => trivial
  | leaf k rest ih => 
    refine ⟨?_, ih h.2⟩
    rw [keys_shown (rowFilter?_ofSchema table rest), keys_ofSchema]
    exact h.1
  | branch k child rest ihchild ih =>
    refine ⟨?_, ?_, ih h.2.2⟩
    · rw [keys_shown (rowFilter?_ofSchema table rest), keys_ofSchema]
      exact h.1
    · have hchild := ihchild h.2.1
      unfold under
      cases hfilter : (ofSchema table child).filterFor? table k with
      | none => exact hchild
      | some filter =>
        obtain ⟨hitem, hapart⟩ := filterFor?_eq_some hfilter
        refine distinct_withFilter_shown ?_ ?_ hchild
        · exact Schema.of_find? (P := Schema.Distinct) (fun _ _ h => h.2) (fun _ _ _ h => h.2)
            hchild (find?_shown_of_find? hitem)
        · rw [← contains_iff, hapart]
          exact Bool.false_ne_true

theorem depth_withFilter_le {filter : RowFilter} {room : Nat}
    (hcolumns : filter.columns.shown.depth < room) {l : Layout} (h : l.shown.depth ≤ room) :
    (l.withFilter filter).shown.depth ≤ room := by
  induction l with
  | plain => exact Nat.max_le.mpr ⟨hcolumns, Nat.zero_le _⟩
  | filtered _ _ => exact h
  | leaf k rest ih => exact ih h
  | branch k child rest _ ih =>
    obtain ⟨hchild, hrest⟩ := Nat.max_le.mp h
    exact Nat.max_le.mpr ⟨hchild, ih hrest⟩

theorem depth_shown_le (table : RowTable) (s : Schema) :
    (ofSchema table s).shown.depth ≤ s.depth := by
  induction s with
  | nil => exact Nat.le_refl _
  | leaf k rest ih => exact ih
  | branch k child rest ihchild ih =>
    refine Nat.max_le.mpr ⟨Nat.le_trans (Nat.succ_le_succ ?_) (Nat.le_max_left _ _),
      Nat.le_trans ih (Nat.le_max_right _ _)⟩
    unfold under
    cases hfilter : (ofSchema table child).filterFor? table k with
    | none => exact ihchild
    | some filter =>
      have hitem := find?_shown_of_find? (filterFor?_eq_some hfilter).1
      refine depth_withFilter_le ?_ ihchild
      exact Schema.of_find? (P := (·.depth ≤ child.depth)) (Q := (·.depth < child.depth))
        (fun _ _ h => h) (fun _ _ _ h => Nat.max_le.mp h) ihchild hitem

theorem ofText_pretty {table : RowTable} {text : String} {s : Schema}
    (h : Schema.ofText text = .ok s) :
    Schema.ofText ((ofSchema table s).toJson.pretty ++ "\n") = .ok (ofSchema table s).shown := by
  obtain ⟨distinct, fits⟩ := Schema.of_ofText h
  have hread := Schema.ofText_pretty (distinct_shown table distinct)
    (Nat.lt_of_le_of_lt (depth_shown_le table s) fits)
  rw [toJson_shown] at hread
  rw [Schema.ofText, hread]
  simp only [← toJson_shown, Schema.ofJson_toJson]

end Layout

/-! ## Printing a page twice -/

namespace Command

theorem bind_eq_ok {ε α β : Type} {x : ExceptT ε Id α} {f : α → ExceptT ε Id β} {b : β} :
    Id.run (x >>= f).run = .ok b ↔ ∃ a, Id.run x.run = .ok a ∧ Id.run (f a).run = .ok b := by
  change Id.run (ExceptT.bindCont f (Id.run x.run)) = .ok b ↔ _
  cases Id.run x.run with
  | error e => simp [ExceptT.bindCont]
  | ok a =>
    simp only [Except.ok.injEq, exists_eq_left']
    rfl

theorem mapError_eq_ok {ε ε' α : Type} {x : Except ε α} {f : ε → ε'} {a : α} :
    x.mapError f = .ok a ↔ x = .ok a := by
  cases x <;> simp [Except.mapError]

section

variable {reading : Reading Id} {source : Source}

theorem readSchema_eq_ok {s : Schema} :
    Id.run (readSchema reading source).run = .ok s ↔
      ∃ text, Id.run (reading source) = .ok text ∧ Schema.ofText text = .ok s := by
  rw [readSchema, bind_eq_ok]
  exact exists_congr fun text => and_congr mapError_eq_ok mapError_eq_ok

theorem run_extend_eq_ok {terminal : Bool} {config : Option String} {output : String} :
    Id.run (run reading terminal (.extend config source)).run = .ok output ↔
      ∃ settings s, Id.run (readSettings reading config).run = .ok settings ∧
        Id.run (readSchema reading source).run = .ok s ∧
        (Layout.ofSchema settings.rowTable s).toJson.pretty ++ "\n" = output := by
  simp only [run, bind_eq_ok, exists_and_left]
  exact exists_congr fun settings => and_congr_right fun _ => exists_congr fun s =>
    and_congr_right fun _ => Iff.of_eq (Except.ok.injEq _ _)

end

end Command

namespace Layout

/-- A page with its row filters is a schema that gets no more of them, if no container word is the
key of a row filter. So what is printed for a page is printed for itself again. -/
theorem extension_settles {table : RowTable} (apart : ∀ pair ∈ table.pairs, pair.1 ≠ filterKey) :
    (∀ s, ∃ again, Schema.ofJson (ofSchema table s).toJson = .ok again ∧
      (ofSchema table again).toJson = (ofSchema table s).toJson) ∧
    ∀ (reading reading' : Command.Reading Id) (terminal : Bool) (config : Option String)
      (source source' : Source) (settings : Settings) (output : String),
      settings.rowTable = table →
      Id.run (Command.readSettings reading config).run = .ok settings →
      Id.run (Command.readSettings reading' config).run = .ok settings →
      Id.run (Command.run reading terminal (.extend config source)).run = .ok output →
      Id.run (reading' source') = .ok output →
      Id.run (Command.run reading' terminal (.extend config source')).run = .ok output := by
  constructor
  · intro s
    refine ⟨(ofSchema table s).shown, ?_, toJson_ofSchema_shown apart s⟩
    rw [← toJson_shown, Schema.ofJson_toJson]
  · rintro reading reading' terminal config source source' settings output rfl hsettings hsettings'
      hrun hsource
    obtain ⟨settings₀, s, hread, hschema, rfl⟩ := Command.run_extend_eq_ok.mp hrun
    obtain rfl := Except.ok.inj (hread.symm.trans hsettings)
    obtain ⟨text, -, htext⟩ := Command.readSchema_eq_ok.mp hschema
    refine Command.run_extend_eq_ok.mpr ⟨settings₀, (ofSchema settings₀.rowTable s).shown, hsettings',
      Command.readSchema_eq_ok.mpr ⟨_, hsource, ofText_pretty htext⟩, ?_⟩
    rw [toJson_ofSchema_shown apart]

/-- The list of users is printed as it was, and as the first time it got two row filters. -/
theorem staffPage_settles : ∃ output,
    (∀ pair ∈ RowTable.standard.pairs, pair.1 ≠ filterKey) ∧
    output = (ofSchema .standard staffPage).toJson.pretty ++ "\n" ∧
    (ofSchema .standard staffPage).shown ≠ staffPage ∧
    Id.run (Command.run (fun _ => pure (.ok output)) false (.extend none .standardInput)).run =
      .ok output := by
  have apart : ∀ pair ∈ RowTable.standard.pairs, pair.1 ≠ filterKey := by decide
  have distinct : staffPage.Distinct :=
    ⟨by decide, ⟨by decide, ⟨by decide, ⟨by decide, ⟨by decide, ⟨by decide, trivial⟩, trivial⟩,
      trivial⟩⟩, trivial⟩, trivial⟩
  have hschema : Schema.ofText (staffPage.toJson.pretty ++ "\n") = .ok staffPage := by
    rw [Schema.ofText, Schema.ofText_pretty distinct (by decide)]
    exact staffPage.ofJson_toJson
  let reading : Command.Reading Id := fun _ => pure (.ok (staffPage.toJson.pretty ++ "\n"))
  have hrun : Id.run (Command.run reading false (.extend none .standardInput)).run =
      .ok ((ofSchema .standard staffPage).toJson.pretty ++ "\n") :=
    Command.run_extend_eq_ok.mpr
      ⟨{}, staffPage, rfl, Command.readSchema_eq_ok.mpr ⟨_, rfl, hschema⟩, rfl⟩
  exact ⟨_, apart, rfl, by decide, (extension_settles apart).2 reading _ false none .standardInput
    .standardInput {} _ rfl rfl rfl hrun rfl⟩

/-- A page may get a row filter for each time that it is extended if the key of a row filter is a
container word. -/
example :
    let table : RowTable := ⟨[("rows", "row"), ("with", "a")]⟩
    let page : Schema := .branch "rows" (.branch "row" (.branch "a" (.leaf "b" .nil) .nil) .nil) .nil
    let shown := (ofSchema table page).shown
    (ofSchema table shown).shown ≠ shown := by
  decide

end Layout

end PageNav
