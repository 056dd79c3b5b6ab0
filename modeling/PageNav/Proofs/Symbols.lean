import PageNav.Navigation.SymbolTable

/-!
# Symbols stand for texts

As long as the numbers last, a symbol and its text determine each other, and a table that grows
keeps both.
-/

namespace PageNav.SymbolTable

/-- The symbols are those of the texts and no others. -/
def Sound (t : SymbolTable) : Prop :=
  ∀ text symbol, t.symbols[text]? = some symbol ↔ t.text? symbol = some text

/-- Every symbol of `t` stands for the same text in `u`. -/
def Extends (t u : SymbolTable) : Prop :=
  t.size ≤ u.size ∧ ∀ symbol text, t.text? symbol = some text → u.text? symbol = some text

theorem Extends.refl (t : SymbolTable) : Extends t t :=
  ⟨Nat.le_refl _, fun _ _ h => h⟩

theorem Extends.trans {t u v : SymbolTable} (htu : Extends t u) (huv : Extends u v) :
    Extends t v :=
  ⟨Nat.le_trans htu.1 huv.1, fun symbol text h => huv.2 symbol text (htu.2 symbol text h)⟩

theorem sound_empty : Sound {} := by
  intro text symbol
  simp [text?]

theorem text?_push {t : SymbolTable} {text : String} {symbols : Std.HashMap String Symbol}
    (symbol : Symbol) :
    text? ⟨t.texts.push text, symbols⟩ symbol =
      if symbol.index.toNat = t.size then some text else t.text? symbol := by
  rw [text?, text?, Array.getElem?_push]
  rfl

theorem insert_old {t : SymbolTable} {text : String} {symbol : Symbol}
    (h : t.symbols[text]? = some symbol) : t.insert text = (symbol, t) := by
  rw [insert, h]

theorem insert_new {t : SymbolTable} {text : String} (h : t.symbols[text]? = none) :
    t.insert text = (⟨t.size.toUInt32⟩,
      ⟨t.texts.push text, t.symbols.insert text ⟨t.size.toUInt32⟩⟩) := by
  rw [insert, h]

theorem extends_insert (t : SymbolTable) (text : String) : Extends t (t.insert text).2 := by
  cases h : t.symbols[text]? with
  | some symbol =>
    rw [insert_old h]
    exact Extends.refl t
  | none =>
    rw [insert_new h]
    refine ⟨by simp [size], ?_⟩
    intro symbol u hu
    have hlt : symbol.index.toNat < t.size := by
      obtain ⟨hlt, -⟩ := Array.getElem?_eq_some_iff.mp hu
      exact hlt
    rw [text?_push, if_neg (by omega), hu]

theorem size_insert_le (t : SymbolTable) (text : String) :
    (t.insert text).2.size ≤ t.size + 1 := by
  cases h : t.symbols[text]? with
  | some symbol => rw [insert_old h]; exact Nat.le_succ _
  | none => rw [insert_new h]; simp [size]

theorem index_eq_iff {n : Nat} (hn : n < UInt32.size) (symbol : Symbol) :
    symbol.index.toNat = n ↔ symbol = ⟨n.toUInt32⟩ := by
  constructor
  · intro h
    have hindex : symbol.index = n.toUInt32 := by
      rw [← UInt32.toNat_inj, h]
      exact (UInt32.toNat_ofNat_of_lt' hn).symm
    rw [← hindex]
  · rintro rfl
    exact UInt32.toNat_ofNat_of_lt' hn

theorem insert_sound {t : SymbolTable} (sound : t.Sound) {text : String}
    (few : (t.insert text).2.size ≤ UInt32.size) : (t.insert text).2.Sound := by
  cases h : t.symbols[text]? with
  | some symbol =>
    rw [insert_old h]
    exact sound
  | none =>
    rw [insert_new h] at few ⊢
    have hsize : t.size < UInt32.size := by simp [size] at few ⊢; omega
    intro u symbol
    rw [text?_push, Std.HashMap.getElem?_insert]
    by_cases hu : text = u
    · subst hu
      simp only [BEq.rfl, if_true, Option.some.injEq]
      by_cases hsymbol : symbol.index.toNat = t.size
      · simp only [hsymbol, if_true, iff_true]
        exact ((index_eq_iff hsize symbol).mp hsymbol).symm
      · have hnot : t.text? symbol ≠ some text := by
          intro hold
          rw [(sound text symbol).mpr hold] at h
          exact absurd h (by simp)
        simp only [hsymbol, if_false, hnot, iff_false]
        rintro rfl
        exact hsymbol ((index_eq_iff hsize _).mpr rfl)
    · have hbeq : (text == u) = false := by simpa using hu
      rw [hbeq, if_neg (by decide)]
      by_cases hsymbol : symbol.index.toNat = t.size
      · have hnone : t.text? symbol = none := by
          rw [text?, Array.getElem?_eq_none]
          exact Nat.le_of_eq hsymbol.symm
        simp [hsymbol, hu, sound u symbol, hnone]
      · simp [hsymbol, sound u symbol]

theorem text?_insert {t : SymbolTable} (sound : t.Sound) {text : String}
    (few : (t.insert text).2.size ≤ UInt32.size) :
    (t.insert text).2.text? (t.insert text).1 = some text := by
  rw [← insert_sound sound few text (t.insert text).1]
  cases h : t.symbols[text]? with
  | some symbol => rw [insert_old h]; exact h
  | none => rw [insert_new h]; simp

theorem Sound.symbol_unique {t : SymbolTable} (sound : t.Sound) {s u : Symbol} {text : String}
    (hs : t.text? s = some text) (hu : t.text? u = some text) : s = u := by
  rw [← sound] at hs hu
  rw [hs, Option.some.injEq] at hu
  exact hu

end PageNav.SymbolTable
