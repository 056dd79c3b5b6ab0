import Std.Data.HashMap

/-!
# Symbols

Long texts are compared by number. Equal texts get the same number and different texts different
ones, as long as there are at most `2 ^ 32` of them.
-/

namespace PageNav

/-- The number of a text. -/
structure Symbol where
  index : UInt32
deriving DecidableEq, Hashable, Repr, Inhabited

/-- The texts that have a number, in the order of their numbers. -/
structure SymbolTable where
  texts : Array String := #[]
  symbols : Std.HashMap String Symbol := ∅
deriving Inhabited

namespace SymbolTable

def size (t : SymbolTable) : Nat :=
  t.texts.size

def isEmpty (t : SymbolTable) : Bool :=
  t.texts.isEmpty

/-- The symbol of a text, which is a new one if the text has none. -/
def insert (t : SymbolTable) (text : String) : Symbol × SymbolTable :=
  match t.symbols[text]? with
  | some symbol => (symbol, t)
  | none =>
    let symbol : Symbol := ⟨t.size.toUInt32⟩
    (symbol, { texts := t.texts.push text, symbols := t.symbols.insert text symbol })

def text? (t : SymbolTable) (symbol : Symbol) : Option String :=
  t.texts[symbol.index.toNat]?

end SymbolTable

end PageNav
