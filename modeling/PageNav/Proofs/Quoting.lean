import Mathlib.Tactic.SplitIfs
import PageNav.Json.Printer
import PageNav.Json.Scalar

/-!
# Strings in JSON read back

The escapes are given as a grammar, and each of them is read as what it stands for. So a text that
is written as a string is read back as the same text, whatever follows it, and no string is the
beginning of another one.
-/

namespace PageNav.Json

open Scalar

/-! ## Escapes -/

/-- The digit of a number below sixteen. Letters may be small or capital. -/
def HexDigit (c : Char) (n : Nat) : Prop :=
  n < 16 ∧ (c = n.digitChar ∨ c = n.digitChar.toUpper)

instance (c : Char) (n : Nat) : Decidable (HexDigit c n) := inferInstanceAs (Decidable (_ ∧ _))

inductive FourDigits : List Char → Nat → Prop
  | mk {a b c d : Char} {i j k l : Nat} : HexDigit a i → HexDigit b j → HexDigit c k →
      HexDigit d l → FourDigits [a, b, c, d] (0x1000 * i + 0x100 * j + 0x10 * k + l)

/-- What stands behind a backslash, and the character that is meant by it. -/
inductive Escape : List Char → Char → Prop
  | quote : Escape ['"'] '"'
  | backslash : Escape ['\\'] '\\'
  | slash : Escape ['/'] '/'
  | backspace : Escape ['b'] '\x08'
  | tab : Escape ['t'] '\t'
  | lineFeed : Escape ['n'] '\n'
  | formFeed : Escape ['f'] '\x0c'
  | carriageReturn : Escape ['r'] '\r'
  | number {digits : List Char} {n : Nat} (written : FourDigits digits n)
      (whole : n < 0xD800 ∨ 0xE000 ≤ n) : Escape ('u' :: digits) (Char.ofNat n)
  /-- A character beyond the first 65536, by its two halves. -/
  | halves {first second : List Char} {high low : Nat} (first_written : FourDigits first high)
      (second_written : FourDigits second low) (first_half : 0xD800 ≤ high ∧ high < 0xDC00)
      (second_half : 0xDC00 ≤ low ∧ low < 0xE000) :
      Escape ('u' :: (first ++ '\\' :: 'u' :: second))
        (Char.ofNat (0x10000 + (high - 0xD800) * 0x400 + (low - 0xDC00)))

theorem HexDigit.hexDigit? {c : Char} {n : Nat} (h : HexDigit c n) : hexDigit? c = some n := by
  have hall : ∀ n < 16, Scalar.hexDigit? n.digitChar = some n ∧
      Scalar.hexDigit? n.digitChar.toUpper = some n := by decide
  obtain ⟨hn, rfl | rfl⟩ := h
  · exact (hall n hn).1
  · exact (hall n hn).2

theorem FourDigits.fourDigits {digits : List Char} {n : Nat} (h : FourDigits digits n)
    (rest : List Char) : fourDigits (digits ++ rest) = .ok (n, rest) := by
  cases h with
  | @mk a b c d i j k l ha hb hc hd =>
    have hsize : ¬ (String.ofList [a, b, c, d]).utf8ByteSize < 4 := by
      have := a.utf8Size_pos
      have := b.utf8Size_pos
      have := c.utf8Size_pos
      have := d.utf8Size_pos
      simp only [String.ofList_cons, String.utf8ByteSize_append, String.utf8ByteSize_singleton]
      omega
    have hvalue : [a, b, c, d].foldlM (fun n c => (Scalar.hexDigit? c).map (16 * n + ·)) 0 =
        some (0x1000 * i + 0x100 * j + 0x10 * k + l) := by
      simp only [List.foldlM, ha.hexDigit?, hb.hexDigit?, hc.hexDigit?, hd.hexDigit?,
        Option.map_some, Option.bind_eq_bind, Option.bind_some, Option.pure_def, Option.some.injEq]
      omega
    have htake : ([a, b, c, d] ++ rest).take 4 = [a, b, c, d] := rfl
    simp only [Scalar.fourDigits, htake, if_neg hsize, hvalue]
    rfl

theorem Escape.escaped {code : List Char} {c : Char} (h : Escape code c) (rest : List Char) :
    escaped .kept (code ++ rest) = .ok (c, rest) := by
  cases h with
  | @number digits n written whole =>
    have hfirst : isFirstHalf n = false := by simp [isFirstHalf]; omega
    have hsecond : isSecondHalf n = false := by simp [isSecondHalf]; omega
    change numberedChar .kept (digits ++ rest) = _
    simp only [numberedChar, written.fourDigits, bind, Except.bind, hfirst, hsecond]
    rfl
  | @halves first second high low first_written second_written first_half second_half =>
    have hfirst : isFirstHalf high = true := by simpa [isFirstHalf] using first_half
    have hsecond : isSecondHalf low = true := by simpa [isSecondHalf] using second_half
    change numberedChar .kept ((first ++ '\\' :: 'u' :: second) ++ rest) = _
    rw [List.append_assoc]
    simp only [numberedChar, first_written.fourDigits, bind, Except.bind, hfirst, if_true]
    change secondHalf high ('\\' :: 'u' :: (second ++ rest)) = _
    simp only [secondHalf, second_written.fourDigits, bind, Except.bind, hsecond, if_true]
    rfl
  | _ => rfl

theorem escape_of_control {c : Char} (h : c.toNat < 0x20) :
    Escape ['u', '0', '0', (c.toNat / 16).digitChar, (c.toNat % 16).digitChar] c := by
  have hzero : HexDigit '0' 0 := by decide
  have hhigh : HexDigit (c.toNat / 16).digitChar (c.toNat / 16) := ⟨by omega, .inl rfl⟩
  have hlow : HexDigit (c.toNat % 16).digitChar (c.toNat % 16) := ⟨by omega, .inl rfl⟩
  have hnumber := Escape.number (.mk hzero hzero hhigh hlow) (.inl (by omega))
  have hvalue : 0x1000 * 0 + 0x100 * 0 + 0x10 * (c.toNat / 16) + c.toNat % 16 = c.toNat := by omega
  rwa [hvalue, Char.ofNat_toNat] at hnumber

/-! ## Strings -/

theorem escapeChar_cases (c : Char) :
    (escapeChar c = [c] ∧ c ≠ '"' ∧ c ≠ '\\' ∧ ¬ c.toNat < 0x20) ∨
      ∃ code, escapeChar c = '\\' :: code ∧ Escape code c := by
  unfold escapeChar
  split_ifs with h1 h2 h3 h4 h5 h6 h7 h8
  · exact .inr ⟨_, rfl, h1 ▸ .quote⟩
  · exact .inr ⟨_, rfl, h2 ▸ .backslash⟩
  · exact .inr ⟨_, rfl, h3 ▸ .backspace⟩
  · exact .inr ⟨_, rfl, h4 ▸ .tab⟩
  · exact .inr ⟨_, rfl, h5 ▸ .lineFeed⟩
  · exact .inr ⟨_, rfl, h6 ▸ .formFeed⟩
  · exact .inr ⟨_, rfl, h7 ▸ .carriageReturn⟩
  · exact .inr ⟨_, rfl, escape_of_control h8⟩
  · exact .inl ⟨rfl, h1, h2, h8⟩

theorem Escape.stringBody {code : List Char} {c : Char} (h : Escape code c) (rest : List Char) :
    stringBody .kept ('\\' :: (code ++ rest)) =
      (stringBody .kept rest).map fun (text, rest) => (c :: text, rest) := by
  have hread := h.escaped rest
  rw [Scalar.stringBody, if_neg (by decide), if_pos rfl]
  split
  · next heq => rw [hread] at heq; exact absurd heq (by simp)
  · next heq =>
    rw [hread, Except.ok.injEq, Prod.mk.injEq] at heq
    rw [heq.1, heq.2]

theorem stringBody_escapeChar (c : Char) (rest : List Char) :
    stringBody .kept (escapeChar c ++ rest) =
      (stringBody .kept rest).map fun (text, rest) => (c :: text, rest) := by
  rcases escapeChar_cases c with ⟨hc, hquote, hslash, hcontrol⟩ | ⟨code, hc, hcode⟩
  · rw [hc, List.singleton_append, stringBody, if_neg hquote, if_neg hslash, if_neg hcontrol]
  · rw [hc]
    exact hcode.stringBody rest

theorem stringBody_quote (text rest : List Char) :
    stringBody .kept (text.flatMap escapeChar ++ '"' :: rest) = .ok (text, rest) := by
  induction text with
  | nil => rw [List.flatMap_nil, List.nil_append, stringBody, if_pos rfl]
  | cons c text ih =>
    rw [List.flatMap_cons, List.append_assoc, stringBody_escapeChar, ih]
    rfl

/-- What is written as a string ends where the string ends. -/
theorem quote_append_inj {s t : String} {a b : List Char} (h : quote s ++ a = quote t ++ b) :
    s = t ∧ a = b := by
  simp only [quote, List.cons_append, List.append_assoc, List.cons.injEq, true_and] at h
  have hread := congrArg (stringBody .kept) h
  rw [List.nil_append, List.nil_append, stringBody_quote, stringBody_quote, Except.ok.injEq,
    Prod.mk.injEq] at hread
  exact ⟨String.toList_inj.mp hread.1, hread.2⟩

end PageNav.Json
