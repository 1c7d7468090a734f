import BorrowLang.Proofs.Parsing.Printing
import BorrowLang.Syntax.OfParseTree

/-!
# Literals

The words of literals are read as tokens, and stand for what they were written for.
-/

set_option autoImplicit false

namespace BorrowLang

open Grammar (Word stringTail? isNumberChar)

/-! ### Integers -/

theorem toList_toString (n : Nat) : (toString n).toList = Nat.toDigits 10 n := by
  rw [Nat.toString_eq_repr, Nat.toList_repr]

theorem isDigit_of_mem {n : Nat} {c : Char} (member : c ∈ (toString n).toList) : c.isDigit := by
  rw [toList_toString] at member
  exact Nat.isDigit_of_mem_toDigits (by decide) (by decide) member

theorem numberWord_fits (n : Nat) : (numberWord n).Fits := by
  obtain ⟨c, rest, same⟩ := List.exists_cons_of_ne_nil
    (show (toString n).toList ≠ [] by rw [toList_toString]; exact Nat.toDigits_ne_nil)
  have digits : ∀ d ∈ c :: rest, d.isDigit := by
    rw [← same]
    exact fun d => isDigit_of_mem
  refine ⟨c, rest, same, digits c List.mem_cons_self, List.all_eq_true.mpr fun d member => ?_⟩
  simp [isNumberChar, digits d (List.mem_cons_of_mem _ member)]

/-- The digits of an integer are the literal that it is. -/
theorem buildInteger_toString {n : Nat} {negative : Bool} {loc : Position} {value : Int}
    (isValue : value = if negative then -(n : Int) else n) (small : minInt ≤ value)
    (large : value ≤ maxInt) :
    buildInteger negative (toString n) loc = .ok (.literal (some loc) (.int value)) := by
  have digits : (toString n).toList.filter (· ≠ '_') = (toString n).toList := by
    refine List.filter_eq_self.mpr fun c member => ?_
    have digit := isDigit_of_mem member
    rw [decide_eq_true_eq]
    rintro rfl
    exact absurd digit (by decide)
  have few : (toString n).toList.length ≤ Text.digitLimit := by
    have bound : n < 10 ^ Text.digitLimit := by
      have : n < 10 ^ 10 := by
        unfold minInt maxInt at *
        split at isValue <;> omega
      exact this.trans (Nat.pow_lt_pow_right (by decide) (by decide))
    rw [toList_toString]
    exact (Nat.length_toDigits_le_iff (by decide) (by decide)).mpr bound
  have isNumeral : numeral (toString n).toList = n := by
    rw [toList_toString]
    exact Nat.ofDigitChars_ten_toDigits
  unfold buildInteger
  simp only [digits, isNumeral, Nat.not_lt.mpr few, if_false, ← isValue]
  rw [if_neg (by omega)]

/-! ### Strings -/

theorem hexDigits_two (n : Nat) :
    Text.hexDigits 2 n = [Text.hexDigit (n / 16 % 16), Text.hexDigit (n % 16)] := rfl

theorem hexDigit_table :
    ∀ d < 16, Text.hexDigit? (Text.hexDigit d) = some d ∧ Text.hexDigit d ≠ '"' ∧
      Text.hexDigit d ≠ '\\' ∧ Text.hexDigit d ≠ '\n' := by decide

/-- How a character is written: after a backslash, by its number, or as it is. -/
theorem templateChar_cases (c : Char) :
    (c = '"' ∨ c = '\\') ∧ templateChar c = ['\\', c] ∨
    c.toNat < 0xa0 ∧ templateChar c =
      ['\\', 'x', Text.hexDigit (c.toNat / 16 % 16), Text.hexDigit (c.toNat % 16)] ∨
    c ≠ '"' ∧ c ≠ '\\' ∧ 0x20 ≤ c.toNat ∧ templateChar c = [c] := by
  unfold templateChar
  by_cases quoted : c = '"' ∨ c = '\\'
  · exact Or.inl ⟨quoted, by simp [quoted]⟩
  · rw [not_or] at quoted
    by_cases control : isControl c
    · refine Or.inr (Or.inl ⟨?_, by simp [quoted, control, hexDigits_two]⟩)
      simp only [isControl, Bool.or_eq_true, Bool.and_eq_true, decide_eq_true_eq] at control
      omega
    · refine Or.inr (Or.inr ⟨quoted.1, quoted.2, ?_, by simp [quoted, control]⟩)
      simp only [isControl, Bool.or_eq_true, Bool.and_eq_true, decide_eq_true_eq] at control
      omega

theorem stringTail?_templateChar (c : Char) (rest : List Char) :
    stringTail? false (templateChar c ++ rest) =
      (stringTail? false rest).map (templateChar c ++ ·) := by
  rcases templateChar_cases c with ⟨quoted, same⟩ | ⟨-, same⟩ | ⟨noQuote, noBackslash, large, same⟩
  · rw [same]
    rcases quoted with rfl | rfl <;> simp [stringTail?, Function.comp_def]
  · obtain ⟨-, q₁, b₁, n₁⟩ := hexDigit_table (c.toNat / 16 % 16) (Nat.mod_lt _ (by decide))
    obtain ⟨-, q₂, b₂, n₂⟩ := hexDigit_table (c.toNat % 16) (Nat.mod_lt _ (by decide))
    rw [same]
    simp [stringTail?, q₁, b₁, n₁, q₂, b₂, n₂, Function.comp_def]
  · have noFeed : c ≠ '\n' := by
      rintro rfl
      exact absurd large (by decide)
    rw [same]
    simp [stringTail?, noQuote, noBackslash, noFeed]

theorem templateWord_fits (template : String) : (templateWord template).Fits := by
  refine ⟨template.toList.flatMap templateChar ++ ['"'], by simp [templateWord, Word.chars], ?_⟩
  intro rest
  induction template.toList with
  | nil => simp [stringTail?]
  | cons c chars ih =>
      simp only [List.flatMap_cons, List.append_assoc, List.cons_append, List.nil_append] at ih ⊢
      rw [stringTail?_templateChar, ih]
      rfl

theorem unescapeFrom_templateChar (c : Char) (rest : List Char) :
    Text.unescapeFrom .plain (templateChar c ++ rest) =
      (Text.unescapeFrom .plain rest).map (c :: ·) := by
  rcases templateChar_cases c with ⟨quoted, same⟩ | ⟨small, same⟩ | ⟨-, noBackslash, large, same⟩
  · rw [same]
    rcases quoted with rfl | rfl <;>
      cases more : Text.unescapeFrom .plain rest <;>
      simp [Text.unescapeFrom, Text.escapeStep?, Text.plainStep?, Text.backslashStep?,
        Text.letterEscape?, more]
  · have high := (hexDigit_table (c.toNat / 16 % 16) (Nat.mod_lt _ (by decide))).1
    have low := (hexDigit_table (c.toNat % 16) (Nat.mod_lt _ (by decide))).1
    have whole : 16 * (c.toNat / 16 % 16) + c.toNat % 16 = c.toNat := by omega
    have isChar : Text.charOfCode? c.toNat = some c := by
      have valid : c.toNat.isValidChar := c.valid
      rw [Text.charOfCode?, if_pos valid, Char.ofNat_toNat]
    have afterX : Text.backslashStep? 'x' = some ([], .hex 2 0) := rfl
    rw [same]
    cases more : Text.unescapeFrom .plain rest <;>
      simp [Text.unescapeFrom, Text.escapeStep?, Text.plainStep?, afterX, high, low, whole, isChar,
        more]
  · have noReturn : c ≠ '\r' ∧ c ≠ '\x00' := by
      constructor <;> rintro rfl <;> exact absurd large (by decide)
    rw [same]
    cases more : Text.unescapeFrom .plain rest <;>
      simp [Text.unescapeFrom, Text.escapeStep?, Text.plainStep?, noBackslash, noReturn, more]

/-- A string literal stands for the text that it was written for. -/
theorem buildString_templateWord (template : String) :
    buildString (templateWord template).text = .ok template := by
  have decoded : ∀ chars : List Char,
      Text.unescapeFrom .plain (chars.flatMap templateChar) = some chars := by
    intro chars
    induction chars with
    | nil => rfl
    | cons c chars ih => rw [List.flatMap_cons, unescapeFrom_templateChar, ih]; rfl
  simp [buildString, templateWord, Text.unescape?, decoded]

end BorrowLang
