import BorrowLang.Grammar.ParseTree
import BorrowLang.Proofs.Answers
import BorrowLang.Proofs.Parsing.Words
import Mathlib.Order.Defs.PartialOrder

/-!
# Tokens where they stand

A text is read from its beginning on.  Each token that is read stands in the text at its position,
and not before the last one.
-/

set_option autoImplicit false

namespace BorrowLang

/-! ### The order of positions -/

namespace Position

/-- Positions are ordered by their lines, and by their columns within a line. -/
instance : Preorder Position where
  le p q := p.line < q.line ∨ p.line = q.line ∧ p.column ≤ q.column
  le_refl _ := Or.inr ⟨rfl, le_rfl⟩
  le_trans p q r := by
    intro pq qr
    omega

theorem le_def {p q : Position} :
    p ≤ q ↔ p.line < q.line ∨ p.line = q.line ∧ p.column ≤ q.column := Iff.rfl

instance (p q : Position) : Decidable (p ≤ q) := decidable_of_iff' _ le_def

theorem le_after (p : Position) (c : Char) : p ≤ p.after c := by
  unfold after
  rw [le_def]
  split
  · exact Or.inl (Nat.lt_succ_self _)
  · exact Or.inr ⟨rfl, Nat.le_succ _⟩

theorem le_afterAll (p : Position) (chars : List Char) : p ≤ p.afterAll chars := by
  induction chars generalizing p with
  | nil => exact le_rfl
  | cons c rest ih => exact (p.le_after c).trans (ih _)

theorem afterAll_append (p : Position) (chars more : List Char) :
    p.afterAll (chars ++ more) = (p.afterAll chars).afterAll more := List.foldl_append

/-- Lines and columns are counted from one. -/
def Counted (p : Position) : Prop := 1 ≤ p.line ∧ 1 ≤ p.column

theorem Counted.afterAll {p : Position} (counted : p.Counted) (chars : List Char) :
    (p.afterAll chars).Counted := by
  induction chars generalizing p with
  | nil => exact counted
  | cons c rest ih =>
      refine ih ?_
      obtain ⟨line, column⟩ := counted
      unfold after
      split
      · exact ⟨Nat.le_succ_of_le line, le_rfl⟩
      · exact ⟨line, Nat.le_succ_of_le column⟩

end Position

namespace Grammar

/-! ### What a token is found as -/

theorem stringTail?_prefix {escaped : Bool} {chars tail : List Char}
    (found : stringTail? escaped chars = some tail) : tail <+: chars := by
  induction chars generalizing escaped tail with
  | nil => exact nomatch found
  | cons c rest ih =>
      unfold stringTail? at found
      split at found
      · exact nomatch found
      · split at found
        · obtain rfl := Option.some.inj found
          exact List.prefix_append [c] rest
        · obtain ⟨later, foundLater, rfl⟩ := Option.map_eq_some_iff.mp found
          exact List.cons_prefix_cons.mpr ⟨rfl, ih foundLater⟩

/-- The text of a token is the beginning of what it is found in, and has a character. -/
theorem lexeme?_prefix {t : Terminal} {chars text : List Char}
    (found : lexeme? t chars = some text) : text ≠ [] ∧ text <+: chars := by
  unfold lexeme? at found
  split at found
  · rename_i spelling isFound
    obtain rfl := Option.some.inj found
    obtain ⟨known, member, rfl⟩ := List.mem_map.mp (List.mem_of_find?_eq_some isFound)
    have begins := List.find?_some isFound
    exact ⟨(spellings_table t (mem_all t) known member).1, List.isPrefixOf_iff_prefix.mp begins⟩
  · unfold openLexeme? at found
    split at found
    · split at found
      · rename_i c rest start
        obtain rfl := Option.some.inj found
        refine ⟨?_, List.takeWhile_prefix _⟩
        simp [isNameChar_of_isNameStart start]
      · exact nomatch found
    · split at found
      · rename_i c rest digit
        obtain rfl := Option.some.inj found
        refine ⟨?_, List.takeWhile_prefix _⟩
        simp [isNumberChar, digit]
      · exact nomatch found
    · rename_i rest
      obtain ⟨tail, foundTail, rfl⟩ := Option.map_eq_some_iff.mp found
      exact ⟨List.cons_ne_nil _ _, List.cons_prefix_cons.mpr ⟨rfl, stringTail?_prefix foundTail⟩⟩
    · exact nomatch found

theorem firstToken?_prefix {possible : TerminalSet} {t : Terminal} {chars text : List Char}
    (found : firstToken? possible chars = some (t, text)) : text ≠ [] ∧ text <+: chars := by
  obtain ⟨⟨first, lexeme⟩, isFound, same⟩ := Option.map_eq_some_iff.mp found
  obtain ⟨tried, -, matched⟩ := List.exists_of_findSome?_eq_some isFound
  obtain ⟨known, isLexeme, pair⟩ := Option.map_eq_some_iff.mp matched
  obtain ⟨-, rfl⟩ := Prod.mk.inj pair
  have sameText : known = text := by
    simp only at same
    split at same
    · exact (Prod.mk.inj same).2
    · exact (Prod.mk.inj same).2
  exact sameText ▸ lexeme?_prefix isLexeme

/-- What is skipped stands between the position before it and the one after it. -/
theorem skipBlanks_eq (state : BlankState) (p : Position) (chars : List Char) :
    ∃ blanks, chars = blanks ++ (skipBlanks state p chars).2 ∧
      (skipBlanks state p chars).1 = p.afterAll blanks := by
  have skip : ∀ {q : Position} {c : Char} {rest : List Char} {skipped : Position × List Char},
      (∃ blanks, rest = blanks ++ skipped.2 ∧ skipped.1 = (q.after c).afterAll blanks) →
        ∃ blanks, c :: rest = blanks ++ skipped.2 ∧ skipped.1 = q.afterAll blanks := by
    rintro q c rest skipped ⟨blanks, same, position⟩
    exact ⟨c :: blanks, congrArg (c :: ·) same, position⟩
  fun_induction skipBlanks state p chars with
  | case1 | case5 | case6 | case7 => exact ⟨[], rfl, rfl⟩
  | case2 | case3 | case4 | case8 | case9 | case10 => exact skip ‹_›

/-! ### Readings of a text -/

/-- A token stands in a text: behind what comes before its position. -/
def Token.StandsIn (token : Token) (text : String) : Prop :=
  token.text ≠ "" ∧ ∃ before after, text.toList = before ++ (token.text.toList ++ after) ∧
    token.position = Position.start.afterAll before

theorem Token.StandsIn.counted {token : Token} {text : String} (stands : token.StandsIn text) :
    token.position.Counted := by
  obtain ⟨-, before, -, -, position⟩ := stands
  rw [position]
  exact Position.Counted.afterAll ⟨le_rfl, le_rfl⟩ before

/-- What is left to read is the end of the text from its position on, and the last token begins
before that. -/
structure Reading.Of (text : String) (reading : Reading) : Prop where
  rest : ∃ before, text.toList = before ++ reading.rest ∧
    reading.position = Position.start.afterAll before
  lastToken_le : reading.lastToken ≤ reading.position

theorem Reading.ofText_of (text : String) : (Reading.ofText text).Of text :=
  ⟨⟨[], rfl, rfl⟩, le_rfl⟩

/-- What is known of the next token and of the reading after it. -/
structure Reading.NextOf (text : String) (reading : Reading) (answer : Token × Reading) : Prop where
  after : answer.2.Of text
  lastToken_le : reading.lastToken ≤ answer.1.position
  lastToken_eq : answer.2.lastToken = answer.1.position
  stands : answer.1.terminal ≠ .endOfInput → answer.1.StandsIn text

theorem Reading.Of.next {text : String} {reading : Reading} (of : reading.Of text)
    (possible : TerminalSet) : Answers (reading.next possible) (reading.NextOf text) := by
  obtain ⟨⟨before, whole, position⟩, lastToken⟩ := of
  obtain ⟨blanks, rest, skipped⟩ := skipBlanks_eq .between reading.position reading.rest
  rintro ⟨token, after⟩ found
  unfold Reading.next at found
  revert rest skipped found
  generalize skipBlanks .between reading.position reading.rest = here
  obtain ⟨q, chars⟩ := here
  intro rest skipped found
  simp only at rest skipped found
  have standsHere : q = Position.start.afterAll (before ++ blanks) := by
    rw [Position.afterAll_append, ← position, skipped]
  have le_here : reading.position ≤ q := skipped ▸ reading.position.le_afterAll blanks
  rw [rest, ← List.append_assoc] at whole
  split at found
  · obtain ⟨rfl, rfl⟩ := Prod.mk.inj (Except.ok.inj found)
    exact ⟨⟨⟨_, whole, standsHere⟩, lastToken.trans le_here⟩, le_rfl, rfl,
      fun notEnd => absurd rfl notEnd⟩
  · split at found
    · rename_i terminal spelled first
      obtain ⟨rfl, rfl⟩ := Prod.mk.inj (Except.ok.inj found)
      obtain ⟨notEmpty, later, same⟩ := firstToken?_prefix first
      rw [← same] at whole ⊢
      refine ⟨⟨⟨before ++ blanks ++ spelled, ?_, ?_⟩, q.le_afterAll spelled⟩,
        lastToken.trans le_here, rfl, fun _ => ⟨?_, before ++ blanks, later, ?_, standsHere⟩⟩
      · simpa using whole
      · rw [Position.afterAll_append, ← standsHere]
      · simpa using notEmpty
      · simpa using whole
    · split at found <;> exact nomatch found

/-! ### The tokens of a text -/

/-- The tokens that are read one after the other, up to the end or a fault. -/
def tokensFrom : (fuel : Nat) → Reading → List StackEntry → List Token
  | 0, _, _ => []
  | fuel + 1, reading, stack =>
      match reading.next (topState stack).expected with
      | .error _ => []
      | .ok (token, reading) =>
          if token.terminal = .endOfInput then []
          else
            match feed token (reductionBound stack) stack with
            | .error _ => [token]
            | .ok stack => token :: tokensFrom fuel reading stack

/-- The tokens of a text, as far as it is read. -/
def tokensOf (text : String) : List Token := tokensFrom (text.length + 1) (.ofText text) []

theorem Reading.Of.tokens {text : String} (fuel : Nat) {reading : Reading} {stack : List StackEntry}
    (of : reading.Of text) : ∀ token ∈ tokensFrom fuel reading stack, token.StandsIn text := by
  induction fuel generalizing reading stack with
  | zero => exact fun token none => nomatch none
  | succ fuel ih =>
      unfold tokensFrom
      split
      · exact fun token none => nomatch none
      · rename_i first after found
        have next := of.next _ _ found
        split
        · exact fun token none => nomatch none
        · rename_i notEnd
          have stands := next.stands notEnd
          split
          · exact List.forall_mem_singleton.mpr stands
          · exact List.forall_mem_cons.mpr ⟨stands, ih next.after⟩

theorem standsIn_of_mem_tokensOf {text : String} {token : Token} (member : token ∈ tokensOf text) :
    token.StandsIn text :=
  (Reading.ofText_of text).tokens _ token member

end Grammar

end BorrowLang
