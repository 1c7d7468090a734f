import BorrowLang.Grammar.ParseTree
import Mathlib.Data.List.Find

/-!
# Words

A word is the text of a token with its class.  Where words are laid out in a text so that none goes
on in what comes after it, as with a space between them, each is read as the token that it is,
provided that its class is possible there: what else is possible does not matter.
-/

set_option autoImplicit false

namespace BorrowLang.Grammar

/-- The words that are keywords. -/
def reserved : List String := (Terminal.all.filter Terminal.isKeyword).flatMap Terminal.spellings

example : reserved =
    ["return", "false", "while", "else", "true", "let", "mut", "fn", "if"] := by decide

/-- Can a text be the name of something? -/
def isIdentifier (text : String) : Bool :=
  match text.toList with
  | c :: rest => isNameStart c && rest.all isNameChar && !reserved.contains text
  | [] => false

/-- A token as it is written, wherever that is. -/
structure Word where
  terminal : Terminal
  text : String
deriving Repr, DecidableEq

namespace Word

/-- The word of a terminal that has one text. -/
def of (t : Terminal) : Word := ⟨t, t.spellings.headD ""⟩

def named (text : String) : Word := ⟨.name, text⟩

def chars (w : Word) : List Char := w.text.toList

/-- The text is one of the class, and where it ends does not depend on what comes later. -/
def Fits (w : Word) : Prop :=
  match w.terminal with
  | .name => isIdentifier w.text
  | .int => ∃ c rest, w.chars = c :: rest ∧ c.isDigit ∧ rest.all isNumberChar
  | .string =>
      ∃ tail, w.chars = '"' :: tail ∧ ∀ rest, stringTail? false (tail ++ rest) = some tail
  | .endOfInput => False
  | terminal => w.text ∈ terminal.spellings

theorem of_fits {t : Terminal} (isFixed : t.spellings ≠ []) : (of t).Fits := by
  cases t <;> first | exact absurd rfl isFixed | simp [of, Fits, Terminal.spellings]

end Word

/-! ### Texts of terminals -/

/-- What is known of the fixed texts, found by going through all of them: they have no space, do not
begin with a quote, and no comment begins with one; and none but a keyword begins as another token
that is tried before. -/
theorem spellings_table :
    ∀ t ∈ Terminal.all, ∀ s ∈ t.spellings,
      s.toList ≠ [] ∧ ' ' ∉ s.toList ∧ s.toList.head? ≠ some '"' ∧
      (s.toList.head?.any isSpace) = false ∧
      (s.toList.head? = some '/' → s.toList = ['/'] ∨ s.toList = ['/', '=']) ∧
      lexeme? t s.toList = some s.toList ∧
      (t.isKeyword → s.toList.all isNameChar ∧ s.toList.head?.any isNameStart) ∧
      (¬ t.isKeyword → s.toList.head?.any isNameStart = false) ∧
      ∀ u ∈ Terminal.all.take t.index, u ≠ .name → lexeme? u s.toList = none := by
  decide +kernel

theorem mem_all (t : Terminal) : t ∈ Terminal.all := by cases t <;> decide

theorem all_split (t : Terminal) :
    Terminal.all = Terminal.all.take t.index ++ t :: Terminal.all.drop (t.index + 1) := by
  cases t <;> rfl

/-! ### Where a word ends -/

/-- What something begins with: the fixed texts, and the texts that open a comment. -/
def openings : List (List Char) :=
  (Terminal.all.flatMap Terminal.spellings ++ ["//", "/*"]).map String.toList

theorem mem_openings {t : Terminal} {s : String} (known : s ∈ t.spellings) :
    s.toList ∈ openings := by
  have fixed : s ∈ Terminal.all.flatMap Terminal.spellings :=
    List.mem_flatMap.mpr ⟨t, mem_all t, known⟩
  exact List.mem_map_of_mem (List.mem_append_left _ fixed)

/-- Is a character no part of the word before it, whatever is possible there? -/
def Word.stopsAt (w : Word) (c : Char) : Bool :=
  match w.terminal with
  | .name => !isNameChar c
  | .int => !isNumberChar c
  | .string => true
  | t => !(t.isKeyword && isNameChar c) && openings.all fun s => !(w.chars ++ [c]).isPrefixOf s

/-- A word ends where some text comes after it. -/
def Word.Ends (w : Word) (rest : List Char) : Prop := ∀ c ∈ rest.head?, w.stopsAt c = true

@[simp] theorem Word.ends_cons {w : Word} {c : Char} {rest : List Char} :
    w.Ends (c :: rest) ↔ w.stopsAt c = true := by simp [Word.Ends]

theorem Word.stopsAt_fixed {w : Word} (known : w.text ∈ w.terminal.spellings) (c : Char) :
    w.stopsAt c = (!(w.terminal.isKeyword && isNameChar c) &&
      openings.all fun s => !(w.chars ++ [c]).isPrefixOf s) := by
  obtain ⟨t, text⟩ := w
  cases t with
  | name | int | string => simp [Terminal.spellings] at known
  | _ => rfl

theorem Word.Fits.ends_space {w : Word} (fits : w.Fits) (rest : List Char) :
    w.Ends (' ' :: rest) := by
  have table : ∀ t ∈ Terminal.all, ∀ s ∈ t.spellings, (Word.mk t s).stopsAt ' ' = true := by
    decide +kernel
  rw [Word.ends_cons]
  obtain ⟨t, text⟩ := w
  cases t with
  | name | int | string => rfl
  | endOfInput => exact nomatch fits
  | _ => exact table _ (mem_all _) text fits

/-- No opening goes on in some text after its beginning. -/
def Closed (chars rest : List Char) : Prop :=
  ∀ c ∈ rest.head?, ∀ s ∈ openings, ¬ (chars ++ [c]).isPrefixOf s

theorem Word.Ends.closed {w : Word} {rest : List Char} (ends : w.Ends rest)
    (known : w.text ∈ w.terminal.spellings) : Closed w.chars rest := by
  intro c here s member
  have stops := ends c here
  rw [w.stopsAt_fixed known, Bool.and_eq_true, List.all_eq_true] at stops
  have apart : (w.chars ++ [c]).isPrefixOf s = false := by simpa using stops.2 s member
  simp [apart]

theorem isPrefixOf_append {s chars rest : List Char}
    (closed : ∀ c ∈ rest.head?, ¬ (chars ++ [c]).isPrefixOf s) :
    s.isPrefixOf (chars ++ rest) = s.isPrefixOf chars := by
  induction s generalizing chars with
  | nil => simp
  | cons a s ih =>
      cases chars with
      | nil =>
          cases rest with
          | nil => rfl
          | cons c rest =>
              have other : c ≠ a := by simpa [List.isPrefixOf] using closed c rfl
              simp [List.isPrefixOf, Ne.symm other]
      | cons c chars =>
          by_cases same : c = a
          · subst same
            have later := ih fun d here => by simpa [List.isPrefixOf] using closed d here
            simp [List.isPrefixOf, later]
          · have apart : (a == c) = false := beq_false_of_ne (Ne.symm same)
            simp [List.isPrefixOf, apart]

/-- Which fixed text begins a text is not changed by what comes after it. -/
theorem find?_spelling_append (t : Terminal) {chars rest : List Char}
    (closed : Closed chars rest) :
    (t.spellings.map String.toList).find? (·.isPrefixOf (chars ++ rest)) =
      (t.spellings.map String.toList).find? (·.isPrefixOf chars) := by
  refine List.find?_congr fun s member => ?_
  obtain ⟨text, known, rfl⟩ := List.mem_map.mp member
  exact isPrefixOf_append fun c here => closed c here _ (mem_openings known)

theorem lexeme?_none {t : Terminal} {c : Char} {chars rest : List Char}
    (closed : Closed (c :: chars) rest) (noQuote : c ≠ '"')
    (noToken : lexeme? t (c :: chars) = none) : lexeme? t (c :: chars ++ rest) = none := by
  unfold lexeme? at noToken ⊢
  rw [find?_spelling_append t closed]
  split at noToken
  · exact nomatch noToken
  · cases t with
    | name | int => simpa [openLexeme?] using noToken
    | string => simp [openLexeme?, noQuote]
    | _ => rfl

theorem lexeme?_spelling {t : Terminal} {s : String} {rest : List Char}
    (closed : Closed s.toList rest) (known : s ∈ t.spellings) :
    lexeme? t (s.toList ++ rest) = some s.toList := by
  have alone := (spellings_table t (mem_all t) s known).2.2.2.2.2.1
  unfold lexeme? at alone ⊢
  rw [find?_spelling_append t closed]
  split at alone
  · exact alone
  · cases t <;> simp [openLexeme?, Terminal.spellings] at alone known

theorem takeWhile_whole {p : Char → Bool} (chars : List Char) {rest : List Char}
    (all : chars.all p) (stops : ∀ c ∈ rest.head?, p c = false) :
    (chars ++ rest).takeWhile p = chars := by
  rw [List.takeWhile_append_of_pos (List.all_eq_true.mp all)]
  cases rest with
  | nil => simp
  | cons c rest => simp [stops c rfl]

/-! ### The first token -/

/-- The first of the possible terminals that has a token here. -/
theorem findSome?_possible {possible : TerminalSet} {t : Terminal} {α : Type}
    {f : Terminal → Option α} {a : α} (has : possible.has t) (found : f t = some a)
    (before : ∀ u ∈ Terminal.all.take t.index, possible.has u → f u = none) :
    possible.toList.findSome? f = some a := by
  have skipped : ((Terminal.all.take t.index).filter fun u => possible.has u).findSome? f = none := by
    rw [List.findSome?_eq_none_iff]
    intro u member
    obtain ⟨early, isPossible⟩ := List.mem_filter.mp member
    exact before u early isPossible
  unfold TerminalSet.toList
  rw [all_split t, List.filter_append, List.findSome?_append, skipped,
    List.filter_cons_of_pos has, List.findSome?_cons, found]
  rfl

theorem firstToken?_of_lexeme {possible : TerminalSet} {t : Terminal} {chars text : List Char}
    (has : possible.has t) (found : lexeme? t chars = some text) (notName : t ≠ .name)
    (before : ∀ u ∈ Terminal.all.take t.index, possible.has u → lexeme? u chars = none) :
    firstToken? possible chars = some (t, text) := by
  unfold firstToken?
  rw [findSome?_possible has (a := (t, text)) (by simp [found])
    fun u early isPossible => by simp [before u early isPossible]]
  simp [notName]

/-- Where a name is possible, it is the first to be tried. -/
theorem firstToken?_of_name {possible : TerminalSet} {chars text : List Char}
    (has : possible.has .name) (found : lexeme? .name chars = some text) :
    firstToken? possible chars = some ((keywordOf? possible text).getD .name, text) := by
  unfold firstToken?
  rw [findSome?_possible has (a := (Terminal.name, text)) (by simp [found])
    fun u early => nomatch early]
  rfl

theorem isNameChar_of_isNameStart {c : Char} (start : isNameStart c = true) :
    isNameChar c = true := by
  simp only [isNameStart, isNameChar, Char.isAlphanum, Bool.or_eq_true] at start ⊢
  exact start.imp_left Or.inl

theorem lexeme?_name {chars rest : List Char} {c : Char} (start : isNameStart c)
    (all : chars.all isNameChar) (stops : ∀ c ∈ rest.head?, isNameChar c = false) :
    lexeme? .name (c :: chars ++ rest) = some (c :: chars) := by
  have whole := takeWhile_whole (c :: chars)
    (by simp [isNameChar_of_isNameStart start, all]) stops
  simp only [List.cons_append] at whole
  simp [lexeme?, Terminal.spellings, openLexeme?, start, whole]

/-- A keyword is what a word is, if it is possible there. -/
theorem keywordOf?_spelling {possible : TerminalSet} {t : Terminal} {s : String}
    (known : s ∈ t.spellings) (isKeyword : t.isKeyword) (has : possible.has t) :
    keywordOf? possible s.toList = some t := by
  have unique : ∀ t ∈ Terminal.all, ∀ s ∈ t.spellings, ∀ u ∈ Terminal.all,
      (u.isKeyword && u.spellings.any fun spelling => spelling.toList = s.toList) = true → u = t := by
    decide +kernel
  have found : (keywordOf? possible s.toList).isSome := by
    refine List.find?_isSome.mpr ⟨t, List.mem_filter.mpr ⟨mem_all t, has⟩, ?_⟩
    simp only [isKeyword, Bool.true_and, List.any_eq_true]
    exact ⟨s, known, by simp⟩
  obtain ⟨u, isFirst⟩ := Option.isSome_iff_exists.mp found
  have fits := List.find?_some isFirst
  rw [isFirst, unique t (mem_all t) s known u (mem_all u) fits]

theorem keywordOf?_identifier (possible : TerminalSet) {text : String}
    (identifier : isIdentifier text) : keywordOf? possible text.toList = none := by
  refine List.find?_eq_none.mpr fun u _ isKeyword => ?_
  simp only [Bool.and_eq_true, List.any_eq_true, decide_eq_true_eq] at isKeyword
  obtain ⟨keyword, spelling, known, same⟩ := isKeyword
  obtain rfl := String.toList_inj.mp same
  have isReserved : spelling ∈ reserved :=
    List.mem_flatMap.mpr ⟨u, List.mem_filter.mpr ⟨mem_all u, keyword⟩, known⟩
  unfold isIdentifier at identifier
  split at identifier
  · simp [isReserved] at identifier
  · exact nomatch identifier

theorem firstToken?_spelling {possible : TerminalSet} {t : Terminal} {s : String}
    {rest : List Char} (known : s ∈ t.spellings) (has : possible.has t)
    (ends : (Word.mk t s).Ends rest) :
    firstToken? possible (s.toList ++ rest) = some (t, s.toList) := by
  have closed : Closed s.toList rest := ends.closed known
  obtain ⟨notEmpty, -, noQuote, -, -, -, ofKeyword, ofOther, early⟩ :=
    spellings_table t (mem_all t) s known
  obtain ⟨c, chars, same⟩ := List.exists_cons_of_ne_nil notEmpty
  rw [same] at noQuote ofKeyword ofOther early
  by_cases word : t.isKeyword = true ∧ possible.has .name = true
  · -- Names are tried first, and the word that is found is a keyword.
    obtain ⟨isKeyword, hasName⟩ := word
    obtain ⟨all, start⟩ := ofKeyword isKeyword
    simp only [List.all_cons, Bool.and_eq_true] at all
    have stops : ∀ c ∈ rest.head?, isNameChar c = false := by
      intro d here
      have stopped := ends d here
      rw [Word.stopsAt_fixed known, isKeyword, Bool.true_and, Bool.and_eq_true] at stopped
      simpa using stopped.1
    have found := lexeme?_name (by simpa using start) all.2 stops
    rw [← same] at found
    rw [firstToken?_of_name hasName found, keywordOf?_spelling known isKeyword has]
    rfl
  · refine firstToken?_of_lexeme has (lexeme?_spelling closed known) ?_ ?_
    · rintro rfl
      simp [Terminal.spellings] at known
    · intro u isEarly isPossible
      rw [same] at closed ⊢
      refine lexeme?_none closed (by simpa using noQuote) ?_
      by_cases isName : u = .name
      · subst isName
        have noStart := ofOther fun isKeyword => word ⟨isKeyword, isPossible⟩
        simp only [List.head?_cons, Option.any_some] at noStart
        simp [lexeme?, Terminal.spellings, openLexeme?, noStart]
      · exact early u isEarly isName

theorem isNameStart_of_isDigit {c : Char} (digit : c.isDigit) : isNameStart c = false := by
  simp only [Char.isDigit, Bool.and_eq_true, decide_eq_true_eq, UInt32.le_iff_toNat_le] at digit
  have notLine : c ≠ '_' := by
    rintro rfl
    exact absurd digit.2 (by decide)
  delta isNameStart Char.isAlpha Char.isUpper Char.isLower
  simp only [notLine, decide_false, Bool.or_false, Bool.or_eq_false_iff, Bool.and_eq_false_iff,
    decide_eq_false_iff_not, UInt32.le_iff_toNat_le]
  have bound : c.val.toNat ≤ 57 := digit.2
  have upper : 'A'.val.toNat = 65 := rfl
  have lower : 'a'.val.toNat = 97 := rfl
  constructor
  · omega
  · omega

/-- A word is read as the token that it is. -/
theorem firstToken?_word {possible : TerminalSet} {w : Word} {rest : List Char} (fits : w.Fits)
    (has : possible.has w.terminal) (ends : w.Ends rest) :
    firstToken? possible (w.chars ++ rest) = some (w.terminal, w.chars) := by
  obtain ⟨t, text⟩ := w
  cases t with
  | name =>
      have isName : isIdentifier text := fits
      have notKeyword := keywordOf?_identifier possible isName
      unfold isIdentifier at isName
      split at isName
      · rename_i c chars same
        simp only [Bool.and_eq_true] at isName
        have found := lexeme?_name isName.1.1 isName.1.2
          fun d here => by simpa [Word.stopsAt] using ends d here
        rw [Word.chars, same, firstToken?_of_name has found, ← same, notKeyword]
        rfl
      · exact nomatch isName
  | int =>
      obtain ⟨c, chars, same, digit, all⟩ := fits
      have whole := takeWhile_whole (p := isNumberChar) (c :: chars)
        (by simp [isNumberChar, digit, all])
        fun d here => by simpa [Word.stopsAt] using ends d here
      rw [same]
      simp only [List.cons_append] at whole
      refine firstToken?_of_lexeme has ?_ Terminal.noConfusion ?_
      · simp [lexeme?, Terminal.spellings, openLexeme?, digit, whole]
      · intro u isEarly _
        rcases List.mem_cons.mp isEarly with rfl | isEarly
        · simp [lexeme?, Terminal.spellings, openLexeme?, isNameStart_of_isDigit digit]
        · obtain rfl := List.mem_singleton.mp isEarly
          have noQuote : c ≠ '"' := by
            rintro rfl
            exact nomatch digit
          simp [lexeme?, Terminal.spellings, openLexeme?, noQuote]
  | string =>
      obtain ⟨tail, same, ends⟩ := fits
      rw [same]
      refine firstToken?_of_lexeme has ?_ Terminal.noConfusion ?_
      · simp [lexeme?, Terminal.spellings, openLexeme?, ends]
      · intro u isEarly _
        obtain rfl := List.mem_singleton.mp isEarly
        rfl
  | endOfInput => exact nomatch fits
  | _ => exact firstToken?_spelling fits has ends

/-! ### How a word begins -/

/-- How a word begins: not with a space, and with a slash only where it is an operator. -/
theorem Word.Fits.head {w : Word} (fits : w.Fits) :
    ∃ c chars, w.chars = c :: chars ∧ isSpace c = false ∧
      (c = '/' → w.text ∈ w.terminal.spellings ∧ (chars = [] ∨ chars = ['='])) := by
  have ofStart : ∀ {c}, isNameStart c → isSpace c = false ∧ c ≠ '/' := by
    intro c start
    constructor
    · by_contra space
      simp only [isSpace, Bool.not_eq_false, Bool.or_eq_true, decide_eq_true_eq] at space
      rcases space with (((rfl | rfl) | rfl) | rfl) | rfl <;> exact absurd start (by decide)
    · rintro rfl
      exact absurd start (by decide)
  obtain ⟨t, text⟩ := w
  cases t with
  | name =>
      have isName : isIdentifier text := fits
      unfold isIdentifier at isName
      split at isName
      · rename_i c chars same
        simp only [Bool.and_eq_true] at isName
        obtain ⟨noSpace, noSlash⟩ := ofStart isName.1.1
        exact ⟨c, chars, same, noSpace, fun slash => absurd slash noSlash⟩
      · exact nomatch isName
  | int =>
      obtain ⟨c, chars, same, digit, -⟩ := fits
      refine ⟨c, chars, same, ?_, ?_⟩
      · by_contra space
        simp only [isSpace, Bool.not_eq_false, Bool.or_eq_true, decide_eq_true_eq] at space
        rcases space with (((rfl | rfl) | rfl) | rfl) | rfl <;> exact absurd digit (by decide)
      · rintro rfl
        exact absurd digit (by decide)
  | string =>
      obtain ⟨tail, same, -⟩ := fits
      exact ⟨'"', tail, same, by decide, fun slash => absurd slash (by decide)⟩
  | endOfInput => exact nomatch fits
  | _ =>
      obtain ⟨notEmpty, -, -, noSpace, slash, -⟩ := spellings_table _ (mem_all _) text fits
      obtain ⟨c, chars, same⟩ := List.exists_cons_of_ne_nil notEmpty
      rw [same] at noSpace slash
      refine ⟨c, chars, same, by simpa using noSpace, ?_⟩
      rintro rfl
      exact ⟨fits, by simpa using slash rfl⟩

/-- A word is no blank, and opens no comment with what comes after it. -/
theorem skipBlanks_word {w : Word} {rest : List Char} (fits : w.Fits) (ends : w.Ends rest)
    (p : Position) : skipBlanks .between p (w.chars ++ rest) = (p, w.chars ++ rest) := by
  obtain ⟨c, chars, same, noSpace, slash⟩ := fits.head
  rw [same, List.cons_append, skipBlanks.eq_def]
  simp only [noSpace, Bool.false_eq_true, if_false]
  by_cases isSlash : c = '/'
  · subst isSlash
    obtain ⟨known, rfl | rfl⟩ := slash rfl
    · have closed := ends.closed known
      rw [same] at closed
      have noComment : ∀ d ∈ rest.head?, d ≠ '/' ∧ d ≠ '*' := by
        intro d here
        constructor
        · rintro rfl
          exact closed _ here ['/', '/'] (by decide) rfl
        · rintro rfl
          exact closed _ here ['/', '*'] (by decide) rfl
      cases rest with
      | nil => rfl
      | cons d rest =>
          obtain ⟨noLine, noBlock⟩ := noComment d rfl
          simp only [if_true, List.nil_append]
          split
          · rename_i again
            exact absurd (List.cons.inj again).1 noLine
          · rename_i again
            exact absurd (List.cons.inj again).1 noBlock
          · rfl
    · rfl
  · simp [isSlash]

/-! ### Words in a text -/

/-- A text is laid out in words: they stand in it one after the other, each ends where the rest
begins, and there may be space around them. -/
inductive Laid : List Word → List Char → Prop
  | nil : Laid [] []
  | space {words : List Word} {c : Char} {chars : List Char} (blank : isSpace c = true)
      (later : Laid words chars) : Laid words (c :: chars)
  | word {w : Word} {words : List Word} {rest : List Char} (fits : w.Fits) (ends : w.Ends rest)
      (later : Laid words rest) : Laid (w :: words) (w.chars ++ rest)

namespace Laid

variable {words : List Word} {chars : List Char}

theorem name {text : String} (identifier : isIdentifier text = true)
    (ends : (Word.named text).Ends chars) (later : Laid words chars) :
    Laid (.named text :: words) (text.toList ++ chars) :=
  .word (w := .named text) identifier ends later

theorem fixed {t : Terminal} (isFixed : t.spellings ≠ []) (ends : (Word.of t).Ends chars)
    (later : Laid words chars) : Laid (.of t :: words) ((Word.of t).chars ++ chars) :=
  .word (Word.of_fits isFixed) ends later

theorem fit (laid : Laid words chars) : ∀ w ∈ words, w.Fits := by
  induction laid with
  | nil => exact fun w none => nomatch none
  | space _ _ ih => exact ih
  | word fits _ _ ih => exact List.forall_mem_cons.mpr ⟨fits, ih⟩

theorem length_le (laid : Laid words chars) : words.length ≤ chars.length := by
  induction laid with
  | nil => exact Nat.zero_le _
  | space _ _ ih =>
      rw [List.length_cons]
      omega
  | word fits _ _ ih =>
      obtain ⟨c, others, same, -⟩ := fits.head
      simp only [same, List.length_append, List.length_cons]
      omega

/-- After the space comes the first word, or the end. -/
theorem skip (laid : Laid words chars) (p : Position) :
    ∃ q after, skipBlanks .between p chars = (q, after) ∧
      (words = [] ∧ after = [] ∨ ∃ w later rest, words = w :: later ∧
        after = w.chars ++ rest ∧ w.Fits ∧ w.Ends rest ∧ Laid later rest) := by
  induction laid generalizing p with
  | nil => exact ⟨p, [], by simp [skipBlanks], Or.inl ⟨rfl, rfl⟩⟩
  | @space words c chars blank _ ih =>
      rw [skipBlanks.eq_def]
      simpa [blank] using ih (p.after c)
  | word fits ends later =>
      exact ⟨p, _, skipBlanks_word fits ends p, Or.inr ⟨_, _, _, rfl, rfl, fits, ends, later⟩⟩

/-- The next token of a laid out text is the first of its words, where that is possible. -/
theorem next {reading : Reading} {w : Word} (laid : Laid (w :: words) reading.rest) :
    ∃ p after, Laid words after.rest ∧ ∀ possible : TerminalSet, possible.has w.terminal →
      reading.next possible = .ok (⟨w.terminal, w.text, p⟩, after) := by
  obtain ⟨p, _, skipped, ⟨none, -⟩ | ⟨_, _, rest, begins, rfl, fits, ends, later⟩⟩ :=
    laid.skip reading.position
  · exact nomatch none
  obtain ⟨rfl, rfl⟩ := List.cons.inj begins
  obtain ⟨c, chars, same, -⟩ := fits.head
  refine ⟨p, ⟨p.afterAll w.chars, rest, p⟩, later, ?_⟩
  intro possible has
  have first := firstToken?_word fits has ends
  unfold Reading.next
  rw [skipped, same, List.cons_append]
  simp only
  rw [← List.cons_append, ← same, first]
  simp [Word.chars]

/-- After the last word comes the end of the input. -/
theorem next_end {reading : Reading} (laid : Laid [] reading.rest) :
    ∃ p after, ∀ possible, reading.next possible = .ok (⟨.endOfInput, "", p⟩, after) := by
  obtain ⟨p, _, skipped, ⟨-, rfl⟩ | ⟨_, _, _, some, -⟩⟩ := laid.skip reading.position
  case inr => exact nomatch some
  refine ⟨reading.lastToken, ⟨p, [], reading.lastToken⟩, fun possible => ?_⟩
  unfold Reading.next
  rw [skipped]

end Laid

/-- The text of words with a space between them. -/
def textOf : List Word → List Char
  | [] => []
  | w :: rest => w.chars ++ rest.flatMap fun w => ' ' :: w.chars

theorem toList_intercalate (words : List Word) :
    (" ".intercalate (words.map (·.text))).toList = textOf words := by
  induction words with
  | nil => rfl
  | cons w rest ih =>
      cases rest with
      | nil => simp [textOf, Word.chars]
      | cons next rest =>
          rw [List.map_cons, List.map_cons, String.intercalate_cons_cons, ← List.map_cons,
            String.toList_append, String.toList_append, ih]
          simp [textOf, Word.chars]

/-- Words with a space between them are laid out in their text. -/
theorem laid_textOf {words : List Word} (fit : ∀ w ∈ words, w.Fits) :
    Laid words (textOf words) := by
  have ends : ∀ {w : Word}, w.Fits → ∀ words : List Word,
      w.Ends (words.flatMap fun w => ' ' :: w.chars) := by
    intro w fits words
    cases words with
    | nil => exact fun c here => nomatch here
    | cons next words => exact fits.ends_space _
  have later : ∀ words : List Word, (∀ w ∈ words, w.Fits) →
      Laid words (words.flatMap fun w => ' ' :: w.chars) := by
    intro words fit
    induction words with
    | nil => exact .nil
    | cons w words ih =>
        obtain ⟨fits, fitLater⟩ := List.forall_mem_cons.mp fit
        exact .space (by decide) (.word fits (ends fits words) (ih fitLater))
  cases words with
  | nil => exact .nil
  | cons w words =>
      obtain ⟨fits, fitLater⟩ := List.forall_mem_cons.mp fit
      exact .word fits (ends fits words) (later words fitLater)

end BorrowLang.Grammar
