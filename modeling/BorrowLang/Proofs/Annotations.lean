import BorrowLang.Annotation
import Mathlib.Data.List.Infix

/-!
# Annotations that are read back

A comment line with a label in front of a text without labels is found, and nothing else is: the
search comes upon two slashes at the beginning of the line only.  What is read from the line are the
outputs or the message that it was written for, and a run is measured against these.
-/

set_option autoImplicit false

namespace BorrowLang

/-! ### Words and blanks -/

namespace Text

theorem trimLeft_append {blanks : List Char} (all : ∀ c ∈ blanks, isBlank c) (rest : List Char) :
    trimLeft (blanks ++ rest) = trimLeft rest :=
  List.dropWhile_append_of_pos all

theorem trimLeft_eq_self {chars : List Char} (first : ∀ c ∈ chars.head?, isBlank c = false) :
    trimLeft chars = chars := by
  cases chars with
  | nil => rfl
  | cons c rest => exact List.dropWhile_cons_of_neg (by simpa using first c rfl)

theorem trim_eq_self {chars : List Char} (first : ∀ c ∈ chars.head?, isBlank c = false)
    (last : ∀ c ∈ chars.getLast?, isBlank c = false) : trim chars = chars := by
  rw [trim, trimLeft_eq_self first, trimLeft_eq_self, List.reverse_reverse]
  simpa using last

theorem wordsFrom_append {chars : List Char} (solid : ∀ c ∈ chars, isBlank c = false)
    (word rest : List Char) : wordsFrom word (chars ++ rest) = wordsFrom (word ++ chars) rest := by
  induction chars generalizing word with
  | nil => simp
  | cons c chars ih =>
      obtain ⟨here, later⟩ := List.forall_mem_cons.mp solid
      simp [wordsFrom, here, ih later]

/-- Words with a space between them are read as these words. -/
theorem words_intercalate {ws : List (List Char)}
    (solid : ∀ w ∈ ws, w ≠ [] ∧ ∀ c ∈ w, isBlank c = false) : words ([' '].intercalate ws) = ws := by
  have space : isBlank ' ' = true := by decide
  induction ws with
  | nil => rfl
  | cons w rest ih =>
      obtain ⟨⟨nonempty, here⟩, later⟩ := List.forall_mem_cons.mp solid
      have scanned := wordsFrom_append here []
      by_cases alone : rest = []
      · subst alone
        have read := scanned []
        simp only [List.append_nil, List.nil_append] at read
        rw [List.intercalate_singleton, words, read]
        simp [wordsFrom, nonempty]
      · obtain ⟨next, others, rfl⟩ := List.exists_cons_of_ne_nil alone
        rw [List.intercalate_cons_cons, words, List.append_assoc, scanned]
        simp only [List.nil_append, List.singleton_append, wordsFrom, space, if_true]
        rw [if_neg (by simpa using nonempty), ← words, ih later]

end Text

/-- Two characters in a row stand on one side of a third character. -/
theorem pair_infix_append {p q c : Char} (notFirst : c ≠ p) (notSecond : c ≠ q)
    (chars rest : List Char) :
    [p, q] <:+: chars ++ c :: rest ↔ [p, q] <:+: chars ∨ [p, q] <:+: rest := by
  induction chars with
  | nil => simp [List.infix_cons_iff, notFirst.symm]
  | cons x chars ih =>
      rw [List.cons_append, List.infix_cons_iff, ih, List.infix_cons_iff, or_assoc]
      refine or_congr_left ?_
      cases chars with
      | nil => simp [notSecond.symm]
      | cons y chars => simp

namespace Expectation

/-! ### Labels -/

/-- The text begins with a label: two slashes, white space perhaps, the label and a colon. -/
def Begins (label : String) (chars : List Char) : Prop :=
  ∃ blanks rest, chars = '/' :: '/' :: (blanks ++ (label.toList ++ ':' :: rest)) ∧
    ∀ c ∈ blanks, Text.isBlank c

/-- There is a label somewhere in the text. -/
def Labelled (label : String) (text : String) : Prop :=
  ∃ before after, text.toList = before ++ after ∧ Begins label after

/-- A label begins with a letter, or anything else but white space. -/
def IsLabel (label : String) : Prop := ∃ c rest, label.toList = c :: rest ∧ Text.isBlank c = false

theorem isLabel_output : IsLabel "Output" := ⟨'O', _, rfl, by decide⟩

theorem isLabel_error : IsLabel "Error" := ⟨'E', _, rfl, by decide⟩

section Labels

variable {label : String}

theorem IsLabel.trimLeft (isLabel : IsLabel label) (rest : List Char) :
    Text.trimLeft (label.toList ++ rest) = label.toList ++ rest := by
  obtain ⟨c, others, same, solid⟩ := isLabel
  refine Text.trimLeft_eq_self ?_
  rw [same]
  rintro d ⟨rfl⟩
  exact solid

/-- Where the slashes are, all white space after them is skipped; the label has none in front, so it
is not missed. -/
theorem labelled?_isSome_iff (isLabel : IsLabel label) (chars : List Char) :
    (labelled? label chars).isSome ↔ Begins label chars := by
  constructor
  · intro found
    unfold labelled? at found
    split at found
    · rename_i rest
      dsimp only at found
      split at found
      · rename_i isPrefix
        obtain ⟨later, same⟩ := List.isPrefixOf_iff_prefix.mp isPrefix
        refine ⟨rest.takeWhile Text.isBlank, later, ?_,
          List.all_eq_true.mp (List.all_takeWhile ..)⟩
        have whole : rest.takeWhile Text.isBlank ++ Text.trimLeft rest = rest :=
          List.takeWhile_append_dropWhile
        rw [← same] at whole
        simpa [String.toList_append] using whole.symm
      · exact nomatch found
    · exact nomatch found
  · rintro ⟨blanks, rest, rfl, all⟩
    have body : Text.trimLeft (blanks ++ (label.toList ++ ':' :: rest)) =
        label.toList ++ ':' :: rest := by
      rw [Text.trimLeft_append all, isLabel.trimLeft]
    simp [labelled?, body]

theorem find?_eq_none_iff (isLabel : IsLabel label) (chars : List Char) :
    find? label chars = none ↔ ∀ before after, chars = before ++ after → ¬ Begins label after := by
  have here := labelled?_isSome_iff isLabel
  induction chars with
  | nil =>
      refine iff_of_true rfl fun before after same begins => ?_
      obtain ⟨-, rfl⟩ := List.append_eq_nil_iff.mp same.symm
      obtain ⟨blanks, rest, impossible, -⟩ := begins
      exact nomatch impossible
  | cons c rest ih =>
      have first := here (c :: rest)
      unfold find?
      cases found : labelled? label (c :: rest) with
      | some text =>
          rw [found] at first
          exact iff_of_false nofun fun none => none [] _ rfl (first.mp rfl)
      | none =>
          rw [found] at first
          simp only [ih]
          constructor
          · intro later before after same
            cases before with
            | nil =>
                obtain rfl : c :: rest = after := same
                exact fun begins => nomatch first.mpr begins
            | cons d before => exact later before after (List.cons.inj same).2
          · exact fun all before after same => all (c :: before) after (congrArg (c :: ·) same)

theorem find?_eq_none_iff_not_labelled (isLabel : IsLabel label) (text : String) :
    find? label text.toList = none ↔ ¬ Labelled label text := by
  rw [find?_eq_none_iff isLabel]
  unfold Labelled
  push Not
  rfl

instance decidableLabelledOutput (text : String) : Decidable (Labelled "Output" text) :=
  decidable_of_iff (¬ find? "Output" text.toList = none)
    (not_iff_comm.mp (find?_eq_none_iff_not_labelled isLabel_output text).symm)

instance decidableLabelledError (text : String) : Decidable (Labelled "Error" text) :=
  decidable_of_iff (¬ find? "Error" text.toList = none)
    (not_iff_comm.mp (find?_eq_none_iff_not_labelled isLabel_error text).symm)

/-! ### Comment lines -/

/-- What is in a line after its slashes: nothing that a search stops at. -/
theorem find?_skip (label : String) {line : List Char} (noSlashes : ¬ ['/', '/'] <:+: line)
    (rest : List Char) : find? label (line ++ '\n' :: rest) = find? label rest := by
  induction line with
  | nil => rfl
  | cons c line ih =>
      rw [List.infix_cons_iff, not_or] at noSlashes
      obtain ⟨notHere, notLater⟩ := noSlashes
      have unlabelled : labelled? label (c :: (line ++ '\n' :: rest)) = none := by
        unfold labelled?
        split
        · rename_i text same
          obtain ⟨rfl, next⟩ := List.cons.inj same
          cases line with
          | nil => exact absurd (List.cons.inj next).1 (by decide)
          | cons d line =>
              rw [List.cons_append, List.cons.injEq] at next
              rw [next.1] at notHere
              exact absurd (List.prefix_append ['/', '/'] line) notHere
        · rfl
      rw [List.cons_append, find?, unlabelled]
      exact ih notLater

/-- A comment line with a label and a text. -/
def commentLine (label : String) (text : List Char) : List Char :=
  '/' :: '/' :: ' ' :: (label.toList ++ ':' :: ' ' :: text)

/-- The text of the line is found behind its label. -/
theorem find?_commentLine (isLabel : IsLabel label) {text : List Char}
    (first : ∀ c ∈ text.head?, Text.isBlank c = false) (oneLine : '\n' ∉ text) (rest : List Char) :
    find? label (commentLine label text ++ '\n' :: rest) = some text := by
  have body : Text.trimLeft (' ' :: (label.toList ++ ':' :: ' ' :: (text ++ '\n' :: rest))) =
      (label ++ ":").toList ++ ' ' :: (text ++ '\n' :: rest) := by
    have space : Text.isBlank ' ' = true := by decide
    rw [← List.singleton_append, Text.trimLeft_append (by simpa using space), isLabel.trimLeft]
    simp [String.toList_append]
  -- the text begins with no space, and without a text the line ends here
  have unspaced : (' ' :: (text ++ '\n' :: rest)).dropWhile (fun c => c = ' ' || c = '\t') =
      text ++ '\n' :: rest := by
    rw [List.dropWhile_cons_of_pos (by decide)]
    cases text with
    | nil => exact List.dropWhile_cons_of_neg (by decide)
    | cons c text =>
        refine List.dropWhile_cons_of_neg ?_
        have solid := first c rfl
        simp only [Bool.or_eq_true, decide_eq_true_eq]
        rintro (rfl | rfl) <;> exact absurd solid (by decide)
  have upToEnd : (text ++ '\n' :: rest).takeWhile (· ≠ '\n') = text := by
    rw [List.takeWhile_append_of_pos]
    · simp
    · intro c member
      rw [decide_eq_true_eq]
      rintro rfl
      exact oneLine member
  simp only [commentLine, List.cons_append, List.append_assoc, find?, labelled?, body,
    List.isPrefixOf_iff_prefix, List.prefix_append, if_true, List.drop_left, unspaced, upToEnd]

/-- A line with another label is passed over. -/
theorem find?_otherLine {other : String} (isLabel : IsLabel label) (isOther : IsLabel other)
    (differ : ∀ rest later, label.toList ++ ':' :: rest ≠ other.toList ++ ':' :: later)
    (noSlashes : ¬ ['/', '/'] <:+: other.toList) {text : List Char}
    (noMark : ¬ ['/', '/'] <:+: text) (rest : List Char) :
    find? label (commentLine other text ++ '\n' :: rest) = find? label rest := by
  have notHere : labelled? label (commentLine other text ++ '\n' :: rest) = none := by
    rw [← Option.not_isSome_iff_eq_none, labelled?_isSome_iff isLabel]
    rintro ⟨blanks, later, same, all⟩
    simp only [commentLine, List.cons_append, List.append_assoc, List.cons.injEq,
      true_and] at same
    have trimmed := congrArg Text.trimLeft same
    have space : Text.isBlank ' ' = true := by decide
    rw [Text.trimLeft_append all, isLabel.trimLeft, ← List.singleton_append,
      Text.trimLeft_append (by simpa using space), isOther.trimLeft] at trimmed
    exact differ _ _ trimmed.symm
  have colon : ¬ ['/', '/'] <:+: other.toList ++ ':' :: ' ' :: text := by
    rw [pair_infix_append (by decide) (by decide), List.infix_cons_iff]
    simp [noSlashes, noMark]
  have passed : ¬ ['/', '/'] <:+: '/' :: ' ' :: (other.toList ++ ':' :: ' ' :: text) := by
    rw [List.infix_cons_iff, List.infix_cons_iff]
    simp [colon]
  have skipped := find?_skip label passed rest
  rw [commentLine, List.cons_append, find?]
  rw [commentLine, List.cons_append] at notHere
  rw [notHere]
  exact skipped

end Labels

/-! ### Problems -/

theorem occursIn_iff (part chars : List Char) : occursIn part chars = true ↔ part <:+: chars := by
  induction chars with
  | nil => simp [occursIn]
  | cons c rest ih => simp [occursIn, List.infix_cons_iff, ih]

/-- A run keeps to the outputs that are wanted when these are its outputs and it has no message. -/
theorem problems_outputs (wanted : List String) :
    (∀ outputs, problems ⟨some wanted, none⟩ (some outputs) none = [] ↔ outputs = wanted) ∧
      ∀ outputs message, problems ⟨some wanted, none⟩ outputs (some message) ≠ [] := by
  refine ⟨fun outputs => ?_, fun outputs message => List.cons_ne_nil _ _⟩
  by_cases same : outputs = wanted <;> simp [problems, same]

/-- A run fails as it is wanted to when it has a message with that part. -/
theorem problems_error (wanted : String) (outputs : Option (List String))
    (message : Option String) :
    problems ⟨none, some wanted⟩ outputs message = [] ↔
      ∃ text, message = some text ∧ wanted.toList <:+: text.toList := by
  cases message with
  | none => simp [problems]
  | some text =>
      by_cases occurs : occursIn wanted.toList text.toList
      · simp [problems, occurs, (occursIn_iff _ _).mp occurs]
      · simp [problems, occurs, mt (occursIn_iff _ _).mpr occurs]

/-! ### Annotated texts -/

/-- An output that a comment can list: not empty, without white space, and with no slashes in a row. -/
def IsOutput (text : String) : Prop :=
  text.toList ≠ [] ∧ (∀ c ∈ text.toList, Text.isBlank c = false) ∧ ¬ ['/', '/'] <:+: text.toList

/-- A message that a comment can have: on one line, with no slashes in a row, and with no white space
at its ends. -/
def IsMessage (text : String) : Prop :=
  '\n' ∉ text.toList ∧ ¬ ['/', '/'] <:+: text.toList ∧
    (∀ c ∈ text.toList.head?, Text.isBlank c = false) ∧
    ∀ c ∈ text.toList.getLast?, Text.isBlank c = false

instance (text : String) : Decidable (IsOutput text) :=
  decidable_of_iff (text.toList ≠ [] ∧ text.toList.all (fun c => !Text.isBlank c) = true ∧
    ¬ ['/', '/'] <:+: text.toList) (by simp [IsOutput])

instance (text : String) : Decidable (IsMessage text) :=
  decidable_of_iff ('\n' ∉ text.toList ∧ ¬ ['/', '/'] <:+: text.toList ∧
    text.toList.head?.all (fun c => !Text.isBlank c) = true ∧
    text.toList.getLast?.all (fun c => !Text.isBlank c) = true)
    (by simp [IsMessage, Option.all_eq_true])

/-- The outputs of a comment line, with a space between them. -/
theorem listed_outputs {outputs : List String} (fit : ∀ output ∈ outputs, IsOutput output) :
    let text := [' '].intercalate (outputs.map String.toList)
    (∀ c ∈ text.head?, Text.isBlank c = false) ∧ '\n' ∉ text ∧ ¬ ['/', '/'] <:+: text := by
  intro text
  have fine : ∀ c : Char, Text.isBlank c = false → c ≠ '\n' := by
    rintro c solid rfl
    exact absurd solid (by decide)
  induction outputs with
  | nil => exact ⟨nofun, List.not_mem_nil, by simp [text]⟩
  | cons output rest ih =>
      obtain ⟨⟨nonempty, solid, noSlashes⟩, later⟩ := List.forall_mem_cons.mp fit
      obtain ⟨c, chars, same⟩ := List.exists_cons_of_ne_nil nonempty
      have first : Text.isBlank c = false := solid c (by simp [same])
      have noFeed : '\n' ∉ output.toList := fun member => fine _ (solid _ member) rfl
      by_cases alone : rest = []
      · have isText : text = output.toList := by simp [text, alone]
        rw [isText]
        exact ⟨by rw [same]; rintro d ⟨rfl⟩; exact first, noFeed, noSlashes⟩
      · obtain ⟨-, restNoFeed, restNoSlashes⟩ := ih later
        have isText : text =
            output.toList ++ ' ' :: [' '].intercalate (rest.map String.toList) := by
          obtain ⟨next, others, rfl⟩ := List.exists_cons_of_ne_nil alone
          simp [text]
        rw [isText]
        refine ⟨by rw [same]; rintro d ⟨rfl⟩; exact first, ?_, ?_⟩
        · simp [noFeed, restNoFeed]
        · rw [pair_infix_append (by decide) (by decide), not_or]
          exact ⟨noSlashes, restNoSlashes⟩

theorem read?_outputs {source : String} (noError : ¬ Labelled "Error" source)
    {outputs : List String} (fit : ∀ output ∈ outputs, IsOutput output) :
    read? ("// Output: " ++ " ".intercalate outputs ++ "\n" ++ source) =
      some ⟨some outputs, none⟩ := by
  obtain ⟨first, oneLine, noSlashes⟩ := listed_outputs fit
  have isText : ("// Output: " ++ " ".intercalate outputs ++ "\n" ++ source).toList =
      commentLine "Output" ([' '].intercalate (outputs.map String.toList)) ++
        '\n' :: source.toList := by
    simp [commentLine]
  have found := find?_commentLine isLabel_output first oneLine source.toList
  have noOther := find?_otherLine isLabel_error isLabel_output (by simp) (by decide) noSlashes
    source.toList
  rw [(find?_eq_none_iff_not_labelled isLabel_error source).mpr noError] at noOther
  have read : Text.words ([' '].intercalate (outputs.map String.toList)) =
      outputs.map String.toList :=
    Text.words_intercalate (List.forall_mem_map.mpr fun output member =>
      ⟨(fit output member).1, (fit output member).2.1⟩)
  simp [read?, isText, found, noOther, read]

theorem read?_error {source : String} (noOutput : ¬ Labelled "Output" source) {message : String}
    (fits : IsMessage message) :
    read? ("// Error: " ++ message ++ "\n" ++ source) = some ⟨none, some message⟩ := by
  obtain ⟨oneLine, noSlashes, first, last⟩ := fits
  have isText : ("// Error: " ++ message ++ "\n" ++ source).toList =
      commentLine "Error" message.toList ++ '\n' :: source.toList := by
    simp [commentLine]
  have found := find?_commentLine isLabel_error first oneLine source.toList
  have noOther := find?_otherLine isLabel_output isLabel_error (by simp) (by decide) noSlashes
    source.toList
  rw [(find?_eq_none_iff_not_labelled isLabel_output source).mpr noOutput] at noOther
  simp [read?, isText, found, noOther, Text.trim_eq_self first last]

/-- A comment line with outputs or a message, in front of a text without annotations, is read as what
it lists; and a run has no problem with it just when its outputs are these and it has no message, or
when it has a message with that part. -/
theorem annotated_readBack {source : String} (noOutput : ¬ Labelled "Output" source)
    (noError : ¬ Labelled "Error" source) :
    (∀ outputs : List String, (∀ output ∈ outputs, IsOutput output) →
      read? ("// Output: " ++ " ".intercalate outputs ++ "\n" ++ source) =
          some ⟨some outputs, none⟩ ∧
        (∀ given, problems ⟨some outputs, none⟩ (some given) none = [] ↔ given = outputs) ∧
        ∀ given message, problems ⟨some outputs, none⟩ given (some message) ≠ []) ∧
    ∀ wanted : String, IsMessage wanted →
      read? ("// Error: " ++ wanted ++ "\n" ++ source) = some ⟨none, some wanted⟩ ∧
        ∀ given message, problems ⟨none, some wanted⟩ given message = [] ↔
          ∃ text, message = some text ∧ wanted.toList <:+: text.toList := by
  refine ⟨fun outputs fit => ?_, fun wanted fits => ?_⟩
  · exact ⟨read?_outputs noError fit, problems_outputs outputs⟩
  · exact ⟨read?_error noOutput fits, problems_error wanted⟩

/-- Slashes that are apart, at the end of an output and at the beginning of the next, and a message
that mentions a label. -/
theorem annotated_readBack_slashesApart :
    ¬ Labelled "Output" "/ / Output:" ∧ ¬ Labelled "Error" "/ / Output:" ∧
      read? "// Output: a/ /b\n/ / Output:" = some ⟨some ["a/", "/b"], none⟩ ∧
      read? "// Error: no Output:\n/ / Output:" = some ⟨none, some "no Output:"⟩ := by
  have noOutput : ¬ Labelled "Output" "/ / Output:" := by decide
  have noError : ¬ Labelled "Error" "/ / Output:" := by decide
  obtain ⟨outputs, messages⟩ := annotated_readBack noOutput noError
  exact ⟨noOutput, noError, (outputs ["a/", "/b"] (by decide)).1,
    (messages "no Output:" (by decide)).1⟩

end Expectation

end BorrowLang
