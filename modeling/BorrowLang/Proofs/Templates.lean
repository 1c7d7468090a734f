import BorrowLang.Template

/-!
# Texts and their templates

Every list of texts has one template: each text with its braces doubled, and a hole between any two.
Splitting a template gives back the texts, and what cannot be split is no such template.
-/

set_option autoImplicit false

namespace BorrowLang.Template

/-! ### The template of some texts -/

/-- A character as it is written in a template: a brace is doubled. -/
def escapeChar (c : Char) : List Char := if c = '\x7b' ∨ c = '\x7d' then [c, c] else [c]

/-- A text as it is written in a template. -/
def escape (text : String) : String := String.ofList (text.toList.flatMap escapeChar)

/-- A place for a value. -/
def hole : String := "\x7b\x7d"

/-- The template with some texts around its holes. -/
def join (texts : List String) : String := hole.intercalate (texts.map escape)

/-- The characters of the template with some texts around its holes. -/
def joinChars (pieces : List (List Char)) : List Char :=
  ['\x7b', '\x7d'].intercalate (pieces.map (List.flatMap escapeChar))

theorem toList_join (texts : List String) :
    (join texts).toList = joinChars (texts.map String.toList) := by
  simp [join, joinChars, hole, escape, Function.comp_def]

theorem joinChars_cons (piece : List Char) {rest : List (List Char)} (more : rest ≠ []) :
    joinChars (piece :: rest) = piece.flatMap escapeChar ++ '\x7b' :: '\x7d' :: joinChars rest := by
  obtain ⟨next, others, rfl⟩ := List.exists_cons_of_ne_nil more
  simp [joinChars]

/-- A character in front of the first text stands in front of the template. -/
theorem joinChars_prependChar (c : Char) {pieces : List (List Char)} (nonempty : pieces ≠ []) :
    joinChars (prependChar c pieces) = escapeChar c ++ joinChars pieces := by
  obtain ⟨piece, rest, rfl⟩ := List.exists_cons_of_ne_nil nonempty
  cases rest <;> simp [prependChar, joinChars]

theorem prependChar_ne_nil (c : Char) (pieces : List (List Char)) : prependChar c pieces ≠ [] := by
  cases pieces <;> simp [prependChar]

/-! ### Splitting the template of some texts -/

/-- The pieces with a text in front of the first. -/
def prependText (text : List Char) (pieces : List (List Char)) : List (List Char) :=
  text.foldr prependChar pieces

theorem prependText_cons (text piece : List Char) (rest : List (List Char)) :
    prependText text (piece :: rest) = (text ++ piece) :: rest := by
  induction text with
  | nil => rfl
  | cons c text ih =>
      rw [prependText, List.foldr_cons, ← prependText, ih]
      rfl

/-- A character that is no brace is read as itself. -/
theorem splitChars_plain {c : Char} (opens : c ≠ '\x7b') (closes : c ≠ '\x7d') (rest : List Char) :
    splitChars (c :: rest) = (splitChars rest).map (prependChar c) := by
  rw [splitChars, if_neg opens, if_neg closes]
  · exact fun _ here _ => opens here
  · exact fun _ here _ => closes here
  · exact fun _ here _ => opens here

/-- The scanner reads what was written for one character as that character, whatever follows: of a
doubled brace it takes both, before it looks for a hole. -/
theorem splitChars_escapeChar (c : Char) (rest : List Char) :
    splitChars (escapeChar c ++ rest) = (splitChars rest).map (prependChar c) := by
  by_cases opens : c = '\x7b'
  · subst opens
    rfl
  by_cases closes : c = '\x7d'
  · subst closes
    rfl
  · rw [escapeChar, if_neg (not_or.mpr ⟨opens, closes⟩), List.singleton_append]
    exact splitChars_plain opens closes rest

theorem splitChars_flatMap_escapeChar (text rest : List Char) :
    splitChars (text.flatMap escapeChar ++ rest) = (splitChars rest).map (prependText text) := by
  induction text with
  | nil =>
      rw [List.flatMap_nil, List.nil_append]
      cases splitChars rest <;> rfl
  | cons c text ih =>
      rw [List.flatMap_cons, List.append_assoc, splitChars_escapeChar, ih]
      cases splitChars rest <;> rfl

theorem splitChars_joinChars {pieces : List (List Char)} (nonempty : pieces ≠ []) :
    splitChars (joinChars pieces) = .ok pieces := by
  induction pieces with
  | nil => exact absurd rfl nonempty
  | cons piece rest ih =>
      by_cases more : rest = []
      · subst more
        have scanned := splitChars_flatMap_escapeChar piece []
        rw [List.append_nil, splitChars, Except.map, prependText_cons, List.append_nil] at scanned
        rw [joinChars, List.map_singleton, List.intercalate_singleton, scanned]
      · have hole : splitChars ('\x7b' :: '\x7d' :: joinChars rest) = .ok ([] :: rest) := by
          rw [splitChars, ih more]
          rfl
        rw [joinChars_cons piece more, splitChars_flatMap_escapeChar, hole, Except.map,
          prependText_cons, List.append_nil]

/-! ### Joining the pieces of a template -/

/-- Where the rest of a text is the template of its pieces, so is the text with what was written for
one character in front. -/
theorem joinChars_of_prepended {c : Char} {rest : List Char} {pieces : List (List Char)}
    (known : ∀ {inner}, splitChars rest = .ok inner → inner ≠ [] ∧ joinChars inner = rest)
    (parts : (splitChars rest).map (prependChar c) = .ok pieces) :
    pieces ≠ [] ∧ joinChars pieces = escapeChar c ++ rest := by
  cases split : splitChars rest with
  | error fault => rw [split] at parts; cases parts
  | ok inner =>
      rw [split] at parts
      obtain rfl := Except.ok.inj parts
      obtain ⟨nonempty, same⟩ := known split
      exact ⟨prependChar_ne_nil c inner, by rw [joinChars_prependChar c nonempty, same]⟩

/-- What can be split is the template of its pieces. -/
theorem joinChars_splitChars {text : List Char} {pieces : List (List Char)}
    (parts : splitChars text = .ok pieces) : pieces ≠ [] ∧ joinChars pieces = text := by
  induction text using splitChars.induct generalizing pieces with
  | case1 =>
      obtain rfl : [[]] = pieces := Except.ok.inj parts
      exact ⟨List.cons_ne_nil _ _, rfl⟩
  | case2 rest ih => exact joinChars_of_prepended ih parts
  | case3 rest ih => exact joinChars_of_prepended ih parts
  | case4 rest ih =>
      rw [splitChars] at parts
      cases split : splitChars rest with
      | error fault => rw [split] at parts; cases parts
      | ok inner =>
          rw [split] at parts
          obtain rfl := Except.ok.inj parts
          obtain ⟨nonempty, same⟩ := ih split
          exact ⟨List.cons_ne_nil _ _, by rw [joinChars_cons [] nonempty, same]; rfl⟩
  | case5 | case6 => simp [splitChars] at parts
  | case7 c rest _ _ _ opens closes ih =>
      rw [splitChars_plain opens closes] at parts
      obtain ⟨nonempty, same⟩ := joinChars_of_prepended ih parts
      rw [escapeChar, if_neg (not_or.mpr ⟨opens, closes⟩)] at same
      exact ⟨nonempty, same⟩

/-! ### Templates as texts -/

theorem split_join {texts : List String} (nonempty : texts ≠ []) :
    split (join texts) = .ok texts := by
  have scanned : splitChars (joinChars (texts.map String.toList)) = .ok (texts.map String.toList) :=
    splitChars_joinChars (mt List.map_eq_nil_iff.mp nonempty)
  rw [split, toList_join, scanned, Except.map, List.map_map]
  simp

theorem join_of_split {template : String} {texts : List String}
    (parts : split template = .ok texts) : texts ≠ [] ∧ join texts = template := by
  cases scanned : splitChars template.toList with
  | error fault => rw [split, scanned] at parts; cases parts
  | ok pieces =>
      rw [split, scanned] at parts
      obtain rfl := Except.ok.inj parts
      obtain ⟨nonempty, same⟩ := joinChars_splitChars scanned
      refine ⟨mt List.map_eq_nil_iff.mp nonempty, String.toList_injective ?_⟩
      rw [toList_join, List.map_map]
      simpa [Function.comp_def] using same

/-- Splitting and joining are inverse to each other, between the nonempty lists of texts and the
texts that can be split; what cannot be split is the template of no such list. -/
theorem split_bijective :
    (∀ texts ≠ [], split (join texts) = .ok texts) ∧
    (∀ template texts, split template = .ok texts → texts ≠ [] ∧ join texts = template) ∧
    ∀ template, (∃ fault, split template = .error fault) ↔ ∀ texts ≠ [], join texts ≠ template := by
  refine ⟨fun texts nonempty => split_join nonempty, fun template texts => join_of_split,
    fun template => ⟨?_, fun outside => ?_⟩⟩
  · rintro ⟨fault, refused⟩ texts nonempty rfl
    rw [split_join nonempty] at refused
    cases refused
  · cases parts : split template with
    | error fault => exact ⟨fault, rfl⟩
    | ok texts =>
        obtain ⟨nonempty, same⟩ := join_of_split parts
        exact absurd same (outside texts nonempty)

/-- A brace of a text may stand right before a hole or right behind one. -/
theorem split_bijective_besideHoles :
    join ["\x7b", "\x7d", ""] = "\x7b\x7b\x7b\x7d\x7d\x7d\x7b\x7d" ∧
      split "\x7b\x7b\x7b\x7d\x7d\x7d\x7b\x7d" = .ok ["\x7b", "\x7d", ""] := by
  have written : join ["\x7b", "\x7d", ""] = "\x7b\x7b\x7b\x7d\x7d\x7d\x7b\x7d" := by decide
  exact ⟨written, written ▸ split_bijective.1 ["\x7b", "\x7d", ""] (List.cons_ne_nil _ _)⟩

end BorrowLang.Template
