import BorrowLang.Checker.State
import BorrowLang.Proofs.Parsing.Roundtrip

/-!
# Types that are read back

The text of a type is laid out in words with a space after `mut` only, and a reference to a
reference begins with the one word `&&`.  The words are parsed as a written type that stands for the
type, so no two types have the same text, and what is said of two types tells both of them.
-/

set_option autoImplicit false

namespace BorrowLang

open Grammar

namespace Ty

/-- How a type is written. -/
def written : Ty → TypeExpr
  | i32 => .mk "i32" []
  | bool => .mk "bool" []
  | unit => .mk "()" []
  | box inner => .mk "Box" [inner.written]
  | ref true target => .mk "&mut" [target.written]
  | ref false target => .mk "&" [target.written]

theorem resolve_written (ty : Ty) : resolve ty.written = .ok ty := by
  induction ty with
  | i32 | bool | unit => rfl
  | box inner ih => simp [written, resolve, ih, bind, Except.bind, pure, Except.pure]
  | ref isMut target ih =>
      cases isMut <;> simp [written, resolve, ih, bind, Except.bind, pure, Except.pure]

/-- The words of the text of a type. -/
def words : Ty → List Word
  | i32 => [.named "i32"]
  | bool => [.named "bool"]
  | unit => [.of .lparen, .of .rparen]
  | box inner => .named "Box" :: .of .lt :: (inner.words ++ [.of .gt])
  | ref false (ref isMut target) => .of .andAnd :: (mutWords isMut ++ target.words)
  | ref isMut target => .of .amp :: (mutWords isMut ++ target.words)

/-! ### The words in the text -/

/-- The character that the text of a type begins with. -/
def initial : Ty → Char
  | i32 => 'i'
  | bool => 'b'
  | unit => '('
  | box _ => 'B'
  | ref _ _ => '&'

theorem text_initial (ty : Ty) : ∃ rest, ty.text.toList = ty.initial :: rest := by
  cases ty with
  | i32 | bool | unit => exact ⟨_, rfl⟩
  | box inner => exact ⟨_, by rw [text, String.toList_append, String.toList_append]; rfl⟩
  | ref isMut target =>
      cases isMut <;> exact ⟨_, by rw [text, String.toList_append]; rfl⟩

/-- A word that stops where a type may be closed ends there. -/
theorem ends_closed {w : Word} {rest : List Char}
    (stops : w.stopsAt '>' = true ∧ w.stopsAt ')' = true)
    (closes : ∀ c ∈ rest.head?, c = '>' ∨ c = ')') : w.Ends rest := by
  intro c here
  obtain rfl | rfl := closes c here
  · exact stops.1
  · exact stops.2

/-- A word that stops at the first character of a type ends before its text. -/
theorem ends_text {w : Word} {ty : Ty} (stops : w.stopsAt ty.initial = true) (rest : List Char) :
    w.Ends (ty.text.toList ++ rest) := by
  obtain ⟨chars, begins⟩ := ty.text_initial
  rw [begins, List.cons_append, Word.ends_cons]
  exact stops

theorem stopsAt_initial (ty : Ty) :
    (Word.of .lt).stopsAt ty.initial = true ∧ (Word.of .andAnd).stopsAt ty.initial = true := by
  have table : ['i', 'b', '(', 'B', '&'].all (fun c =>
      (Word.of .lt).stopsAt c && (Word.of .andAnd).stopsAt c) = true := by decide
  have here := List.all_eq_true.mp table ty.initial (by cases ty <;> simp [initial])
  simpa using here

theorem amp_stopsAt_initial {target : Ty} (notRef : target.isRef = false) :
    (Word.of .amp).stopsAt target.initial = true := by
  have table : ['i', 'b', '(', 'B'].all (Word.of .amp).stopsAt = true := by decide
  cases target with
  | ref => exact nomatch notRef
  | _ => exact List.all_eq_true.mp table _ (by simp [initial])

/-- What the text of a reference has between its mark and its target. -/
def mutChars (isMut : Bool) : List Char := if isMut then ['m', 'u', 't', ' '] else []

theorem text_ref (isMut : Bool) (target : Ty) :
    (ref isMut target).text.toList = '&' :: (mutChars isMut ++ target.text.toList) := by
  cases isMut <;> simp [text, mutChars]

theorem laid_mut (isMut : Bool) {words : List Word} {rest : List Char} (later : Laid words rest) :
    Laid (mutWords isMut ++ words) (mutChars isMut ++ rest) := by
  cases isMut with
  | false => exact later
  | true =>
      have ends : (Word.of .kwMut).Ends (' ' :: rest) := Word.ends_cons.mpr (by decide)
      exact .fixed (by decide) ends (.space (by decide) later)

/-- A word that ends before `mut` and, where there is none, before what comes after it. -/
theorem ends_mut {w : Word} {isMut : Bool} {rest : List Char} (stops : w.stopsAt 'm' = true)
    (ends : isMut = false → w.Ends rest) : w.Ends (mutChars isMut ++ rest) := by
  cases isMut with
  | false => exact ends rfl
  | true => exact Word.ends_cons.mpr stops

/-- The text of a type is laid out in its words, wherever it is closed. -/
theorem laid (ty : Ty) {words : List Word} {rest : List Char}
    (closes : ∀ c ∈ rest.head?, c = '>' ∨ c = ')') (later : Laid words rest) :
    Laid (ty.words ++ words) (ty.text.toList ++ rest) := by
  induction ty using Ty.words.induct generalizing words rest with
  | case1 => exact .name (by decide) (ends_closed (by decide) closes) later
  | case2 => exact .name (by decide) (ends_closed (by decide) closes) later
  | case3 =>
      exact .fixed (by decide) (Word.ends_cons.mpr (by decide))
        (.fixed (by decide) (ends_closed (by decide) closes) later)
  | case4 inner ih =>
      have closing : Laid (.of .gt :: words) ('>' :: rest) :=
        .fixed (by decide) (ends_closed (by decide) closes) later
      have inside : Laid (inner.words ++ .of .gt :: words) (inner.text.toList ++ '>' :: rest) :=
        ih (by simp) closing
      have opening : Laid (.of .lt :: (inner.words ++ .of .gt :: words))
          ('<' :: (inner.text.toList ++ '>' :: rest)) :=
        .fixed (by decide) (ends_text inner.stopsAt_initial.1 _) inside
      have whole : Laid (.named "Box" :: _) ("Box".toList ++ _) :=
        .name (by decide) (Word.ends_cons.mpr (by decide)) opening
      simpa [Ty.words, text] using whole
  | case5 isMut target ih =>
      have inside := laid_mut isMut (ih closes later)
      have ends : (Word.of .andAnd).Ends (mutChars isMut ++ (target.text.toList ++ rest)) :=
        ends_mut (by decide) fun _ => ends_text target.stopsAt_initial.2 rest
      have marked : Laid (.of .andAnd :: _) ('&' :: '&' :: _) := .fixed (by decide) ends inside
      simpa [Ty.words, text_ref, mutChars] using marked
  | case6 isMut target notDouble ih =>
      have notRef : isMut = false → target.isRef = false := by
        intro shared
        cases target with
        | ref isMut target => exact (notDouble isMut target shared rfl).elim
        | _ => rfl
      have inside := laid_mut isMut (ih closes later)
      have ends : (Word.of .amp).Ends (mutChars isMut ++ (target.text.toList ++ rest)) :=
        ends_mut (by decide) fun shared => ends_text (amp_stopsAt_initial (notRef shared)) rest
      have marked : Laid (.of .amp :: _) ('&' :: _) := .fixed (by decide) ends inside
      simpa [Ty.words, text_ref] using marked

/-! ### The type of the words -/

/-- The words of a type are parsed as it is written. -/
theorem parses (ty : Ty) :
    Parses [.n .type] ty.words (sequels .type) fun trees =>
      ∃ tree, trees = [tree] ∧ buildType tree = .ok ty.written := by
  have named : ∀ name : String, isIdentifier name = true →
      Parses [.n .type] [.named name] (sequels .type) fun trees =>
        ∃ tree, trees = [tree] ∧ buildType tree = .ok (.mk name []) := by
    intro name identifier
    exact .node .namedType [.t .name] (by decide)
      (.name identifier fun token text _ => .done fun start => ⟨_, rfl, by rw [← text]; rfl⟩)
  induction ty using Ty.words.induct with
  | case1 => exact named "i32" (by decide)
  | case2 => exact named "bool" (by decide)
  | case3 =>
      exact .node .unitType [.t .lparen, .t .rparen] (by decide)
        (.mark rfl (.mark rfl (.done fun start => ⟨_, rfl, rfl⟩)))
  | case4 inner ih =>
      have isBox : isIdentifier "Box" = true := by decide
      refine .node .genericType [.t .name, .t .lt, .n .type, .t .gt] (by decide)
        (.name isBox fun token text _ => .token rfl fun less _ _ => .before (by decide) ih ?_)
      rintro _ ⟨tree, rfl, built⟩
      refine .token rfl fun greater _ _ => .done fun start => ⟨_, rfl, ?_⟩
      simp [buildType, written, built, text, bind, Except.bind, pure, Except.pure]
  | case5 isMut target ih =>
      refine .node .doubleRefType (.t .andAnd :: (optional isMut (.t .kwMut) ++ [.n .type]))
        (by cases isMut <;> decide) (.token rfl fun token _ _ =>
          parses_mut isMut fun marks isMarks => .last (by decide) ih ?_)
      rintro _ ⟨tree, rfl, built⟩ start
      obtain ⟨mark, -, rfl⟩ := isMarks
      refine ⟨_, rfl, ?_⟩
      cases isMut <;>
        simp [buildType, written, built, bind, Except.bind, pure, Except.pure]
  | case6 isMut target notDouble ih =>
      rw [Ty.words.eq_6 isMut target notDouble]
      refine .node .refType (.t .amp :: (optional isMut (.t .kwMut) ++ [.n .type]))
        (by cases isMut <;> decide) (.token rfl fun token _ _ =>
          parses_mut isMut fun marks isMarks => .last (by decide) ih ?_)
      rintro _ ⟨tree, rfl, built⟩ start
      obtain ⟨mark, -, rfl⟩ := isMarks
      refine ⟨_, rfl, ?_⟩
      cases isMut <;>
        simp [buildType, written, built, bind, Except.bind, pure, Except.pure]

end Ty

/-! ### A parameter of the type -/

/-- A function with one parameter, and what its type is written as. -/
def signatureText (f x : String) (isMut : Bool) (written : String) : String :=
  "fn " ++ f ++ "(" ++ (if isMut then "mut " else "") ++ x ++ ": " ++ written ++ ") \x7b\x7d"

section Signature

variable {f x : String} (isFunction : isIdentifier f = true) (isParam : isIdentifier x = true)
  (isMut : Bool) (ty : Ty)

/-- The words of the parameter. -/
def paramWords (x : String) (isMut : Bool) (ty : Ty) : List Word :=
  mutWords isMut ++ .named x :: .of .colon :: ty.words

def signatureWords (f x : String) (isMut : Bool) (ty : Ty) : List Word :=
  .of .kwFn :: .named f :: .of .lparen ::
    (paramWords x isMut ty ++ [.of .rparen, .of .lbrace, .of .rbrace])

/-- Nothing begins with an opening parenthesis but that. -/
theorem lparen_stopsAt (c : Char) : (Word.of .lparen).stopsAt c = true := by
  have alone : ∀ s ∈ openings, s = ['('] ∨ ['('].isPrefixOf s = false := by decide
  rw [Word.stopsAt_fixed (by decide), Bool.and_eq_true, List.all_eq_true]
  refine ⟨by rfl, fun s member => ?_⟩
  rw [Bool.not_eq_true']
  rcases alone s member with rfl | other
  · rfl
  · cases s with
    | nil => rfl
    | cons d s =>
        have apart : ('(' == d) = false := by simpa [List.isPrefixOf] using other
        simp [Word.chars, Word.of, Terminal.spellings, List.isPrefixOf, apart]

include isFunction isParam in
theorem laid_signature :
    Laid (signatureWords f x isMut ty) (signatureText f x isMut ty.text).toList := by
  have closing : Laid [.of .rparen, .of .lbrace, .of .rbrace] [')', ' ', '\x7b', '\x7d'] :=
    .fixed (by decide) (Word.ends_cons.mpr (by decide)) (.space (by decide)
      (.fixed (by decide) (Word.ends_cons.mpr (by decide))
        (.fixed (by decide) (fun c here => nomatch here) .nil)))
  have annotation := ty.laid (by simp) closing
  have colon : Laid _ (':' :: ' ' :: _) :=
    .fixed (t := .colon) (by decide) (Word.ends_cons.mpr (by decide))
      (.space (by decide) annotation)
  have param : Laid (.named x :: _) (x.toList ++ _) := .name isParam (Word.ends_cons.mpr rfl) colon
  have marked := Ty.laid_mut isMut param
  have opening : Laid (.of .lparen :: _) ('(' :: _) :=
    .fixed (by decide) (fun c _ => lparen_stopsAt c) marked
  have name : Laid (.named f :: _) (f.toList ++ _) :=
    .name isFunction (Word.ends_cons.mpr rfl) opening
  have whole : Laid (.of .kwFn :: _) ('f' :: 'n' :: ' ' :: (f.toList ++ _)) :=
    .fixed (by decide) (Word.ends_cons.mpr (by decide)) (.space (by decide) name)
  have mutText : (if isMut then "mut " else "").toList = Ty.mutChars isMut := by
    cases isMut <;> rfl
  simpa [signatureText, signatureWords, paramWords, mutText] using whole

/-- The words of the parameter are parsed as one of the written type. -/
theorem parses_parameter (isParam : isIdentifier x = true) :
    Parses [.n .param] (paramWords x isMut ty) (sequels .param) fun trees =>
      ∃ tree loc, trees = [tree] ∧ buildParam tree = .ok ⟨x, ty.written, loc, isMut⟩ := by
  refine .node .param (optional isMut (.t .kwMut) ++ [.t .name, .t .colon, .n .type])
    (by cases isMut <;> decide) (parses_mut isMut fun marks isMarks =>
      .name isParam fun token text _ => .mark rfl (.last (by decide) ty.parses ?_))
  rintro _ ⟨tree, rfl, built⟩ start
  obtain ⟨mark, -, rfl⟩ := isMarks
  refine ⟨_, some start, rfl, ?_⟩
  cases isMut <;> simp [buildParam, text, built, bind, Except.bind, pure, Except.pure]

/-- The program of one function that has one parameter, and an empty body. -/
def OneParameter (f x : String) (isMut : Bool) (ty : Ty) (program : Program) : Prop :=
  ∃ loc paramLoc bodyLoc written, program = ⟨[⟨f, [⟨x, written, paramLoc, isMut⟩], none,
    .mk [] none bodyLoc, loc⟩]⟩ ∧ Ty.resolve written = .ok ty

include isFunction isParam in
theorem parses_signature :
    Parses [.n .program] (signatureWords f x isMut ty) [.endOfInput] fun trees =>
      ∃ program, buildProgram trees = .ok program ∧ OneParameter f x isMut ty program := by
  have params : Parses [.n .params] (paramWords x isMut ty) (sequels .params) fun trees =>
      ∃ tree start loc, trees = [.node .params start [tree]] ∧
        buildParam tree = .ok ⟨x, ty.written, loc, isMut⟩ := by
    refine .node .params [.n .param] (by decide)
      (.last (by decide) (parses_parameter isMut ty isParam) ?_)
    rintro _ ⟨tree, loc, rfl, built⟩ start
    exact ⟨tree, start, loc, rfl, built⟩
  have body : Parses [.n .block] [.of .lbrace, .of .rbrace] (sequels .block) fun trees =>
      ∃ start, trees = [.node .block start []] :=
    .node .block [.t .lbrace, .t .rbrace] (by decide)
      (.mark rfl (.mark rfl (.done fun start => ⟨start, rfl⟩)))
  have function : Parses [.n .function] (signatureWords f x isMut ty) (sequels .function)
      fun trees => ∃ tree function, trees = [tree] ∧ buildFunction tree = .ok function ∧
        OneParameter f x isMut ty ⟨[function]⟩ := by
    refine .node .function [.t .kwFn, .t .name, .t .lparen, .n .params, .t .rparen, .n .block]
      (by decide) (.mark rfl (.name isFunction fun token text _ => .mark rfl
        (.before (by decide) params ?_)))
    rintro _ ⟨tree, paramsStart, loc, rfl, built⟩
    refine .mark rfl (.last (by decide) body ?_)
    rintro _ ⟨bodyStart, rfl⟩ start
    refine ⟨_, ⟨f, [⟨x, ty.written, loc, isMut⟩], none, .mk [] none (some bodyStart), some start⟩,
      rfl, ?_, _, _, _, _, rfl, ty.resolve_written⟩
    simp [buildFunction, built, text, buildBlock, buildItems, bind, Except.bind, pure, Except.pure]
  have functions : Parses [.n .functions] _ (sequels .functions) _ :=
    .unit (by decide) (by decide) function
  refine .node .program [.n .functions] (by decide) (.last (by decide) functions ?_)
  rintro _ ⟨tree, built, rfl, builds, isOne⟩ start
  refine ⟨⟨[built]⟩, ?_, isOne⟩
  simp [buildProgram, builds, bind, Except.bind, pure, Except.pure]

include isFunction isParam in
theorem ofText_signature (file : Option String) :
    ∃ program, Program.ofText file (signatureText f x isMut ty.text) = .ok program ∧
      OneParameter f x isMut ty program := by
  obtain ⟨trees, parsed, program, builds, isOne⟩ :=
    ParseTree.ofText_of_laid (laid_signature isFunction isParam isMut ty)
      (parses_signature isFunction isParam isMut ty)
  exact ⟨program, Program.ofText_of_build file parsed builds, isOne⟩

end Signature

/-! ### Types that are told apart -/

namespace Ty

theorem text_injective {ty other : Ty} (same : ty.text = other.text) : ty = other := by
  obtain ⟨program, read, _, _, _, written, rfl, resolved⟩ :=
    ofText_signature (f := "f") (x := "x") (by decide) (by decide) false ty none
  obtain ⟨_, again, _, _, _, rewritten, rfl, resolvedAgain⟩ :=
    ofText_signature (f := "f") (x := "x") (by decide) (by decide) false other none
  rw [same, again] at read
  simp only [Except.ok.injEq, Program.mk.injEq, List.cons.injEq, FunctionDef.mk.injEq,
    Param.mk.injEq] at read
  obtain rfl : rewritten = written := by tauto
  rw [resolved] at resolvedAgain
  exact Except.ok.inj resolvedAgain

/-- There is no back quote in the text of a type. -/
theorem backQuote_notMem (ty : Ty) : '\x60' ∉ ty.text.toList := by
  induction ty with
  | i32 | bool | unit => decide
  | box inner ih => simpa [text] using ih
  | ref isMut target ih => cases isMut <;> simpa [text] using ih

/-- The part of a text before the first back quote, and the part after it. -/
theorem eq_of_append_backQuote {before before' after after' : List Char}
    (inside : '\x60' ∉ before) (inside' : '\x60' ∉ before')
    (same : before ++ '\x60' :: after = before' ++ '\x60' :: after') :
    before = before' ∧ after = after' := by
  have cut : ∀ {chars rest : List Char}, '\x60' ∉ chars →
      (chars ++ '\x60' :: rest).takeWhile (· != '\x60') = chars := by
    intro chars rest none
    refine takeWhile_whole chars ?_ (by simp)
    simp only [List.all_eq_true, bne_iff_ne]
    rintro _ member rfl
    exact none member
  have sameBefore : before = before' := by rw [← cut inside, same, cut inside']
  subst sameBefore
  exact ⟨rfl, (List.cons.inj (List.append_cancel_left same)).2⟩

/-- What is said of two types, each in back quotes, tells both of them. -/
theorem twoTypes_injective {opening : String} {expected found expected' found' : Ty}
    (same : opening ++ expected.text ++ "`, found `" ++ found.text ++ "`" =
      opening ++ expected'.text ++ "`, found `" ++ found'.text ++ "`") :
    expected = expected' ∧ found = found' := by
  have chars : ∀ first second : String,
      (opening ++ first ++ "`, found `" ++ second ++ "`").toList = opening.toList ++
        (first.toList ++ '\x60' :: (", found `".toList ++ (second.toList ++ ['\x60']))) := by
    intro first second
    simp
  have sameChars := congrArg String.toList same
  rw [chars, chars] at sameChars
  obtain ⟨first, rest⟩ := eq_of_append_backQuote expected.backQuote_notMem
    expected'.backQuote_notMem (List.append_cancel_left sameChars)
  obtain ⟨second, -⟩ := eq_of_append_backQuote found.backQuote_notMem found'.backQuote_notMem
    (List.append_cancel_left rest)
  exact ⟨text_injective (String.toList_inj.mp first), text_injective (String.toList_inj.mp second)⟩

/-- The text of a type is read back as the type where a parameter has it: two types have different
texts, and a message that shows two types tells both of them. -/
theorem text_readBack (file : Option String) {f x : String} (isFunction : isIdentifier f = true)
    (isParam : isIdentifier x = true) (isMut : Bool) (ty : Ty) :
    (∃ written loc paramLoc bodyLoc,
      Program.ofText file (signatureText f x isMut ty.text) =
        .ok ⟨[⟨f, [⟨x, written, paramLoc, isMut⟩], none, .mk [] none bodyLoc, loc⟩]⟩ ∧
      resolve written = .ok ty) ∧
    (∀ other : Ty, ty.text = other.text → ty = other) ∧
    ∀ found expected' found' : Ty,
      Checker.mismatchText ty found = Checker.mismatchText expected' found' →
        ty = expected' ∧ found = found' := by
  obtain ⟨_, read, loc, paramLoc, bodyLoc, written, rfl, resolved⟩ :=
    ofText_signature isFunction isParam isMut ty file
  exact ⟨⟨written, loc, paramLoc, bodyLoc, read, resolved⟩, fun _ => text_injective,
    fun _ _ _ same => twoTypes_injective same⟩

/-- Boxes and references inside each other, with two references one after the other and two boxes
that are closed one after the other. -/
def nested : Ty := box (ref false (ref true (ref false (ref false (box (box unit))))))

theorem text_readBack_nested :
    isIdentifier "f" = true ∧ isIdentifier "x" = true ∧
      nested.text = "Box<&&mut &&Box<Box<()>>>" ∧
      (∃ written loc paramLoc bodyLoc,
        Program.ofText (some "main") "fn f(mut x: Box<&&mut &&Box<Box<()>>>) \x7b\x7d" =
          .ok ⟨[⟨"f", [⟨"x", written, paramLoc, true⟩], none, .mk [] none bodyLoc, loc⟩]⟩ ∧
        resolve written = .ok nested) ∧
      (∀ other : Ty, nested.text = other.text → nested = other) ∧
      ∀ found expected' found' : Ty,
        Checker.mismatchText nested found = Checker.mismatchText expected' found' →
          nested = expected' ∧ found = found' := by
  have isFunction : isIdentifier "f" = true := by decide
  have isParam : isIdentifier "x" = true := by decide
  have text : nested.text = "Box<&&mut &&Box<Box<()>>>" := by decide
  have readBack := text_readBack (some "main") isFunction isParam true nested
  rw [text] at readBack
  rw [text]
  exact ⟨isFunction, isParam, rfl, readBack⟩

end Ty

end BorrowLang
