import BorrowLang.Proofs.Parsing.Derivations
import Mathlib.Data.List.Induction

/-!
# Phrases

Words are parsed by symbols before some terminals when their tokens are derived, wherever they
stand, with trees of which something holds.  The rules follow a production from left to right, and
say at its end what the tree of the phrase has to be.
-/

set_option autoImplicit false

namespace BorrowLang.Grammar

/-- The terminal of the first of some words, or the one that comes after them. -/
def upcomingWord (words : List Word) (following : Terminal) : Terminal :=
  (words.head?.map (·.terminal)).getD following

@[simp] theorem upcomingWord_nil (a : Terminal) : upcomingWord [] a = a := rfl

@[simp] theorem upcomingWord_cons (w : Word) (words : List Word) (a : Terminal) :
    upcomingWord (w :: words) a = w.terminal := rfl

theorem upcoming_eq {tokens : List Token} {words : List Word} (a : Terminal)
    (same : tokens.map Token.word = words) : upcoming tokens a = upcomingWord words a := by
  subst same
  cases tokens <;> rfl

/-- Has a terminal fixed words, which leave no tree? -/
def Terminal.isMark (t : Terminal) : Bool := !t.spellings.isEmpty && !t.isKept

/-- Has a terminal fixed words, which leave a tree? -/
def Terminal.isSign (t : Terminal) : Bool := !t.spellings.isEmpty && t.isKept

/-- A production, not an empty one, comes before some terminals. -/
def Production.Comes (p : Production) (after : List Terminal) : Prop :=
  p ∈ productions ∧ p.symbols ≠ [] ∧ ∀ a ∈ after, a ∈ sequels p.phrase

instance (p : Production) (after : List Terminal) : Decidable (p.Comes after) :=
  inferInstanceAs (Decidable (_ ∧ _ ∧ ∀ a ∈ after, a ∈ sequels p.phrase))

/-- Words, before some terminals, are parsed by symbols, with good trees. -/
def Parses (symbols : List Symbol) (words : List Word) (after : List Terminal)
    (Good : List ParseTree → Prop) : Prop :=
  ∀ tokens : List Token, tokens.map Token.word = words → ∀ a ∈ after,
    (∀ w ∈ words, w.Fits) ∧
      ∃ parts, Derives symbols tokens a parts ∧ Good (parts.flatMap (·.trees))

namespace Parses

variable {symbols : List Symbol} {words : List Word} {after : List Terminal}
  {Good : List ParseTree → Prop}

theorem mono {Better : List ParseTree → Prop} (parses : Parses symbols words after Better)
    (imp : ∀ trees, Better trees → Good trees) : Parses symbols words after Good := by
  intro tokens same a member
  obtain ⟨fit, parts, derived, good⟩ := parses tokens same a member
  exact ⟨fit, parts, derived, imp _ good⟩

theorem narrow {before : List Terminal} (parses : Parses symbols words before Good)
    (within : ∀ a ∈ after, a ∈ before) : Parses symbols words after Good :=
  fun tokens same a member => parses tokens same a (within a member)

/-- At the end of a production. -/
theorem done (good : Good []) : Parses [] [] after Good := by
  intro tokens same a _
  obtain rfl := List.map_eq_nil_iff.mp same
  exact ⟨by simp, [], .nil a, good⟩

/-- A word that leaves a tree. -/
theorem keep {w : Word} (fits : w.Fits) (kept : w.terminal.isKept = true)
    (rest : ∀ p : Position,
      Parses symbols words after fun trees => Good (.leaf ⟨w.terminal, w.text, p⟩ :: trees)) :
    Parses (.t w.terminal :: symbols) (w :: words) after Good := by
  intro tokens same a member
  obtain ⟨token, others, rfl, rfl, sameRest⟩ := List.map_eq_cons_iff.mp same
  obtain ⟨fit, parts, derived, good⟩ := rest token.position others sameRest a member
  refine ⟨List.forall_mem_cons.mpr ⟨fits, fit⟩, _, .token token derived, ?_⟩
  rw [List.flatMap_cons, Part.ofToken, if_pos (show token.terminal.isKept = true from kept)]
  exact good

/-- A word that leaves no tree. -/
theorem skip {w : Word} (fits : w.Fits) (dropped : w.terminal.isKept = false)
    (rest : Parses symbols words after Good) :
    Parses (.t w.terminal :: symbols) (w :: words) after Good := by
  intro tokens same a member
  obtain ⟨token, others, rfl, rfl, sameRest⟩ := List.map_eq_cons_iff.mp same
  obtain ⟨fit, parts, derived, good⟩ := rest others sameRest a member
  refine ⟨List.forall_mem_cons.mpr ⟨fits, fit⟩, _, .token token derived, ?_⟩
  simpa [Part.ofToken, show token.terminal.isKept = false from dropped] using good

/-- A word with one text that leaves no tree. -/
theorem mark {t : Terminal} (isMark : t.isMark = true) (rest : Parses symbols words after Good) :
    Parses (.t t :: symbols) (.of t :: words) after Good := by
  simp only [Terminal.isMark, Bool.and_eq_true, Bool.not_eq_true'] at isMark
  exact skip (Word.of_fits (List.isEmpty_eq_false_iff.mp isMark.1)) isMark.2 rest

/-- A word with one text that leaves a tree. -/
theorem token {t : Terminal} (isSign : t.isSign = true)
    (rest : ∀ token : Token, token.terminal = t → token.text = (Word.of t).text →
      Parses symbols words after fun trees => Good (.leaf token :: trees)) :
    Parses (.t t :: symbols) (.of t :: words) after Good := by
  simp only [Terminal.isSign, Bool.and_eq_true, Bool.not_eq_true'] at isSign
  exact keep (Word.of_fits (List.isEmpty_eq_false_iff.mp isSign.1)) isSign.2 fun _ => rest _ rfl rfl

theorem name {text : String} (identifier : isIdentifier text)
    (rest : ∀ token : Token, token.text = text → token.terminal = .name →
      Parses symbols words after fun trees => Good (.leaf token :: trees)) :
    Parses (.t .name :: symbols) (.named text :: words) after Good :=
  keep (w := .named text) identifier rfl fun _ => rest _ rfl rfl

/-- A phrase, and what comes after it. -/
theorem phrase {X : Symbol} {here : List Word} {first : List Terminal}
    {Here : List ParseTree → Prop} (parses : Parses [X] here first Here)
    (comes : ∀ a ∈ after, upcomingWord words a ∈ first)
    (rest : ∀ trees, Here trees →
      Parses symbols words after fun later => Good (trees ++ later)) :
    Parses (X :: symbols) (here ++ words) after Good := by
  intro tokens same a member
  obtain ⟨inner, others, rfl, sameHere, sameRest⟩ := List.map_eq_append_iff.mp same
  obtain ⟨fitHere, parts, derived, isHere⟩ := parses inner sameHere _ (comes a member)
  obtain ⟨fit, later, derivedLater, good⟩ := rest _ isHere others sameRest a member
  rw [← upcoming_eq a sameRest] at derived
  refine ⟨List.forall_mem_append.mpr ⟨fitHere, fit⟩, _, derived.append derivedLater, ?_⟩
  rwa [List.flatMap_append]

/-- A phrase with a word after it. -/
theorem before {X : Symbol} {here : List Word} {w : Word} {first : List Terminal}
    {Here : List ParseTree → Prop} (comes : w.terminal ∈ first)
    (parses : Parses [X] here first Here)
    (rest : ∀ trees, Here trees →
      Parses symbols (w :: words) after fun later => Good (trees ++ later)) :
    Parses (X :: symbols) (here ++ w :: words) after Good :=
  phrase parses (fun _ _ => comes) rest

/-- The last phrase of a production. -/
theorem last {X : Symbol} {first : List Terminal} {Here : List ParseTree → Prop}
    (within : ∀ a ∈ after, a ∈ first) (parses : Parses [X] words first Here)
    (good : ∀ trees, Here trees → Good trees) : Parses [X] words after Good :=
  (parses.narrow within).mono good

variable {N : Nonterminal}

/-- A production that puts its trees under a node. -/
theorem node (form : Form) (symbols : List Symbol)
    (comes : Production.Comes ⟨N, symbols, some form⟩ after)
    (inside : Parses symbols words after fun children =>
      ∀ start, Good [.node form start children]) : Parses [.n N] words after Good := by
  intro tokens same a member
  obtain ⟨known, notEmpty, follow⟩ := comes
  obtain ⟨fit, parts, derived, good⟩ := inside tokens same a member
  exact ⟨fit, _, Derives.single known notEmpty derived (follow a member),
    by simpa [Part.ofPhrase] using good _⟩

/-- A production that hands on its trees. -/
theorem hand (symbols : List Symbol) (comes : Production.Comes ⟨N, symbols, none⟩ after)
    (inside : Parses symbols words after Good) : Parses [.n N] words after Good := by
  intro tokens same a member
  obtain ⟨known, notEmpty, follow⟩ := comes
  obtain ⟨fit, parts, derived, good⟩ := inside tokens same a member
  exact ⟨fit, _, Derives.single known notEmpty derived (follow a member),
    by simpa [Part.ofPhrase] using good⟩

/-- A phrase that is another phrase alone. -/
theorem unit {X : Symbol} {first : List Terminal} (comes : Production.Comes ⟨N, [X], none⟩ after)
    (within : ∀ a ∈ after, a ∈ first) (parses : Parses [X] words first Good) :
    Parses [.n N] words after Good :=
  hand [X] comes (parses.narrow within)

/-- Parts of one kind are parsed from the left, the last one after the others. -/
theorem each {α : Type} (part : List Symbol) {wordsOf : α → List Word}
    {Good : List α → List ParseTree → Prop} {xs : List α} (isSome : xs ≠ [])
    (notEmpty : part ≠ []) (first : (⟨N, part, none⟩ : Production) ∈ productions)
    (more : (⟨N, .n N :: part, none⟩ : Production) ∈ productions)
    (append : ∀ earlier x trees others, Good earlier trees → Good [x] others →
      Good (earlier ++ [x]) (trees ++ others))
    (parses : ∀ x ∈ xs, Parses part (wordsOf x) (sequels N) (Good [x]))
    (comes : ∀ x ∈ xs, ∃ w rest, wordsOf x = w :: rest ∧ w.terminal ∈ sequels N) :
    Parses [.n N] (xs.flatMap wordsOf) (sequels N) (Good xs) := by
  induction xs using List.reverseRecOn with
  | nil => exact absurd rfl isSome
  | append_singleton earlier x ih =>
      have here := parses x (by simp)
      rw [List.flatMap_append, List.flatMap_singleton]
      by_cases isFirst : earlier = []
      · subst isFirst
        exact .hand part ⟨first, notEmpty, fun a => id⟩ here
      · have before := ih isFirst (fun y member => parses y (by simp [member]))
          fun y member => comes y (by simp [member])
        obtain ⟨w, rest, begins, isSequel⟩ := comes x (by simp)
        refine .hand (.n N :: part) ⟨more, by simp, fun a => id⟩
          (.phrase before ?_ fun trees good => ?_)
        · intro a _
          rw [begins]
          exact isSequel
        · exact here.mono fun others => append earlier x trees others good

end Parses

/-- A text that is laid out in words that are parsed as a program has good trees. -/
theorem ParseTree.ofText_of_laid {words : List Word} {text : String}
    {Good : List ParseTree → Prop} (laid : Laid words text.toList)
    (parses : Parses [.n .program] words [.endOfInput] Good) :
    ∃ trees, ParseTree.ofText text = .ok trees ∧ Good trees :=
  ofText_of_derives laid fun tokens same =>
    (parses tokens same .endOfInput List.mem_cons_self).2

/-- A text of words that are parsed as a program has good trees. -/
theorem ParseTree.ofText_of_parses {words : List Word} {text : String}
    {Good : List ParseTree → Prop} (isText : text.toList = textOf words)
    (parses : Parses [.n .program] words [.endOfInput] Good) :
    ∃ trees, ParseTree.ofText text = .ok trees ∧ Good trees := by
  -- whether the words fit does not depend on where they stand
  have anywhere : (words.map fun w => (⟨w.terminal, w.text, .start⟩ : Token)).map Token.word =
      words := by
    rw [List.map_map]
    exact List.map_id words
  obtain ⟨fit, -⟩ := parses _ anywhere .endOfInput List.mem_cons_self
  have laid := laid_textOf fit
  rw [← isText] at laid
  exact ofText_of_laid laid parses

/-! ### Levels of precedence -/

/-- The phrases of expressions by level; each may be one of the next level. -/
def ladder : List Nonterminal :=
  [.expr, .operation, .disjunction, .conjunction, .comparison, .sum, .term, .unary, .application,
   .atom]

def rung (level : Nat) : Nonterminal := ladder.getD level .atom

theorem rung_table :
    ∀ level < 9, (⟨rung level, [.n (rung (level + 1))], none⟩ : Production) ∈ productions ∧
      ∀ a ∈ sequels (rung level), a ∈ sequels (rung (level + 1)) := by decide

/-- What is parsed at a level is parsed at each level below. -/
theorem Parses.climb {words : List Word} {Good : List ParseTree → Prop} {level higher : Nat}
    (below : level ≤ higher) (top : higher ≤ 9)
    (parses : Parses [.n (rung higher)] words (sequels (rung higher)) Good) :
    Parses [.n (rung level)] words (sequels (rung level)) Good := by
  induction higher, below using Nat.le_induction with
  | base => exact parses
  | succ higher _ ih =>
      obtain ⟨known, within⟩ := rung_table higher (by omega)
      exact ih (by omega) (.unit ⟨known, by simp, fun a => id⟩ within parses)

end BorrowLang.Grammar
