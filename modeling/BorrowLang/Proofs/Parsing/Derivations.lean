import BorrowLang.Proofs.Parsing.States
import Mathlib.Logic.Relation

/-!
# Derivations

How the tokens of a text are written by the productions, and that a reader finds it out: it goes
over the tokens that a symbol is written with to the state after the symbol, with the trees that the
productions build.
-/

set_option autoImplicit false

namespace BorrowLang.Grammar

/-! ### Derivations -/

/-- What is known of a symbol that has been read: where it starts, and its trees. -/
structure Part where
  start : Position
  trees : List ParseTree

namespace Part

def ofToken (token : Token) : Part :=
  ⟨token.position, if token.terminal.isKept then [.leaf token] else []⟩

/-- The part of a phrase, from the parts of the symbols of a production. -/
def ofPhrase (p : Production) (parts : List Part) : Part :=
  let start := (parts.head?.map (·.start)).getD .start
  let trees := parts.flatMap (·.trees)
  ⟨start,
    match p.form with
    | none => trees
    | some form => [.node form start trees]⟩

end Part

/-- The terminal of the first of some tokens, or the one that comes after them. -/
def upcoming (tokens : List Token) (following : Terminal) : Terminal :=
  (tokens.head?.map (·.terminal)).getD following

@[simp] theorem upcoming_nil (a : Terminal) : upcoming [] a = a := rfl

@[simp] theorem upcoming_cons (token : Token) (tokens : List Token) (a : Terminal) :
    upcoming (token :: tokens) a = token.terminal := rfl

theorem upcoming_append (tokens others : List Token) (a : Terminal) :
    upcoming (tokens ++ others) a = upcoming tokens (upcoming others a) := by
  cases tokens <;> rfl

/-- Tokens, before a terminal, are written by symbols, with what is then known of these.  After each
phrase comes a terminal that comes after such a phrase. -/
inductive Derives : List Symbol → List Token → Terminal → List Part → Prop
  | nil (a : Terminal) : Derives [] [] a []
  | token {symbols : List Symbol} {tokens : List Token} {a : Terminal} {parts : List Part}
      (token : Token) (rest : Derives symbols tokens a parts) :
      Derives (.t token.terminal :: symbols) (token :: tokens) a (.ofToken token :: parts)
  | phrase {p : Production} {symbols : List Symbol} {inner tokens : List Token} {a : Terminal}
      {parts others : List Part} (known : p ∈ productions) (notEmpty : p.symbols ≠ [])
      (written : Derives p.symbols inner (upcoming tokens a) parts)
      (follows : upcoming tokens a ∈ sequels p.phrase)
      (rest : Derives symbols tokens a others) :
      Derives (.n p.phrase :: symbols) (inner ++ tokens) a (.ofPhrase p parts :: others)

theorem Derives.append {xs ys : List Symbol} {tokens others : List Token} {a : Terminal}
    {parts later : List Part} (first : Derives xs tokens (upcoming others a) parts)
    (second : Derives ys others a later) :
    Derives (xs ++ ys) (tokens ++ others) a (parts ++ later) := by
  generalize isNext : upcoming others a = next at first
  induction first with
  | nil _ => exact second
  | token token _ ih => exact .token token (ih isNext)
  | phrase known notEmpty written follows _ _ ih =>
      subst isNext
      rw [← upcoming_append] at written follows
      rw [List.append_assoc]
      exact .phrase known notEmpty written follows (ih rfl)

theorem Derives.single {p : Production} {tokens : List Token} {a : Terminal} {parts : List Part}
    (known : p ∈ productions) (notEmpty : p.symbols ≠ [])
    (written : Derives p.symbols tokens a parts) (follows : a ∈ sequels p.phrase) :
    Derives [.n p.phrase] tokens a [.ofPhrase p parts] := by
  have whole : Derives [.n p.phrase] (tokens ++ []) a [.ofPhrase p parts] :=
    .phrase known notEmpty written follows (.nil a)
  rwa [List.append_nil] at whole

/-! ### Steps of a reader -/

/-- A stack, and the tokens still to come. -/
abbrev Config := List StackEntry × List Token

/-- One action of a reader. -/
inductive Step : Config → Config → Prop
  | shift {stack : List StackEntry} {token : Token} {tokens : List Token} {next : State}
      (possible : (topState stack).expected.has token.terminal)
      (acts : (topState stack).action? token.terminal = some (.shift next)) :
      Step (stack, token :: tokens) (tokenEntry next token :: stack, tokens)
  | reduce {stack reduced : List StackEntry} {token : Token} {tokens : List Token}
      {p : Production} (possible : (topState stack).expected.has token.terminal)
      (acts : (topState stack).action? token.terminal = some (.reduce p))
      (known : p ∈ productions) (notEmpty : p.symbols ≠ [])
      (isReduced : reduce? p token.position stack = some reduced) :
      Step (stack, token :: tokens) (reduced, token :: tokens)

abbrev Steps : Config → Config → Prop := Relation.ReflTransGen Step

def StackEntry.part (entry : StackEntry) : Part := ⟨entry.start, entry.trees⟩

/-- The entry of a phrase that has a symbol does not depend on the token after it. -/
theorem part_phraseEntry {state : State} {p : Production} {entries : List StackEntry}
    {position : Position} (notEmpty : entries ≠ []) :
    (phraseEntry state p entries position).part = .ofPhrase p (entries.map (·.part)) := by
  obtain ⟨entry, rest, rfl⟩ := List.exists_cons_of_ne_nil notEmpty
  have sameTrees : ((entry :: rest).map (·.part)).flatMap (·.trees) =
      (entry :: rest).flatMap (·.trees) := List.flatMap_map ..
  unfold phraseEntry StackEntry.part Part.ofPhrase
  cases p.form
  · exact congrArg (Part.mk _) sameTrees.symm
  · exact congrArg (fun trees => Part.mk _ [.node _ _ trees]) sameTrees.symm

theorem reduce?_append {p : Production} {position : Position} {entries stack : List StackEntry}
    {next : State} (symbols : entries.reverse.map (·.symbol) = p.symbols)
    (goes : (topState stack).after? (.n p.phrase) = some next) :
    reduce? p position (entries ++ stack) =
      some (phraseEntry next p entries.reverse position :: stack) := by
  have count : p.symbols.length = entries.length := by simp [← symbols]
  unfold reduce?
  rw [count, List.take_left, List.drop_left, if_pos symbols, goes]
  rfl

/-- A reader goes over the tokens that some symbols are written with. -/
theorem Derives.steps {symbols : List Symbol} {tokens : List Token} {a : Terminal}
    {parts : List Part} (derives : Derives symbols tokens a parts) :
    ∀ (stack : List StackEntry) {q : Production} {more : List Symbol} {next : Token}
      (following : List Token), next.terminal = a → (topState stack).Reached →
      ⟨q, symbols ++ more⟩ ∈ (topState stack).items →
      ∃ entries : List StackEntry,
        Steps (stack, tokens ++ next :: following) (entries ++ stack, next :: following) ∧
        entries.reverse.map (·.symbol) = symbols ∧ entries.reverse.map (·.part) = parts ∧
        (topState (entries ++ stack)).Reached ∧ ⟨q, more⟩ ∈ (topState (entries ++ stack)).items := by
  induction derives with
  | nil a =>
      intro stack q more next following _ reached member
      exact ⟨[], .refl, rfl, rfl, reached, member⟩
  | token token _ ih =>
      intro stack q more next following isNext reached member
      obtain ⟨state, goes, advanced⟩ := State.after?_of_mem member
      have possible : (topState stack).expected.has token.terminal :=
        reached.expected_has member (by simp [Item.expected, TerminalSet.has, TerminalSet.single])
      obtain ⟨entries, steps, symbols, parts, reached, member⟩ :=
        ih (tokenEntry state token :: stack) following isNext (reached.after goes) advanced
      refine ⟨entries ++ [tokenEntry state token], ?_, ?_, ?_, ?_, ?_⟩
      · rw [List.append_assoc]
        exact .head (.shift possible (by simp [State.action?, goes])) steps
      · simpa [tokenEntry] using symbols
      · simpa [tokenEntry, StackEntry.part, Part.ofToken] using parts
      · rwa [List.append_assoc]
      · rwa [List.append_assoc]
  | @phrase p symbols inner tokens a parts others known notEmpty _ follows _ written ih =>
      intro stack q more next following isNext reached member
      have begins : ⟨p, p.symbols ++ []⟩ ∈ (topState stack).items := by
        rw [List.append_nil]
        exact reached.begins member known
      -- The token on which the production is put together.
      obtain ⟨upcomes, later, split, isUpcoming⟩ : ∃ upcomes later,
          tokens ++ next :: following = upcomes :: later ∧
            upcomes.terminal = upcoming tokens a := by
        cases tokens with
        | nil => exact ⟨next, following, rfl, isNext⟩
        | cons token rest => exact ⟨token, rest ++ next :: following, rfl, rfl⟩
      obtain ⟨inside, steps, sameSymbols, sameParts, insideReached, done⟩ :=
        written stack later isUpcoming reached begins
      obtain ⟨state, goes, advanced⟩ := State.after?_of_mem member
      rw [← isUpcoming] at follows
      have possible : (topState (inside ++ stack)).expected.has upcomes.terminal :=
        insideReached.expected_has done (followers_has follows)
      have insideSome : inside.reverse ≠ [] := by
        intro none
        rw [none] at sameSymbols
        exact notEmpty sameSymbols.symm
      have reduces : Step (_, upcomes :: later) _ := .reduce possible
        (insideReached.action?_reduce done follows) known notEmpty (reduce?_append sameSymbols goes)
      obtain ⟨entries, restSteps, restSymbols, restParts, reached, member⟩ :=
        ih (phraseEntry state p inside.reverse upcomes.position :: stack) following isNext
          (reached.after goes) advanced
      refine ⟨entries ++ [phraseEntry state p inside.reverse upcomes.position], ?_, ?_, ?_, ?_, ?_⟩
      · rw [split] at restSteps
        rw [List.append_assoc inner, split, List.append_assoc entries]
        exact (steps.tail reduces).trans restSteps
      · simpa [phraseEntry] using restSymbols
      · simp [part_phraseEntry insideSome, sameParts, restParts]
      · rwa [List.append_assoc]
      · rwa [List.append_assoc]

/-! ### Reading -/

/-- How many phrases a symbol cannot begin with; a production of one symbol makes it smaller. -/
def Symbol.rank : Symbol → Nat
  | .t _ => Nonterminal.all.length
  | .n N => (Nonterminal.all.filter fun M => !(leading N).has M).length

theorem rank_table :
    ∀ p ∈ productions, p.symbols ≠ [] →
      Symbol.rank (.n p.phrase) < Nonterminal.all.length ∧
        ∀ X, p.symbols = [X] → Symbol.rank (.n p.phrase) < X.rank := by
  have all : ∀ p ∈ productions,
      Nat.blt (Symbol.rank (.n p.phrase)) Nonterminal.all.length &&
        (p.symbols.length != 1 || p.symbols.all (Nat.blt (Symbol.rank (.n p.phrase)) ·.rank)) =
          true := by decide +kernel
  intro p known _
  have both := all p known
  rw [Bool.and_eq_true, Nat.blt_eq] at both
  refine ⟨both.1, ?_⟩
  rintro X same
  simpa [same] using both.2

/-- What gets smaller with each production that is put together. -/
def potential (stack : List StackEntry) : Nat :=
  Nonterminal.all.length * stack.length + (stack.head?.map (·.symbol.rank)).getD 0

theorem rank_le (X : Symbol) : X.rank ≤ Nonterminal.all.length := by
  cases X with
  | t a => exact le_rfl
  | n N => exact List.length_filter_le ..

theorem potential_lt_reductionBound (stack : List StackEntry) :
    potential stack < reductionBound stack := by
  have top : (stack.head?.map (·.symbol.rank)).getD 0 ≤ Nonterminal.all.length := by
    cases stack with
    | nil => exact Nat.zero_le _
    | cons entry rest => exact rank_le entry.symbol
  have some : 0 < Nonterminal.all.length := by decide
  unfold potential reductionBound
  rw [Nat.add_mul, Nat.mul_comm]
  omega

theorem potential_reduce {p : Production} {position : Position} {stack reduced : List StackEntry}
    (known : p ∈ productions) (notEmpty : p.symbols ≠ [])
    (isReduced : reduce? p position stack = some reduced) : potential reduced < potential stack := by
  dsimp only [reduce?] at isReduced
  split at isReduced
  · rename_i sameSymbols
    obtain ⟨next, -, rest⟩ := Option.bind_eq_some_iff.mp isReduced
    obtain rfl := Option.some.inj rest
    obtain ⟨small, ofUnit⟩ := rank_table p known notEmpty
    have bound : Nonterminal.all.length = 35 := rfl
    have count := congrArg List.length sameSymbols
    have some := List.length_pos_iff.mpr notEmpty
    simp only [List.length_map, List.length_reverse, List.length_take] at count
    simp only [potential, bound, phraseEntry, List.length_cons, List.length_drop, List.head?_cons,
      Option.map_some, Option.getD_some] at small ⊢
    by_cases unit : p.symbols.length = 1
    · obtain ⟨X, same⟩ := List.length_eq_one_iff.mp unit
      have smaller := ofUnit X same
      cases stack with
      | nil => simp [same] at count
      | cons entry below =>
          obtain rfl : entry.symbol = X := by simpa [same] using sameSymbols
          simp only [unit, List.length_cons, List.head?_cons, Option.map_some, Option.getD_some]
          omega
    · omega
  · exact nomatch isReduced

/-- Where a reader can go on to the end of some tokens, the first of them is read. -/
theorem feed_of_steps {stack final : List StackEntry} {token : Token} {tokens : List Token}
    {fuel : Nat} (steps : Steps (stack, token :: tokens) (final, []))
    (enough : potential stack < fuel) :
    (topState stack).expected.has token.terminal ∧
      ∃ next, feed token fuel stack = .ok next ∧ Steps (next, tokens) (final, []) := by
  induction fuel generalizing stack with
  | zero => exact absurd enough (Nat.not_lt_zero _)
  | succ fuel ih =>
      rcases Relation.ReflTransGen.cases_head steps with same | ⟨_, step, rest⟩
      · exact nomatch same
      · cases step with
        | shift possible acts => exact ⟨possible, _, by simp [feed, acts], rest⟩
        | reduce possible acts known notEmpty isReduced =>
            have smaller := potential_reduce known notEmpty isReduced
            obtain ⟨-, next, fed, rest⟩ := ih rest (by omega)
            exact ⟨possible, next, by simp [feed, acts, isReduced, fed], rest⟩

/-- A reading gives some tokens one after the other, where each is possible, and then the end. -/
inductive Reading.Gives : Reading → List Token → Prop
  | last {reading after : Reading} {token : Token} (isEnd : token.terminal = .endOfInput)
      (next : ∀ possible, reading.next possible = .ok (token, after)) : Gives reading [token]
  | cons {reading after : Reading} {token : Token} {tokens : List Token}
      (notEnd : token.terminal ≠ .endOfInput)
      (next : ∀ possible : TerminalSet, possible.has token.terminal →
        reading.next possible = .ok (token, after))
      (rest : Gives after tokens) : Gives reading (token :: tokens)

theorem readTrees_of_steps {reading : Reading} {tokens : List Token} (gives : reading.Gives tokens) :
    ∀ {stack final : List StackEntry} {fuel : Nat}, Steps (stack, tokens) (final, []) →
      tokens.length ≤ fuel →
      readTrees fuel reading stack = .ok (final.reverse.flatMap (·.trees)) := by
  induction gives with
  | last isEnd next =>
      intro stack final fuel steps enough
      obtain ⟨fuel, rfl⟩ := Nat.exists_eq_add_of_le' enough
      obtain ⟨-, stack', fed, rest⟩ := feed_of_steps steps (potential_lt_reductionBound stack)
      have same : stack' = final := by
        rcases Relation.ReflTransGen.cases_head rest with same | ⟨_, step, -⟩
        · exact congrArg Prod.fst same
        · exact nomatch step
      subst same
      simp [readTrees, next, fed, isEnd, bind, Except.bind, pure, Except.pure]
  | cons notEnd next _ ih =>
      intro stack final fuel steps enough
      obtain ⟨possible, stack', fed, rest⟩ :=
        feed_of_steps steps (potential_lt_reductionBound stack)
      cases fuel with
      | zero => exact absurd enough (Nat.not_succ_le_zero _)
      | succ fuel =>
          have later := ih rest (Nat.le_of_succ_le_succ enough)
          simp [readTrees, next _ possible, fed, notEnd, bind, Except.bind, later]

def Token.word (token : Token) : Word := ⟨token.terminal, token.text⟩

/-- A reading of a text that is laid out in words gives them as tokens. -/
theorem Laid.gives {reading : Reading} {words : List Word} (laid : Laid words reading.rest) :
    ∃ tokens last, reading.Gives (tokens ++ [last]) ∧ tokens.map Token.word = words ∧
      last.terminal = .endOfInput := by
  induction words generalizing reading with
  | nil =>
      obtain ⟨p, after, next⟩ := laid.next_end
      exact ⟨[], _, .last rfl next, rfl, rfl⟩
  | cons w rest ih =>
      obtain ⟨p, after, later, next⟩ := laid.next
      obtain ⟨tokens, last, gives, same, isEnd⟩ := ih later
      have notEnd : w.terminal ≠ .endOfInput := by
        intro isEnd
        have fits := laid.fit w List.mem_cons_self
        unfold Word.Fits at fits
        rw [isEnd] at fits
        exact fits
      exact ⟨⟨w.terminal, w.text, p⟩ :: tokens, last, .cons notEnd next gives,
        congrArg (w :: ·) same, isEnd⟩

/-- A text that is laid out in words has the tree that its tokens are derived with. -/
theorem ParseTree.ofText_of_derives {words : List Word} {text : String}
    {Good : List ParseTree → Prop} (laid : Laid words text.toList)
    (derives : ∀ tokens : List Token, tokens.map Token.word = words →
      ∃ parts, Derives [.n .program] tokens .endOfInput parts ∧ Good (parts.flatMap (·.trees))) :
    ∃ trees, ParseTree.ofText text = .ok trees ∧ Good trees := by
  have begins : Laid words (Reading.ofText text).rest := laid
  obtain ⟨tokens, last, gives, same, isEnd⟩ := begins.gives
  obtain ⟨parts, derived, good⟩ := derives tokens same
  have begins : (⟨⟨.root, [.n .program, .t .endOfInput], none⟩, [.n .program] ++ [.t .endOfInput]⟩
      : Item) ∈ (topState []).items := State.mem_ofItems.mpr (Or.inl List.mem_cons_self)
  obtain ⟨entries, steps, symbols, sameParts, reached, member⟩ :=
    derived.steps [] [] isEnd State.reached_start begins
  obtain ⟨entry, isEntry⟩ : ∃ entry, entries = [entry] := by
    refine List.length_eq_one_iff.mp ?_
    simpa using congrArg List.length symbols
  subst isEntry
  obtain ⟨state, goes, -⟩ := State.after?_of_mem member
  have possible : (topState ([entry] ++ [])).expected.has last.terminal :=
    reached.expected_has member (by simp [Item.expected, isEnd, TerminalSet.has, TerminalSet.single])
  have shifts : Step (_, [last]) (tokenEntry state last :: _, []) :=
    .shift possible (by rw [State.action?, isEnd, goes])
  have enough : (tokens ++ [last]).length ≤ text.length + 1 := by
    have count := congrArg List.length same
    have bound := laid.length_le
    rw [String.length_toList] at bound
    simp only [List.length_map, List.length_append, List.length_singleton] at count ⊢
    omega
  refine ⟨_, ?_, good⟩
  have sameTrees : parts.flatMap (·.trees) = entry.trees := by
    simp [← sameParts, StackEntry.part]
  unfold ParseTree.ofText
  rw [readTrees_of_steps gives (steps.tail shifts) enough]
  simp [tokenEntry, isEnd, Terminal.isKept, sameTrees]

end BorrowLang.Grammar
