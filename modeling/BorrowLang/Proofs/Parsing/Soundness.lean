import BorrowLang.Proofs.Answers
import BorrowLang.Proofs.Parsing.Derivations

/-!
# Trees that are read

What a reader has read is written by the productions: the symbols on its stack have the trees that
the productions build, and each production that has been begun has its first symbols on the top of
the stack.  So a text that is read is a program, and its tree is one of a program.
-/

set_option autoImplicit false

namespace BorrowLang.Grammar

/-! ### Symbols that were read -/

/-- The part of a phrase of some form, from a position and the trees of its symbols. -/
def Part.ofTrees (form : Option Form) (start : Position) (trees : List ParseTree) : Part :=
  ⟨start,
    match form with
    | none => trees
    | some form => [.node form start trees]⟩

/-- Symbols with parts that they can have. -/
inductive Grown : List Symbol → List Part → Prop
  | nil : Grown [] []
  | token {symbols : List Symbol} {parts : List Part} (token : Token) (rest : Grown symbols parts) :
      Grown (.t token.terminal :: symbols) (.ofToken token :: parts)
  | phrase {p : Production} {symbols : List Symbol} {inner parts : List Part}
      (known : p ∈ productions) (start : Position) (grown : Grown p.symbols inner)
      (rest : Grown symbols parts) :
      Grown (.n p.phrase :: symbols)
        (.ofTrees p.form start (inner.flatMap (·.trees)) :: parts)

namespace Grown

variable {symbols more : List Symbol} {parts others : List Part}

theorem append (first : Grown symbols parts) (second : Grown more others) :
    Grown (symbols ++ more) (parts ++ others) := by
  induction first with
  | nil => exact second
  | token token _ ih => exact .token token ih
  | phrase known start grown _ _ ih => exact .phrase known start grown ih

theorem split (grown : Grown (symbols ++ more) parts) :
    ∃ first second, parts = first ++ second ∧ Grown symbols first ∧ Grown more second := by
  induction symbols generalizing parts with
  | nil => exact ⟨[], parts, rfl, .nil, grown⟩
  | cons X symbols ih =>
      cases grown with
      | token token rest =>
          obtain ⟨first, second, rfl, here, there⟩ := ih rest
          exact ⟨_, second, rfl, .token token here, there⟩
      | phrase known start inner rest =>
          obtain ⟨first, second, rfl, here, there⟩ := ih rest
          exact ⟨_, second, rfl, .phrase known start inner here, there⟩

theorem length_eq (grown : Grown symbols parts) : symbols.length = parts.length := by
  induction grown with
  | nil => rfl
  | token _ _ ih => exact congrArg (· + 1) ih
  | phrase _ _ _ _ _ ih => exact congrArg (· + 1) ih

end Grown

/-! ### Productions that were begun -/

/-- The symbols on a stack, the lowest first. -/
def symbolsOf (stack : List StackEntry) : List Symbol := stack.reverse.map (·.symbol)

/-- The parts on a stack, the lowest first. -/
def partsOf (stack : List StackEntry) : List Part := stack.reverse.map (·.part)

@[simp] theorem symbolsOf_cons (entry : StackEntry) (stack : List StackEntry) :
    symbolsOf (entry :: stack) = symbolsOf stack ++ [entry.symbol] := by
  simp [symbolsOf]

@[simp] theorem partsOf_cons (entry : StackEntry) (stack : List StackEntry) :
    partsOf (entry :: stack) = partsOf stack ++ [entry.part] := by
  simp [partsOf]

/-- An item stands for a production whose first symbols are those on the top of a stack.  The
production of a whole text begins at the bottom. -/
structure Item.Begun (item : Item) (stack : List StackEntry) : Prop where
  known : item.production ∈ productions
  read : ∃ before under, item.production.symbols = before ++ item.rest ∧
    symbolsOf stack = under ++ before ∧ (item.production.phrase = .root → under = [])

/-- The items of each state on a stack have been begun there. -/
def Placed : List StackEntry → Prop
  | [] => True
  | entry :: below => (∀ item ∈ entry.state.items, item.Begun (entry :: below)) ∧ Placed below

theorem Placed.drop {stack : List StackEntry} (placed : Placed stack) (n : Nat) :
    Placed (stack.drop n) := by
  induction n generalizing stack with
  | zero => exact placed
  | succ n ih =>
      cases stack with
      | nil => trivial
      | cons entry below => exact ih placed.2

theorem root_table :
    (∀ p ∈ productions, Symbol.n .root ∉ p.symbols) ∧
    (∀ N ∈ Nonterminal.all, N ≠ .root → (leading N).has .root = false) ∧
    ∀ p ∈ productions, Symbol.t .endOfInput ∈ p.symbols →
      p = ⟨.root, [.n .program, .t .endOfInput], none⟩ := by
  decide +kernel

/-- A production that begins after others is no production of a whole text. -/
theorem phrase_ne_root {item : Item} {p : Production} (known : item.production ∈ productions)
    {before : List Symbol} (symbols : item.production.symbols = before ++ item.rest)
    (leads : item.beginning.has p.phrase) : p.phrase ≠ .root := by
  obtain ⟨M, rest, same, leads⟩ := Item.exists_of_beginning leads
  have notRoot : M ≠ .root := by
    rintro rfl
    exact root_table.1 _ known (by simp [symbols, same])
  intro isRoot
  rw [isRoot, root_table.2.1 M (ItemSet.mem_allPhrases M) notRoot] at leads
  contradiction

/-- The production of a whole text, before its first symbol. -/
theorem begun_start : ∀ item ∈ State.start.items, item.Begun [] := by
  intro item member
  have first : ∀ other ∈ freshItems.take 1,
      other = .ofProduction ⟨.root, [.n .program, .t .endOfInput], none⟩ := by
    intro other isFirst
    exact List.mem_singleton.mp isFirst
  rcases State.mem_ofItems.mp member with isFirst | ⟨p, known, rfl, -⟩
  · obtain rfl := first item isFirst
    exact ⟨by decide, [], [], rfl, rfl, fun _ => rfl⟩
  · exact ⟨known, [], [], rfl, rfl, fun _ => rfl⟩

theorem Placed.begun {stack : List StackEntry} (placed : Placed stack) :
    ∀ item ∈ (topState stack).items, item.Begun stack := by
  cases stack with
  | nil => exact begun_start
  | cons entry below => exact placed.1

/-- A symbol on which the state at the top goes on may be put onto a stack. -/
theorem Placed.push {stack : List StackEntry} {entry : StackEntry} (placed : Placed stack)
    (goes : (topState stack).after? entry.symbol = some entry.state) :
    Placed (entry :: stack) := by
  refine ⟨?_, placed⟩
  have advanced : ∀ item ∈ (topState stack).items.filterMap (Item.after? entry.symbol),
      item.Begun (entry :: stack) := by
    intro item member
    obtain ⟨other, isOther, next⟩ := List.mem_filterMap.mp member
    obtain ⟨expects, same⟩ := Item.after?_eq_some.mp next
    obtain ⟨known, before, under, symbols, read, bottom⟩ := placed.begun other isOther
    refine ⟨same ▸ known, before ++ [entry.symbol], under, ?_, ?_, same ▸ bottom⟩
    · rw [same, symbols, expects]
      simp
    · simp [read]
  unfold State.after? at goes
  split at goes
  · contradiction
  · obtain same := Option.some.inj goes
    intro item member
    rw [← same] at member
    rcases State.mem_ofItems.mp member with isAdvanced | ⟨p, known, rfl, other, isAdvanced, leads⟩
    · exact advanced item isAdvanced
    · obtain ⟨otherKnown, before, -, symbols, -⟩ := advanced other isAdvanced
      refine ⟨known, [], symbolsOf (entry :: stack), rfl, by simp, fun isRoot => ?_⟩
      exact absurd isRoot (phrase_ne_root otherKnown symbols leads)

/-! ### Stacks -/

/-- A stack as a reader has it: its productions are begun where they can be, and its symbols have
parts that they can have. -/
structure StackRead (stack : List StackEntry) : Prop where
  placed : Placed stack
  grown : Grown (symbolsOf stack) (partsOf stack)

theorem read_nil : StackRead [] := ⟨trivial, .nil⟩

theorem StackRead.shift {stack : List StackEntry} {token : Token} {next : State}
    (read : StackRead stack) (goes : (topState stack).after? (.t token.terminal) = some next) :
    StackRead (tokenEntry next token :: stack) where
  placed := read.placed.push goes
  grown := by
    rw [symbolsOf_cons, partsOf_cons]
    exact read.grown.append (.token token .nil)

theorem part_phraseEntry_ofTrees (state : State) (p : Production) (entries : List StackEntry)
    (position : Position) :
    (phraseEntry state p entries position).part =
      .ofTrees p.form ((entries.head?.map (·.start)).getD position)
        ((entries.map (·.part)).flatMap (·.trees)) := by
  have sameTrees : (entries.map (·.part)).flatMap (·.trees) = entries.flatMap (·.trees) :=
    List.flatMap_map ..
  rw [sameTrees]
  cases form : p.form <;> simp [phraseEntry, StackEntry.part, Part.ofTrees, form]

theorem StackRead.reduce {p : Production} {position : Position} {stack after : List StackEntry}
    (read : StackRead stack) (known : p ∈ productions)
    (reduced : reduce? p position stack = some after) : StackRead after := by
  simp only [reduce?] at reduced
  split at reduced
  · rename_i symbols
    obtain ⟨state, goes, same⟩ := Option.bind_eq_some_iff.mp reduced
    obtain rfl := Option.some.inj same
    refine ⟨(read.placed.drop _).push goes, ?_⟩
    have parted : stack.reverse =
        (stack.drop p.symbols.length).reverse ++ (stack.take p.symbols.length).reverse := by
      rw [← List.reverse_append, List.take_append_drop]
    have grown := read.grown
    rw [symbolsOf, partsOf, parted, List.map_append, List.map_append, symbols] at grown
    obtain ⟨below, top, same, belowGrown, topGrown⟩ := grown.split
    obtain ⟨sameBelow, sameTop⟩ := List.append_inj same
      (by rw [← belowGrown.length_eq, List.length_map, List.length_map])
    rw [symbolsOf_cons, partsOf_cons, part_phraseEntry_ofTrees]
    rw [← sameBelow] at belowGrown
    rw [← sameTop] at topGrown
    exact belowGrown.append (.phrase known _ topGrown .nil)
  · contradiction

/-- The end of the input is read after a program, and after nothing else. -/
theorem StackRead.symbols_of_end {stack : List StackEntry} {next : State} (read : StackRead stack)
    (goes : (topState stack).after? (.t .endOfInput) = some next) :
    symbolsOf stack = [.n .program] := by
  have some : (topState stack).items.filterMap (Item.after? (.t .endOfInput)) ≠ [] := by
    intro none
    simp [State.after?, none] at goes
  obtain ⟨item, member⟩ := List.exists_mem_of_ne_nil _ some
  obtain ⟨other, isOther, advanced⟩ := List.mem_filterMap.mp member
  obtain ⟨expects, -⟩ := Item.after?_eq_some.mp advanced
  obtain ⟨known, before, under, symbols, read, bottom⟩ := read.placed.begun other isOther
  have isRoot := root_table.2.2 _ known (by simp [symbols, expects])
  rw [isRoot, expects] at symbols
  rw [bottom (by rw [isRoot])] at read
  -- The end of the input is the second of two symbols, so one has been read before it.
  obtain ⟨X, rest, rfl⟩ : ∃ X rest, before = X :: rest := by
    cases before with
    | nil => simp at symbols
    | cons X rest => exact ⟨X, rest, rfl⟩
  simp only [List.cons_append, List.cons.injEq] at symbols
  obtain ⟨rfl, symbols⟩ := symbols
  cases rest with
  | nil => exact read
  | cons Y rest => simp at symbols

theorem State.after?_of_shift {s next : State} {a : Terminal}
    (acts : s.action? a = some (.shift next)) : s.after? (.t a) = some next := by
  unfold action? at acts
  split at acts
  · rename_i known
    obtain rfl := Action.shift.inj (Option.some.inj acts)
    exact known
  · simp at acts

/-- What is put together is a production. -/
theorem StackRead.known_of_reduce {stack : List StackEntry} {a : Terminal} {p : Production}
    (read : StackRead stack) (acts : (topState stack).action? a = some (.reduce p)) :
    p ∈ productions := by
  unfold State.action? at acts
  split at acts
  · simp at acts
  · obtain ⟨q, complete, same⟩ := Option.map_eq_some_iff.mp acts
    obtain rfl := Action.reduce.inj same
    obtain ⟨item, isItem, rfl⟩ := Option.map_eq_some_iff.mp complete
    exact (read.placed.begun item (List.mem_of_find?_eq_some isItem)).known

/-- What is on a stack after a token, the end of the input perhaps. -/
structure ReadToken (token : Token) (stack : List StackEntry) : Prop extends StackRead stack where
  ended : token.terminal = .endOfInput →
    ∃ part : Part, Grown [.n .program] [part] ∧ stack.reverse.flatMap (·.trees) = part.trees

theorem StackRead.feed (token : Token) (fuel : Nat) {stack : List StackEntry}
    (read : StackRead stack) :
    Answers (feed token fuel stack) (ReadToken token) := by
  induction fuel generalizing stack with
  | zero => exact answers_error _ _
  | succ fuel ih =>
      unfold Grammar.feed
      split
      · exact answers_error _ _
      · rename_i next acts
        have goes := State.after?_of_shift acts
        rw [answers_ok]
        refine ⟨read.shift goes, fun isEnd => ?_⟩
        have symbols := read.symbols_of_end (isEnd ▸ goes)
        obtain ⟨part, parts⟩ : ∃ part, partsOf stack = [part] := by
          have lengths := read.grown.length_eq
          rw [symbols] at lengths
          exact List.length_eq_one_iff.mp lengths.symm
        refine ⟨part, symbols ▸ parts ▸ read.grown, ?_⟩
        have trees : stack.reverse.flatMap (·.trees) = (partsOf stack).flatMap (·.trees) := by
          rw [partsOf, List.flatMap_map]
          rfl
        simp [tokenEntry, isEnd, Terminal.isKept, trees, parts]
      · rename_i p acts
        have known := read.known_of_reduce acts
        split
        · exact answers_error _ _
        · rename_i reduced
          exact ih (read.reduce known reduced)

theorem StackRead.trees (fuel : Nat) {reading : Reading} {stack : List StackEntry}
    (read : StackRead stack) :
    Answers (readTrees fuel reading stack) fun trees =>
      ∃ part : Part, Grown [.n .program] [part] ∧ trees = part.trees := by
  induction fuel generalizing reading stack with
  | zero => exact answers_error _ _
  | succ fuel ih =>
      simp only [readTrees, answers_bind]
      rintro ⟨token, rest⟩ -
      simp only
      refine (read.feed token _).mono fun after known => ?_
      split
      · rename_i isEnd
        rw [answers_pure]
        exact known.ended isEnd
      · exact ih known.toStackRead

end BorrowLang.Grammar
