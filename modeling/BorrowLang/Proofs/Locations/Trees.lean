import BorrowLang.Proofs.Locations.Tokens
import BorrowLang.Proofs.Parsing.Soundness
import BorrowLang.Syntax.OfParseTree

/-!
# Trees where they begin

Each node of the tree of a text begins where a token does, and none of its parts begins before it:
what stands on the stack of a reader begins where the tokens do, in their order, and a phrase begins
where the first of its symbols does.
-/

set_option autoImplicit false

namespace BorrowLang.Grammar

variable {anchor : Position → Prop}

/-! ### Anchored trees -/

mutual

/-- Each node of a tree begins at an anchor, and not after its parts.  Only the tree of a program
may be without a token. -/
def ParseTree.Anchored (anchor : Position → Prop) : ParseTree → Prop
  | .leaf _ => True
  | .node form start children =>
      (form ≠ .program → anchor start) ∧ ParseTree.AllFrom anchor start children

/-- Some trees are anchored, and none begins before a position. -/
def ParseTree.AllFrom (anchor : Position → Prop) (start : Position) : List ParseTree → Prop
  | [] => True
  | tree :: rest =>
      (start ≤ treeLoc tree ∧ tree.Anchored anchor) ∧ ParseTree.AllFrom anchor start rest

end

theorem ParseTree.allFrom_iff {start : Position} {trees : List ParseTree} :
    AllFrom anchor start trees ↔ ∀ tree ∈ trees, start ≤ treeLoc tree ∧ tree.Anchored anchor := by
  induction trees with
  | nil => simp [AllFrom]
  | cons tree rest ih => simp [AllFrom, ih]

theorem ParseTree.AllFrom.mono {p start : Position} {trees : List ParseTree}
    (allFrom : AllFrom anchor start trees) (le : p ≤ start) : AllFrom anchor p trees := by
  rw [allFrom_iff] at allFrom ⊢
  intro tree member
  obtain ⟨here, anchored⟩ := allFrom tree member
  exact ⟨le.trans here, anchored⟩

/-! ### Stacks in order -/

/-- The symbols that may begin where no token does: what stands for a whole text, and its end. -/
def Symbol.isOutermost : Symbol → Bool
  | .n .program | .n .root | .t .endOfInput => true
  | _ => false

/-- Every other phrase begins with a symbol that is no such symbol either. -/
theorem outermost_table :
    (∀ p ∈ productions, (Symbol.n p.phrase).isOutermost = false →
      p.symbols.head?.any (!·.isOutermost) = true) ∧
    ∀ p ∈ productions, ∀ form ∈ p.form, form ≠ .program →
      (Symbol.n p.phrase).isOutermost = false := by
  decide

/-- A symbol that was read begins at an anchor, and its trees do not begin before it. -/
structure StackEntry.Anchored (anchor : Position → Prop) (entry : StackEntry) : Prop where
  start : entry.symbol.isOutermost = false → anchor entry.start
  trees : ParseTree.AllFrom anchor entry.start entry.trees

/-- The symbols on a stack begin one after the other, and the last of them not after a position. -/
def Rising (anchor : Position → Prop) : Position → List StackEntry → Prop
  | _, [] => True
  | bound, entry :: below =>
      entry.start ≤ bound ∧ entry.Anchored anchor ∧ Rising anchor entry.start below

theorem Rising.mono {bound later : Position} {stack : List StackEntry}
    (rising : Rising anchor bound stack) (le : bound ≤ later) : Rising anchor later stack := by
  cases stack with
  | nil => trivial
  | cons entry below => exact ⟨rising.1.trans le, rising.2⟩

/-- Where the first of some symbols begins, the last of them on top. -/
def startOf (bound : Position) (taken : List StackEntry) : Position :=
  (taken.reverse.head?.map (·.start)).getD bound

theorem startOf_cons (bound : Position) (entry : StackEntry) (taken : List StackEntry) :
    startOf bound (entry :: taken) = startOf entry.start taken := by
  unfold startOf
  rw [List.reverse_cons, List.head?_append]
  cases taken.reverse.head? <;> rfl

/-- Symbols on the top of a stack begin not before the first of them, and those below not after. -/
theorem Rising.split {bound : Position} {taken below : List StackEntry}
    (rising : Rising anchor bound (taken ++ below)) :
    startOf bound taken ≤ bound ∧ Rising anchor (startOf bound taken) below ∧
      ∀ entry ∈ taken, startOf bound taken ≤ entry.start ∧ entry.Anchored anchor := by
  induction taken generalizing bound with
  | nil => exact ⟨le_rfl, rising, List.forall_mem_nil _⟩
  | cons entry taken ih =>
      obtain ⟨here, anchored, later⟩ := rising
      obtain ⟨le, below, each⟩ := ih later
      rw [startOf_cons]
      exact ⟨le.trans here, below, List.forall_mem_cons.mpr ⟨⟨le, anchored⟩, each⟩⟩

theorem Rising.shift {token : Token} {state : State} {stack : List StackEntry}
    (anchored : token.terminal ≠ .endOfInput → anchor token.position)
    (rising : Rising anchor token.position stack) :
    Rising anchor token.position (tokenEntry state token :: stack) := by
  refine ⟨le_rfl, ⟨fun inner => anchored ?_, ?_⟩, rising⟩
  · intro isEnd
    simp [tokenEntry, isEnd, Symbol.isOutermost] at inner
  · unfold tokenEntry
    split
    · exact ⟨⟨le_rfl, trivial⟩, trivial⟩
    · trivial

theorem Rising.reduce {p : Production} {bound : Position} {stack after : List StackEntry}
    (rising : Rising anchor bound stack) (known : p ∈ productions)
    (reduced : reduce? p bound stack = some after) : Rising anchor bound after := by
  simp only [reduce?] at reduced
  split at reduced
  case isFalse => contradiction
  rename_i symbols
  obtain ⟨state, -, same⟩ := Option.bind_eq_some_iff.mp reduced
  obtain rfl := Option.some.inj same
  rw [← List.take_append_drop p.symbols.length stack] at rising
  obtain ⟨le, below, each⟩ := rising.split
  have inner : (Symbol.n p.phrase).isOutermost = false →
      anchor (startOf bound (stack.take p.symbols.length)) := by
    intro isInner
    have first := outermost_table.1 p known isInner
    rw [← symbols] at first
    unfold startOf
    cases isFirst : (stack.take p.symbols.length).reverse with
    | nil => simp [isFirst] at first
    | cons entry rest =>
        have inTaken : entry ∈ stack.take p.symbols.length := by
          rw [← List.mem_reverse, isFirst]
          exact List.mem_cons_self
        exact (each entry inTaken).2.start (by simpa [isFirst] using first)
  have parts : ParseTree.AllFrom anchor (startOf bound (stack.take p.symbols.length))
      ((stack.take p.symbols.length).reverse.flatMap (·.trees)) := by
    rw [ParseTree.allFrom_iff]
    intro tree member
    obtain ⟨entry, inTaken, inTrees⟩ := List.mem_flatMap.mp member
    obtain ⟨from_start, anchored⟩ := each entry (List.mem_reverse.mp inTaken)
    obtain ⟨here, isAnchored⟩ := ParseTree.allFrom_iff.mp anchored.trees tree inTrees
    exact ⟨from_start.trans here, isAnchored⟩
  refine ⟨le, ⟨inner, ?_⟩, below⟩
  unfold phraseEntry
  cases isForm : p.form with
  | none => exact parts
  | some form =>
      exact ⟨⟨le_rfl, fun notProgram =>
        inner (outermost_table.2 p known form isForm notProgram), parts⟩, trivial⟩

/-! ### Reading -/

theorem Rising.feed {token : Token}
    (anchored : token.terminal ≠ .endOfInput → anchor token.position) (fuel : Nat) {stack : List StackEntry} (read : StackRead stack)
    (rising : Rising anchor token.position stack) :
    Answers (feed token fuel stack) fun after =>
      StackRead after ∧ Rising anchor token.position after := by
  induction fuel generalizing stack with
  | zero => exact answers_error _ _
  | succ fuel ih =>
      unfold Grammar.feed
      split
      · exact answers_error _ _
      · rename_i next acts
        rw [answers_ok]
        exact ⟨read.shift (State.after?_of_shift acts), rising.shift anchored⟩
      · rename_i p acts
        have known := read.known_of_reduce acts
        split
        · exact answers_error _ _
        · rename_i reduced
          exact ih (read.reduce known reduced) (rising.reduce known reduced)

theorem Rising.trees {text : String} (fuel : Nat) {reading : Reading} {stack : List StackEntry}
    (of : reading.Of text)
    (anchored : ∀ token ∈ tokensFrom fuel reading stack, anchor token.position) (read : StackRead stack) (rising : Rising anchor reading.lastToken stack) :
    Answers (readTrees fuel reading stack) fun trees => ∀ tree ∈ trees, tree.Anchored anchor := by
  induction fuel generalizing reading stack with
  | zero => exact answers_error _ _
  | succ fuel ih =>
      simp only [readTrees, answers_bind]
      rintro ⟨token, after⟩ found
      have next := of.next _ _ found
      intro grown fed
      have isAnchor : token.terminal ≠ .endOfInput → anchor token.position := by
        intro notEnd
        refine anchored token ?_
        simp [tokensFrom, found, fed, notEnd]
      obtain ⟨readGrown, risingGrown⟩ :=
        Rising.feed isAnchor _ read (rising.mono next.lastToken_le) grown fed
      split
      · rw [answers_pure]
        intro tree member
        obtain ⟨entry, inStack, inTrees⟩ := List.mem_flatMap.mp member
        have whole : Rising anchor token.position (grown ++ []) := by rwa [List.append_nil]
        have entryAnchored := (whole.split.2.2 entry (List.mem_reverse.mp inStack)).2
        exact (ParseTree.allFrom_iff.mp entryAnchored.trees tree inTrees).2
      · rename_i notEnd
        refine ih next.after ?_ readGrown (by rwa [next.lastToken_eq])
        intro later member
        refine anchored later ?_
        simp [tokensFrom, found, fed, notEnd, member]

/-- The trees of a text are anchored at its tokens. -/
theorem ParseTree.ofText_anchored {text : String} {trees : List ParseTree}
    (parsed : ofText text = .ok trees) :
    ∀ tree ∈ trees, tree.Anchored fun p => ∃ token ∈ tokensOf text, token.position = p := by
  refine Rising.trees _ (Reading.ofText_of text) ?_ read_nil ?_ trees parsed
  · exact fun token member => ⟨token, member, rfl⟩
  · trivial

end BorrowLang.Grammar
