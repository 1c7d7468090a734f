import BorrowLang.Proofs.Parsing.ItemSets
import BorrowLang.Proofs.Parsing.Words
import Mathlib.Tactic.Tauto

/-!
# The states of a reader

There are few sets of items that a reader can come to from the beginning of a text.  Going through
them shows where a production that is complete is put together: on each terminal that comes after
its phrase in a text where every expression before the end of a block has a semicolon, no other
production is complete, and none goes on.
-/

set_option autoImplicit false

namespace BorrowLang.Grammar

/-! ### What comes after a phrase -/

namespace Terminal

/-- The terminals that an item of a block begins with. -/
def itemStarts : List Terminal :=
  [name, int, kwTrue, kwFalse, lparen, minus, bang, star, amp, kwIf, lbrace, kwLet, kwReturn,
   kwWhile, semicolon]

/-- The terminals that end an expression of operators. -/
def closers : List Terminal := [semicolon, rparen, comma, rbrace, lbrace, equal, compoundOp]

def comparators : List Terminal := [eqEq, notEq, lt, gt, ltEq, gtEq]

end Terminal

open Terminal in
/-- The terminals that come after a phrase in a text where every expression before the end of a
block has a semicolon. -/
def sequels : Nonterminal → List Terminal
  | .root => []
  | .program => [endOfInput]
  | .function | .functions => [kwFn, endOfInput]
  | .params | .args | .macroArgs => [rparen]
  | .param | .moreParams | .moreArgs => [comma, rparen]
  | .result => [lbrace]
  | .type => [comma, rparen, lbrace, gt, equal, semicolon]
  | .typeSpec => [equal, semicolon]
  | .tailExpr => [rbrace]
  | .expr => [semicolon, rparen, comma]
  | .item | .items | .letStmt | .assignStmt | .returnStmt | .whileStmt | .exprStmt =>
      rbrace :: itemStarts
  | .ifExpr | .elseClause | .blockExpr => [semicolon, rparen, comma, rbrace]
  | .block => [rbrace, rparen, comma, kwFn, endOfInput, kwElse] ++ itemStarts
  | .operation => closers
  | .disjunction => orOr :: closers
  | .conjunction | .comparison => andAnd :: orOr :: closers
  | .sum => [plus, minus, andAnd, orOr] ++ comparators ++ closers
  | .term | .unary | .application | .atom =>
      [star, slash, percent, plus, minus, andAnd, orOr] ++ comparators ++ closers

/-- What comes after a phrase can follow it. -/
theorem followers_has {N : Nonterminal} {a : Terminal} (follows : a ∈ sequels N) :
    (followers N).has a := by
  have all : ∀ N ∈ Nonterminal.all, ∀ a ∈ sequels N, (followers N).has a = true := by
    decide +kernel
  exact all N (ItemSet.mem_allPhrases N) a follows

/-! ### Exploration -/

namespace ItemSet

/-- The productions of a phrase that are complete. -/
def complete (phrase : Nonterminal) : ItemSet :=
  filter fun item =>
    match item.rest with
    | [] => Nat.beq item.production.phrase.index phrase.index
    | _ :: _ => false

/-- The productions that are complete. -/
def allComplete : ItemSet := filter Item.isComplete

/-- The items that go on with a terminal that comes after a phrase. -/
def continuing (phrase : Nonterminal) : ItemSet :=
  (sequels phrase).foldl (fun set a => Nat.lor set (expecting (.t a))) 0

/-- At most one production is complete, and then no item goes on with what comes after it. -/
def settled (set : ItemSet) : Bool :=
  atValue (Nat.land set allComplete) fun done =>
    Nat.beq done 0 ||
      (Nat.beq (Nat.land done (done - 1)) 0 &&
        Nonterminal.all.all fun phrase =>
          Nat.beq (Nat.land done (complete phrase)) 0 ||
            Nat.beq (Nat.land set (continuing phrase)) 0)

/-- The sets that have been seen, by the symbol over which one comes to them. -/
abbrev Seen := List (Symbol × List ItemSet)

def Seen.Has (seen : Seen) (set : ItemSet) : Prop := ∃ entry ∈ seen, set ∈ entry.2

/-- The sets seen with those that come after a set, and which of these are new. -/
def visit (set : ItemSet) : Seen → Seen × List ItemSet
  | [] => ([], [])
  | (symbol, here) :: rest =>
      atValue (set.after symbol) fun next =>
        match visit set rest with
        | (rest, found) =>
            bif Nat.beq next 0 || here.any (Nat.beq next) then ((symbol, here) :: rest, found)
            else ((symbol, next :: here) :: rest, next :: found)

/-- Are all sets that one comes to from some settled, those seen aside? -/
def explore : (fuel : Nat) → Seen → (work : List ItemSet) → Bool
  | 0, _, _ => false
  | _ + 1, _, [] => true
  | fuel + 1, seen, set :: work =>
      match visit set seen with
      | (seen, found) => settled set && explore fuel seen (found ++ work)

def symbols : List Symbol := Terminal.all.map .t ++ Nonterminal.all.map .n

/-- The sets that one comes to from the beginning of a text. -/
inductive Reachable : ItemSet → Prop
  | start : Reachable start
  | after {set : ItemSet} (X : Symbol) (reachable : Reachable set) : Reachable (set.after X)

/-- A set is finished when it is settled and what comes after it has been seen. -/
def Finished (seen : Seen) (set : ItemSet) : Prop :=
  settled set ∧ ∀ X ∈ seen.map Prod.fst, set.after X = 0 ∨ seen.Has (set.after X)

/-- What a visit does with the sets of one symbol. -/
theorem visit_cons (set : ItemSet) (symbol : Symbol) (here : List ItemSet) (rest : Seen) :
    (visit set ((symbol, here) :: rest) =
        ((symbol, here) :: (visit set rest).1, (visit set rest).2) ∧
      (set.after symbol = 0 ∨ set.after symbol ∈ here)) ∨
    visit set ((symbol, here) :: rest) =
      ((symbol, set.after symbol :: here) :: (visit set rest).1,
        set.after symbol :: (visit set rest).2) := by
  rw [visit, atValue_eq]
  cases isOld : Nat.beq (set.after symbol) 0 || here.any (Nat.beq (set.after symbol))
  · exact Or.inr rfl
  · refine Or.inl ⟨rfl, ?_⟩
    rcases Bool.or_eq_true_iff.mp isOld with isZero | isOld
    · exact Or.inl (Nat.eq_of_beq_eq_true isZero)
    · obtain ⟨other, inHere, same⟩ := List.any_eq_true.mp isOld
      rw [Nat.eq_of_beq_eq_true same]
      exact Or.inr inHere

theorem visit_fst (set : ItemSet) (seen : Seen) :
    (visit set seen).1.map Prod.fst = seen.map Prod.fst := by
  induction seen with
  | nil => rfl
  | cons entry rest ih =>
      rcases visit_cons set entry.1 entry.2 rest with ⟨same, -⟩ | same
      · simp [same, ih]
      · simp [same, ih]

@[simp] theorem Seen.has_cons {entry : Symbol × List ItemSet} {rest : Seen} {set : ItemSet} :
    Seen.Has (entry :: rest) set ↔ set ∈ entry.2 ∨ Seen.Has rest set := by
  simp [Seen.Has]

/-- A visit adds the sets that it finds. -/
theorem Seen.has_visit {seen : Seen} {set other : ItemSet} :
    Seen.Has (visit set seen).1 other ↔ seen.Has other ∨ other ∈ (visit set seen).2 := by
  induction seen with
  | nil => simp [visit]
  | cons entry rest ih =>
      rcases visit_cons set entry.1 entry.2 rest with ⟨same, -⟩ | same
      · rw [same, has_cons, has_cons, ih, or_assoc]
      · rw [same, has_cons, has_cons, ih, List.mem_cons, List.mem_cons]
        tauto

/-- What comes after a set has been seen when the set has been visited. -/
theorem after_visit {seen : Seen} {set : ItemSet} {X : Symbol} (known : X ∈ seen.map Prod.fst) :
    set.after X = 0 ∨ Seen.Has (visit set seen).1 (set.after X) := by
  induction seen with
  | nil => exact nomatch known
  | cons entry rest ih =>
      rcases visit_cons set entry.1 entry.2 rest with ⟨same, isOld⟩ | same
      · rw [same, Seen.has_cons]
        rcases List.mem_cons.mp known with rfl | known
        · exact isOld.imp_right Or.inl
        · exact (ih known).imp_right Or.inr
      · rw [same, Seen.has_cons]
        rcases List.mem_cons.mp known with rfl | known
        · exact Or.inr (Or.inl List.mem_cons_self)
        · exact (ih known).imp_right Or.inr

theorem Finished.visit {seen : Seen} {set other : ItemSet} (finished : Finished seen other) :
    Finished (ItemSet.visit set seen).1 other := by
  refine ⟨finished.1, fun X known => (finished.2 X ?_).imp_right (Seen.has_visit.mpr ∘ Or.inl)⟩
  rwa [visit_fst] at known

/-- An exploration that succeeds, where every set seen waits or is finished, ends where all of them
are. -/
theorem explore_finished {fuel : Nat} {seen : Seen} {work : List ItemSet}
    (explored : explore fuel seen work)
    (waits : ∀ set, seen.Has set ∨ set = ItemSet.start → set ∈ work ∨ Finished seen set) :
    ∃ all : Seen, all.map Prod.fst = seen.map Prod.fst ∧
      ∀ set, all.Has set ∨ set = ItemSet.start → Finished all set := by
  induction fuel generalizing seen work with
  | zero => exact nomatch explored
  | succ fuel ih =>
      cases work with
      | nil => exact ⟨seen, rfl, fun set has => (waits set has).resolve_left List.not_mem_nil⟩
      | cons set work =>
          rw [explore, Bool.and_eq_true] at explored
          obtain ⟨isSettled, explored⟩ := explored
          have here : Finished (visit set seen).1 set := by
            refine ⟨isSettled, fun X known => after_visit ?_⟩
            rwa [visit_fst] at known
          obtain ⟨all, sameSymbols, finished⟩ := ih explored (by
            intro other has
            have known : (seen.Has other ∨ other = ItemSet.start) ∨ other ∈ (visit set seen).2 := by
              rcases has with has | isStart
              · exact (Seen.has_visit.mp has).imp_left Or.inl
              · exact Or.inl (Or.inr isStart)
            rcases known with known | isFound
            · rcases waits other known with inWork | finished
              · rcases List.mem_cons.mp inWork with rfl | inWork
                · exact Or.inr here
                · exact Or.inl (List.mem_append_right _ inWork)
              · exact Or.inr finished.visit
            · exact Or.inl (List.mem_append_left _ isFound))
          exact ⟨all, sameSymbols.trans (visit_fst set seen), finished⟩

theorem explored : explore 200 (symbols.map fun X => (X, [])) [ItemSet.start] = true := by decide +kernel

theorem mem_symbols (X : Symbol) : X ∈ symbols := by
  cases X with
  | t a => exact List.mem_append_left _ (List.mem_map_of_mem (mem_all a))
  | n N => exact List.mem_append_right _ (List.mem_map_of_mem (mem_allPhrases N))

theorem settled_zero : settled 0 = true := by
  have none : ∀ n, Nat.land 0 n = 0 := Nat.zero_and
  simp only [settled, atValue_eq, none]
  rfl

/-- All sets that one comes to are settled. -/
theorem Reachable.settled {set : ItemSet} (reachable : Reachable set) : settled set := by
  have waits : ∀ set, Seen.Has (symbols.map fun X => (X, [])) set ∨ set = ItemSet.start →
      set ∈ [ItemSet.start] ∨ Finished (symbols.map fun X => (X, [])) set := by
    intro set has
    rcases has with has | isStart
    · obtain ⟨entry, member, inEntry⟩ := has
      obtain ⟨X, -, same⟩ := List.mem_map.mp member
      rw [← same] at inEntry
      exact nomatch inEntry
    · exact Or.inl (List.mem_singleton.mpr isStart)
  obtain ⟨all, sameSymbols, finished⟩ := explore_finished explored waits
  have known : ∀ X, X ∈ all.map Prod.fst := by
    intro X
    rw [sameSymbols]
    simpa using mem_symbols X
  have seen : (all.Has set ∨ set = ItemSet.start) ∨ set = 0 := by
    induction reachable with
    | start => exact Or.inl (Or.inr rfl)
    | after X _ ih =>
        rcases ih with has | isZero
        · rcases (finished _ has).2 X (known X) with isZero | has
          · exact Or.inr isZero
          · exact Or.inl (Or.inl has)
        · rw [isZero]
          exact Or.inr (after_zero X)
  rcases seen with has | isZero
  · exact (finished set has).1
  · rw [isZero]
    exact settled_zero

theorem eq_of_testBit {n i j : Nat} (single : Nat.beq (Nat.land n (n - 1)) 0) (hi : n.testBit i)
    (hj : n.testBit j) : i = j := by
  have positive : n ≠ 0 := by
    rintro rfl
    simp at hi
  obtain ⟨k, rfl⟩ := (Nat.and_sub_one_eq_zero_iff_isPowerOfTwo positive).mp
    (Nat.eq_of_beq_eq_true single)
  rw [Nat.testBit_two_pow, decide_eq_true_eq] at hi hj
  exact hi.symm.trans hj

/-- In a settled set a production that is complete is the only one. -/
theorem Has.unique {set : ItemSet} {item other : Item} (isSettled : settled set)
    (has : set.Has item) (hasOther : set.Has other) (done : item.isComplete)
    (otherDone : other.isComplete) : item = other := by
  obtain ⟨i, here, bit⟩ := has
  obtain ⟨j, there, otherBit⟩ := hasOther
  have atI : (Nat.land set allComplete).testBit i :=
    testBit_land bit (testBit_filter here done)
  have atJ : (Nat.land set allComplete).testBit j :=
    testBit_land otherBit (testBit_filter there otherDone)
  rw [settled, atValue_eq, not_beq_zero atI, Bool.false_or, Bool.and_eq_true] at isSettled
  obtain rfl := eq_of_testBit isSettled.1 atI atJ
  exact Option.some.inj (here.symm.trans there)

/-- In a settled set no item goes on with a terminal that comes after a phrase that is complete. -/
theorem Has.rest_ne {set : ItemSet} {p : Production} {item : Item} {a : Terminal}
    {rest : List Symbol} (isSettled : settled set) (has : set.Has ⟨p, []⟩)
    (hasOther : set.Has item) (follows : a ∈ sequels p.phrase) : item.rest ≠ .t a :: rest := by
  intro expects
  obtain ⟨i, here, bit⟩ := has
  obtain ⟨j, there, otherBit⟩ := hasOther
  have atI : (Nat.land set allComplete).testBit i :=
    testBit_land bit (testBit_filter here rfl)
  have isDone : (complete p.phrase).testBit i := testBit_filter here (by simp)
  have goesOn : (continuing p.phrase).testBit j := by
    refine (testBit_foldl_lor ..).mpr (Or.inr ⟨a, follows, ?_⟩)
    exact testBit_filter there (by simp [expects])
  rw [settled, atValue_eq, not_beq_zero atI, Bool.false_or, Bool.and_eq_true] at isSettled
  have apart := List.all_eq_true.mp isSettled.2 p.phrase (mem_allPhrases _)
  rw [not_beq_zero (testBit_land atI isDone), not_beq_zero (testBit_land otherBit goesOn)] at apart
  exact nomatch apart

end ItemSet

/-! ### States that are reached -/

/-- A state that a reader comes to. -/
structure State.Reached (s : State) : Prop where
  formed : ∃ begun, s = ofItems begun
  covered : ∃ set, ItemSet.Reachable set ∧ set.Covers s

namespace State

theorem reached_start : Reached .start :=
  ⟨⟨_, rfl⟩, ⟨_, .start, ItemSet.covers_start⟩⟩

theorem Reached.after {s next : State} {X : Symbol} (reached : s.Reached)
    (goes : s.after? X = some next) : next.Reached := by
  obtain ⟨set, reachable, covers⟩ := reached.covered
  refine ⟨?_, set.after X, reachable.after X, covers.after goes⟩
  unfold State.after? at goes
  split at goes
  · exact nomatch goes
  · exact ⟨_, (Option.some.inj goes).symm⟩

/-- A production that is complete is put together on what comes after its phrase. -/
theorem Reached.action?_reduce {s : State} {p : Production} {a : Terminal} (reached : s.Reached)
    (done : ⟨p, []⟩ ∈ s.items) (follows : a ∈ sequels p.phrase) :
    s.action? a = some (.reduce p) := by
  obtain ⟨set, reachable, covers⟩ := reached.covered
  have noShift : s.after? (.t a) = none := by
    unfold State.after?
    split
    · rfl
    · rename_i begun goesOn
      obtain ⟨next, isNext⟩ := List.exists_mem_of_ne_nil _ goesOn
      obtain ⟨item, member, advances⟩ := List.mem_filterMap.mp isNext
      exact absurd (Item.after?_eq_some.mp advances).1
        ((covers _ done).rest_ne reachable.settled (covers _ member) follows)
  have found : s.complete? a = some p := by
    unfold State.complete?
    have isSome : (s.items.find? fun item =>
        item.isComplete && (followers item.production.phrase).has a).isSome :=
      List.find?_isSome.mpr ⟨_, done, by simp [Item.isComplete, followers_has follows]⟩
    obtain ⟨item, isFirst⟩ := Option.isSome_iff_exists.mp isSome
    have isDone := List.find?_some isFirst
    rw [Bool.and_eq_true] at isDone
    rw [isFirst, (covers _ (List.mem_of_find?_eq_some isFirst)).unique reachable.settled
      (covers _ done) isDone.1 rfl]
    rfl
  simp [State.action?, noShift, found]

/-- An item goes on over the symbol that it expects. -/
theorem after?_of_mem {s : State} {p : Production} {X : Symbol} {rest : List Symbol}
    (member : ⟨p, X :: rest⟩ ∈ s.items) :
    ∃ next, s.after? X = some next ∧ ⟨p, rest⟩ ∈ next.items := by
  have isBegun : ⟨p, rest⟩ ∈ s.items.filterMap (Item.after? X) :=
    List.mem_filterMap.mpr ⟨_, member, Item.after?_eq_some.mpr ⟨rfl, rfl⟩⟩
  unfold State.after?
  split
  · rename_i noItem
    rw [noItem] at isBegun
    exact nomatch isBegun
  · exact ⟨_, rfl, mem_ofItems.mpr (Or.inl isBegun)⟩

/-- A terminal is possible where an item can do something on it. -/
theorem Reached.expected_has {s : State} {item : Item} {a : Terminal} (reached : s.Reached)
    (member : item ∈ s.items) (expects : item.expected.has a) : s.expected.has a := by
  obtain ⟨begun, rfl⟩ := reached.formed
  exact (testBit_foldl_lor ..).mpr (Or.inr ⟨item, member, expects⟩)

/-- A phrase may begin with itself, and with what a phrase begins with that it may begin with. -/
theorem leading_closed :
    ∀ N ∈ Nonterminal.all, (leading N).has N ∧ ∀ p ∈ productions, (leading N).has p.phrase →
      ∀ M, p.symbols.head? = some (.n M) → (leading N).has M := by
  have all : ∀ N ∈ Nonterminal.all, (leading N).has N = true ∧
      ∀ p ∈ productions, (leading N).has p.phrase = true →
        ∀ X ∈ p.symbols.head?, ∀ M ∈ Nonterminal.all, X = .n M → (leading N).has M = true := by
    decide +kernel
  intro N member
  refine ⟨(all N member).1, fun p known leads M first => ?_⟩
  exact (all N member).2 p known leads _ first M (ItemSet.mem_allPhrases M) rfl

/-- Where a phrase is expected, its productions begin. -/
theorem Reached.begins {s : State} {q p : Production} {rest : List Symbol} (reached : s.Reached)
    (member : ⟨q, .n p.phrase :: rest⟩ ∈ s.items) (known : p ∈ productions) :
    ⟨p, p.symbols⟩ ∈ s.items := by
  obtain ⟨begun, rfl⟩ := reached.formed
  refine mem_ofItems.mpr (Or.inr ⟨p, known, rfl, ?_⟩)
  rcases mem_ofItems.mp member with isBegun | ⟨r, isKnown, same, other, isBegun, leads⟩
  · exact ⟨_, isBegun, (leading_closed _ (ItemSet.mem_allPhrases _)).1⟩
  · obtain ⟨M, later, expects, leads⟩ := Item.exists_of_beginning leads
    obtain ⟨rfl, first⟩ := Item.mk.inj same
    refine ⟨other, isBegun, ?_⟩
    have closed := (leading_closed M (ItemSet.mem_allPhrases M)).2 q isKnown leads p.phrase
      (by rw [← first]; rfl)
    simpa [Item.beginning, expects] using closed

end State

end BorrowLang.Grammar
