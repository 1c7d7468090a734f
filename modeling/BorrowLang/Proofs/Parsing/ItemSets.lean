import BorrowLang.Grammar.State
import Mathlib.Data.Nat.Bitwise

/-!
# Sets of items

A set of items is a number with a bit for each item, so that one is told from another and moved over
a symbol at once.  A set covers a state when it has all its items; what a state goes to over a
symbol is covered by what the set goes to.
-/

set_option autoImplicit false

namespace BorrowLang.Grammar

/-! ### Items -/

/-- A production with each end of its symbols that may still be to come, the longest first. -/
def dots (production : Production) : List Symbol → List Item
  | [] => [⟨production, []⟩]
  | symbol :: rest => ⟨production, symbol :: rest⟩ :: dots production rest

/-- All items.  After an item that expects a symbol comes the one that has it behind it. -/
def allItems : List Item := productions.flatMap fun p => dots p p.symbols

/-- A number for a symbol. -/
def Symbol.code : Symbol → Nat
  | .t terminal => 2 * terminal.index
  | .n phrase => 2 * phrase.index + 1

theorem getElem?_dots_succ {p q : Production} {X : Symbol} {rest symbols : List Symbol}
    {later : List Item} {i : Nat}
    (next : ∀ j, later[j]? = some ⟨p, X :: rest⟩ → later[j + 1]? = some ⟨p, rest⟩)
    (here : (dots q symbols ++ later)[i]? = some ⟨p, X :: rest⟩) :
    (dots q symbols ++ later)[i + 1]? = some ⟨p, rest⟩ := by
  induction symbols generalizing i with
  | nil =>
      cases i with
      | zero => simp [dots] at here
      | succ i => simpa [dots] using next i (by simpa [dots] using here)
  | cons symbol symbols ih =>
      cases i with
      | zero =>
          simp only [dots, List.cons_append, List.getElem?_cons_zero, Option.some.injEq,
            Item.mk.injEq, List.cons.injEq] at here
          obtain ⟨rfl, rfl, rfl⟩ := here
          cases symbols <;> simp [dots]
      | succ i => simpa [dots] using ih (by simpa [dots] using here)

/-- The item that has a symbol behind it comes after the one that expects it. -/
theorem getElem?_allItems_succ {p : Production} {X : Symbol} {rest : List Symbol} {i : Nat}
    (here : allItems[i]? = some ⟨p, X :: rest⟩) : allItems[i + 1]? = some ⟨p, rest⟩ := by
  have ofProductions : ∀ (ps : List Production) (i : Nat),
      (ps.flatMap fun p => dots p p.symbols)[i]? = some ⟨p, X :: rest⟩ →
        (ps.flatMap fun p => dots p p.symbols)[i + 1]? = some ⟨p, rest⟩ := by
    intro ps
    induction ps with
    | nil => simp
    | cons q ps ih => exact fun i here => getElem?_dots_succ ih here
  exact ofProductions productions i here

/-- A production that has not been begun is one of the items. -/
theorem exists_getElem?_ofProduction {p : Production} (known : p ∈ productions) :
    ∃ i : Nat, allItems[i]? = some (Item.ofProduction p) := by
  refine List.mem_iff_getElem?.mp (List.mem_flatMap.mpr ⟨p, known, ?_⟩)
  unfold Item.ofProduction
  cases p.symbols <;> simp [dots]

/-! ### Sets -/

/-- A set of items; bit `i` stands for the `i`-th of all items. -/
abbrev ItemSet := Nat

namespace ItemSet

def Has (set : ItemSet) (item : Item) : Prop :=
  ∃ i : Nat, allItems[i]? = some item ∧ set.testBit i

/-- The items that a condition keeps. -/
def filter (keep : Item → Bool) : ItemSet :=
  allItems.foldr (fun item later => bif keep item then 2 * later + 1 else 2 * later) 0

/-- The items that expect a symbol. -/
def expecting (symbol : Symbol) : ItemSet :=
  filter fun item =>
    match item.rest with
    | [] => false
    | next :: _ => Nat.beq next.code symbol.code

/-- The items that expect a phrase. -/
def expectingPhrase : ItemSet :=
  filter fun item =>
    match item.rest with
    | .n _ :: _ => true
    | _ => false

/-- The productions, not begun, with which a phrase may begin. -/
def opening (phrase : Nonterminal) : ItemSet :=
  filter fun item =>
    (leading phrase).has item.production.phrase &&
      Nat.beq item.rest.length item.production.symbols.length

/-- The set with the productions with which the phrases that it expects may begin. -/
def openings (begun : ItemSet) : List Nonterminal → ItemSet
  | [] => begun
  | phrase :: rest =>
      bif Nat.beq (Nat.land begun (expecting (.n phrase))) 0 then openings begun rest
      else Nat.lor (opening phrase) (openings begun rest)

def close (begun : ItemSet) : ItemSet :=
  bif Nat.beq (Nat.land begun expectingPhrase) 0 then begun else openings begun Nonterminal.all

/-- A function at a number that is worked out before. -/
def atValue {α : Type} (n : Nat) (f : Nat → α) : α :=
  match n with
  | 0 => f 0
  | n + 1 => f (n + 1)

/-- The set after a symbol. -/
def after (set : ItemSet) (symbol : Symbol) : ItemSet :=
  atValue (Nat.land set (expecting symbol)) fun expected =>
    bif Nat.beq expected 0 then 0 else atValue (2 * expected) close

/-- The set of the state at the beginning of a text. -/
def start : ItemSet := close 1

@[simp] theorem atValue_eq {α : Type} (n : Nat) (f : Nat → α) : atValue n f = f n := by
  cases n <;> rfl

theorem testBit_filter {keep : Item → Bool} {item : Item} {i : Nat}
    (here : allItems[i]? = some item) (kept : keep item) : (filter keep).testBit i := by
  unfold filter
  generalize allItems = items at here
  induction items generalizing i with
  | nil => simp at here
  | cons first items ih =>
      cases i with
      | zero =>
          obtain rfl : first = item := by simpa using here
          simp [kept, Nat.testBit_zero]
      | succ i =>
          have later := ih (by simpa using here)
          cases isKept : keep first
          · simpa [isKept, Nat.testBit_succ] using later
          · simpa [isKept, Nat.testBit_succ, Nat.mul_add_div] using later

theorem testBit_land {set other : ItemSet} {i : Nat} (has : set.testBit i)
    (otherHas : other.testBit i) : (Nat.land set other).testBit i :=
  (Nat.testBit_and ..).trans (by rw [has, otherHas]; rfl)

theorem not_beq_zero {set : ItemSet} {i : Nat} (has : set.testBit i) : Nat.beq set 0 = false := by
  cases set with
  | zero => simp at has
  | succ n => rfl

theorem testBit_openings {begun : ItemSet} {phrases : List Nonterminal} {i : Nat}
    (has : begun.testBit i) : (openings begun phrases).testBit i := by
  induction phrases with
  | nil => exact has
  | cons phrase rest ih =>
      unfold openings
      cases Nat.beq (Nat.land begun (expecting (.n phrase))) 0
      · exact (Nat.testBit_or ..).trans (by rw [ih, Bool.or_true])
      · exact ih

theorem testBit_close {begun : ItemSet} {i : Nat} (has : begun.testBit i) :
    (close begun).testBit i := by
  unfold close
  cases Nat.beq (Nat.land begun expectingPhrase) 0
  · exact testBit_openings has
  · exact has

theorem testBit_openings_of_expecting {begun : ItemSet} {phrase : Nonterminal}
    {phrases : List Nonterminal} {i j : Nat} (member : phrase ∈ phrases)
    (expects : (Nat.land begun (expecting (.n phrase))).testBit i)
    (opens : (opening phrase).testBit j) : (openings begun phrases).testBit j := by
  induction phrases with
  | nil => exact nomatch member
  | cons first rest ih =>
      unfold openings
      rcases List.mem_cons.mp member with rfl | member
      · rw [not_beq_zero expects]
        exact (Nat.testBit_or ..).trans (by rw [opens, Bool.true_or])
      · cases Nat.beq (Nat.land begun (expecting (.n first))) 0
        · exact (Nat.testBit_or ..).trans (by rw [ih member, Bool.or_true])
        · exact ih member

theorem mem_allPhrases (N : Nonterminal) : N ∈ Nonterminal.all := by cases N <;> decide

/-- Where a phrase is expected, the productions that it may begin with are begun. -/
theorem Has.opens {begun : ItemSet} {q p : Production} {N : Nonterminal} {rest : List Symbol}
    (has : begun.Has ⟨q, .n N :: rest⟩) (known : p ∈ productions)
    (leads : (leading N).has p.phrase) : (close begun).Has (Item.ofProduction p) := by
  obtain ⟨i, here, bit⟩ := has
  obtain ⟨j, opened⟩ := exists_getElem?_ofProduction known
  refine ⟨j, opened, ?_⟩
  have expects : (expecting (.n N)).testBit i := testBit_filter here (by simp)
  have expectsPhrase : expectingPhrase.testBit i := testBit_filter here rfl
  have opens : (opening N).testBit j := testBit_filter opened (by simp [leads, Item.ofProduction])
  unfold close
  rw [not_beq_zero (testBit_land bit expectsPhrase)]
  exact testBit_openings_of_expecting (mem_allPhrases N) (testBit_land bit expects) opens

/-- A set that is gone to over a symbol comes from the items that expect it. -/
theorem after_eq {set : ItemSet} {X : Symbol} {i : Nat}
    (expects : (Nat.land set (expecting X)).testBit i) :
    set.after X = close (2 * Nat.land set (expecting X)) := by
  simp only [after, atValue_eq, not_beq_zero expects, cond_false]

@[simp] theorem after_zero (X : Symbol) : after 0 X = 0 := by
  simp [after]

end ItemSet

/-! ### States -/

/-- What some numbers make together has the bits that one of them has. -/
theorem testBit_foldl_lor {α : Type} (f : α → Nat) (items : List α) (s i : Nat) :
    (items.foldl (fun s item => Nat.lor s (f item)) s).testBit i = true ↔
      s.testBit i ∨ ∃ item ∈ items, (f item).testBit i := by
  induction items generalizing s with
  | nil => simp
  | cons first items ih =>
      have both : (Nat.lor s (f first)).testBit i = (s.testBit i || (f first).testBit i) :=
        Nat.testBit_or ..
      simp only [List.foldl_cons, ih, both, Bool.or_eq_true, List.mem_cons, exists_eq_or_imp,
        or_assoc]

/-- A set covers a state when it has all its items. -/
def ItemSet.Covers (set : ItemSet) (s : State) : Prop := ∀ item ∈ s.items, set.Has item

/-- A production may begin at a state when some item that has been begun expects a phrase that
begins with it. -/
theorem State.mem_ofItems {begun : List Item} {item : Item} :
    item ∈ (ofItems begun).items ↔
      item ∈ begun ∨ ∃ p ∈ productions, item = .ofProduction p ∧
        ∃ other ∈ begun, other.beginning.has p.phrase := by
  have hasFold : ∀ N, PhraseSet.has (begun.foldl (fun s item => Nat.lor s item.beginning) 0) N =
      true ↔ ∃ other ∈ begun, other.beginning.has N := by
    intro N
    exact (testBit_foldl_lor ..).trans (by simp [PhraseSet.has])
  unfold ofItems itemsOf freshItems
  simp only [List.mem_append]
  refine or_congr_right ?_
  split
  · rename_i isZero
    have noPhrase : ∀ N, ¬ ∃ item ∈ begun, item.beginning.has N := by
      intro N some
      have has := (hasFold N).mpr some
      rw [isZero] at has
      simp [PhraseSet.has] at has
    simp [noPhrase]
  · simp only [List.mem_filter, List.mem_map, hasFold]
    constructor
    · rintro ⟨⟨p, known, rfl⟩, other⟩
      exact ⟨p, known, rfl, other⟩
    · rintro ⟨p, known, rfl, other⟩
      exact ⟨⟨p, known, rfl⟩, other⟩

theorem Item.exists_of_beginning {item : Item} {N : Nonterminal} (has : item.beginning.has N) :
    ∃ M rest, item.rest = .n M :: rest ∧ (leading M).has N := by
  unfold beginning at has
  split at has
  · rename_i M rest same
    exact ⟨M, rest, same, has⟩
  · simp [PhraseSet.has] at has

theorem Item.after?_eq_some {X : Symbol} {item next : Item} :
    item.after? X = some next ↔
      item.rest = X :: next.rest ∧ next.production = item.production := by
  obtain ⟨p, rest⟩ := item
  obtain ⟨q, after⟩ := next
  cases rest with
  | nil => simp [after?]
  | cons symbol rest =>
      by_cases same : symbol = X
      · simp [after?, same, eq_comm, and_comm]
      · simp [after?, same]

/-- What a state goes to is covered by what a set that covers it goes to. -/
theorem ItemSet.Covers.after {set : ItemSet} {s next : State} {X : Symbol}
    (covers : set.Covers s) (goes : s.after? X = some next) : (set.after X).Covers next := by
  have begins : ∀ item ∈ s.items.filterMap (Item.after? X), ∃ i,
      (Nat.land set (expecting X)).testBit i ∧
        Has (2 * Nat.land set (expecting X)) item := by
    intro item member
    obtain ⟨before, isItem, goesOn⟩ := List.mem_filterMap.mp member
    obtain ⟨expects, same⟩ := Item.after?_eq_some.mp goesOn
    obtain ⟨i, here, bit⟩ := covers before isItem
    have both : (Nat.land set (expecting X)).testBit i :=
      testBit_land bit (testBit_filter here (by simp [expects]))
    obtain ⟨p, rest⟩ := before
    obtain ⟨q, later⟩ := item
    obtain rfl : q = p := same
    obtain rfl : rest = X :: later := expects
    exact ⟨i, both, i + 1, getElem?_allItems_succ here, by simpa [Nat.testBit_succ] using both⟩
  unfold State.after? at goes
  split at goes
  · exact nomatch goes
  · obtain rfl := Option.some.inj goes
    intro item member
    rcases State.mem_ofItems.mp member with isBegun | ⟨p, known, rfl, other, isBegun, leads⟩
    · obtain ⟨i, expects, j, here, bit⟩ := begins item isBegun
      rw [after_eq expects]
      exact ⟨j, here, testBit_close bit⟩
    · obtain ⟨i, expects, has⟩ := begins other isBegun
      obtain ⟨M, rest, same, leads⟩ := Item.exists_of_beginning leads
      obtain ⟨q, later⟩ := other
      obtain rfl : later = .n M :: rest := same
      rw [after_eq expects]
      exact has.opens known leads

theorem ItemSet.covers_start : start.Covers .start := by
  have begun : Has 1 (Item.ofProduction ⟨.root, [.n .program, .t .endOfInput], none⟩) :=
    ⟨0, rfl, rfl⟩
  intro item member
  rcases State.mem_ofItems.mp member with isBegun | ⟨p, known, rfl, other, isBegun, leads⟩
  · obtain rfl : item = _ := List.mem_singleton.mp isBegun
    obtain ⟨i, here, bit⟩ := begun
    exact ⟨i, here, testBit_close bit⟩
  · obtain rfl : other = _ := List.mem_singleton.mp isBegun
    exact begun.opens known leads

end BorrowLang.Grammar
