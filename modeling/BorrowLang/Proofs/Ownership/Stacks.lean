import BorrowLang.Evaluator.Access
import Std.Data.TreeMap.Lemmas

/-!
# What accesses leave of the borrow stacks

An access, through a tag or by the owner, takes tags away and adds none.  A stack that is empty
stays empty until a new reference is made to its cell.
-/

set_option autoImplicit false

namespace BorrowLang

namespace BorrowStacks

variable {s after : BorrowStacks}

/-- No stack has got its first tag, and no cell has got a stack. -/
structure Lowered (s after : BorrowStacks) : Prop where
  empty : ∀ addr, s.stack addr = [] → after.stack addr = []
  keys : ∀ addr, after.byAddr.contains addr → s.byAddr.contains addr

theorem Lowered.refl (s : BorrowStacks) : Lowered s s := ⟨fun _ h => h, fun _ h => h⟩

theorem Lowered.trans {next : BorrowStacks} (first : Lowered s after) (second : Lowered after next) :
    Lowered s next :=
  ⟨fun addr empty => second.empty addr (first.empty addr empty),
    fun addr here => first.keys addr (second.keys addr here)⟩

theorem splitAt?_nil {tag : Option Tag} {parts : List StackItem × List StackItem}
    (found : splitAt? [] tag = some parts) : tag = none ∧ parts = ([], []) := by
  cases tag with
  | none => exact ⟨rfl, (Option.some.inj found).symm⟩
  | some tag => simp [splitAt?, splitAfter?] at found

/-- Nothing is left of an empty stack, and no tag is found on it. -/
theorem cut_nil {isWrite : Bool} {tag : Option Tag} {parts : List StackItem × List StackItem}
    (done : cut [] isWrite tag = some parts) : tag = none ∧ parts.1 = [] := by
  simp only [cut, Option.map_eq_some_iff] at done
  obtain ⟨found, split, partsEq⟩ := done
  obtain ⟨isOwner, rfl⟩ := splitAt?_nil split
  refine ⟨isOwner, ?_⟩
  rw [← partsEq]
  cases isWrite <;> rfl

theorem access_eq_ok {addr : Addr} {tag : Option Tag} {isWrite : Bool} {cause : DiagnosticKind}
    (allowed : s.access addr tag isWrite cause = .ok after) :
    ∃ parts, cut (s.stack addr) isWrite tag = some parts ∧
      after.byAddr =
        if s.byAddr.contains addr then s.byAddr.insert addr parts.1 else s.byAddr := by
  unfold access at allowed
  cases parts : cut (s.stack addr) isWrite tag with
  | none => simp [parts] at allowed
  | some kept =>
      rw [parts] at allowed
      obtain rfl := Except.ok.inj allowed
      exact ⟨kept, rfl, rfl⟩

theorem stack_of_absent {addr : Addr} (absent : s.byAddr.contains addr = false) :
    s.stack addr = [] := by
  simp [stack, Std.TreeMap.getD_eq_fallback_of_contains_eq_false absent]

/-- The stack of the cell is what the access leaves of it; the others stay. -/
theorem stack_access {addr : Addr} {tag : Option Tag} {isWrite : Bool} {cause : DiagnosticKind}
    (allowed : s.access addr tag isWrite cause = .ok after) :
    ∃ parts, cut (s.stack addr) isWrite tag = some parts ∧
      ∀ other, after.stack other = if other = addr then parts.1 else s.stack other := by
  obtain ⟨parts, done, byAddrEq⟩ := access_eq_ok allowed
  refine ⟨parts, done, fun other => ?_⟩
  unfold stack
  rw [byAddrEq]
  cases known : s.byAddr.contains addr with
  | true =>
      by_cases same : other = addr
      · simp [same]
      · simp [same, Ne.symm same, Std.TreeMap.getD_insert]
  | false =>
      rw [stack_of_absent known] at done
      by_cases same : other = addr
      · subst same
        rw [if_pos rfl, (cut_nil done).2]
        exact stack_of_absent known
      · simp [same]

theorem access_lowered {addr : Addr} {tag : Option Tag} {isWrite : Bool} {cause : DiagnosticKind}
    (allowed : s.access addr tag isWrite cause = .ok after) : Lowered s after := by
  constructor
  · intro other empty
    obtain ⟨parts, done, stackEq⟩ := stack_access allowed
    rw [stackEq]
    split
    · rename_i same
      subst same
      rw [empty] at done
      exact (cut_nil done).2
    · exact empty
  · intro other here
    obtain ⟨parts, -, byAddrEq⟩ := access_eq_ok allowed
    rw [byAddrEq] at here
    split at here
    · rename_i known
      rw [Std.TreeMap.contains_insert] at here
      rcases (Bool.or_eq_true _ _).mp here with same | here
      · obtain rfl := Nat.compare_eq_eq.mp (eq_of_beq same)
        exact known
      · exact here
    · exact here

theorem stack_ne_nil_of_access {addr : Addr} {tag : Tag} {isWrite : Bool} {cause : DiagnosticKind}
    (allowed : s.access addr (some tag) isWrite cause = .ok after) : s.stack addr ≠ [] := by
  intro empty
  obtain ⟨parts, done, -⟩ := access_eq_ok allowed
  rw [empty] at done
  exact absurd (cut_nil done).1 (by simp)

/-- The owner may always write, which empties the stack. -/
theorem access_owner_write (s : BorrowStacks) (addr : Addr) (cause : DiagnosticKind) :
    ∃ after, s.access addr none true cause = .ok after ∧ Lowered s after ∧
      after.stack addr = [] := by
  obtain ⟨after, allowed⟩ : ∃ after, s.access addr none true cause = .ok after := ⟨_, rfl⟩
  refine ⟨after, allowed, access_lowered allowed, ?_⟩
  obtain ⟨parts, done, stackEq⟩ := stack_access allowed
  obtain rfl := Option.some.inj done
  simpa using stackEq addr

theorem stack_push (s : BorrowStacks) (addr : Addr) (kind : BorrowKind) {other : Addr}
    (different : other ≠ addr) : (s.push addr kind).1.stack other = s.stack other := by
  simp [push, stack, Std.TreeMap.getD_insert, Ne.symm different]

theorem contains_push {addr other : Addr} {kind : BorrowKind}
    (here : (s.push addr kind).1.byAddr.contains other) :
    other = addr ∨ s.byAddr.contains other := by
  simp only [push, Std.TreeMap.contains_insert] at here
  rcases (Bool.or_eq_true _ _).mp here with same | here
  · exact Or.inl (Nat.compare_eq_eq.mp (eq_of_beq same)).symm
  · exact Or.inr here

theorem forget_lowered (s : BorrowStacks) (addr : Addr) : Lowered s (s.forget addr) := by
  constructor
  · intro other empty
    simp only [forget, stack, Std.TreeMap.getD_erase] at empty ⊢
    split
    · rfl
    · exact empty
  · intro other here
    simp only [forget, Std.TreeMap.contains_erase, Bool.and_eq_true] at here
    exact here.2

theorem contains_forget (s : BorrowStacks) (addr : Addr) :
    (s.forget addr).byAddr.contains addr = false := by
  simp [forget]

end BorrowStacks

namespace Evaluator

open BorrowStacks

theorem accessOwned_lowered {isWrite : Bool} {cause : DiagnosticKind} {s after : BorrowStacks} :
    ∀ {cells : List Addr}, accessOwned isWrite cause s cells = .ok after → Lowered s after
  | [], allowed => by
      obtain rfl := Except.ok.inj allowed
      exact .refl s
  | addr :: rest, allowed => by
      simp only [accessOwned] at allowed
      cases first : s.access addr none isWrite cause with
      | error violation => simp [first, Bind.bind, Except.bind] at allowed
      | ok next =>
          rw [first] at allowed
          exact (access_lowered first).trans (accessOwned_lowered allowed)

end Evaluator

end BorrowLang
