import BorrowLang.Proofs.Ownership.Stacks

/-!
# Histories of borrow stacks

New tags, accesses and freed cells follow one another in any order.  Tags are handed out in ascending
order and pushed on top, so a stack lists its tags in the order in which they were handed out; and a
tag that has left its stack never gets back.
-/

set_option autoImplicit false

namespace BorrowLang.BorrowStacks

/-- What happens to the stacks. -/
inductive Event
  | push (addr : Addr) (kind : BorrowKind)
  | access (addr : Addr) (tag : Option Tag) (isWrite : Bool) (cause : DiagnosticKind)
  | forget (addr : Addr)
deriving Repr, DecidableEq

/-- The stacks after an event; an access that is refused changes nothing. -/
def apply (s : BorrowStacks) : Event → BorrowStacks
  | .push addr kind => (s.push addr kind).1
  | .access addr tag isWrite cause =>
      match s.access addr tag isWrite cause with
      | .ok after => after
      | .error _ => s
  | .forget addr => s.forget addr

/-- The stacks after some events, one after another. -/
def run (s : BorrowStacks) (events : List Event) : BorrowStacks := events.foldl apply s

/-- The tags that some events hand out, the first one first. -/
def pushed (s : BorrowStacks) : List Event → List Tag
  | [] => []
  | event :: rest =>
      match event with
      | .push addr kind => s.nextTag :: pushed (s.push addr kind).1 rest
      | event => pushed (s.apply event) rest

variable {s after : BorrowStacks} {addr other : Addr} {item : StackItem}

/-! ### What one event changes -/

theorem splitAfter?_append {tag : Tag} {stack kept above : List StackItem}
    (found : splitAfter? tag stack = some (kept, above)) :
    kept ++ above = stack ∧ ∃ below item, kept = below ++ [item] ∧ item.tag = tag := by
  induction stack generalizing kept above with
  | nil => simp [splitAfter?] at found
  | cons first rest ih =>
      rw [splitAfter?] at found
      by_cases here : first.tag = tag
      · rw [if_pos here] at found
        obtain ⟨rfl, rfl⟩ := Prod.mk.inj (Option.some.inj found)
        exact ⟨rfl, [], first, rfl, here⟩
      · rw [if_neg here] at found
        obtain ⟨⟨kept', above'⟩, inRest, same⟩ := Option.map_eq_some_iff.mp found
        obtain ⟨rfl, rfl⟩ := Prod.mk.inj same
        obtain ⟨whole, below, item, split, isTag⟩ := ih inRest
        exact ⟨by rw [List.cons_append, whole], first :: below, item, by rw [split]; rfl, isTag⟩

/-- An access cuts the stack in two. -/
theorem cut_append {isWrite : Bool} {tag : Option Tag} {stack kept ended : List StackItem}
    (done : cut stack isWrite tag = some (kept, ended)) : kept ++ ended = stack := by
  obtain ⟨⟨below, above⟩, split, same⟩ := Option.map_eq_some_iff.mp done
  have whole : below ++ above = stack := by
    cases tag with
    | none =>
        obtain ⟨rfl, rfl⟩ := Prod.mk.inj (Option.some.inj split)
        rfl
    | some tag => exact (splitAfter?_append split).1
  cases isWrite with
  | true =>
      obtain ⟨rfl, rfl⟩ := Prod.mk.inj same
      exact whole
  | false =>
      obtain ⟨rfl, rfl⟩ := Prod.mk.inj same
      rw [List.append_assoc, List.takeWhile_append_dropWhile, whole]

/-- A tag through which a cell is accessed is on the cell's stack. -/
theorem mem_stack_of_access {tag : Tag} {isWrite : Bool} {cause : DiagnosticKind}
    (allowed : s.access addr (some tag) isWrite cause = .ok after) :
    ∃ item ∈ s.stack addr, item.tag = tag := by
  obtain ⟨parts, done, -⟩ := access_eq_ok allowed
  obtain ⟨⟨below, above⟩, split, -⟩ := Option.map_eq_some_iff.mp done
  obtain ⟨whole, rest, item, rfl, isTag⟩ := splitAfter?_append split
  exact ⟨item, by rw [← whole]; simp, isTag⟩

theorem access_sublist {tag : Option Tag} {isWrite : Bool} {cause : DiagnosticKind}
    (allowed : s.access addr tag isWrite cause = .ok after) (other : Addr) :
    (after.stack other).Sublist (s.stack other) := by
  obtain ⟨⟨kept, ended⟩, done, stackEq⟩ := stack_access allowed
  rw [stackEq]
  split
  · rename_i same
    rw [same, ← cut_append done]
    exact List.sublist_append_left kept ended
  · exact .refl _

theorem stack_forget (s : BorrowStacks) (addr other : Addr) :
    (s.forget addr).stack other = if other = addr then [] else s.stack other := by
  by_cases same : other = addr
  · simp [forget, stack, same]
  · simp [forget, stack, Std.TreeMap.getD_erase, same, Ne.symm same]

/-- A new tag is on top of its cell's stack, and on no other. -/
theorem stack_push_self (s : BorrowStacks) (addr : Addr) (kind : BorrowKind) :
    (s.push addr kind).1.stack addr = s.stack addr ++ [⟨s.nextTag, kind⟩] := by
  simp [push, stack]

/-- An event leaves a part of a stack, or adds the next tag to it. -/
theorem stack_apply (s : BorrowStacks) (event : Event) (addr : Addr) :
    ((s.apply event).stack addr).Sublist (s.stack addr) ∨
      ∃ kind, event = .push addr kind ∧
        (s.apply event).stack addr = s.stack addr ++ [⟨s.nextTag, kind⟩] := by
  cases event with
  | push target kind =>
      by_cases same : addr = target
      · subst same
        exact Or.inr ⟨kind, rfl, stack_push_self s addr kind⟩
      · have kept : (s.apply (.push target kind)).stack addr = s.stack addr :=
          stack_push s target kind same
        exact Or.inl (kept ▸ .refl _)
  | access target tag isWrite cause =>
      refine Or.inl ?_
      rw [apply]
      split
      · rename_i after allowed
        exact access_sublist allowed addr
      · exact .refl _
  | forget target =>
      refine Or.inl ?_
      rw [apply, stack_forget]
      split
      · exact List.nil_sublist _
      · exact .refl _

theorem nextTag_apply (s : BorrowStacks) (event : Event) : s.nextTag ≤ (s.apply event).nextTag := by
  cases event with
  | push addr kind => exact Nat.le_succ _
  | access addr tag isWrite cause =>
      rw [apply]
      unfold access
      split
      · rename_i after allowed
        split at allowed
        · simp at allowed
        · obtain rfl := Except.ok.inj allowed
          exact Nat.le_refl _
      · exact Nat.le_refl _
  | forget addr => exact Nat.le_refl _

theorem nextTag_run (s : BorrowStacks) (events : List Event) :
    s.nextTag ≤ (s.run events).nextTag := by
  induction events generalizing s with
  | nil => exact Nat.le_refl _
  | cons event rest ih => exact Nat.le_trans (nextTag_apply s event) (ih _)

/-! ### The order of tags -/

/-- Stacks list their tags in the order in which they were handed out. -/
structure Ordered (s : BorrowStacks) : Prop where
  ascending : ∀ addr, (s.stack addr).Pairwise fun below above => below.tag < above.tag
  fresh : ∀ addr, ∀ item ∈ s.stack addr, item.tag < s.nextTag

theorem ordered_empty : Ordered {} := by
  have empty : ∀ addr, stack {} addr = [] := fun addr => by simp [stack]
  refine ⟨fun addr => ?_, fun addr item member => ?_⟩
  · rw [empty]
    exact .nil
  · rw [empty] at member
    exact absurd member List.not_mem_nil

theorem Ordered.apply (ordered : Ordered s) (event : Event) : Ordered (s.apply event) := by
  have grows := nextTag_apply s event
  refine ⟨fun addr => ?_, fun addr item member => ?_⟩
  · rcases stack_apply s event addr with part | ⟨kind, -, same⟩
    · exact (ordered.ascending addr).sublist part
    · rw [same, List.pairwise_append]
      refine ⟨ordered.ascending addr, List.pairwise_singleton _ _, fun below inStack above isNew => ?_⟩
      rw [List.mem_singleton.mp isNew]
      exact ordered.fresh addr below inStack
  · rcases stack_apply s event addr with part | ⟨kind, rfl, same⟩
    · exact Nat.lt_of_lt_of_le (ordered.fresh addr item (part.subset member)) grows
    · rw [same] at member
      rcases List.mem_append.mp member with inStack | isNew
      · exact Nat.lt_of_lt_of_le (ordered.fresh addr item inStack) grows
      · rw [List.mem_singleton.mp isNew]
        exact Nat.lt_succ_self _

theorem Ordered.run (ordered : Ordered s) (events : List Event) : Ordered (s.run events) := by
  induction events generalizing s with
  | nil => exact ordered
  | cons event rest ih => exact ih (ordered.apply event)

/-! ### Tags on a stack and tags handed out -/

/-- What an event puts on a stack is the next tag. -/
theorem mem_stack_of_apply {event : Event} (member : item ∈ (s.apply event).stack addr) :
    item ∈ s.stack addr ∨ ∃ kind, event = .push addr kind ∧ item = ⟨s.nextTag, kind⟩ := by
  rcases stack_apply s event addr with part | ⟨kind, isPush, same⟩
  · exact Or.inl (part.subset member)
  · rw [same] at member
    exact (List.mem_append.mp member).imp_right fun isNew =>
      ⟨kind, isPush, List.mem_singleton.mp isNew⟩

theorem pushed_cons_subset (s : BorrowStacks) (event : Event) (rest : List Event) :
    pushed (s.apply event) rest ⊆ pushed s (event :: rest) := by
  cases event with
  | push addr kind => exact List.subset_cons_self _ _
  | access | forget => exact fun tag member => member

/-- A tag on a stack was there before the events or is one that they handed out. -/
theorem mem_stack_of_run {events : List Event} (member : item ∈ (s.run events).stack addr) :
    item ∈ s.stack addr ∨ item.tag ∈ pushed s events := by
  induction events generalizing s with
  | nil => exact Or.inl member
  | cons event rest ih =>
      rcases @ih (s.apply event) member with inNext | isNew
      · rcases mem_stack_of_apply inNext with old | ⟨kind, rfl, rfl⟩
        · exact Or.inl old
        · exact Or.inr List.mem_cons_self
      · exact Or.inr (pushed_cons_subset s event rest isNew)

/-- The tags that are handed out are not those handed out before or after. -/
theorem mem_pushed {events : List Event} {tag : Tag} (member : tag ∈ pushed s events) :
    s.nextTag ≤ tag ∧ tag < (s.run events).nextTag := by
  induction events generalizing s with
  | nil => exact absurd member List.not_mem_nil
  | cons event rest ih =>
      have grows := nextTag_apply s event
      have later : tag ∈ pushed (s.apply event) rest →
          s.nextTag ≤ tag ∧ tag < (s.run (event :: rest)).nextTag := fun inRest =>
        ⟨Nat.le_trans grows (ih inRest).1, (ih inRest).2⟩
      cases event with
      | push addr kind =>
          rcases List.mem_cons.mp member with rfl | inRest
          · exact ⟨Nat.le_refl _, nextTag_run (s.push addr kind).1 rest⟩
          · exact later inRest
      | access | forget => exact later member

/-- A tag that has been handed out and is not on a stack does not get there any more. -/
theorem mem_stack_of_later {events : List Event} (member : item ∈ (s.run events).stack addr)
    (old : item.tag < s.nextTag) : item ∈ s.stack addr :=
  (mem_stack_of_run member).resolve_right fun isNew =>
    Nat.not_lt.mpr (mem_pushed isNew).1 old

end BorrowLang.BorrowStacks
