import BorrowLang.Proofs.Stacks.History

/-!
# Ended tags stay ended

A tag is on the stack of one cell at most, and not there any more once it has ended.  What took it
from its stack decides how its use is refused from then on: an access gives its own kind as the
reason, and a tag whose cell was freed is refused as a conflict.
-/

set_option autoImplicit false

namespace BorrowLang.BorrowStacks

variable {s start after : BorrowStacks} {addr other : Addr} {tag : Tag}

/-- The tag is on the stack of the cell. -/
def On (s : BorrowStacks) (addr : Addr) (tag : Tag) : Prop := ∃ item ∈ s.stack addr, item.tag = tag

/-- The tag has been handed out and is on no stack. -/
structure Gone (s : BorrowStacks) (tag : Tag) : Prop where
  old : tag < s.nextTag
  off : ∀ addr, ¬ s.On addr tag

/-- A tag that works is on one stack and has not ended; one that has ended was handed out. -/
structure Settled (s : BorrowStacks) : Prop extends Ordered s where
  single : ∀ {addr other tag}, s.On addr tag → s.On other tag → addr = other
  working : ∀ {addr tag}, s.On addr tag → s.revoked[tag]? = none
  handedOut : ∀ {tag} cause, s.revoked[tag]? = some cause → tag < s.nextTag

/-! ### Where tags are after an event -/

theorem Ordered.lt_of_on (ordered : Ordered s) (on : s.On addr tag) : tag < s.nextTag := by
  obtain ⟨item, member, rfl⟩ := on
  exact ordered.fresh addr item member

theorem on_push (kind : BorrowKind) :
    (s.push addr kind).1.On other tag ↔ s.On other tag ∨ other = addr ∧ tag = s.nextTag := by
  by_cases same : other = addr
  · subst same
    simp [On, stack_push_self, or_and_right, exists_or, eq_comm]
  · simp [On, stack_push s addr kind same, same]

theorem on_forget : (s.forget addr).On other tag ↔ s.On other tag ∧ other ≠ addr := by
  by_cases same : other = addr
  · simp [On, stack_forget, same]
  · simp [On, stack_forget, same]

/-- A tag gets on a stack only as the next one. -/
theorem on_of_on_apply {event : Event} (on : (s.apply event).On addr tag) :
    s.On addr tag ∨ tag = s.nextTag ∧ ∃ kind, event = .push addr kind := by
  obtain ⟨item, member, rfl⟩ := on
  rcases mem_stack_of_apply member with old | ⟨kind, isPush, rfl⟩
  · exact Or.inl ⟨item, old, rfl⟩
  · exact Or.inr ⟨rfl, kind, isPush⟩

theorem Gone.apply (gone : Gone s tag) (event : Event) : Gone (s.apply event) tag := by
  refine ⟨Nat.lt_of_lt_of_le gone.old (nextTag_apply s event), fun addr on => ?_⟩
  rcases on_of_on_apply on with before | ⟨isNext, -⟩
  · exact gone.off addr before
  · exact absurd gone.old (Nat.not_lt_of_ge (Nat.le_of_eq isNext.symm))

/-! ### Which tags have ended after an event -/

theorem getElem?_foldl_insert (ended : List StackItem) (revoked : Std.TreeMap Tag DiagnosticKind)
    (cause : DiagnosticKind) (tag : Tag) :
    (ended.foldl (fun revoked item => revoked.insert item.tag cause) revoked)[tag]? =
      if ∃ item ∈ ended, item.tag = tag then some cause else revoked[tag]? := by
  induction ended generalizing revoked with
  | nil => simp
  | cons first rest ih =>
      rw [List.foldl_cons, ih, Std.TreeMap.getElem?_insert]
      by_cases later : ∃ item ∈ rest, item.tag = tag
      · simp [later]
      · by_cases here : first.tag = tag
        · simp [here]
        · simp [here, later]

/-- An access ends the tags that it takes from its stack, with its own kind, and no others. -/
theorem revoked_access {through : Option Tag} {isWrite : Bool} {cause : DiagnosticKind}
    (allowed : s.access addr through isWrite cause = .ok after) :
    ∃ ended, s.stack addr = after.stack addr ++ ended ∧ ∀ tag, after.revoked[tag]? =
      if ∃ item ∈ ended, item.tag = tag then some cause else s.revoked[tag]? := by
  obtain ⟨parts, done, stackEq⟩ := stack_access allowed
  unfold access at allowed
  rw [done] at allowed
  obtain rfl := Except.ok.inj allowed
  refine ⟨parts.2, ?_, fun tag => getElem?_foldl_insert parts.2 s.revoked cause tag⟩
  rw [stackEq, if_pos rfl, cut_append done]

/-! ### When an access is refused -/

theorem splitAfter?_eq_none_iff {stack : List StackItem} :
    splitAfter? tag stack = none ↔ ∀ item ∈ stack, item.tag ≠ tag := by
  induction stack with
  | nil => simp [splitAfter?]
  | cons first rest ih =>
      rw [splitAfter?, List.forall_mem_cons]
      by_cases here : first.tag = tag
      · simp [here]
      · simp [here, ih]

theorem cut_eq_none_iff {through : Option Tag} {isWrite : Bool} :
    cut (s.stack addr) isWrite through = none ↔ ∃ tag, through = some tag ∧ ¬ s.On addr tag := by
  rw [cut, Option.map_eq_none_iff]
  cases through with
  | none => simp [splitAt?]
  | some tag => simp [splitAt?, splitAfter?_eq_none_iff, On]

/-- An access is refused just when its tag is not on the stack.  The reason is the one known of the
tag, or else a conflict. -/
theorem access_eq_error_iff {through : Option Tag} {isWrite : Bool} {cause : DiagnosticKind}
    {violation : Violation} :
    s.access addr through isWrite cause = .error violation ↔
      ∃ tag, through = some tag ∧ ¬ s.On addr tag ∧
        violation = ⟨.invalidated ((s.revoked[tag]?).getD .conflictingBorrow), addr, none⟩ := by
  unfold access
  cases done : cut (s.stack addr) isWrite through with
  | none =>
      obtain ⟨tag, rfl, off⟩ := cut_eq_none_iff.mp done
      simp [off, eq_comm]
  | some parts =>
      have allowed : ¬ ∃ tag, through = some tag ∧ ¬ s.On addr tag := by
        rw [← cut_eq_none_iff, done]
        exact Option.some_ne_none parts
      exact ⟨nofun, fun ⟨tag, isTag, off, _⟩ => absurd ⟨tag, isTag, off⟩ allowed⟩

/-! ### What every event keeps -/

theorem settled_empty : Settled {} where
  toOrdered := ordered_empty
  single on _ := by simp [On, stack] at on
  working on := by simp [On, stack] at on
  handedOut cause ended := by simp at ended

theorem Settled.push (settled : Settled s) (addr : Addr) (kind : BorrowKind) :
    Settled (s.push addr kind).1 where
  toOrdered := settled.toOrdered.apply (.push addr kind)
  single {first second tag} onFirst onSecond := by
    rcases (on_push kind).mp onFirst with old | ⟨rfl, rfl⟩
    · rcases (on_push kind).mp onSecond with alsoOld | ⟨-, rfl⟩
      · exact settled.single old alsoOld
      · exact absurd (settled.lt_of_on old) (Nat.lt_irrefl _)
    · rcases (on_push kind).mp onSecond with old | ⟨rfl, -⟩
      · exact absurd (settled.lt_of_on old) (Nat.lt_irrefl _)
      · rfl
  working {other tag} on := by
    rcases (on_push kind).mp on with old | ⟨-, rfl⟩
    · exact settled.working old
    · cases ended : s.revoked[s.nextTag]? with
      | none => exact ended
      | some cause => exact absurd (settled.handedOut cause ended) (Nat.lt_irrefl _)
  handedOut cause ended := Nat.lt_succ_of_lt (settled.handedOut cause ended)

theorem Settled.access (settled : Settled s) {through : Option Tag} {isWrite : Bool}
    {cause : DiagnosticKind} (allowed : s.access addr through isWrite cause = .ok after) :
    Settled after := by
  have before : ∀ {addr tag}, after.On addr tag → s.On addr tag := by
    rintro addr tag ⟨item, member, isTag⟩
    exact ⟨item, (access_sublist allowed _).subset member, isTag⟩
  have applied : s.apply (.access addr through isWrite cause) = after := by rw [apply, allowed]
  have ordered : Ordered after := applied ▸ settled.toOrdered.apply _
  obtain ⟨ended, stackEq, revokedEq⟩ := revoked_access allowed
  have wasOn : ∀ {tag}, (∃ item ∈ ended, item.tag = tag) → s.On addr tag := by
    rintro tag ⟨item, member, isTag⟩
    exact ⟨item, stackEq ▸ List.mem_append_right _ member, isTag⟩
  refine ⟨ordered, fun first second => settled.single (before first) (before second),
    fun {other tag} on => ?_, fun {tag} reason known => ?_⟩
  · rw [revokedEq, if_neg, settled.working (before on)]
    intro hasEnded
    -- A tag that the access takes away would stand twice on the stack.
    obtain rfl := settled.single (before on) (wasOn hasEnded)
    obtain ⟨left, isLeft, rfl⟩ := on
    obtain ⟨taken, isTaken, same⟩ := hasEnded
    have ascending := settled.ascending other
    rw [stackEq, List.pairwise_append] at ascending
    exact absurd (ascending.2.2 left isLeft taken isTaken) (Nat.not_lt_of_ge (Nat.le_of_eq same))
  · have later : s.nextTag ≤ after.nextTag := applied ▸ nextTag_apply s _
    rw [revokedEq] at known
    split at known
    · rename_i hasEnded
      exact Nat.lt_of_lt_of_le (settled.lt_of_on (wasOn hasEnded)) later
    · exact Nat.lt_of_lt_of_le (settled.handedOut reason known) later

theorem Settled.forget (settled : Settled s) (addr : Addr) : Settled (s.forget addr) where
  toOrdered := settled.toOrdered.apply (.forget addr)
  single first second := settled.single (on_forget.mp first).1 (on_forget.mp second).1
  working on := settled.working (on_forget.mp on).1
  handedOut := settled.handedOut

theorem Settled.apply (settled : Settled s) (event : Event) : Settled (s.apply event) := by
  cases event with
  | push addr kind => exact settled.push addr kind
  | access addr through isWrite cause =>
      rw [BorrowStacks.apply]
      split
      · rename_i after allowed
        exact settled.access allowed
      · exact settled
  | forget addr => exact settled.forget addr

theorem Settled.run (settled : Settled s) (events : List Event) : Settled (s.run events) := by
  induction events generalizing s with
  | nil => exact settled
  | cons event rest ih => exact ih (settled.apply event)

/-! ### Tags that are gone -/

/-- No event changes what is known of a tag that is on no stack. -/
theorem Gone.revoked_apply (gone : Gone s tag) (event : Event) :
    (s.apply event).revoked[tag]? = s.revoked[tag]? := by
  cases event with
  | push | forget => rfl
  | access addr through isWrite cause =>
      rw [BorrowStacks.apply]
      split
      · rename_i after allowed
        obtain ⟨ended, stackEq, revokedEq⟩ := revoked_access allowed
        rw [revokedEq, if_neg]
        rintro ⟨item, member, isTag⟩
        exact gone.off addr ⟨item, stackEq ▸ List.mem_append_right _ member, isTag⟩
      · rfl

theorem Gone.run (gone : Gone s tag) (events : List Event) :
    Gone (s.run events) tag ∧ (s.run events).revoked[tag]? = s.revoked[tag]? := by
  induction events generalizing s with
  | nil => exact ⟨gone, rfl⟩
  | cons event rest ih =>
      obtain ⟨later, same⟩ := ih (gone.apply event)
      exact ⟨later, same.trans (gone.revoked_apply event)⟩

/-- The event takes the tag from the stack of the cell, for the reason that every later use of the
tag is refused for: an access gives its own kind, and what is left of a freed cell is a conflict. -/
structure Takes (s : BorrowStacks) (addr : Addr) (tag : Tag) (event : Event)
    (reason : DiagnosticKind) : Prop where
  on : s.On addr tag
  off : ¬ (s.apply event).On addr tag
  why : (∃ through isWrite, event = .access addr through isWrite reason) ∨
    event = .forget addr ∧ reason = .conflictingBorrow

theorem Settled.takes (settled : Settled s) {event : Event} (on : s.On addr tag)
    (off : ¬ (s.apply event).On addr tag) :
    Takes s addr tag event (((s.apply event).revoked[tag]?).getD .conflictingBorrow) := by
  refine ⟨on, off, ?_⟩
  cases event with
  | push target kind => exact absurd ((on_push kind).mpr (Or.inl on)) off
  | forget target =>
      obtain rfl : addr = target :=
        Decidable.byContradiction fun different => off (on_forget.mpr ⟨on, different⟩)
      have known : (s.apply (.forget addr)).revoked[tag]? = none := settled.working on
      exact Or.inr ⟨rfl, by rw [known]; rfl⟩
  | access target through isWrite cause =>
      rw [BorrowStacks.apply] at off ⊢
      split at off
      · rename_i after allowed
        obtain ⟨item, member, isTag⟩ := on
        obtain ⟨parts, -, stackEq⟩ := stack_access allowed
        obtain rfl : addr = target := Decidable.byContradiction fun different =>
          off ⟨item, by rwa [stackEq, if_neg different], isTag⟩
        obtain ⟨ended, whole, revokedEq⟩ := revoked_access allowed
        have isEnded : ∃ item ∈ ended, item.tag = tag := by
          rw [whole] at member
          refine ⟨item, (List.mem_append.mp member).resolve_left fun left => ?_, isTag⟩
          exact off ⟨item, left, isTag⟩
        refine Or.inl ⟨through, isWrite, ?_⟩
        rw [revokedEq, if_pos isEnded]
        rfl
      · exact absurd on off

/-- A tag that has left its stack was taken from it by one of the events since, and the reason is
the one known of it at the end. -/
theorem Settled.taken (settled : Settled s) {events : List Event} (on : s.On addr tag)
    (off : ¬ (s.run events).On addr tag) :
    Gone (s.run events) tag ∧ ∃ early event late, events = early ++ event :: late ∧
      Takes (s.run early) addr tag event
        (((s.run events).revoked[tag]?).getD .conflictingBorrow) := by
  induction events generalizing s with
  | nil => exact absurd on off
  | cons event rest ih =>
      by_cases stays : (s.apply event).On addr tag
      · obtain ⟨gone, early, taking, late, rfl, takes⟩ := ih (settled.apply event) stays off
        exact ⟨gone, event :: early, taking, late, rfl, takes⟩
      · have gone : Gone (s.apply event) tag := by
          refine ⟨Nat.lt_of_lt_of_le (settled.lt_of_on on) (nextTag_apply s event), ?_⟩
          intro other onOther
          rcases on_of_on_apply onOther with before | ⟨rfl, -⟩
          · exact stays (settled.single before on ▸ onOther)
          · exact absurd (settled.lt_of_on on) (Nat.lt_irrefl _)
        obtain ⟨later, same⟩ := gone.run rest
        refine ⟨later, [], event, rest, rfl, ?_⟩
        rw [show (s.run (event :: rest)).revoked[tag]? = _ from same]
        exact settled.takes on stays

/-- After any events: stacks list their tags in ascending order, no tag is on the stacks of two
cells, and none is on a stack that has ended.  An access that is refused changes nothing.  And once
the use of a tag on the cell that it was made for has been refused, every later use of it there is
refused likewise, for the reason of what took it from the stack. -/
theorem run_permanent (events : List Event) :
    (∀ addr, ((run {} events).stack addr).Pairwise fun below above => below.tag < above.tag) ∧
    (∀ addr other tag, (run {} events).On addr tag → (run {} events).On other tag → addr = other) ∧
    (∀ addr tag, (run {} events).On addr tag → (run {} events).revoked[tag]? = none) ∧
    (∀ addr through isWrite cause violation,
      (run {} events).access addr through isWrite cause = .error violation →
        (run {} events).apply (.access addr through isWrite cause) = run {} events) ∧
    ∀ before addr kind between start tag, events = before ++ .push addr kind :: between →
      (run {} before).push addr kind = (start, tag) →
      ∀ isWrite cause violation,
        (run {} events).access addr (some tag) isWrite cause = .error violation →
        (∀ later isWrite cause,
          ((run {} events).run later).access addr (some tag) isWrite cause = .error violation) ∧
        ∃ early event late, between = early ++ event :: late ∧
          Takes (start.run early) addr tag event violation.rule.kind := by
  have settled : Settled (run {} events) := settled_empty.run events
  refine ⟨settled.ascending, fun _ _ _ => settled.single, fun _ _ => settled.working, ?_, ?_⟩
  · intro addr through isWrite cause violation refused
    rw [apply, refused]
  · rintro before addr kind between start tag rfl given isWrite cause violation refused
    obtain ⟨rfl, rfl⟩ := Prod.mk.inj given
    have whole : run {} (before ++ .push addr kind :: between) =
        ((run {} before).push addr kind).1.run between := by
      rw [run, List.foldl_append]
      rfl
    obtain ⟨_, same, off, isViolation⟩ := access_eq_error_iff.mp refused
    obtain rfl := Option.some.inj same
    rw [whole] at off
    have pushed : Settled ((run {} before).push addr kind).1 :=
      (settled_empty.run before).push addr kind
    obtain ⟨gone, early, event, late, isBetween, takes⟩ :=
      pushed.taken ((on_push kind).mpr (Or.inr ⟨rfl, rfl⟩)) off
    rw [← whole] at gone takes
    refine ⟨fun later isWrite cause => ?_, early, event, late, isBetween, ?_⟩
    · obtain ⟨stillGone, stillKnown⟩ := gone.run later
      rw [access_eq_error_iff]
      exact ⟨_, rfl, stillGone.off addr, by rw [stillKnown, isViolation]⟩
    · rw [isViolation]
      exact takes

/-- A tag that a write has ended is refused for that write, also after its cell was freed and has a
new stack. -/
theorem run_permanent_freedLater :
    let events : List Event :=
      [.push 1 .shared, .push 1 .exclusive, .access 1 (some 1) true .assignWhileBorrowed]
    let violation : Violation := ⟨.invalidated .assignWhileBorrowed, 1, none⟩
    (run {} events).access 1 (some 2) false .conflictingBorrow = .error violation ∧
      ((run {} events).run [.forget 1, .push 1 .exclusive]).access 1 (some 2) true
        .moveWhileBorrowed = .error violation := by
  intro events violation
  have refused :
      (run {} events).access 1 (some 2) false .conflictingBorrow = .error violation := rfl
  have permanent := (run_permanent events).2.2.2.2 [.push 1 .shared] 1 .exclusive
    [.access 1 (some 1) true .assignWhileBorrowed] _ _ rfl rfl _ _ _ refused
  exact ⟨refused, permanent.1 [.forget 1, .push 1 .exclusive] true .moveWhileBorrowed⟩

end BorrowLang.BorrowStacks
