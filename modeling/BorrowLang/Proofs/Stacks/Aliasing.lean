import BorrowLang.Proofs.Stacks.History

/-!
# What a tag that still works says about the accesses before

As long as an exclusive tag works, its cell has been accessed through it or through newer tags only;
as long as a shared tag works, everyone else has only read.
-/

set_option autoImplicit false

namespace BorrowLang.BorrowStacks

variable {s start mid last : BorrowStacks} {addr : Addr} {item : StackItem}

/-- Below the tag of an access there are older tags only. -/
theorem tag_le_of_splitAfter? {tag : Tag} {stack kept above : List StackItem}
    (found : splitAfter? tag stack = some (kept, above))
    (ascending : stack.Pairwise fun below above => below.tag < above.tag)
    (member : item ∈ kept) : item.tag ≤ tag := by
  obtain ⟨whole, below, top, rfl, rfl⟩ := splitAfter?_append found
  rcases List.mem_append.mp member with inBelow | isTop
  · have ordered : (below ++ [top]).Pairwise fun below above => below.tag < above.tag :=
      ascending.sublist (by rw [← whole]; exact List.sublist_append_left _ _)
    exact Nat.le_of_lt ((List.pairwise_append.mp ordered).2.2 item inBelow top
      (List.mem_singleton_self top))
  · exact Nat.le_of_eq (congrArg StackItem.tag (List.mem_singleton.mp isTop))

/-- A tag that survives an access is not newer than the tag of the access, or it is shared and the
access a read. -/
theorem Ordered.survives (ordered : Ordered s) {tag : Option Tag} {isWrite : Bool}
    {cause : DiagnosticKind} (allowed : s.access addr tag isWrite cause = .ok mid)
    (member : item ∈ mid.stack addr) :
    (∃ through, tag = some through ∧ item.tag ≤ through) ∨
      (item.kind = .shared ∧ isWrite = false) := by
  obtain ⟨⟨kept, ended⟩, done, stackEq⟩ := stack_access allowed
  rw [stackEq, if_pos rfl] at member
  obtain ⟨⟨below, above⟩, split, same⟩ := Option.map_eq_some_iff.mp done
  have older : item ∈ below → ∃ through, tag = some through ∧ item.tag ≤ through := by
    intro inBelow
    cases tag with
    | none =>
        obtain ⟨rfl, -⟩ := Prod.mk.inj (Option.some.inj split)
        exact absurd inBelow List.not_mem_nil
    | some through =>
        exact ⟨through, rfl, tag_le_of_splitAfter? split (ordered.ascending addr) inBelow⟩
  cases isWrite with
  | true =>
      obtain ⟨rfl, -⟩ := Prod.mk.inj same
      exact Or.inl (older member)
  | false =>
      obtain ⟨rfl, -⟩ := Prod.mk.inj same
      rcases List.mem_append.mp member with inBelow | isShared
      · exact Or.inl (older inBelow)
      · have shared := List.all_takeWhile (p := StackItem.isShared) (l := above)
        exact Or.inr ⟨of_decide_eq_true (List.all_eq_true.mp shared item isShared), rfl⟩

/-- The item of a tag that works after some events was pushed with the tag. -/
theorem Ordered.pushed_survives (ordered : Ordered s) {kind : BorrowKind} {tag : Tag}
    (given : s.push addr kind = (start, tag)) {events : List Event} {isWrite : Bool}
    {cause : DiagnosticKind}
    (works : (start.run events).access addr (some tag) isWrite cause = .ok last) :
    ⟨tag, kind⟩ ∈ (start.run events).stack addr := by
  obtain ⟨rfl, rfl⟩ := Prod.mk.inj given
  obtain ⟨item, member, isTag⟩ := mem_stack_of_access works
  have atStart : item ∈ (s.push addr kind).1.stack addr :=
    mem_stack_of_later member (isTag ▸ Nat.lt_succ_self s.nextTag)
  rw [stack_push_self] at atStart
  rcases List.mem_append.mp atStart with old | isNew
  · exact absurd isTag (Nat.ne_of_lt (ordered.fresh addr item old))
  · rwa [List.mem_singleton.mp isNew] at member

/-- Where a tag works, an exclusive one has been the way to its cell, beside newer ones, since it was
handed out; and whoever went another way than through a shared one or newer ones has only read. -/
theorem run_aliasing {before early later : List Event} {kind : BorrowKind} {tag : Tag}
    {through : Option Tag} {isWrite lastWrite : Bool} {cause lastCause : DiagnosticKind}
    (given : (run {} before).push addr kind = (start, tag))
    (allowed : (start.run early).access addr through isWrite cause = .ok mid)
    (works : (mid.run later).access addr (some tag) lastWrite lastCause = .ok last) :
    (kind = .exclusive → through = some tag ∨ ∃ newer ∈ pushed start early, through = some newer) ∧
      (kind = .shared → (through = none ∨ ∃ older ∈ pushed {} before, through = some older) →
        isWrite = false) := by
  have ordered : Ordered (run {} before) := ordered_empty.run before
  obtain ⟨startEq, tagEq⟩ := Prod.mk.inj given
  have orderedMid : Ordered (start.run early) := by
    rw [← startEq]
    exact (ordered.apply (.push addr kind)).run early
  -- The access in between is one of the events, after which the tag still works.
  have accessed : start.run (early ++ .access addr through isWrite cause :: later) =
      mid.run later := by
    rw [run, List.foldl_append, List.foldl_cons]
    have stepped : apply (start.run early) (.access addr through isWrite cause) = mid := by
      rw [apply, allowed]
    exact congrArg (run · later) stepped
  have survived : ⟨tag, kind⟩ ∈ mid.stack addr := by
    have atEnd := ordered.pushed_survives given (accessed ▸ works)
    rw [accessed] at atEnd
    refine mem_stack_of_later atEnd ?_
    have new : tag < start.nextTag := by
      rw [← startEq, ← tagEq]
      exact Nat.lt_succ_self _
    have stepped := nextTag_apply (start.run early) (.access addr through isWrite cause)
    rw [apply, allowed] at stepped
    exact Nat.lt_of_lt_of_le new (Nat.le_trans (nextTag_run start early) stepped)
  rcases orderedMid.survives allowed survived with ⟨used, rfl, newer⟩ | ⟨isShared, isRead⟩
  · obtain ⟨item, member, rfl⟩ := mem_stack_of_access allowed
    refine ⟨fun _ => ?_, fun _ others => ?_⟩
    · rcases mem_stack_of_run member with inStart | isNew
      · -- On the stack that the tag was pushed on, no tag is newer.
        rw [← startEq] at inStart
        have bound : item.tag < (run {} before).nextTag + 1 :=
          (ordered.apply (.push addr kind)).fresh addr item inStart
        have same : item.tag = tag := by
          rw [← tagEq] at newer ⊢
          exact Nat.le_antisymm (Nat.le_of_lt_succ bound) newer
        exact Or.inl (congrArg some same)
      · exact Or.inr ⟨item.tag, isNew, rfl⟩
    · rcases others with impossible | ⟨older, isOld, same⟩
      · cases impossible
      · obtain rfl := Option.some.inj same
        rw [← tagEq] at newer
        exact absurd (mem_pushed isOld).2 (Nat.not_lt.mpr newer)
  · refine ⟨fun isExclusive => ?_, fun _ _ => isRead⟩
    rw [isExclusive] at isShared
    cases isShared

/-- An exclusive tag works after a newer one has been read through, another cell written and freed. -/
theorem run_aliasing_reborrow :
    ∃ start mid last,
      (run {} [.push 1 .shared]).push 1 .exclusive = (start, 2) ∧
      (start.run [.push 1 .shared, .push 5 .exclusive]).access 1 (some 3) false
        .conflictingBorrow = .ok mid ∧
      (mid.run [.access 5 (some 4) true .assignWhileBorrowed, .forget 5]).access 1 (some 2) true
        .assignWhileBorrowed = .ok last ∧
      (some 3 = some 2 ∨
        ∃ newer ∈ pushed start [.push 1 .shared, .push 5 .exclusive], some 3 = some newer) := by
  refine ⟨_, _, _, rfl, rfl, rfl, ?_⟩
  exact (@run_aliasing _ _ _ 1 [.push 1 .shared] [.push 1 .shared, .push 5 .exclusive]
    [.access 5 (some 4) true .assignWhileBorrowed, .forget 5] .exclusive 2 (some 3) false true
    .conflictingBorrow .assignWhileBorrowed rfl rfl rfl).1 rfl

end BorrowLang.BorrowStacks
