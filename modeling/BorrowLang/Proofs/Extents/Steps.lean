import BorrowLang.Proofs.Parts
import BorrowLang.Proofs.Tracking.Operations
import BorrowLang.Proofs.Typing.Passes

/-!
# How long borrows last

What the steps of a check do to the borrows that are there before it.  A borrow of a temporary stays
one, unless it ends; a number that has been given out is never given out again; and the names that
are mentioned later are the same after a check as before it.
-/

set_option autoImplicit false

namespace BorrowLang

namespace Tracker

/-- Is there a borrow with this number? -/
def Active (t : Tracker) (id : BorrowId) : Prop := ∃ record ∈ t.borrows, record.id = id

/-- No binding holds a borrow with this number. -/
def Unheld (t : Tracker) (id : BorrowId) : Prop :=
  ∀ record ∈ t.borrows, record.id = id → record.holder = none

/-! ### Paths that meet -/

/-- A record after two paths have met is one of either path, but for being pinned. -/
theorem exists_of_mem_joinRecord {records : List BorrowRecord} {record joined : BorrowRecord}
    (member : joined ∈ joinRecord records record) :
    ∃ old ∈ record :: records, old.id = joined.id ∧ old.holder = joined.holder := by
  rw [joinRecord] at member
  split at member
  · obtain ⟨mine, inRecords, rfl⟩ := List.mem_map.mp member
    refine ⟨mine, List.mem_cons_of_mem _ inRecords, ?_⟩
    split <;> exact ⟨rfl, rfl⟩
  · exact ⟨joined, List.mem_cons.mpr (mem_insertById.mp member), rfl, rfl⟩

theorem active_joinRecord {records : List BorrowRecord} {record old : BorrowRecord}
    (member : old ∈ record :: records) : ∃ joined ∈ joinRecord records record, joined.id = old.id := by
  rw [joinRecord]
  split
  · rename_i known
    have image : ∀ mine ∈ records, ∃ joined ∈ records.map fun mine =>
        if mine.id = record.id && record.pinned then { mine with pinned := true } else mine,
        joined.id = mine.id := by
      intro mine inRecords
      refine ⟨_, List.mem_map_of_mem inRecords, ?_⟩
      split <;> rfl
    rcases List.mem_cons.mp member with rfl | inRecords
    · obtain ⟨mine, isMine, sameId⟩ := List.any_eq_true.mp known
      obtain ⟨joined, inJoined, same⟩ := image mine isMine
      exact ⟨joined, inJoined, same.trans (of_decide_eq_true sameId)⟩
    · exact image old inRecords
  · exact ⟨old, mem_insertById.mpr (List.mem_cons.mp member), rfl⟩

theorem exists_of_mem_foldl {records others : List BorrowRecord} {joined : BorrowRecord}
    (member : joined ∈ others.foldl joinRecord records) :
    ∃ old ∈ records ++ others, old.id = joined.id ∧ old.holder = joined.holder := by
  induction others generalizing records with
  | nil => exact ⟨joined, by simpa using member, rfl, rfl⟩
  | cons record rest ih =>
      obtain ⟨mid, inMid, id, holder⟩ := ih member
      rcases List.mem_append.mp inMid with isJoined | later
      · obtain ⟨old, isOld, sameId, sameHolder⟩ := exists_of_mem_joinRecord isJoined
        refine ⟨old, ?_, sameId.trans id, sameHolder.trans holder⟩
        rcases List.mem_cons.mp isOld with rfl | inRecords
        · exact List.mem_append_right _ List.mem_cons_self
        · exact List.mem_append_left _ inRecords
      · exact ⟨mid, List.mem_append_right _ (List.mem_cons_of_mem _ later), id, holder⟩

theorem active_foldl {records others : List BorrowRecord} {old : BorrowRecord}
    (member : old ∈ records ++ others) :
    ∃ joined ∈ others.foldl joinRecord records, joined.id = old.id := by
  induction others generalizing records old with
  | nil => exact ⟨old, by simpa using member, rfl⟩
  | cons record rest ih =>
      have known : old ∈ record :: records ∨ old ∈ rest := by
        simpa [or_left_comm, or_assoc] using member
      rcases known with first | later
      · obtain ⟨mid, inMid, same⟩ := active_joinRecord first
        obtain ⟨joined, inJoined, sameId⟩ := ih (List.mem_append_left rest inMid)
        exact ⟨joined, inJoined, sameId.trans same⟩
      · exact ih (List.mem_append_right _ later)

end Tracker

namespace Checker

variable {α : Type} {ctx : Context} {s mid after : State}

/-- The number has been given out, and no binding holds a borrow with it. -/
def State.Temporary (s : State) (id : BorrowId) : Prop := id < s.nextBorrow ∧ s.tracker.Unheld id

/-- The numbers of borrows have been given out. -/
def State.Numbered (s : State) : Prop := ∀ record ∈ s.tracker.borrows, record.id < s.nextBorrow

/-- A borrow after some checks is a new one, or one that was there before; that of a temporary has not
found a holder. -/
def Stems (s : State) (next : BorrowId) (record : BorrowRecord) : Prop :=
  (s.nextBorrow ≤ record.id ∧ record.id < next) ∨
    s.tracker.Active record.id ∧ (s.Temporary record.id → record.holder = none)

/-- Every borrow stems from before, and the same names are mentioned later. -/
structure Steady (s after : State) : Prop where
  live : after.live = s.live
  next : s.nextBorrow ≤ after.nextBorrow
  each : ∀ record ∈ after.tracker.borrows, Stems s after.nextBorrow record

/-- None of some borrows is of a temporary from before. -/
def Apart (s : State) (loans : List BorrowId) : Prop := ∀ id ∈ loans, ¬ s.Temporary id

/-- A check spares the borrows that were there before, or else ends all of temporaries. -/
structure Around (spares : Bool) (s after : State) : Prop extends Steady s after where
  kept : spares = true → ∀ id, s.tracker.Active id → after.tracker.Active id
  ended : spares = false → ∀ id, s.Temporary id → ¬ after.tracker.Active id

/-! ### Rules -/

namespace Steady

theorem refl (s : State) : Steady s s :=
  ⟨rfl, Nat.le_refl _, fun record member => Or.inr ⟨⟨record, member, rfl⟩, fun temporary =>
    temporary.2 record member rfl⟩⟩

/-- What is of a temporary stays so. -/
theorem temporary (steady : Steady s after) {id : BorrowId} (temporary : s.Temporary id) :
    after.Temporary id := by
  refine ⟨Nat.lt_of_lt_of_le temporary.1 steady.next, ?_⟩
  rintro record member rfl
  rcases steady.each record member with ⟨new, -⟩ | ⟨-, free⟩
  · exact absurd temporary.1 (Nat.not_lt.mpr new)
  · exact free temporary

/-- No number that has been given out is given out again. -/
theorem active (steady : Steady s after) {id : BorrowId} (given : id < s.nextBorrow)
    (active : after.tracker.Active id) : s.tracker.Active id := by
  obtain ⟨record, member, rfl⟩ := active
  rcases steady.each record member with ⟨new, -⟩ | ⟨there, -⟩
  · exact absurd given (Nat.not_lt.mpr new)
  · exact there

theorem trans (first : Steady s mid) (second : Steady mid after) : Steady s after := by
  refine ⟨second.live.trans first.live, Nat.le_trans first.next second.next, ?_⟩
  intro record member
  rcases second.each record member with ⟨new, below⟩ | ⟨⟨old, inMid, same⟩, free⟩
  · exact Or.inl ⟨Nat.le_trans first.next new, below⟩
  · rcases first.each old inMid with ⟨new, below⟩ | ⟨there, -⟩
    · exact Or.inl ⟨same ▸ new, same ▸ Nat.lt_of_lt_of_le below second.next⟩
    · exact Or.inr ⟨same ▸ there, fun temporary => free (first.temporary temporary)⟩

theorem numbered (steady : Steady s after) (numbered : s.Numbered) : after.Numbered := by
  intro record member
  rcases steady.each record member with ⟨-, below⟩ | ⟨⟨old, inOld, same⟩, -⟩
  · exact below
  · exact Nat.lt_of_lt_of_le (same ▸ numbered old inOld) steady.next

/-- Some borrows have ended. -/
theorem of_subset (live : after.live = s.live) (next : after.nextBorrow = s.nextBorrow)
    (part : ∀ record ∈ after.tracker.borrows, record ∈ s.tracker.borrows) : Steady s after :=
  ⟨live, Nat.le_of_eq next.symm, fun record member =>
    Or.inr ⟨⟨record, part record member, rfl⟩, fun temporary =>
      temporary.2 record (part record member) rfl⟩⟩

/-- Names that were entered for a while are gone again. -/
theorem exit {names : List String} (steady : Steady { s with live := s.live.enter names } mid) :
    Steady s { mid with live := mid.live.exit?.getD mid.live } := by
  refine ⟨?_, steady.next, steady.each⟩
  simp only [steady.live]
  rfl

end Steady

/-- What is no temporary's later on was none's before. -/
theorem Apart.since {loans : List BorrowId} (steady : Steady s mid) (apart : Apart mid loans) :
    Apart s loans :=
  fun id member temporary => apart id member (steady.temporary temporary)

theorem Apart.nil (s : State) : Apart s [] := fun _ impossible => by simp at impossible

theorem Apart.of_subset {loans fewer : List BorrowId} (apart : Apart s loans)
    (part : ∀ id ∈ fewer, id ∈ loans) : Apart s fewer :=
  fun id member => apart id (part id member)

theorem Apart.of_new {loans : List BorrowId} (new : ∀ id ∈ loans, s.nextBorrow ≤ id) :
    Apart s loans :=
  fun id member temporary => absurd temporary.1 (Nat.not_lt.mpr (new id member))

theorem Apart.of_held {loans : List BorrowId}
    (held : ∀ id ∈ loans, ∃ record ∈ s.tracker.borrows, record.id = id ∧ record.holder.isSome) :
    Apart s loans := by
  rintro id member ⟨-, free⟩
  obtain ⟨record, there, same, isHeld⟩ := held id member
  simp [free record there same] at isHeld

theorem Apart.union {loans others : List BorrowId} (first : Apart s loans) (second : Apart s others) :
    Apart s (unionLoans loans others) := by
  intro id member
  rcases List.mem_append.mp member with mine | theirs
  · exact first id mine
  · exact second id (List.mem_of_mem_filter theirs)

theorem Apart.unionAll {loans : List (List BorrowId)} (each : ∀ some ∈ loans, Apart s some) :
    Apart s (unionAll loans) := by
  suffices known : ∀ start, Apart s start → Apart s (loans.foldl unionLoans start) from
    known [] (.nil s)
  induction loans with
  | nil => exact fun start apart => apart
  | cons first rest ih =>
      exact fun start apart => ih (fun some member => each some (List.mem_cons_of_mem _ member)) _
        (apart.union (each first List.mem_cons_self))

namespace Around

variable {spares more : Bool}

theorem refl (s : State) : Around true s s :=
  ⟨.refl s, fun _ _ active => active, fun impossible => by simp at impossible⟩

theorem trans (first : Around spares s mid) (second : Around more mid after) :
    Around (spares && more) s after := by
  refine ⟨first.toSteady.trans second.toSteady, fun both id active => ?_,
    fun either id temporary active => ?_⟩
  · obtain ⟨one, two⟩ := (Bool.and_eq_true _ _).mp both
    exact second.kept two id (first.kept one id active)
  · rcases (Bool.and_eq_false_iff).mp either with one | two
    · refine first.ended one id temporary (second.active ?_ active)
      exact (first.temporary temporary).1
    · exact second.ended two id (first.temporary temporary) active

/-- After a check, one that spares all borrows. -/
theorem spare (first : Around spares s mid) (second : Around true mid after) :
    Around spares s after :=
  Bool.and_true spares ▸ first.trans second

/-- What has ended does not come back. -/
theorem steady (first : Around false s mid) (later : Steady mid after) : Around false s after := by
  refine ⟨first.toSteady.trans later, fun impossible => by simp at impossible, ?_⟩
  intro _ id temporary active
  exact first.ended rfl id temporary (later.active (first.temporary temporary).1 active)

/-- Each borrow is still there, and the others are new. -/
theorem of_records (live : after.live = s.live) (next : s.nextBorrow ≤ after.nextBorrow)
    (each : ∀ record ∈ after.tracker.borrows,
      (s.nextBorrow ≤ record.id ∧ record.id < after.nextBorrow) ∨
        ∃ old ∈ s.tracker.borrows, old.id = record.id ∧ (old.holder = none → record.holder = none))
    (kept : ∀ old ∈ s.tracker.borrows, ∃ record ∈ after.tracker.borrows, record.id = old.id) :
    Around true s after := by
  refine ⟨⟨live, next, fun record member => ?_⟩, fun _ id active => ?_, fun impossible => by
    simp at impossible⟩
  · rcases each record member with new | ⟨old, inOld, same, free⟩
    · exact Or.inl new
    · exact Or.inr ⟨⟨old, inOld, same⟩, fun temporary => free (temporary.2 old inOld same)⟩
  · obtain ⟨old, inOld, rfl⟩ := active
    exact kept old inOld

/-- The borrows are the same. -/
theorem of_same (live : after.live = s.live) (next : s.nextBorrow ≤ after.nextBorrow)
    (borrows : after.tracker.borrows = s.tracker.borrows) : Around true s after := by
  refine of_records live next (fun record member => Or.inr ⟨record, borrows ▸ member, rfl, id⟩) ?_
  exact fun old member => ⟨old, borrows ▸ member, rfl⟩

/-- There are more borrows than before. -/
theorem of_append {records : List BorrowRecord} (live : after.live = s.live)
    (next : s.nextBorrow ≤ after.nextBorrow)
    (borrows : after.tracker.borrows = s.tracker.borrows ++ records)
    (new : ∀ record ∈ records, s.nextBorrow ≤ record.id ∧ record.id < after.nextBorrow) :
    Around true s after := by
  refine of_records live next (fun record member => ?_) fun old member =>
    ⟨old, borrows ▸ List.mem_append_left _ member, rfl⟩
  rcases List.mem_append.mp (borrows ▸ member) with mine | isNew
  · exact Or.inr ⟨record, mine, rfl, id⟩
  · exact Or.inl (new record isNew)

end Around

/-! ### Places -/

theorem lookup_around (loc : Option Position) (name : String) :
    Passes (lookup ctx loc name) s fun _ after => Around true s after := by
  refine (lookup_passes loc name).mono ?_
  rintro place _ ⟨rfl, -⟩
  exact .refl _

theorem target_around (place : PlaceId) (via : Via) (ty : Ty) :
    Passes (target place via ty) s fun _ after => Around true s after := by
  simp only [target, meets_bind, meets_get, meets_set, meets_pure]
  exact .of_same rfl (Nat.le_refl _) rfl

theorem placeOf_around (e : Expr) : Passes (placeOf ctx e) s fun _ after => Around true s after := by
  induction e using placeOf.induct with
  | case1 loc ident =>
      simp only [placeOf]
      exact lookup_around loc ident
  | case2 loc inner operand isMut ih =>
      simp only [placeOf]
      rw [Passes, meets_bind]
      refine ih.mono fun place mid around => ?_
      rw [meets_bind, meets_get]
      split <;> simp only [meets_bind, meets_pure]
      · refine (guard_passes inner _).mono ?_
        rintro - after rfl
        refine (guard_passes inner _).mono ?_
        rintro - after rfl
        exact around
      · refine (guard_passes inner _).mono ?_
        rintro - after rfl
        exact around
  | case3 loc operand notBorrow ih =>
      simp only [placeOf, meets_bind]
      refine ih.mono fun base mid around => ?_
      refine (typeOf_passes operand.loc base).mono ?_
      rintro pointer after ⟨rfl, -⟩
      split
      · trivial
      · exact (target_around base _ _).mono fun _ _ later => around.spare later
  | case4 e notName notBorrow notDeref =>
      rw [placeOf]
      · trivial
      · exact notName
      · exact notBorrow
      · exact notDeref

theorem bind_around (name : String) (ty : Option Ty) (isMut isParam initialized : Bool) :
    Passes (bind name ty isMut isParam initialized) s fun _ after => Around true s after := by
  simp only [bind, meets_bind, meets_get, meets_set, meets_pure]
  exact .of_same rfl (Nat.le_refl _) rfl

/-! ### Making borrows and passing them on -/

theorem borrow_around (loc : Option Position) (place : PlaceId) (kind : BorrowKind) :
    Passes (borrow ctx loc place kind) s fun loan after => Around true s after ∧ Apart s [loan] := by
  simp only [borrow, meets_bind, meets_get, meets_set, meets_pure]
  cases begun : s.tracker.beginBorrow s.arena s.nextBorrow place kind none false loc with
  | error violation => simp [guard]
  | ok tracker =>
      obtain ⟨_, -, same⟩ := bind_eq_ok.mp begun
      obtain rfl := Except.ok.inj same
      refine ⟨.of_append rfl (Nat.le_succ _) rfl fun record member => ?_, .of_new fun id member => ?_⟩
      · rw [List.mem_singleton.mp member]
        exact ⟨Nat.le_refl _, Nat.lt_succ_self _⟩
      · exact Nat.le_of_eq (List.mem_singleton.mp member).symm

theorem usePlace_around (loc : Option Position) (place : PlaceId) :
    Passes (usePlace ctx loc place) s fun value after =>
      Around true s after ∧ Apart s value.loans := by
  simp only [usePlace, meets_bind]
  refine (typeOf_passes loc place).mono ?_
  rintro ty after ⟨rfl, -⟩
  split
  · simp only [meets_bind]
    refine (requireRead_passes loc place).mono ?_
    rintro - after rfl
    split
    · simp only [meets_bind, meets_get, meets_set, meets_pure, Tracker.cloneHeld]
      refine ⟨.of_append rfl (Nat.le_add_right _ _) rfl fun record member =>
        Tracker.mem_renumbered member, .of_new fun id member => ?_⟩
      obtain ⟨record, isCopy, rfl⟩ := List.mem_map.mp member
      exact (Tracker.mem_renumbered isCopy).1
    · exact ⟨.refl _, .nil _⟩
  · simp only [meets_bind, meets_get, meets_set, meets_pure]
    refine (guard_passes loc _).mono ?_
    rintro - after rfl
    split
    · refine ⟨.of_records rfl (Nat.le_refl _) (fun record member => Or.inr ?_) fun old member => ?_,
        .of_held fun id member => ?_⟩
      · obtain ⟨old, inOld, rfl⟩ := List.mem_map.mp member
        refine ⟨old, inOld, ?_⟩
        split <;> simp
      · refine ⟨_, List.mem_map_of_mem member, ?_⟩
        split <;> rfl
      · obtain ⟨record, isHeld, rfl⟩ := List.mem_map.mp member
        obtain ⟨there, held⟩ := List.mem_filter.mp isHeld
        exact ⟨record, there, rfl, by simp [of_decide_eq_true held]⟩
    · exact ⟨.of_same rfl (Nat.le_refl _) rfl, .nil _⟩

theorem borrowPlace_around (loc : Option Position) (place : PlaceId) (isMut : Bool) :
    Passes (borrowPlace ctx loc place isMut) s fun value after =>
      Around true s after ∧ Apart s value.loans := by
  have borrowed : Passes (borrowChecked ctx s loc place isMut) s fun value after =>
      Around true s after ∧ Apart s value.loans := by
    simp only [borrowChecked, meets_bind]
    refine (borrow_around loc place _).mono fun loan after known => ?_
    split
    · trivial
    · exact known
  rw [borrowPlace_eq]
  simp only [meets_bind, meets_get]
  split
  · rw [meets_bind]
    refine (guard_passes loc _).mono ?_
    rintro - after rfl
    exact borrowed
  · exact borrowed

/-- Only a place is borrowed anew. -/
theorem reborrow?_around (arg : Expr) (param : Ty) :
    Passes (reborrow? ctx arg param) s fun found after =>
      Around true s after ∧ ∀ value ∈ found, arg.isPlace = true ∧ Apart s value.loans := by
  have none : Around true s s ∧
      ∀ value ∈ (none : Option Operand), arg.isPlace = true ∧ Apart s value.loans :=
    ⟨.refl s, fun _ impossible => by simp at impossible⟩
  unfold reborrow?
  split
  · split
    · rename_i isPlace
      simp only [meets_bind, meets_get]
      refine (placeOf_around arg).mono fun place mid around => ?_
      split
      · simp only [meets_bind, meets_pure]
        refine (requireRead_passes arg.loc place).mono ?_
        rintro - after rfl
        refine (target_around place _ _).mono fun id named aroundNamed => ?_
        have whole := around.spare aroundNamed
        refine (borrow_around arg.loc id .exclusive).mono ?_
        rintro loan after ⟨borrowed, apart⟩
        refine ⟨whole.spare borrowed, fun value isValue => ?_⟩
        obtain rfl := Option.some.inj isValue
        exact ⟨isPlace, apart.since whole.toSteady⟩
      · exact ⟨around, none.2⟩
    · exact none
  · exact none

/-! ### Storing borrows -/

/-- The borrows of a value that is stored are not those of a temporary from before. -/
theorem storeLoans_steady (steady : Steady s mid) (holder : PlaceId) {loans : List BorrowId}
    (apart : Apart s loans) :
    Passes (storeLoans ctx holder loans) mid fun _ after => Steady s after := by
  simp only [storeLoans, meets_modify]
  refine ⟨steady.live, steady.next, fun record member => ?_⟩
  obtain ⟨old, inMid, rfl⟩ := List.mem_map.mp member
  split
  · rename_i isLoan
    have among : old.id ∈ loans := List.contains_iff_mem.mp isLoan
    rcases steady.each old inMid with new | ⟨there, -⟩
    · exact Or.inl new
    · exact Or.inr ⟨there, fun temporary => absurd temporary (apart old.id among)⟩
  · exact steady.each old inMid

theorem shareEach_append (holder : PlaceId) (pinned : Bool) (ids : List BorrowId) (t : Tracker)
    (next : BorrowId) :
    next ≤ (Tracker.shareEach holder pinned ids t next).2.1 ∧ ∃ records,
      (Tracker.shareEach holder pinned ids t next).1.borrows = t.borrows ++ records ∧
      ∀ record ∈ records, next ≤ record.id ∧
        record.id < (Tracker.shareEach holder pinned ids t next).2.1 := by
  induction ids generalizing t next with
  | nil => exact ⟨Nat.le_refl _, [], (List.append_nil _).symm, fun _ impossible => by
      simp at impossible⟩
  | cons id rest ih =>
      rw [Tracker.shareEach]
      cases shared : t.shareOne next id holder pinned with
      | none => exact ih t next
      | some one =>
          obtain ⟨old, found, rfl⟩ := Option.map_eq_some_iff.mp shared
          obtain ⟨later, records, borrows, each⟩ := ih
            { t with borrows := t.borrows ++ [{ old with id := next, holder := some holder, pinned }] }
            (next + 1)
          refine ⟨Nat.le_of_succ_le later, _, borrows.trans (List.append_assoc _ _ _), ?_⟩
          intro record member
          rcases List.mem_append.mp member with first | more
          · rw [List.mem_singleton.mp first]
            exact ⟨Nat.le_refl _, later⟩
          · exact ⟨Nat.le_of_succ_le (each record more).1, (each record more).2⟩

theorem shareWith_around (loans : List BorrowId) (holders : List PlaceId) :
    Passes (shareWith ctx loans holders) s fun _ after => Around true s after := by
  induction holders generalizing s with
  | nil => exact .refl s
  | cons holder rest ih =>
      simp only [shareWith, meets_bind, meets_get, meets_set]
      obtain ⟨later, records, borrows, each⟩ := shareEach_append holder (s.pins ctx holder)
        (loans.mergeSort fun a b => decide (a ≤ b)) s.tracker s.nextBorrow
      refine ih.mono fun _ after more => Around.spare ?_ more
      exact .of_append rfl later borrows each

theorem storeInto_around (places : List PlaceId) (loans : List BorrowId) (loc : Option Position) :
    Passes (storeInto ctx places loans loc) s fun _ after => Around true s after := by
  simp only [storeInto, meets_bind, meets_get]
  split
  · trivial
  · simp only [meets_bind, meets_pure]
    refine (checkEscape_passes loans loc true).mono ?_
    rintro - after rfl
    exact .refl _
  · simp only [meets_bind, meets_pure]
    exact shareWith_around loans _

theorem storeArguments_around (loans : List (List BorrowId))
    (slots : List (Nat × Ty × Option Position)) :
    Passes (storeArguments ctx loans slots) s fun _ after => Around true s after := by
  induction slots generalizing s with
  | nil => exact .refl s
  | cons slot rest ih =>
      obtain ⟨index, param, loc⟩ := slot
      have next : ∀ mid, Around true s mid →
          Passes (storeArguments ctx loans rest) mid fun _ after => Around true s after :=
        fun mid first => ih.mono fun _ _ later => first.spare later
      simp only [storeArguments]
      split
      · split
        · simp only [meets_bind, meets_get]
          split
          · simp only [meets_bind]
            exact (storeInto_around _ _ _).mono fun _ mid first => next mid first
          · exact next s (.refl s)
        · exact next s (.refl s)
      · exact next s (.refl s)

/-! ### Ends of statements and blocks -/

theorem endTemporaries_steady (keep : List BorrowId) :
    Steady s { s with tracker := s.tracker.endTemporaries keep } :=
  .of_subset rfl rfl fun _ member => List.mem_of_mem_filter member

theorem releaseDead_steady :
    Steady s { s with tracker := (s.tracker.releaseDead s.arena s.isLive).1 } :=
  .of_subset rfl rfl fun _ member => List.mem_of_mem_filter member

theorem endHeldBy_steady (holder : PlaceId) :
    Steady s { s with tracker := s.tracker.endHeldBy holder } :=
  .of_subset rfl rfl fun _ member => List.mem_of_mem_filter member

theorem endStatement_steady : Passes (endStatement ctx) s fun _ after => Steady s after := by
  simp only [endStatement, modifyTracker, meets_bind, meets_modify]
  have ended : Steady s { s with tracker := s.tracker.endTemporaries [] } := endTemporaries_steady _
  split
  · simp only [meets_bind, meets_get, meets_set]
    have released := ended.trans releaseDead_steady
    split
    · simp only [note, meets_modify]
      exact ⟨released.live, released.next, released.each⟩
    · exact released
  · exact ended

theorem closeScope_steady (loc : Option Position) :
    Passes (closeScope ctx loc) s fun _ after => Steady s after := by
  simp only [closeScope, meets_bind, meets_get, meets_set]
  have popped : ∀ record ∈ (s.tracker.popFrame s.arena).1.borrows, record ∈ s.tracker.borrows := by
    intro record member
    unfold Tracker.popFrame at member
    split at member
    · dsimp only at member
      split at member <;> exact List.mem_of_mem_filter member
    · exact member
  split
  · exact .of_subset rfl rfl popped
  all_goals trivial

/-- At the end of a block the temporaries from before it end. -/
theorem endBlock_around (steady : Steady s mid) (loc : Option Position) {keep : List BorrowId}
    (apart : Apart s keep) :
    Passes (endBlock ctx loc keep) mid fun _ after => Around false s after := by
  rw [endBlock_eq]
  simp only [modifyTracker]
  rw [Passes, meets_bind, meets_modify]
  have ended : Around false s { mid with tracker := mid.tracker.endTemporaries keep } := by
    refine ⟨steady.trans (endTemporaries_steady _), fun impossible => by simp at impossible, ?_⟩
    rintro - id temporary ⟨record, member, rfl⟩
    obtain ⟨inMid, stays⟩ := List.mem_filter.mp member
    have free := (steady.temporary temporary).2 record inMid rfl
    have notKept : record.id ∉ keep := fun isKept => apart _ isKept temporary
    simp [free, notKept] at stays
  have closed : ∀ last, Around false s last →
      Passes (closeScope ctx loc) last fun _ after => Around false s after :=
    fun last around => (closeScope_steady loc).mono fun _ after later => around.steady later
  split
  · rw [meets_bind, meets_modify]
    exact closed _ (ended.steady releaseDead_steady)
  · exact closed _ ended

/-! ### Forks -/

/-- A path is left, and the borrows are those from before it. -/
theorem Steady.swap (steady : Steady s mid) : Around true s { mid with tracker := s.tracker } :=
  .of_same steady.live steady.next rfl

/-- A path meets the one that has skipped it. -/
theorem Steady.join (steady : Steady s mid) :
    Around true s { mid with tracker := mid.tracker.join s.tracker } := by
  refine ⟨⟨steady.live, steady.next, fun record member => ?_⟩, fun _ id active => ?_,
    fun impossible => by simp at impossible⟩
  · obtain ⟨old, among, same, holder⟩ := Tracker.exists_of_mem_foldl member
    have stems : Stems s mid.nextBorrow old := by
      rcases List.mem_append.mp among with inMid | inOld
      · exact steady.each old inMid
      · exact Or.inr ⟨⟨old, inOld, rfl⟩, fun temporary => temporary.2 old inOld rfl⟩
    unfold Stems at stems ⊢
    rwa [same, holder] at stems
  · obtain ⟨old, inOld, rfl⟩ := active
    exact Tracker.active_foldl (List.mem_append_right _ inOld)

/-- The arms of an `if` meet. -/
theorem Around.meet {first other : State} (around : Around false s first)
    (aroundOther : Around false s other) (later : first.nextBorrow ≤ other.nextBorrow)
    (diverges otherDiverges : Bool) :
    Around false s
      { other with
        tracker := Checker.meet diverges otherDiverges first.tracker other.tracker } := by
  have among : ∀ record ∈ (Checker.meet diverges otherDiverges first.tracker other.tracker).borrows,
      ∃ old, (old ∈ first.tracker.borrows ∨ old ∈ other.tracker.borrows) ∧ old.id = record.id ∧
        old.holder = record.holder := by
    intro record member
    unfold Checker.meet at member
    split at member
    · exact ⟨record, Or.inr member, rfl, rfl⟩
    · split at member
      · exact ⟨record, Or.inl member, rfl, rfl⟩
      · obtain ⟨old, inEither, same⟩ := Tracker.exists_of_mem_foldl member
        exact ⟨old, List.mem_append.mp inEither, same⟩
  refine ⟨⟨aroundOther.live, aroundOther.next, fun record member => ?_⟩,
    fun impossible => by simp at impossible, ?_⟩
  · obtain ⟨old, inFirst | inOther, same, holder⟩ := among record member
    · rcases around.each old inFirst with ⟨new, below⟩ | ⟨there, free⟩
      · exact Or.inl ⟨same ▸ new, same ▸ Nat.lt_of_lt_of_le below later⟩
      · exact Or.inr ⟨same ▸ there, fun temporary => holder ▸ free (same ▸ temporary)⟩
    · have stems := aroundOther.each old inOther
      unfold Stems at stems ⊢
      rwa [same, holder] at stems
  · rintro - id temporary ⟨record, member, rfl⟩
    obtain ⟨old, inFirst | inOther, same, -⟩ := among record member
    · exact around.ended rfl _ temporary ⟨old, inFirst, same⟩
    · exact aroundOther.ended rfl _ temporary ⟨old, inOther, same⟩

end Checker

end BorrowLang
