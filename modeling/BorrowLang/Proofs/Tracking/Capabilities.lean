import BorrowLang.Proofs.Answers
import BorrowLang.Tracker

/-!
# What capabilities ask for

A place may be read, moved out of or borrowed when all of it holds a value and the borrows of places
that overlap it allow that; a scope can be left when none of its storage is borrowed.
-/

set_option autoImplicit false

namespace BorrowLang.Tracker

variable {t : Tracker} {arena : Arena} {place : PlaceId}

/-- The binding of a place has been given a value, and no part on the way to the place or behind it
has been moved out since. -/
structure Available (t : Tracker) (arena : Arena) (place : PlaceId) : Prop where
  initialized : t.states[arena.root place]? ≠ some .uninit
  unmoved : ∀ id ∈ arena.chain place ++ arena.descendants place, t.states[id]? ≠ some .moved

/-- All borrows of places that overlap a place are of some kinds. -/
def BorrowedAs (t : Tracker) (arena : Arena) (place : PlaceId) (allowed : BorrowKind → Prop) : Prop :=
  ∀ record ∈ t.borrows, arena.overlaps record.place place = true → allowed record.kind

theorem requireNone_eq_ok {records : List BorrowRecord} {place : PlaceId}
    {rule? : BorrowRecord → Option Rule} :
    requireNone records place rule? = .ok () ↔ ∀ record ∈ records, rule? record = none := by
  unfold requireNone
  cases found : records.findSome? fun record => (rule? record).map fun rule => (record, rule) with
  | none => simpa using found
  | some conflict =>
      obtain ⟨record, member, known⟩ := List.exists_of_findSome?_eq_some found
      refine ⟨fun impossible => by simp at impossible, fun never => ?_⟩
      simp [never record member] at known

/-- No borrow is in the way of a place when those that overlap it are of allowed kinds. -/
theorem requireNone_borrowsOn {rule? : BorrowRecord → Option Rule} {allowed : BorrowKind → Prop}
    (refuses : ∀ record, rule? record = none ↔ allowed record.kind) :
    requireNone (t.borrowsOn arena place) place rule? = .ok () ↔ t.BorrowedAs arena place allowed := by
  rw [requireNone_eq_ok]
  simp only [borrowsOn, List.mem_filter, and_imp, refuses, BorrowedAs]

theorem requireInitialized_eq_ok :
    t.requireInitialized arena place = .ok () ↔ t.states[arena.root place]? ≠ some .uninit := by
  unfold requireInitialized
  by_cases uninit : t.states[arena.root place]? = some .uninit <;> simp [uninit]

theorem requireUnmoved_eq_ok {rule : Rule} : t.requireUnmoved arena place rule = .ok () ↔
    ∀ id ∈ arena.chain place ++ arena.descendants place, t.states[id]? ≠ some .moved := by
  unfold requireUnmoved movedOverlap
  cases found : (arena.chain place ++ arena.descendants place).find? fun id =>
      t.states[id]? = some .moved with
  | none =>
      rw [List.find?_eq_none] at found
      simpa only [decide_eq_true_eq, true_iff] using found
  | some id =>
      have moved : t.states[id]? = some .moved := by simpa using List.find?_some found
      refine ⟨fun impossible => by simp at impossible, fun never => ?_⟩
      exact absurd moved (never id (List.mem_of_find?_eq_some found))

/-- Every capability asks first that the place is available. -/
theorem require_bind_eq_ok {rule : Rule} {rest : Except Violation Unit} :
    (do
      t.requireInitialized arena place
      t.requireUnmoved arena place rule
      rest) = .ok () ↔ t.Available arena place ∧ rest = .ok () := by
  simp only [bind_eq_ok]
  constructor
  · rintro ⟨_, initialized, _, unmoved, done⟩
    exact ⟨⟨requireInitialized_eq_ok.mp initialized, requireUnmoved_eq_ok.mp unmoved⟩, done⟩
  · rintro ⟨available, done⟩
    exact ⟨(), requireInitialized_eq_ok.mpr available.initialized, (),
      requireUnmoved_eq_ok.mpr available.unmoved, done⟩

theorem canRead_eq_ok : t.canRead arena place = .ok () ↔
    t.Available arena place ∧ t.BorrowedAs arena place (· = .shared) := by
  unfold canRead
  rw [require_bind_eq_ok, requireNone_borrowsOn]
  intro record
  cases record.kind <;> simp

theorem canMove_eq_ok : t.canMove arena place = .ok () ↔
    t.Available arena place ∧ arena.innermostRef place = none ∧
      t.BorrowedAs arena place fun _ => False := by
  unfold canMove
  rw [require_bind_eq_ok]
  cases arena.innermostRef place with
  | some via => simp
  | none =>
      simp only [true_and]
      rw [requireNone_borrowsOn]
      exact fun record => by simp

theorem checkBorrow_eq_ok {kind : BorrowKind} : t.checkBorrow arena place kind = .ok () ↔
    t.Available arena place ∧
      t.BorrowedAs arena place fun other => other = .shared ∧ kind = .shared := by
  unfold checkBorrow
  rw [require_bind_eq_ok, requireNone_borrowsOn]
  intro record
  cases kind <;> cases record.kind <;> simp

theorem canWrite_eq_ok : t.canWrite arena place = .ok () ↔
    t.requireOwners place (arena.chain place).dropLast = .ok () ∧
      ((arena.chain place).length = 1 ∧ t.states[place]? = some .uninit ∨
        checkMutable arena place false = .ok ()) ∧
      t.BorrowedAs arena place fun _ => False := by
  have unborrowed : requireNone (t.borrowsOn arena place) place (fun _ => some .assignBorrowed) =
      .ok () ↔ t.BorrowedAs arena place fun _ => False :=
    requireNone_borrowsOn fun _ => by simp
  unfold canWrite
  rw [← unborrowed, bind_eq_ok]
  by_cases first : (arena.chain place).length = 1 ∧ t.states[place]? = some .uninit
  · simp only [if_pos first]
    exact ⟨fun ⟨_, owners, free⟩ => ⟨owners, Or.inl first, free⟩,
      fun ⟨owners, _, free⟩ => ⟨(), owners, free⟩⟩
  · simp only [if_neg first, bind_eq_ok]
    exact ⟨fun ⟨_, owners, _, declared, free⟩ => ⟨owners, Or.inr declared, free⟩,
      fun ⟨owners, declared, free⟩ => ⟨(), owners, (), declared.resolve_left first, free⟩⟩

/-! ### Leaving a scope -/

/-- A scope can be left when no borrow is of storage that dies with it. -/
theorem danglingBorrow?_eq_none {dying : List PlaceId} :
    t.danglingBorrow? arena dying = none ↔ ∀ record ∈ t.borrows,
      arena.innermostRef record.place = none → arena.root record.place ∉ dying := by
  unfold danglingBorrow?
  rw [List.findSome?_eq_none_iff]
  refine forall_congr' fun record => forall_congr' fun _ => ?_
  cases arena.innermostRef record.place <;> simp

end BorrowLang.Tracker
