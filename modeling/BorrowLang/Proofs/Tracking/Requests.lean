import BorrowLang.Proofs.Tracking.Forks

/-!
# What a refusal leaves behind

A tracker that refuses a capability or a borrow stays as it is, and no number is given out.  Leaving a
scope is refused too late for that: the scope has been closed, and the borrows that its bindings held
have ended; the move states are still those from before.
-/

set_option autoImplicit false

namespace BorrowLang

namespace Tracker

/-- What a tracker is asked and may refuse. -/
inductive Request
  | read (place : PlaceId)
  | move (place : PlaceId)
  | write (place : PlaceId)
  | change (place : PlaceId) (toBorrow : Bool)
  | lend (place : PlaceId) (kind : BorrowKind)
  | beginBorrow (place : PlaceId) (kind : BorrowKind) (holder : Option PlaceId) (pinned : Bool)
      (origin : Option Position)
  | leave

/-- The violation that an answer reports. -/
def refusal {α : Type} : Except Violation α → Option Violation
  | .ok _ => none
  | .error violation => some violation

/-- The tracker and the next free number after a request, and the violation if it is refused.  That
there is no scope to leave is no violation. -/
def ask (arena : Arena) (next : BorrowId) (t : Tracker) :
    Request → Tracker × BorrowId × Option Violation
  | .read place => (t, next, refusal (t.canRead arena place))
  | .move place => (t, next, refusal (t.canMove arena place))
  | .write place => (t, next, refusal (t.canWrite arena place))
  | .change place toBorrow => (t, next, refusal (checkMutable arena place toBorrow))
  | .lend place kind => (t, next, refusal (t.checkBorrow arena place kind))
  | .beginBorrow place kind holder pinned origin =>
      match t.beginBorrow arena next place kind holder pinned origin with
      | .ok after => (after, next + 1, none)
      | .error violation => (t, next, some violation)
  | .leave =>
      match t.popFrame arena with
      | (after, .error (.dangling violation)) => (after, next, some violation)
      | (after, _) => (after, next, none)

variable {arena : Arena} {t after : Tracker} {next next' : BorrowId} {violation : Violation}

/-- A borrow that outlives the storage it is of: it belongs to a binding that dies, and is not behind a
reference. -/
structure Outlives (arena : Arena) (dying : List PlaceId) (record : BorrowRecord) : Prop where
  dies : arena.root record.place ∈ dying
  owned : arena.innermostRef record.place = none

/-- A violation on leaving a scope tells of a borrow that outlives the scope. -/
theorem danglingBorrow?_eq_some {dying : List PlaceId}
    (found : t.danglingBorrow? arena dying = some violation) :
    ∃ record ∈ t.borrows, Outlives arena dying record ∧
      violation = ⟨.outlived, arena.root record.place, some record⟩ := by
  obtain ⟨record, member, known⟩ := List.exists_of_findSome?_eq_some found
  dsimp only at known
  split at known
  · rename_i outlives
    obtain ⟨dies, owned⟩ := (Bool.and_eq_true _ _).mp outlives
    exact ⟨record, member, ⟨by simpa using dies, by simpa using owned⟩, (Option.some.inj known).symm⟩
  · exact absurd known nofun

/-- What a scope that could not be left has been left with. -/
structure LeftOpen (arena : Arena) (t after : Tracker) (dying : List PlaceId)
    (violation : Violation) : Prop where
  frames : t.frames = dying :: after.frames
  borrows : after.borrows = t.borrows.filter fun record => !record.holder.any dying.contains
  states : after.states = t.states
  outlived : ∃ record ∈ after.borrows, Outlives arena dying record ∧
    violation = ⟨.outlived, arena.root record.place, some record⟩

theorem popFrame_refused (refused : t.popFrame arena = (after, .error (.dangling violation))) :
    ∃ dying, LeftOpen arena t after dying violation := by
  unfold popFrame at refused
  split at refused
  · rename_i dying outer rest frames
    dsimp only at refused
    split at refused
    · rename_i dangling found
      obtain ⟨rfl, same⟩ := Prod.mk.inj refused
      obtain rfl : dangling = violation := by simpa using same
      exact ⟨dying, frames, rfl, rfl, danglingBorrow?_eq_some found⟩
    · simp at refused
  · simp at refused

/-- Whatever a tracker refuses, the move states stay and no number is given out.  Where it refuses
anything but to leave a scope, it stays as it is; where it refuses to leave one, that scope is gone, and
so are just the borrows that its bindings held. -/
theorem ask_refused {request : Request}
    (refused : t.ask arena next request = (after, next', some violation)) :
    next' = next ∧ after.states = t.states ∧ (request ≠ .leave → after = t) ∧
      (request = .leave → ∃ dying, LeftOpen arena t after dying violation) := by
  cases request with
  | leave =>
      rw [ask] at refused
      split at refused
      · rename_i last dangling popped
        obtain ⟨rfl, sameNext, same⟩ := by simpa only [Prod.mk.injEq] using refused
        obtain rfl := Option.some.inj same
        obtain ⟨dying, left⟩ := popFrame_refused popped
        exact ⟨sameNext.symm, left.states, fun other => absurd rfl other, fun _ => ⟨dying, left⟩⟩
      · simp at refused
  | beginBorrow place kind holder pinned origin =>
      rw [ask] at refused
      split at refused
      · simp at refused
      · obtain ⟨rfl, sameNext, -⟩ := by simpa only [Prod.mk.injEq] using refused
        exact ⟨sameNext.symm, rfl, fun _ => rfl, nofun⟩
  | read | move | write | change | lend =>
      rw [ask] at refused
      obtain ⟨rfl, sameNext, -⟩ := by simpa only [Prod.mk.injEq] using refused
      exact ⟨sameNext.symm, rfl, fun _ => rfl, nofun⟩

end Tracker

namespace Forks

open Tracker (Request LeftOpen)

/-- Two bindings of an inner scope, of which one is borrowed by the other and by a temporary; an
exclusive borrow of it is refused, and so is leaving the scope. -/
def borrowedInside : List Event :=
  [.addLocal "x" none true false, .addLocal "r" none true false, .act 0 .pushFrame,
    .act 0 (.declare 0 true), .act 0 (.declare 1 true),
    .act 0 (.beginBorrow 0 .shared (some 1) false none),
    .act 0 (.beginBorrow 0 .shared none false none)]

theorem borrowedInside_tracker : 0 < (run {} borrowedInside).trackers.length := by decide +kernel

/-- A request is refused when it is answered by a violation. -/
theorem exists_of_isSome {arena : Arena} {next : BorrowId} {t : Tracker} {request : Request}
    (refused : (t.ask arena next request).2.2.isSome = true) : ∃ violation,
      t.ask arena next request =
        ((t.ask arena next request).1, (t.ask arena next request).2.1, some violation) := by
  obtain ⟨violation, same⟩ := Option.isSome_iff_exists.mp refused
  exact ⟨violation, Prod.ext rfl (Prod.ext rfl same)⟩

/-- The tracker refuses the borrow and stays as it is; it refuses to leave the scope, and what the scope
declared and held is gone. -/
theorem ask_refused_borrowedInside :
    ∃ t ∈ (run {} borrowedInside).trackers, ∃ dying violation,
      let ask := t.ask (run {} borrowedInside).arena (run {} borrowedInside).next
      (ask (.beginBorrow 0 .exclusive none false none)).2.2.isSome = true ∧
      (ask (.beginBorrow 0 .exclusive none false none)).1 = t ∧
      (ask .leave).2.2.isSome = true ∧
      LeftOpen (run {} borrowedInside).arena t (ask .leave).1 dying violation := by
  have member := List.getElem_mem borrowedInside_tracker
  refine ⟨_, member, ?_⟩
  generalize isTracker : (run {} borrowedInside).trackers[0] = t
  have begins : (t.ask (run {} borrowedInside).arena (run {} borrowedInside).next
      (.beginBorrow 0 .exclusive none false none)).2.2.isSome = true := by
    rw [← isTracker]
    decide +kernel
  have leaves : (t.ask (run {} borrowedInside).arena (run {} borrowedInside).next
      .leave).2.2.isSome = true := by
    rw [← isTracker]
    decide +kernel
  obtain ⟨_, refused⟩ := exists_of_isSome begins
  obtain ⟨violation, stuck⟩ := exists_of_isSome leaves
  obtain ⟨-, -, stays, -⟩ := Tracker.ask_refused refused
  obtain ⟨-, -, -, left⟩ := Tracker.ask_refused stuck
  obtain ⟨dying, left⟩ := left rfl
  exact ⟨dying, violation, begins, stays nofun, leaves, left⟩

/-- One of two frames and one of two borrows are gone after the scope could not be left. -/
theorem ask_refused_leaves_less :
    ∃ t ∈ (run {} borrowedInside).trackers,
      let answer := t.ask (run {} borrowedInside).arena (run {} borrowedInside).next .leave
      answer.2.2.isSome = true ∧
      t.frames = [[0, 1], []] ∧ answer.1.frames = [[]] ∧
      t.borrows.map (·.id) = [1, 2] ∧ answer.1.borrows.map (·.id) = [2] :=
  ⟨_, List.getElem_mem borrowedInside_tracker, by decide +kernel, by decide +kernel,
    by decide +kernel, by decide +kernel, by decide +kernel⟩

end Forks

end BorrowLang
