import BorrowLang.Proofs.Tracking.Forks
import Mathlib.Data.List.Pairwise

/-!
# Shared or exclusive

Whatever a tracker and its forks have been through, an active exclusive borrow overlaps no other active
borrow.  Only two events are left out: sharing gives a binding a copy of any borrow, and a join unites
the borrows of two paths.
-/

set_option autoImplicit false

namespace BorrowLang

namespace Arena

variable {arena arena' : Arena} {first second : BorrowRecord}

theorem overlaps_comm (arena : Arena) (a b : PlaceId) : arena.overlaps a b = arena.overlaps b a :=
  Bool.or_comm _ _

instance (arena : Arena) : Std.Symm arena.Compatible where
  symm a b compatible overlap :=
    (compatible ((arena.overlaps_comm a.place b.place).trans overlap)).symm

/-- Naming more places does not make borrows clash. -/
theorem Compatible.grow (compatible : arena.Compatible first second) (grows : arena.Grows arena')
    (isThere : first.place < arena.size) (alsoThere : second.place < arena.size) :
    arena'.Compatible first second := by
  intro overlap
  rw [grows.overlaps isThere alsoThere] at overlap
  exact compatible overlap

/-- Whether borrows clash is a matter of their claims. -/
theorem pairwise_compatible_of_claims {records after : List BorrowRecord}
    (compatible : records.Pairwise arena.Compatible)
    (part : (after.map BorrowRecord.claim).Sublist (records.map BorrowRecord.claim)) :
    after.Pairwise arena.Compatible := by
  let allowed : BorrowId × PlaceId × BorrowKind → BorrowId × PlaceId × BorrowKind → Prop :=
    fun a b => arena.overlaps a.2.1 b.2.1 = true → a.2.2 = .shared ∧ b.2.2 = .shared
  have ofClaims : ∀ records : List BorrowRecord,
      (records.map BorrowRecord.claim).Pairwise allowed ↔ records.Pairwise arena.Compatible :=
    fun _ => List.pairwise_map
  exact (ofClaims after).mp (((ofClaims records).mpr compatible).sublist part)

theorem pairwise_compatible_push {records : List BorrowRecord} {record : BorrowRecord}
    (compatible : records.Pairwise arena.Compatible)
    (room : ∀ old ∈ records, arena.Compatible old record) :
    (records ++ [record]).Pairwise arena.Compatible := by
  refine List.pairwise_append.mpr ⟨compatible, List.pairwise_singleton _ _, ?_⟩
  intro old member new isNew
  rw [List.mem_singleton.mp isNew]
  exact room old member

/-- Changes that copy shared borrows only make no two borrows clash.  A copy overlaps what the borrow
overlaps that it is a copy of. -/
theorem pairwise_compatible_changes {copied : BorrowKind → Prop} {records after : List BorrowRecord}
    {next next' : BorrowId} (changes : Tracker.Changes arena copied records next after next')
    (only : ∀ kind, copied kind → kind = .shared) (compatible : records.Pairwise arena.Compatible) :
    after.Pairwise arena.Compatible := by
  induction changes with
  | fewer part => exact pairwise_compatible_of_claims compatible part
  | begun record there room => exact pairwise_compatible_push compatible room
  | @copied _ old copy member place kind may =>
      refine pairwise_compatible_push compatible fun other inRecords overlap => ?_
      have isShared : old.kind = .shared := only old.kind may
      rw [place] at overlap
      refine ⟨?_, kind.trans isShared⟩
      by_cases same : other = old
      · rw [same, isShared]
      · exact (compatible.forall inRecords member same overlap).1
  | trans before after ih ihAfter => exact ihAfter (ih compatible)

end Arena

namespace Forks

/-- Does the event neither copy exclusive borrows nor unite the borrows of two paths? -/
def Event.isPlain : Event → Bool
  | .act _ op => !op.isShare
  | .join _ _ => false
  | .addLocal _ _ _ _ | .target _ _ _ | .fork _ => true

/-- In no tracker do two active borrows clash. -/
def Exclusive (s : Forks) : Prop := ∀ t ∈ s.trackers, t.borrows.Pairwise s.arena.Compatible

variable {s after : Forks} {event : Event} {meaning : BorrowId → PlaceId × BorrowKind}

theorem exclusive_start : Exclusive {} := by
  intro t member
  rw [List.mem_singleton.mp member]
  exact .nil

theorem Exclusive.moves (exclusive : s.Exclusive) (sound : s.Sound meaning)
    (moves : Moves s event after) (plain : event.isPlain = true) : after.Exclusive := by
  intro other member
  cases moves with
  | stay => exact exclusive other member
  | grow _ linked grows =>
      refine (exclusive other member).imp_of_mem fun isFirst isSecond compatible => ?_
      exact compatible.grow grows (sound.accords other member _ isFirst).there
        (sound.accords other member _ isSecond).there
  | @act index op t found =>
      rcases List.mem_or_eq_of_mem_set member with old | rfl
      · exact exclusive other old
      · have isOther : op.isShare = false := by simpa [Event.isPlain] using plain
        refine Arena.pairwise_compatible_changes (Tracker.apply_changes s.arena s.next t op) ?_
          (exclusive t found)
        exact fun kind may => may.resolve_left (by simp [isOther])
  | @fork index t found =>
      rcases List.mem_append.mp member with old | isFork
      · exact exclusive other old
      · rw [List.mem_singleton.mp isFork]
        exact exclusive t found
  | join => exact absurd plain Bool.false_ne_true

theorem Exclusive.run (exclusive : s.Exclusive) (sound : s.Sound meaning) (events : List Event)
    (plain : ∀ event ∈ events, event.isPlain = true) : (s.run events).Exclusive := by
  induction events generalizing s meaning with
  | nil => exact exclusive
  | cons event rest ih =>
      have moves := apply_moves sound.linked event
      obtain ⟨meaning', next⟩ := sound.moves moves
      refine ih (exclusive.moves sound moves ?_) next fun other member => ?_
      · exact plain event List.mem_cons_self
      · exact plain other (List.mem_cons_of_mem _ member)

/-- After any plain events, of any two active borrows of a tracker whose places overlap both are
shared. -/
theorem run_exclusive (events : List Event) (plain : ∀ event ∈ events, event.isPlain = true) :
    ∀ t ∈ (run {} events).trackers, t.borrows.Pairwise (run {} events).arena.Compatible :=
  exclusive_start.run (sound_start fun _ => (0, .shared)) events plain

/-- A binding is borrowed twice, once by a copy, and what is behind it is not borrowed as well; on a
fork the borrows end, and what is behind it is borrowed exclusively. -/
def borrowBehind : List Event :=
  [.addLocal "x" none true false, .addLocal "p" none false false, .target 0 .box none,
    .act 0 (.declare 0 true), .act 0 .pushFrame, .act 0 (.declare 1 true),
    .act 0 (.beginBorrow 0 .shared (some 1) false none), .act 0 (.cloneHeld 1),
    .act 0 (.beginBorrow 2 .exclusive none false none), .fork 0, .act 1 .popFrame,
    .act 1 (.endTemporaries []), .act 1 (.beginBorrow 2 .exclusive none false none),
    .target 2 .mutRef none, .act 1 (.beginBorrow 3 .shared none false none)]

theorem run_exclusive_borrowBehind :
    (run {} borrowBehind).trackers.map (fun t => t.borrows.map fun record =>
      (record.place, record.kind)) = [[(0, .shared), (0, .shared)], [(2, .exclusive)]] ∧
    ∀ t ∈ (run {} borrowBehind).trackers,
      t.borrows.Pairwise (run {} borrowBehind).arena.Compatible :=
  ⟨by decide +kernel, run_exclusive borrowBehind (by decide)⟩

end Forks

end BorrowLang
