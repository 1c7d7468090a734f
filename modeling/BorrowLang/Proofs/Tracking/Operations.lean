import BorrowLang.Proofs.Tracking.Capabilities

/-!
# What operations do to borrows

Whatever an operation on a tracker does, its active borrows change in three ways only: some end while
the others stay what they are, a new one begins that the others leave room for, or one that is active
is copied.
-/

set_option autoImplicit false

namespace BorrowLang

/-- What a borrow is, whoever holds it. -/
def BorrowRecord.claim (record : BorrowRecord) : BorrowId × PlaceId × BorrowKind :=
  (record.id, record.place, record.kind)

theorem BorrowRecord.claim_inj {a b : BorrowRecord} (same : a.claim = b.claim) :
    a.id = b.id ∧ a.place = b.place ∧ a.kind = b.kind := by
  simpa [claim] using same

/-- Two borrows may both be active: their places do not overlap, or both are shared. -/
def Arena.Compatible (arena : Arena) (first second : BorrowRecord) : Prop :=
  arena.overlaps first.place second.place = true → first.kind = .shared ∧ second.kind = .shared

namespace Tracker

/-! ### Operations -/

/-- An operation on a tracker, beside joining it with another one. -/
inductive Op
  | pushFrame
  | popFrame
  | declare (place : PlaceId) (initialized : Bool)
  | markMoved (place : PlaceId)
  | markLive (place : PlaceId)
  | beginBorrow (place : PlaceId) (kind : BorrowKind) (holder : Option PlaceId) (pinned : Bool)
      (origin : Option Position)
  | endBorrow (id : BorrowId)
  | endHeldBy (holder : PlaceId)
  | adopt (ids : List BorrowId) (holder : PlaceId) (pinned : Bool)
  | share (ids : List BorrowId) (holder : PlaceId) (pinned : Bool)
  | detach (holder : PlaceId)
  | cloneHeld (holder : PlaceId)
  | endTemporaries (keep : List BorrowId)
  | releaseDead (isLive : PlaceId → Bool)

/-- The tracker after an operation, and the next free number.  A borrow that is refused, or of a
place that does not exist, changes nothing. -/
def apply (arena : Arena) (next : BorrowId) (t : Tracker) : Op → Tracker × BorrowId
  | .pushFrame => (t.pushFrame, next)
  | .popFrame => ((t.popFrame arena).1, next)
  | .declare place initialized => (t.declare place initialized, next)
  | .markMoved place => (t.markMoved place, next)
  | .markLive place => (t.markLive arena place, next)
  | .beginBorrow place kind holder pinned origin =>
      if place < arena.size then
        match t.beginBorrow arena next place kind holder pinned origin with
        | .ok after => (after, next + 1)
        | .error _ => (t, next)
      else (t, next)
  | .endBorrow id => (t.endBorrow id, next)
  | .endHeldBy holder => (t.endHeldBy holder, next)
  | .adopt ids holder pinned => (t.adopt ids holder pinned, next)
  | .share ids holder pinned =>
      let (after, next, _) := t.share next ids holder pinned
      (after, next)
  | .detach holder => ((t.detach holder).1, next)
  | .cloneHeld holder =>
      let (after, next, _) := t.cloneHeld next holder
      (after, next)
  | .endTemporaries keep => (t.endTemporaries keep, next)
  | .releaseDead isLive => ((t.releaseDead arena isLive).1, next)

/-- Does the operation give copies of borrows of any kind to a binding? -/
def Op.isShare : Op → Bool
  | .share _ _ _ => true
  | _ => false

/-- Copies of borrows have the next free numbers. -/
theorem mem_renumbered {next : BorrowId} {records : List BorrowRecord} {record : BorrowRecord}
    (member : record ∈ renumbered next records) :
    next ≤ record.id ∧ record.id < next + (renumbered next records).length := by
  induction records generalizing next with
  | nil => simp [renumbered] at member
  | cons first rest ih =>
      rw [renumbered, List.length_cons]
      rcases List.mem_cons.mp member with rfl | later
      · exact ⟨Nat.le_refl _, Nat.lt_add_of_pos_right (Nat.succ_pos _)⟩
      · obtain ⟨new, below⟩ := ih later
        exact ⟨Nat.le_of_succ_le new, Nat.add_right_comm next 1 _ ▸ below⟩

/-! ### Changes of borrows -/

/-- Active borrows and the next free number, before and after some changes.  Borrows are copied only
if their kind may be. -/
inductive Changes (arena : Arena) (copied : BorrowKind → Prop) :
    List BorrowRecord → BorrowId → List BorrowRecord → BorrowId → Prop
  | fewer {records after : List BorrowRecord} {next : BorrowId}
      (part : (after.map BorrowRecord.claim).Sublist (records.map BorrowRecord.claim)) :
      Changes arena copied records next after next
  | begun {records : List BorrowRecord} (record : BorrowRecord)
      (there : record.place < arena.size)
      (room : ∀ old ∈ records, arena.Compatible old record) :
      Changes arena copied records record.id (records ++ [record]) (record.id + 1)
  | copied {records : List BorrowRecord} {old : BorrowRecord} (copy : BorrowRecord)
      (member : old ∈ records)
      (place : copy.place = old.place) (kind : copy.kind = old.kind) (may : copied old.kind) :
      Changes arena copied records copy.id (records ++ [copy]) (copy.id + 1)
  | trans {first second third : List BorrowRecord} {one two three : BorrowId}
      (before : Changes arena copied first one second two)
      (after : Changes arena copied second two third three) :
      Changes arena copied first one third three

namespace Changes

variable {arena : Arena} {copied : BorrowKind → Prop} {records : List BorrowRecord}
  {next : BorrowId}

theorem refl (records : List BorrowRecord) (next : BorrowId) :
    Changes arena copied records next records next := .fewer (.refl _)

/-- Some borrows end. -/
theorem filter (records : List BorrowRecord) (next : BorrowId) (p : BorrowRecord → Bool) :
    Changes arena copied records next (records.filter p) next :=
  .fewer (List.filter_sublist.map _)

/-- Borrows pass to another holder. -/
theorem map (records : List BorrowRecord) (next : BorrowId) {f : BorrowRecord → BorrowRecord}
    (same : ∀ record, (f record).claim = record.claim) :
    Changes arena copied records next (records.map f) next := by
  have kept : BorrowRecord.claim ∘ f = BorrowRecord.claim := funext same
  refine .fewer ?_
  rw [List.map_map, kept]

/-- Records of a list are copied one after another. -/
theorem renumbered {more : List BorrowRecord}
    (known : ∀ record ∈ more, (∃ old ∈ records, old.place = record.place ∧ old.kind = record.kind) ∧
      copied record.kind) :
    Changes arena copied records next (records ++ Tracker.renumbered next more)
      (next + (Tracker.renumbered next more).length) := by
  induction more generalizing records next with
  | nil => simpa [Tracker.renumbered] using refl records next
  | cons record rest ih =>
      obtain ⟨⟨old, member, place, kind⟩, may⟩ := known record List.mem_cons_self
      let copy : BorrowRecord := { record with id := next, holder := none, pinned := false }
      have first : Changes arena copied records next (records ++ [copy]) (next + 1) :=
        .copied copy member place.symm kind.symm (kind ▸ may)
      have others := @ih (records ++ [copy]) (next + 1) fun other inRest => by
        obtain ⟨⟨own, ownMember, same⟩, may⟩ := known other (List.mem_cons_of_mem _ inRest)
        exact ⟨⟨own, List.mem_append_left _ ownMember, same⟩, may⟩
      rw [Nat.add_right_comm, Nat.add_assoc] at others
      rw [Tracker.renumbered, List.length_cons, List.append_cons]
      exact first.trans others

end Changes

variable {arena : Arena} {copied : BorrowKind → Prop} {t : Tracker} {next : BorrowId}

/-- A borrow that is allowed leaves room for those that are active, and they for it. -/
theorem beginBorrow_changes {place : PlaceId} {kind : BorrowKind} {holder : Option PlaceId}
    {pinned : Bool} {origin : Option Position} {after : Tracker} (there : place < arena.size)
    (begun : t.beginBorrow arena next place kind holder pinned origin = .ok after) :
    Changes arena copied t.borrows next after.borrows (next + 1) := by
  obtain ⟨_, allowed, same⟩ := bind_eq_ok.mp begun
  obtain rfl := Except.ok.inj same
  let record : BorrowRecord := ⟨next, place, kind, holder, pinned, origin⟩
  exact .begun record there (checkBorrow_eq_ok.mp allowed).2

theorem popFrame_changes (t : Tracker) (arena : Arena) (next : BorrowId) :
    Changes arena copied t.borrows next (t.popFrame arena).1.borrows next := by
  unfold popFrame
  split
  · dsimp only
    split
    · exact .filter _ _ _
    · exact .filter _ _ _
  · exact .refl _ _

theorem shareEach_changes (all : ∀ kind, copied kind) (holder : PlaceId) (pinned : Bool)
    (ids : List BorrowId) (t : Tracker) (next : BorrowId) :
    Changes arena copied t.borrows next (shareEach holder pinned ids t next).1.borrows
      (shareEach holder pinned ids t next).2.1 := by
  induction ids generalizing t next with
  | nil => exact .refl _ _
  | cons id rest ih =>
      rw [shareEach]
      cases shared : t.shareOne next id holder pinned with
      | none => exact ih t next
      | some one =>
          obtain ⟨old, found, rfl⟩ := Option.map_eq_some_iff.mp shared
          let copy : BorrowRecord := { old with id := next, holder := some holder, pinned }
          have first : Changes arena copied t.borrows next (t.borrows ++ [copy]) (next + 1) :=
            .copied copy (List.mem_of_find?_eq_some found) rfl rfl (all _)
          exact first.trans (ih { t with borrows := t.borrows ++ [copy] } (next + 1))

/-- Copying a binding's shared reference copies shared borrows only. -/
theorem cloneHeld_changes (shared : copied .shared) (t : Tracker) (next : BorrowId)
    (holder : PlaceId) :
    Changes arena copied t.borrows next (t.cloneHeld next holder).1.borrows
      (t.cloneHeld next holder).2.1 := by
  refine .renumbered fun record member => ?_
  obtain ⟨held, isShared⟩ := List.mem_filter.mp member
  have kind : record.kind = .shared := of_decide_eq_true isShared
  exact ⟨⟨record, List.mem_of_mem_filter held, rfl, rfl⟩, kind ▸ shared⟩

/-- What operations do to the active borrows; only sharing copies exclusive ones. -/
theorem apply_changes (arena : Arena) (next : BorrowId) (t : Tracker) (op : Op) :
    Changes arena (fun kind => op.isShare = true ∨ kind = .shared) t.borrows next
      (t.apply arena next op).1.borrows (t.apply arena next op).2 := by
  cases op with
  | pushFrame | declare | markMoved | markLive => exact .refl _ _
  | popFrame => exact popFrame_changes t arena next
  | beginBorrow place kind holder pinned origin =>
      rw [apply]
      split
      · rename_i there
        cases begun : t.beginBorrow arena next place kind holder pinned origin with
        | ok after => exact beginBorrow_changes there begun
        | error violation => exact .refl _ _
      · exact .refl _ _
  | endBorrow | endHeldBy | endTemporaries | releaseDead => exact .filter _ _ _
  | adopt ids holder pinned =>
      refine .map _ _ fun record => ?_
      split <;> rfl
  | detach holder =>
      refine .map _ _ fun record => ?_
      split <;> rfl
  | share ids holder pinned => exact shareEach_changes (fun _ => Or.inl rfl) holder pinned _ t next
  | cloneHeld holder => exact cloneHeld_changes (Or.inr rfl) t next holder

/-! ### Paths that meet -/

theorem mem_insertById {record other : BorrowRecord} {records : List BorrowRecord} :
    other ∈ insertById record records ↔ other = record ∨ other ∈ records := by
  induction records with
  | nil => simp [insertById]
  | cons first rest ih =>
      rw [insertById]
      split
      · exact List.mem_cons
      · rw [List.mem_cons, ih, List.mem_cons]
        exact or_left_comm

variable {meaning : BorrowId → PlaceId × BorrowKind} {claim : BorrowId × PlaceId × BorrowKind}

/-- When a record of another path comes in, its claim is known, and the others stay. -/
theorem mem_claims_joinRecord {records : List BorrowRecord} {record : BorrowRecord}
    (means : ∀ other ∈ record :: records, meaning other.id = (other.place, other.kind)) :
    claim ∈ (joinRecord records record).map BorrowRecord.claim ↔
      claim ∈ (record :: records).map BorrowRecord.claim := by
  rw [joinRecord]
  split
  · rename_i known
    obtain ⟨mine, member, sameId⟩ := List.any_eq_true.mp known
    have sameId : mine.id = record.id := of_decide_eq_true sameId
    have same : record.claim = mine.claim := by
      have stands := (means record List.mem_cons_self).symm.trans
        ((congrArg meaning sameId.symm).trans (means mine (List.mem_cons_of_mem _ member)))
      rw [BorrowRecord.claim, BorrowRecord.claim, sameId, stands]
    have kept : (BorrowRecord.claim ∘ fun mine : BorrowRecord =>
        if mine.id = record.id && record.pinned then { mine with pinned := true } else mine) =
          BorrowRecord.claim := by
      funext other
      exact (apply_ite BorrowRecord.claim _ _ _).trans (ite_self _)
    rw [List.map_map, kept, List.map_cons, List.mem_cons, same]
    exact ⟨Or.inr, fun member' => member'.elim (fun isMine => isMine ▸ List.mem_map_of_mem member) id⟩
  · simp only [List.mem_map, mem_insertById, List.mem_cons]

/-- Records of two paths that meet: as long as a number stands for one borrow, the claims of both
paths are known afterwards and no others. -/
theorem mem_claims_foldl {records others : List BorrowRecord}
    (means : ∀ other ∈ records ++ others, meaning other.id = (other.place, other.kind)) :
    claim ∈ (others.foldl joinRecord records).map BorrowRecord.claim ↔
      claim ∈ (records ++ others).map BorrowRecord.claim := by
  induction others generalizing records with
  | nil => simp
  | cons record rest ih =>
      have first : ∀ claim, claim ∈ (joinRecord records record).map BorrowRecord.claim ↔
          claim ∈ (record :: records).map BorrowRecord.claim := fun claim =>
        mem_claims_joinRecord fun other member => means other (by
          rcases List.mem_cons.mp member with rfl | old
          · simp
          · exact List.mem_append_left _ old)
      rw [List.foldl_cons, ih]
      · simp only [List.map_append, List.mem_append, first, List.map_cons, List.mem_cons]
        tauto
      · intro other member
        rcases List.mem_append.mp member with joined | later
        · obtain ⟨old, isOld, same⟩ := List.mem_map.mp ((first _).mp (List.mem_map_of_mem joined))
          obtain ⟨id, place, kind⟩ := BorrowRecord.claim_inj same
          rw [← id, ← place, ← kind]
          refine means old ?_
          rcases List.mem_cons.mp isOld with rfl | inRecords
          · simp
          · exact List.mem_append_left _ inRecords
        · exact means other (List.mem_append_right _ (List.mem_cons_of_mem _ later))

/-- The claims known after two paths have met are those of either path. -/
theorem mem_claims_join {t u : Tracker}
    (means : ∀ other ∈ t.borrows ++ u.borrows, meaning other.id = (other.place, other.kind)) :
    claim ∈ (t.join u).borrows.map BorrowRecord.claim ↔
      claim ∈ (t.borrows ++ u.borrows).map BorrowRecord.claim :=
  mem_claims_foldl means

end Tracker

end BorrowLang
