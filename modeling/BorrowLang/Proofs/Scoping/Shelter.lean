import BorrowLang.Proofs.Scoping.Ways
import BorrowLang.Proofs.Tracking.Operations

/-!
# Borrows and open scopes

The borrows that a tracker knows are held by temporaries or by bindings of open scopes, and what they
borrow belongs to such a binding unless it lies behind a reference.  Operations pass borrows on, copy
them or end them; leaving a scope ends those that its bindings hold and is refused while one of its
bindings is borrowed.
-/

set_option autoImplicit false

namespace BorrowLang

variable {arena arena' : Arena}

/-- A borrow of a place that exists, held by no binding or by one of an open scope; what it borrows
belongs to a binding of an open scope, unless it lies behind a reference. -/
structure BorrowRecord.Sheltered (arena : Arena) (frames : List (List PlaceId))
    (record : BorrowRecord) : Prop where
  there : record.place < arena.size
  holder : ∀ holder, record.holder = some holder → holder ∈ frames.flatten
  root : arena.innermostRef record.place = none → arena.root record.place ∈ frames.flatten

/-- The open scopes declare bindings only, and all borrows are sheltered by them. -/
structure Tracker.Sheltered (arena : Arena) (t : Tracker) : Prop where
  locals : ∀ place ∈ t.frames.flatten, arena.IsLocal place
  records : ∀ record ∈ t.borrows, record.Sheltered arena t.frames

theorem BorrowRecord.Sheltered.mono {frames frames' : List (List PlaceId)} {record : BorrowRecord}
    (sheltered : record.Sheltered arena frames) (ways : arena.SameWays arena')
    (more : frames.flatten ⊆ frames'.flatten) : record.Sheltered arena' frames' where
  there := Nat.lt_of_lt_of_le sheltered.there ways.size
  holder holder held := more (sheltered.holder holder held)
  root owned := by
    rw [ways.innermostRef sheltered.there] at owned
    rw [ways.root sheltered.there]
    exact more (sheltered.root owned)

namespace Tracker

variable {t u : Tracker} {frames : List (List PlaceId)}
  {records records' after : List BorrowRecord}

theorem Sheltered.grow (sheltered : t.Sheltered arena) (ways : arena.SameWays arena') :
    t.Sheltered arena' where
  locals place member := ways.isLocal (sheltered.locals place member)
  records record member := (sheltered.records record member).mono ways (List.Subset.refl _)

/-! ### Borrows that are passed on -/

/-- Each borrow that there is afterwards is a former one or a copy of it; it has the same holder, or
none, or a binding of an open scope. -/
def HandedOn (frames : List (List PlaceId)) (records after : List BorrowRecord) : Prop :=
  ∀ record ∈ after, ∃ old ∈ records, record.place = old.place ∧
    (record.holder = old.holder ∨
      ∀ holder, record.holder = some holder → holder ∈ frames.flatten)

theorem HandedOn.of_subset (part : after ⊆ records) : HandedOn frames records after :=
  fun record member => ⟨record, part member, rfl, Or.inl rfl⟩

theorem HandedOn.filter (records : List BorrowRecord) (p : BorrowRecord → Bool) :
    HandedOn frames records (records.filter p) :=
  .of_subset List.filter_sublist.subset

theorem HandedOn.refl (records : List BorrowRecord) : HandedOn frames records records :=
  .of_subset (List.Subset.refl _)

theorem HandedOn.trans (first : HandedOn frames records records')
    (second : HandedOn frames records' after) : HandedOn frames records after := by
  intro record member
  obtain ⟨mid, inMid, place, holder⟩ := second record member
  obtain ⟨old, inOld, place', holder'⟩ := first mid inMid
  refine ⟨old, inOld, place.trans place', holder.elim (fun same => ?_) Or.inr⟩
  exact same ▸ holder'

/-- Borrows that are passed on stay sheltered. -/
theorem HandedOn.sheltered (each : HandedOn frames records after)
    (sheltered : ∀ record ∈ records, record.Sheltered arena frames) :
    ∀ record ∈ after, record.Sheltered arena frames := by
  intro record member
  obtain ⟨old, inOld, place, holder⟩ := each record member
  have known := sheltered old inOld
  refine ⟨place ▸ known.there, ?_, place ▸ known.root⟩
  rcases holder with same | opened
  · exact same ▸ known.holder
  · exact opened

theorem Sheltered.handOn (sheltered : t.Sheltered arena) (frames : u.frames = t.frames)
    (each : HandedOn t.frames t.borrows u.borrows) : u.Sheltered arena where
  locals := frames ▸ sheltered.locals
  records := frames ▸ each.sheltered sheltered.records

theorem adopt_handedOn (t : Tracker) (ids : List BorrowId) {holder : PlaceId} (pinned : Bool)
    (opened : holder ∈ t.frames.flatten) :
    HandedOn t.frames t.borrows (t.adopt ids holder pinned).borrows := by
  intro record member
  obtain ⟨old, inOld, rfl⟩ := List.mem_map.mp member
  by_cases own : ids.contains old.id = true
  · simp only [own, if_true]
    exact ⟨old, inOld, rfl, Or.inr fun _ same => Option.some.inj same ▸ opened⟩
  · simp only [own, Bool.false_eq_true, if_false]
    exact ⟨old, inOld, rfl, Or.inl rfl⟩

theorem detach_handedOn (t : Tracker) (holder : PlaceId) :
    HandedOn t.frames t.borrows (t.detach holder).1.borrows := by
  intro record member
  obtain ⟨old, inOld, rfl⟩ := List.mem_map.mp member
  by_cases own : old.holder = some holder
  · simp only [own, if_true]
    exact ⟨old, inOld, rfl, Or.inr nofun⟩
  · simp only [own, if_false]
    exact ⟨old, inOld, rfl, Or.inl rfl⟩

theorem shareEach_handedOn {holder : PlaceId} (opened : holder ∈ frames.flatten) (pinned : Bool)
    (ids : List BorrowId) (t : Tracker) (next : BorrowId) :
    HandedOn frames t.borrows (shareEach holder pinned ids t next).1.borrows ∧
      (shareEach holder pinned ids t next).1.frames = t.frames := by
  induction ids generalizing t next with
  | nil => exact ⟨.refl _, rfl⟩
  | cons id rest ih =>
      rw [shareEach]
      cases shared : t.shareOne next id holder pinned with
      | none => exact ih t next
      | some one =>
          obtain ⟨old, found, rfl⟩ := Option.map_eq_some_iff.mp shared
          obtain ⟨each, sameFrames⟩ := ih { t with borrows := t.borrows ++
            [{ old with id := next, holder := some holder, pinned }] } (next + 1)
          refine ⟨HandedOn.trans (fun record member => ?_) each, sameFrames⟩
          rcases List.mem_append.mp member with inRecords | isCopy
          · exact ⟨record, inRecords, rfl, Or.inl rfl⟩
          · rw [List.mem_singleton.mp isCopy]
            exact ⟨old, List.mem_of_find?_eq_some found, rfl,
              Or.inr fun _ same => Option.some.inj same ▸ opened⟩

theorem renumbered_handedOn (next : BorrowId) (records : List BorrowRecord) :
    HandedOn frames records (renumbered next records) := by
  induction records generalizing next with
  | nil => exact .refl []
  | cons first rest ih =>
      intro record member
      rcases List.mem_cons.mp member with rfl | inRest
      · exact ⟨first, List.mem_cons_self, rfl, Or.inr nofun⟩
      · obtain ⟨old, inOld, same⟩ := ih (next + 1) record inRest
        exact ⟨old, List.mem_cons_of_mem _ inOld, same⟩

theorem cloneHeld_handedOn (t : Tracker) (next : BorrowId) (holder : PlaceId) :
    HandedOn t.frames t.borrows (t.cloneHeld next holder).1.borrows := by
  intro record member
  rcases List.mem_append.mp member with inRecords | isCopy
  · exact ⟨record, inRecords, rfl, Or.inl rfl⟩
  · obtain ⟨old, inHeld, same⟩ := renumbered_handedOn next _ record isCopy
    exact ⟨old, List.mem_of_mem_filter (List.mem_of_mem_filter inHeld), same⟩

/-! ### New borrows and bindings -/

/-- A new borrow of what belongs to a binding of an open scope, held by no binding. -/
theorem Sheltered.push (sheltered : t.Sheltered arena) {record : BorrowRecord}
    (there : record.place < arena.size) (free : record.holder = none)
    (opened : arena.root record.place ∈ t.frames.flatten) :
    Sheltered arena { t with borrows := t.borrows ++ [record] } := by
  refine ⟨sheltered.locals, fun other member => ?_⟩
  rcases List.mem_append.mp member with old | isNew
  · exact sheltered.records other old
  · rw [List.mem_singleton.mp isNew]
    exact ⟨there, fun holder held => (nomatch free.symm.trans held), fun _ => opened⟩

theorem Sheltered.pushFrame (sheltered : t.Sheltered arena) : t.pushFrame.Sheltered arena where
  locals := sheltered.locals
  records record member :=
    (sheltered.records record member).mono (.refl arena) (List.Subset.refl _)

theorem Sheltered.declare (sheltered : t.Sheltered arena) {place : PlaceId}
    (isLocal : arena.IsLocal place) (initialized : Bool) :
    (t.declare place initialized).Sheltered arena := by
  have members : ∀ other, other ∈ (t.declare place initialized).frames.flatten ↔
      other = place ∨ other ∈ t.frames.flatten := by
    intro other
    cases frames : t.frames with
    | nil => simp [Tracker.declare, frames]
    | cons frame rest =>
        simp only [Tracker.declare, frames, List.flatten_cons, List.mem_append, List.mem_singleton]
        tauto
  refine ⟨fun other member => ?_, fun record member => ?_⟩
  · rcases (members other).mp member with rfl | old
    · exact isLocal
    · exact sheltered.locals other old
  · exact (sheltered.records record member).mono (.refl arena) fun other old =>
      (members other).mpr (Or.inr old)

/-! ### Leaving a scope -/

/-- A scope that can be left held no borrow and was not borrowed from, so what remains is sheltered
by the other scopes. -/
theorem Sheltered.popFrame (sheltered : t.Sheltered arena) {ids : List BorrowId}
    (popped : t.popFrame arena = (u, .ok ids)) :
    u.Sheltered arena ∧ u.frames = t.frames.drop 1 := by
  unfold Tracker.popFrame at popped
  split at popped
  · rename_i dying outer rest frames
    dsimp only at popped
    split at popped
    · simp at popped
    · rename_i safe
      obtain ⟨rfl, -⟩ := Prod.mk.inj popped
      have known := danglingBorrow?_eq_none.mp safe
      refine ⟨⟨fun place member => ?_, fun record member => ?_⟩, by rw [frames]; rfl⟩
      · refine sheltered.locals place ?_
        rw [frames, List.flatten_cons]
        exact List.mem_append_right dying member
      · obtain ⟨old, stays⟩ := List.mem_filter.mp member
        have before := sheltered.records record old
        rw [frames] at before
        refine ⟨before.there, fun holder held => ?_, fun owned => ?_⟩
        · refine (List.mem_append.mp (before.holder holder held)).resolve_left fun dies => ?_
          simp [held, dies] at stays
        · exact (List.mem_append.mp (before.root owned)).resolve_left (known record member owned)
  · simp at popped

/-! ### Paths that meet -/

theorem joinRecord_handedOn (records : List BorrowRecord) (record : BorrowRecord) :
    HandedOn frames (record :: records) (joinRecord records record) := by
  intro other member
  rw [joinRecord] at member
  split at member
  · obtain ⟨mine, inRecords, rfl⟩ := List.mem_map.mp member
    refine ⟨mine, List.mem_cons_of_mem _ inRecords, ?_, Or.inl ?_⟩ <;> split <;> rfl
  · exact ⟨other, List.mem_cons.mpr (mem_insertById.mp member), rfl, Or.inl rfl⟩

theorem foldl_joinRecord_handedOn (records others : List BorrowRecord) :
    HandedOn frames (records ++ others) (others.foldl joinRecord records) := by
  induction others generalizing records with
  | nil =>
      rw [List.append_nil]
      exact .refl records
  | cons record rest ih =>
      refine HandedOn.trans (fun other member => ?_) (ih (joinRecord records record))
      rcases List.mem_append.mp member with joined | later
      · obtain ⟨old, inOld, same⟩ := joinRecord_handedOn records record other joined
        refine ⟨old, ?_, same⟩
        rcases List.mem_cons.mp inOld with rfl | inRecords
        · exact List.mem_append_right _ List.mem_cons_self
        · exact List.mem_append_left _ inRecords
      · exact ⟨other, List.mem_append_right _ (List.mem_cons_of_mem _ later), rfl, Or.inl rfl⟩

theorem Sheltered.join (sheltered : t.Sheltered arena) (other : u.Sheltered arena)
    (same : u.frames = t.frames) : (t.join u).Sheltered arena := by
  refine ⟨sheltered.locals, HandedOn.sheltered (foldl_joinRecord_handedOn t.borrows u.borrows) ?_⟩
  intro record member
  rcases List.mem_append.mp member with mine | theirs
  · exact sheltered.records record mine
  · exact same ▸ other.records record theirs

end Tracker

end BorrowLang
