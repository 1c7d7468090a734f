import BorrowLang.Tracker
import Mathlib.Data.List.Basic

/-!
# Borrows that one check has ended and another has not

Two checks of one program may end a borrow at different points.  What one of them has ended early is
given by the numbers of the borrows and by the bindings that held them; of all other borrows, the two
know the same, but for whether a borrow is pinned.
-/

set_option autoImplicit false

namespace BorrowLang

/-- A record without its pin. -/
def BorrowRecord.unpinned (record : BorrowRecord) : BorrowRecord := { record with pinned := false }

theorem BorrowRecord.fields_of_unpinned {a b : BorrowRecord} (same : a.unpinned = b.unpinned) :
    a.id = b.id ∧ a.place = b.place ∧ a.kind = b.kind ∧ a.holder = b.holder := by
  obtain ⟨id, place, kind, holder, pinned, origin⟩ := a
  obtain ⟨id', place', kind', holder', pinned', origin'⟩ := b
  simp only [unpinned, BorrowRecord.mk.injEq] at same
  exact ⟨same.1, same.2.1, same.2.2.1, same.2.2.2.1⟩

/-- Lists of records that differ in pins only have the same members but for pins. -/
theorem BorrowRecord.mem_of_unpinned {records others : List BorrowRecord}
    (same : others.map unpinned = records.map unpinned) {record : BorrowRecord}
    (member : record ∈ records) : ∃ other ∈ others, other.unpinned = record.unpinned := by
  have found : record.unpinned ∈ others.map unpinned := same ▸ List.mem_map_of_mem member
  exact List.mem_map.mp found

/-- The borrows that may have been ended early, and the bindings that held them. -/
structure Released where
  holders : PlaceId → Bool
  ids : BorrowId → Bool

namespace Released

def none : Released := ⟨fun _ => false, fun _ => false⟩

def keeps (gone : Released) (record : BorrowRecord) : Bool := !gone.ids record.id

end Released

/-- The first records are among the second ones, but for pins. -/
def Among (mine theirs : List BorrowRecord) : Prop :=
  ∀ record ∈ mine, ∃ other ∈ theirs, other.unpinned = record.unpinned

theorem Among.filter {mine theirs : List BorrowRecord} {p : BorrowRecord → Bool}
    (among : Among mine theirs) (blind : ∀ record, p record.unpinned = p record) :
    Among (mine.filter p) (theirs.filter p) := by
  intro record member
  obtain ⟨inMine, holds⟩ := List.mem_filter.mp member
  obtain ⟨other, inTheirs, same⟩ := among record inMine
  refine ⟨other, List.mem_filter.mpr ⟨inTheirs, ?_⟩, same⟩
  rw [← blind other, same, blind record, holds]

/-- The first records are among the second ones, and none is missing but for those released. -/
structure Fewer (gone : Released) (mine theirs : List BorrowRecord) : Prop where
  part : Among mine theirs
  same : (mine.filter gone.keeps).map BorrowRecord.unpinned =
    (theirs.filter gone.keeps).map BorrowRecord.unpinned

namespace Fewer

open BorrowRecord

variable {gone : Released} {mine theirs : List BorrowRecord}

theorem refl (gone : Released) (records : List BorrowRecord) : Fewer gone records records :=
  ⟨fun record member => ⟨record, member, rfl⟩, rfl⟩

/-- A condition that does not look at pins selects the same records with and without them. -/
theorem filter_map_unpinned {p : BorrowRecord → Bool} (blind : ∀ record, p record.unpinned = p record)
    (records : List BorrowRecord) :
    (records.filter p).map unpinned = (records.map unpinned).filter p := by
  rw [List.filter_map]
  congr 2
  funext record
  exact (blind record).symm

theorem filter {p : BorrowRecord → Bool} (fewer : Fewer gone mine theirs)
    (blind : ∀ record, p record.unpinned = p record) :
    Fewer gone (mine.filter p) (theirs.filter p) := by
  refine ⟨fewer.part.filter blind, ?_⟩
  have swapped : ∀ records : List BorrowRecord,
      ((records.filter p).filter gone.keeps).map unpinned =
        ((records.filter gone.keeps).map unpinned).filter p := by
    intro records
    rw [List.filter_comm, filter_map_unpinned blind]
  rw [swapped, swapped, fewer.same]

theorem map {f g effect : BorrowRecord → BorrowRecord} (fewer : Fewer gone mine theirs)
    (first : ∀ record, (f record).unpinned = effect record.unpinned)
    (second : ∀ record, (g record).unpinned = effect record.unpinned)
    (id : ∀ record, (effect record).id = record.id) : Fewer gone (mine.map f) (theirs.map g) := by
  have sameId : ∀ (h : BorrowRecord → BorrowRecord) (record : BorrowRecord),
      (h record).unpinned = effect record.unpinned → (h record).id = record.id := by
    intro h record known
    have known : (h record).unpinned.id = (effect record.unpinned).id := by rw [known]
    exact known.trans (id record.unpinned)
  constructor
  · intro record member
    obtain ⟨old, inMine, rfl⟩ := List.mem_map.mp member
    obtain ⟨other, inTheirs, same⟩ := fewer.part old inMine
    exact ⟨g other, List.mem_map_of_mem inTheirs, by rw [second, first, same]⟩
  · have moved : ∀ (records : List BorrowRecord) (h : BorrowRecord → BorrowRecord),
        (∀ record, (h record).unpinned = effect record.unpinned) →
        ((records.map h).filter gone.keeps).map unpinned =
          ((records.filter gone.keeps).map unpinned).map effect := by
      intro records h known
      rw [List.filter_map, List.map_map, List.map_map]
      have keeps : gone.keeps ∘ h = gone.keeps := by
        funext record
        simp only [Function.comp_apply, Released.keeps, sameId h record (known record)]
      rw [keeps]
      exact List.map_congr_left fun record _ => known record
    rw [moved mine f first, moved theirs g second, fewer.same]

theorem append {more others : List BorrowRecord} (fewer : Fewer gone mine theirs)
    (same : more.map unpinned = others.map unpinned) : Fewer gone (mine ++ more) (theirs ++ others) := by
  constructor
  · intro record member
    rcases List.mem_append.mp member with inMine | inMore
    · obtain ⟨other, inTheirs, known⟩ := fewer.part record inMine
      exact ⟨other, List.mem_append_left _ inTheirs, known⟩
    · obtain ⟨other, inOthers, known⟩ := mem_of_unpinned same.symm inMore
      exact ⟨other, List.mem_append_right _ inOthers, known⟩
  · have blind : ∀ record : BorrowRecord, gone.keeps record.unpinned = gone.keeps record :=
      fun _ => rfl
    rw [List.filter_append, List.filter_append, List.map_append, List.map_append, fewer.same,
      filter_map_unpinned blind more, filter_map_unpinned blind others, same]

/-- The same borrows with other pins. -/
theorem repin {others more : List BorrowRecord} (fewer : Fewer gone mine theirs)
    (first : others.map unpinned = mine.map unpinned)
    (second : more.map unpinned = theirs.map unpinned) : Fewer gone others more := by
  have blind : ∀ record : BorrowRecord, gone.keeps record.unpinned = gone.keeps record :=
    fun _ => rfl
  constructor
  · intro record member
    obtain ⟨old, isMine, sameOld⟩ := mem_of_unpinned first.symm member
    obtain ⟨other, isTheirs, sameOther⟩ := fewer.part old isMine
    obtain ⟨last, isMore, sameLast⟩ := mem_of_unpinned second isTheirs
    exact ⟨last, isMore, sameLast.trans (sameOther.trans sameOld)⟩
  · rw [filter_map_unpinned blind, filter_map_unpinned blind, first, second,
      ← filter_map_unpinned blind, ← filter_map_unpinned blind, fewer.same]

/-- Records that are not released are selected on both sides. -/
theorem filter_eq {p : BorrowRecord → Bool} (fewer : Fewer gone mine theirs)
    (blind : ∀ record, p record.unpinned = p record)
    (kept : ∀ record ∈ theirs, p record = true → gone.ids record.id = false) :
    (mine.filter p).map unpinned = (theirs.filter p).map unpinned := by
  have only : ∀ records : List BorrowRecord,
      (∀ record ∈ records, p record = true → gone.ids record.id = false) →
      (records.filter p).map unpinned = ((records.filter gone.keeps).map unpinned).filter p := by
    intro records keptHere
    rw [← filter_map_unpinned blind, List.filter_filter]
    congr 1
    refine List.filter_congr fun record member => ?_
    cases holds : p record with
    | false => rfl
    | true => simp [Released.keeps, keptHere record member holds]
  rw [only mine, only theirs kept, fewer.same]
  intro record inMine holds
  obtain ⟨other, inTheirs, same⟩ := fewer.part record inMine
  rw [← (fields_of_unpinned same).1]
  exact kept other inTheirs (by rw [← blind other, same, blind record, holds])

/-- A borrow that is not released is found on both sides. -/
theorem find?_eq (fewer : Fewer gone mine theirs) {id : BorrowId} (kept : gone.ids id = false) :
    (mine.find? fun record => record.id = id).map unpinned =
      (theirs.find? fun record => record.id = id).map unpinned := by
  have only : ∀ records : List BorrowRecord,
      (records.find? fun record => record.id = id).map unpinned =
        ((records.filter gone.keeps).map unpinned).find? fun record => record.id = id := by
    intro records
    rw [List.find?_map, List.find?_filter]
    congr 2
    funext record
    by_cases same : record.id = id
    · simp [Released.keeps, unpinned, same, kept]
    · simp [unpinned, same]
  rw [only, only, fewer.same]

end Fewer

end BorrowLang
