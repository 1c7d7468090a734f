import BorrowLang.Proofs.Lifetimes.Uses
import BorrowLang.Proofs.Tracking.Release

/-!
# Ending borrows early

A borrow that stays is of storage that is either no reference or held by a live binding.  So the
bindings whose borrows end are not reached from any borrow that stays, and none of them is mentioned
later.
-/

set_option autoImplicit false

namespace BorrowLang

/-- What is released once the borrows of bindings that are not live have ended as well. -/
def Released.extend (gone : Released) (mine : Tracker) (theirs : List BorrowRecord)
    (alive : List PlaceId) : Released :=
  let holders holder := gone.holders holder || (mine.holds holder && !alive.contains holder)
  { holders, ids := fun id =>
      gone.ids id || theirs.any fun record => record.id = id && record.holder.any holders }

namespace Checker

variable {gone : Released} {s t : State}

/-- The number of a borrow tells it apart. -/
theorem Registered.eq_of_id {arena : Arena} {next : BorrowId} {records : List BorrowRecord}
    (registered : Registered gone arena next records) {record other : BorrowRecord}
    (first : record ∈ records) (second : other ∈ records) (same : record.id = other.id) :
    record = other := by
  have distinct : (records.map (·.id)).Nodup :=
    registered.ascending.imp fun less => Nat.ne_of_lt less
  exact List.inj_on_of_nodup_map distinct first second same

section Extend

variable {alive : List PlaceId}

theorem Released.extend_holders {mine : Tracker} {theirs : List BorrowRecord} {holder : PlaceId}
    (kept : (gone.extend mine theirs alive).holders holder = false) :
    gone.holders holder = false ∧ (mine.holds holder = true → holder ∈ alive) := by
  simp only [Released.extend, Bool.or_eq_false_iff, Bool.and_eq_false_iff] at kept
  refine ⟨kept.1, fun holds => ?_⟩
  simpa [holds] using kept.2

/-- A borrow is released just when its holder is. -/
theorem Ledger.extend_held (ledger : Ledger gone t) (mine : Tracker) {record : BorrowRecord}
    (member : record ∈ t.tracker.borrows) :
    (gone.extend mine t.tracker.borrows alive).ids record.id =
      record.holder.any (gone.extend mine t.tracker.borrows alive).holders := by
  cases kept : record.holder.any (gone.extend mine t.tracker.borrows alive).holders with
  | true =>
      have found : (t.tracker.borrows.any fun other => other.id = record.id &&
          other.holder.any (gone.extend mine t.tracker.borrows alive).holders) = true :=
        List.any_eq_true.mpr ⟨record, member, by simp [kept]⟩
      simp only [Released.extend] at found ⊢
      rw [found, Bool.or_true]
  | false =>
      refine Bool.or_eq_false_iff.mpr ⟨?_, ?_⟩
      · refine (ledger.records.each record member).kept ?_
        cases isHolder : record.holder with
        | none => rfl
        | some holder =>
            rw [isHolder] at kept
            exact (Released.extend_holders kept).1
      · refine List.any_eq_false.mpr fun other inTheirs found => ?_
        obtain ⟨sameId, released⟩ := Bool.and_eq_true_iff.mp found
        obtain rfl := ledger.records.eq_of_id inTheirs member (by simpa using sameId)
        exact Bool.false_ne_true (kept.symm.trans released)

/-- A stored borrow that is not released stays. -/
theorem Trails.isKept (trails : Trails gone s t) (ledger : Ledger gone t)
    (stored : ∀ record ∈ t.tracker.borrows, record.holder.isSome) {record : BorrowRecord}
    (member : record ∈ s.tracker.borrows)
    (kept : (gone.extend s.tracker t.tracker.borrows alive).ids record.id = false) :
    Tracker.isKept alive record = true := by
  obtain ⟨other, inTheirs, unpinned⟩ := trails.borrows.part record member
  obtain ⟨id, -, -, sameHolder⟩ := BorrowRecord.fields_of_unpinned unpinned
  obtain ⟨holder, isHolder⟩ := Option.isSome_iff_exists.mp (stored other inTheirs)
  rw [← id, ledger.extend_held s.tracker inTheirs, isHolder] at kept
  have isHolder : record.holder = some holder := sameHolder.symm.trans isHolder
  have holds : s.tracker.holds holder = true :=
    List.any_eq_true.mpr ⟨record, member, by simpa using isHolder⟩
  have isAlive := (Released.extend_holders kept).2 holds
  simp [Tracker.isKept, isHolder, isAlive]

end Extend

/-- The loose check may end the borrows of bindings that are not mentioned later. -/
theorem release_trails (trails : Trails gone s t) (ledger : Ledger gone t)
    (stored : ∀ record ∈ t.tracker.borrows, record.holder.isSome) :
    ∃ more, Trails more { s with tracker := (s.tracker.releaseDead s.arena s.isLive).1 } t ∧
      Ledger more t ∧ ∀ holder, more.holders holder = true →
        gone.holders holder = true ∨ t.isLive holder = false := by
  obtain ⟨settled, stays⟩ := s.tracker.aliveHolders_settled s.arena s.isLive
  simp only [Tracker.releaseDead]
  generalize s.tracker.aliveHolders s.arena s.isLive = alive at settled stays ⊢
  refine ⟨gone.extend s.tracker t.tracker.borrows alive, ?_, ?_, ?_⟩
  · refine { trails with borrows := ⟨fun record member => ?_, ?_⟩ }
    · exact trails.borrows.part record (List.mem_of_mem_filter member)
    · rw [List.filter_filter]
      have same : s.tracker.borrows.filter (fun record =>
            (gone.extend s.tracker t.tracker.borrows alive).keeps record &&
              Tracker.isKept alive record) =
          s.tracker.borrows.filter (gone.extend s.tracker t.tracker.borrows alive).keeps := by
        refine List.filter_congr fun record member => ?_
        cases keeps : (gone.extend s.tracker t.tracker.borrows alive).keeps record with
        | false => rfl
        | true => rw [trails.isKept ledger stored member (by simpa [Released.keeps] using keeps)]; rfl
      rw [same]
      refine trails.borrows.filter_eq (fun _ => rfl) fun record _ keeps => ?_
      have kept : (gone.extend s.tracker t.tracker.borrows alive).ids record.id = false := by
        simpa [Released.keeps] using keeps
      exact (Bool.or_eq_false_iff.mp kept).1
  · refine ⟨ledger.linked, ledger.bound, ⟨ledger.records.ascending, fun record member => ?_⟩, ?_, ?_⟩
    · have entered := ledger.records.each record member
      refine ⟨entered.fresh, entered.there, entered.holder, ledger.extend_held s.tracker member, ?_⟩
      intro kept
      have old := (Bool.or_eq_false_iff.mp kept).1
      refine Bool.or_eq_false_iff.mpr ⟨entered.closed old, Bool.and_eq_false_iff.mpr ?_⟩
      -- The loose check knows the borrow too, so the binding of its storage is live.
      obtain ⟨mine, inMine, unpinned⟩ := BorrowRecord.mem_of_unpinned trails.borrows.same
        (List.mem_filter.mpr ⟨member, by simp [Released.keeps, old]⟩)
      obtain ⟨id, place, -, -⟩ := BorrowRecord.fields_of_unpinned unpinned
      have inMine := List.mem_of_mem_filter inMine
      have isKept := trails.isKept ledger stored inMine (id ▸ kept)
      have live := settled mine inMine isKept
      rw [place, trails.arena] at live
      by_cases holds : s.tracker.holds (t.arena.root record.place) = true
      · exact Or.inr (by simp [live holds])
      · exact Or.inl (by simpa using holds)
    · intro holder released
      rcases (Bool.or_eq_true _ _).mp released with old | new
      · exact ledger.holders holder old
      · obtain ⟨record, member, isHolder⟩ := List.any_eq_true.mp (Bool.and_eq_true_iff.mp new).1
        obtain ⟨other, inTheirs, unpinned⟩ := trails.borrows.part record member
        have sameHolder := (BorrowRecord.fields_of_unpinned unpinned).2.2.2
        exact (ledger.records.each other inTheirs).holder holder
          (sameHolder.trans (by simpa using isHolder))
    · intro id released
      rcases (Bool.or_eq_true _ _).mp released with old | new
      · exact ledger.ids id old
      · obtain ⟨record, member, found⟩ := List.any_eq_true.mp new
        obtain rfl : record.id = id := by simpa using (Bool.and_eq_true_iff.mp found).1
        exact (ledger.records.each record member).fresh
  · intro holder released
    rcases (Bool.or_eq_true _ _).mp released with old | new
    · exact Or.inl old
    · obtain ⟨holds, notAlive⟩ := Bool.and_eq_true_iff.mp new
      refine Or.inr ?_
      cases isLive : t.isLive holder with
      | false => rfl
      | true =>
          have same : s.isLive holder = true := by
            rw [State.isLive, trails.live, trails.arena]
            exact isLive
          simp [stays holder same holds] at notAlive

end Checker

end BorrowLang
