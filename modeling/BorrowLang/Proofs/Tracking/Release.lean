import BorrowLang.Tracker
import Mathlib.Data.List.Nodup
import Mathlib.Data.List.Perm.Subperm
import Mathlib.Logic.Function.Iterate
import Mathlib.Order.Bounds.Defs

/-!
# Borrows that end with their holders

A borrow stays while it is needed: as a temporary's, because it is pinned, because its holder is live,
or because its holder's storage is borrowed by one that is needed.  The rounds that look for live
holders come to rest, and then exactly the borrows that are needed stay.
-/

set_option autoImplicit false

namespace BorrowLang

theorem nodup_eraseDups (places : List PlaceId) : places.eraseDups.Nodup := by
  match places with
  | [] => simp
  | place :: rest =>
      rw [List.eraseDups_cons, List.nodup_cons]
      refine ⟨?_, nodup_eraseDups (rest.filter fun other => !other == place)⟩
      rw [List.mem_eraseDups]
      simp
termination_by places.length
decreasing_by exact Nat.lt_succ_of_le (List.length_filter_le _ _)

namespace Tracker

variable {t : Tracker} {arena : Arena} {alive : List PlaceId} {isLive : PlaceId → Bool}

/-- Does a binding hold a borrow? -/
def holds (t : Tracker) (holder : PlaceId) : Bool := t.borrows.any (·.holder = some holder)

theorem holds_iff {holder : PlaceId} :
    t.holds holder = true ↔ ∃ record ∈ t.borrows, record.holder = some holder := by
  simp [holds]

/-- The bindings of the storage that a borrow of a live holder is of are live, if they hold any. -/
def Settled (t : Tracker) (arena : Arena) (alive : List PlaceId) : Prop :=
  ∀ record ∈ t.borrows, isKept alive record = true → t.holds (arena.root record.place) = true →
    arena.root record.place ∈ alive

/-! ### Rounds -/

/-- One record of a round. -/
def extendBy (t : Tracker) (arena : Arena) (alive : List PlaceId) (record : BorrowRecord) :
    List PlaceId :=
  let root := arena.root record.place
  if isKept alive record && t.holds root && !alive.contains root then root :: alive else alive

theorem extendAlive_eq (t : Tracker) (arena : Arena) (alive : List PlaceId) :
    t.extendAlive arena alive = t.borrows.foldl (t.extendBy arena) alive := rfl

/-- What a round adds are other bindings that hold borrows. -/
theorem foldl_extendBy (records : List BorrowRecord) (distinct : alive.Nodup) :
    ∃ more, records.foldl (t.extendBy arena) alive = more ++ alive ∧ (more ++ alive).Nodup ∧
      ∀ holder ∈ more, t.holds holder = true := by
  induction records generalizing alive with
  | nil => exact ⟨[], rfl, distinct, fun holder impossible => by simp at impossible⟩
  | cons record rest ih =>
      rw [List.foldl_cons]
      by_cases adds : (isKept alive record && t.holds (arena.root record.place) &&
          !alive.contains (arena.root record.place)) = true
      · have here : t.extendBy arena alive record = arena.root record.place :: alive := if_pos adds
        obtain ⟨⟨-, holds⟩, isNew⟩ : (isKept alive record = true ∧
            t.holds (arena.root record.place) = true) ∧ arena.root record.place ∉ alive := by
          simpa using adds
        rw [here]
        obtain ⟨more, same, distinctMore, each⟩ := ih (List.nodup_cons.mpr ⟨isNew, distinct⟩)
        refine ⟨more ++ [arena.root record.place], by simpa using same, by simpa using distinctMore,
          fun holder member => ?_⟩
        rcases List.mem_append.mp member with inMore | isRoot
        · exact each holder inMore
        · rw [List.mem_singleton.mp isRoot]
          exact holds
      · have here : t.extendBy arena alive record = alive := if_neg adds
        rw [here]
        exact ih distinct

/-- A round that adds nothing has found that nothing is missing. -/
theorem closed_of_foldl {records : List BorrowRecord} (distinct : alive.Nodup)
    (same : records.foldl (t.extendBy arena) alive = alive) :
    ∀ record ∈ records, isKept alive record = true → t.holds (arena.root record.place) = true →
      arena.root record.place ∈ alive := by
  induction records with
  | nil => exact fun record impossible => by simp at impossible
  | cons first rest ih =>
      rw [List.foldl_cons] at same
      by_cases adds : (isKept alive first && t.holds (arena.root first.place) &&
          !alive.contains (arena.root first.place)) = true
      · have here : t.extendBy arena alive first = arena.root first.place :: alive := if_pos adds
        have isNew : arena.root first.place ∉ alive := by
          simp only [Bool.and_eq_true] at adds
          simpa using adds.2
        obtain ⟨more, result, -, -⟩ :=
          @foldl_extendBy t arena _ rest (List.nodup_cons.mpr ⟨isNew, distinct⟩)
        rw [here, result] at same
        have lengths := congrArg List.length same
        rw [List.length_append, List.length_cons] at lengths
        omega
      · have here : t.extendBy arena alive first = alive := if_neg adds
        rw [here] at same
        intro record member kept holds
        rcases List.mem_cons.mp member with rfl | later
        · by_contra isNew
          exact adds (by simp [kept, holds, isNew])
        · exact ih same record later kept holds

/-- Enough rounds come to rest: the last one adds nothing to what the rounds before it have found. -/
theorem settleAlive_rests (rounds : Nat) (distinct : alive.Nodup)
    (each : ∀ holder ∈ alive, t.holds holder = true)
    (enough : t.borrows.length < rounds + alive.length) :
    let found := t.settleAlive arena rounds alive
    t.extendAlive arena found = found ∧ found.Nodup ∧ (∀ holder ∈ alive, holder ∈ found) ∧
      ∃ taken < rounds, found = (t.extendAlive arena)^[taken] alive := by
  induction rounds generalizing alive with
  | zero =>
      -- There cannot be more live holders than borrows.
      have part : alive ⊆ t.borrows.filterMap (·.holder) := by
        intro holder member
        obtain ⟨record, inBorrows, isHolder⟩ := holds_iff.mp (each holder member)
        exact List.mem_filterMap.mpr ⟨record, inBorrows, isHolder⟩
      have few := (List.subperm_of_subset distinct part).length_le
      have bound := List.length_filterMap_le (fun record : BorrowRecord => record.holder) t.borrows
      omega
  | succ rounds ih =>
      obtain ⟨more, result, distinctMore, eachMore⟩ :=
        @foldl_extendBy t arena alive t.borrows distinct
      rw [← extendAlive_eq] at result
      rw [settleAlive]
      by_cases done : (t.extendAlive arena alive).length = alive.length
      · rw [if_pos done]
        rw [result, List.length_append] at done
        obtain rfl : more = [] := List.eq_nil_of_length_eq_zero (by omega)
        exact ⟨result, distinct, fun holder member => member, 0, Nat.succ_pos rounds, rfl⟩
      · rw [if_neg done]
        have longer : alive.length < (more ++ alive).length := by
          rw [result, List.length_append] at done
          rw [List.length_append]
          omega
        have later := ih distinctMore (fun holder member =>
          (List.mem_append.mp member).elim (eachMore holder) (each holder)) (by omega)
        rw [← result] at later
        obtain ⟨rests, distinctFound, stays, taken, few, same⟩ := later
        refine ⟨rests, distinctFound, fun holder member => stays holder ?_, taken + 1,
          Nat.succ_lt_succ few, same⟩
        rw [result]
        exact List.mem_append_right _ member

/-- The live bindings among those that hold borrows. -/
def liveHolders (t : Tracker) (isLive : PlaceId → Bool) : List PlaceId :=
  (t.borrows.filterMap (·.holder)).eraseDups.filter isLive

theorem mem_liveHolders {holder : PlaceId} :
    holder ∈ t.liveHolders isLive ↔ isLive holder = true ∧ t.holds holder = true := by
  rw [liveHolders, List.mem_filter, List.mem_eraseDups, List.mem_filterMap, holds_iff, and_comm]

/-- The rounds start with the live holders and come to rest. -/
theorem aliveHolders_rests (t : Tracker) (arena : Arena) (isLive : PlaceId → Bool) :
    let found := t.aliveHolders arena isLive
    t.extendAlive arena found = found ∧ found.Nodup ∧
      (∀ holder ∈ t.liveHolders isLive, holder ∈ found) ∧
      ∃ taken ≤ t.borrows.length, found = (t.extendAlive arena)^[taken] (t.liveHolders isLive) := by
  obtain ⟨rests, distinct, stays, taken, few, same⟩ :=
    @settleAlive_rests t arena (t.liveHolders isLive) (t.borrows.length + 1)
      ((nodup_eraseDups _).filter isLive) (fun holder member => (mem_liveHolders.mp member).2)
      (by omega)
  exact ⟨rests, distinct, stays, taken, Nat.le_of_lt_succ few, same⟩

/-- The holders whose borrows stay are settled, and each that is live is one of them. -/
theorem aliveHolders_settled (t : Tracker) (arena : Arena) (isLive : PlaceId → Bool) :
    t.Settled arena (t.aliveHolders arena isLive) ∧
      ∀ holder, isLive holder = true → t.holds holder = true →
        holder ∈ t.aliveHolders arena isLive := by
  obtain ⟨rests, distinct, stays, -⟩ := t.aliveHolders_rests arena isLive
  exact ⟨closed_of_foldl distinct rests, fun holder live holds =>
    stays holder (mem_liveHolders.mpr ⟨live, holds⟩)⟩

/-! ### Borrows that are needed -/

/-- Active borrows, among them those of temporaries, the pinned ones, those of live bindings, and with
each borrow also those that the binding holds whose storage it is of. -/
structure Needed (t : Tracker) (arena : Arena) (isLive : PlaceId → Bool)
    (needed : Set BorrowRecord) : Prop where
  active : ∀ record ∈ needed, record ∈ t.borrows
  temporary : ∀ record ∈ t.borrows, record.holder = none → record ∈ needed
  pinned : ∀ record ∈ t.borrows, record.pinned = true → record ∈ needed
  live : ∀ record ∈ t.borrows, ∀ holder, record.holder = some holder → isLive holder = true →
    record ∈ needed
  behind : ∀ record ∈ needed, ∀ held ∈ t.borrows, held.holder = some (arena.root record.place) →
    held ∈ needed

/-- What a live binding holds is needed. -/
def AllNeeded (t : Tracker) (needed : Set BorrowRecord) (alive : List PlaceId) : Prop :=
  ∀ holder ∈ alive, ∀ record ∈ t.borrows, record.holder = some holder → record ∈ needed

theorem isKept_eq_true {record : BorrowRecord} : isKept alive record = true ↔
    record.holder = none ∨ record.pinned = true ∨ ∃ holder ∈ alive, record.holder = some holder := by
  rw [isKept]
  cases record.holder with
  | none => simp
  | some holder => simp

section Needed

variable {needed : Set BorrowRecord}

theorem Needed.kept (closed : t.Needed arena isLive needed) (known : t.AllNeeded needed alive)
    {record : BorrowRecord} (member : record ∈ t.borrows) (kept : isKept alive record = true) :
    record ∈ needed := by
  rcases isKept_eq_true.mp kept with free | pinned | ⟨holder, inAlive, held⟩
  · exact closed.temporary record member free
  · exact closed.pinned record member pinned
  · exact known holder inAlive record member held

/-- A round finds only bindings whose borrows are needed. -/
theorem Needed.foldl_extendBy (closed : t.Needed arena isLive needed) {records : List BorrowRecord}
    (part : ∀ record ∈ records, record ∈ t.borrows) (known : t.AllNeeded needed alive) :
    t.AllNeeded needed (records.foldl (t.extendBy arena) alive) := by
  induction records generalizing alive with
  | nil => exact known
  | cons record rest ih =>
      refine ih (fun other member => part other (List.mem_cons_of_mem _ member)) ?_
      by_cases adds : (isKept alive record && t.holds (arena.root record.place) &&
          !alive.contains (arena.root record.place)) = true
      · have here : t.extendBy arena alive record = arena.root record.place :: alive := if_pos adds
        have kept : isKept alive record = true := by
          simp only [Bool.and_eq_true] at adds
          exact adds.1.1
        rw [here]
        intro holder member other active held
        rcases List.mem_cons.mp member with rfl | old
        · exact closed.behind record (closed.kept known (part record List.mem_cons_self) kept)
            other active held
        · exact known holder old other active held
      · have here : t.extendBy arena alive record = alive := if_neg adds
        rw [here]
        exact known

theorem Needed.aliveHolders (closed : t.Needed arena isLive needed) :
    t.AllNeeded needed (t.aliveHolders arena isLive) := by
  obtain ⟨-, -, -, taken, -, same⟩ := t.aliveHolders_rests arena isLive
  rw [same]
  have start : t.AllNeeded needed (t.liveHolders isLive) :=
    fun holder member record active held =>
      closed.live record active holder held (mem_liveHolders.mp member).1
  exact Function.Iterate.rec (t.AllNeeded needed) start
    (fun _ known => closed.foldl_extendBy (fun _ member => member) known) taken

end Needed

theorem mem_releaseDead {record : BorrowRecord} :
    record ∈ (t.releaseDead arena isLive).1.borrows ↔
      record ∈ t.borrows ∧ isKept (t.aliveHolders arena isLive) record = true := List.mem_filter

/-- The borrows that stay are the least ones that are needed. -/
theorem isLeast_releaseDead (t : Tracker) (arena : Arena) (isLive : PlaceId → Bool) :
    IsLeast {needed | t.Needed arena isLive needed}
      {record | record ∈ (t.releaseDead arena isLive).1.borrows} := by
  obtain ⟨settled, stays⟩ := t.aliveHolders_settled arena isLive
  constructor
  · refine ⟨fun record member => (mem_releaseDead.mp member).1, fun record active free => ?_,
      fun record active pinned => ?_, fun record active holder held live => ?_,
      fun record member other active held => ?_⟩
    · exact mem_releaseDead.mpr ⟨active, isKept_eq_true.mpr (Or.inl free)⟩
    · exact mem_releaseDead.mpr ⟨active, isKept_eq_true.mpr (Or.inr (Or.inl pinned))⟩
    · have inAlive := stays holder live (holds_iff.mpr ⟨record, active, held⟩)
      exact mem_releaseDead.mpr
        ⟨active, isKept_eq_true.mpr (Or.inr (Or.inr ⟨holder, inAlive, held⟩))⟩
    · obtain ⟨inBorrows, kept⟩ := mem_releaseDead.mp member
      have inAlive := settled record inBorrows kept (holds_iff.mpr ⟨other, active, held⟩)
      exact mem_releaseDead.mpr ⟨active, isKept_eq_true.mpr (Or.inr (Or.inr ⟨_, inAlive, held⟩))⟩
  · intro needed closed record member
    obtain ⟨active, kept⟩ := mem_releaseDead.mp member
    exact closed.kept closed.aliveHolders active kept

/-- With more live bindings at least the same borrows stay, in the same order. -/
theorem releaseDead_sublist {more : PlaceId → Bool}
    (wider : ∀ holder, isLive holder = true → more holder = true) :
    (t.releaseDead arena isLive).1.borrows.Sublist (t.releaseDead arena more).1.borrows := by
  have closed := (t.isLeast_releaseDead arena more).1
  have part := (t.isLeast_releaseDead arena isLive).2
    { closed with
      live := fun record active holder held live =>
        closed.live record active holder held (wider holder live) }
  have twice : (t.releaseDead arena isLive).1.borrows =
      (t.releaseDead arena more).1.borrows.filter (isKept (t.aliveHolders arena isLive)) := by
    simp only [releaseDead, List.filter_filter]
    refine List.filter_congr fun record active => ?_
    cases kept : isKept (t.aliveHolders arena isLive) record with
    | false => rfl
    | true => exact (mem_releaseDead.mp (part (mem_releaseDead.mpr ⟨active, kept⟩))).2.symm
  rw [twice]
  exact List.filter_sublist

/-- Nothing that stays becomes releasable by what has ended: a second time nothing ends. -/
theorem releaseDead_again (t : Tracker) (arena : Arena) (isLive : PlaceId → Bool) :
    (t.releaseDead arena isLive).1.releaseDead arena isLive =
      ((t.releaseDead arena isLive).1, []) := by
  obtain ⟨closed, least⟩ := t.isLeast_releaseDead arena isLive
  obtain ⟨still, -⟩ := (t.releaseDead arena isLive).1.isLeast_releaseDead arena isLive
  -- What stays the second time is all that is needed the first time.
  have part := least
    { active := fun record member => closed.active record (still.active record member)
      temporary := fun record active free =>
        still.temporary record (closed.temporary record active free) free
      pinned := fun record active pinned =>
        still.pinned record (closed.pinned record active pinned) pinned
      live := fun record active holder held live =>
        still.live record (closed.live record active holder held live) holder held live
      behind := fun record member held active isHeld =>
        still.behind record member held
          (closed.behind record (still.active record member) held active isHeld) isHeld }
  have kept : ∀ record ∈ (t.releaseDead arena isLive).1.borrows,
      isKept ((t.releaseDead arena isLive).1.aliveHolders arena isLive) record = true :=
    fun record member => (mem_releaseDead.mp (part member)).2
  generalize (t.releaseDead arena isLive).1 = after at kept
  have none : after.borrows.filter (fun record =>
      !isKept (after.aliveHolders arena isLive) record) = [] :=
    List.filter_eq_nil_iff.mpr fun record member => by simp [kept record member]
  simp only [releaseDead, List.filter_eq_self.mpr kept, none, List.map_nil]

/-- The numbers of the borrows that end are the others, in their order. -/
theorem ended_ascending (ascending : (t.borrows.map (·.id)).Pairwise (· < ·)) :
    (t.releaseDead arena isLive).2.Pairwise (· < ·) ∧
      ∀ id, id ∈ (t.releaseDead arena isLive).2 ↔
        id ∈ t.borrows.map (·.id) ∧ id ∉ (t.releaseDead arena isLive).1.borrows.map (·.id) := by
  refine ⟨ascending.sublist (List.filter_sublist.map _), fun id => ?_⟩
  have distinct : (t.borrows.map (·.id)).Nodup := ascending.imp fun less => Nat.ne_of_lt less
  constructor
  · intro member
    obtain ⟨record, inDead, rfl⟩ := List.mem_map.mp member
    obtain ⟨active, dead⟩ := List.mem_filter.mp inDead
    refine ⟨List.mem_map_of_mem active, fun stays => ?_⟩
    obtain ⟨other, otherStays, same⟩ := List.mem_map.mp stays
    obtain ⟨otherActive, kept⟩ := mem_releaseDead.mp otherStays
    rw [List.inj_on_of_nodup_map distinct otherActive active same] at kept
    simp [kept] at dead
  · rintro ⟨member, gone⟩
    obtain ⟨record, active, rfl⟩ := List.mem_map.mp member
    refine List.mem_map_of_mem (List.mem_filter.mpr ⟨active, ?_⟩)
    have dead := mt (fun kept => List.mem_map_of_mem (mem_releaseDead.mpr ⟨active, kept⟩)) gone
    simpa using dead

/-- The rounds that look for live holders come to rest within as many as there are borrows.  Then
exactly the borrows stay that are needed, in their order, and nothing else changes; the numbers of the
others are handed out in ascending order.  A second time nothing ends, and with more live bindings at
least the same borrows stay. -/
theorem releaseDead_needed (t : Tracker) (arena : Arena) (isLive : PlaceId → Bool)
    (ascending : (t.borrows.map (·.id)).Pairwise (· < ·)) :
    let alive := t.aliveHolders arena isLive
    let after := (t.releaseDead arena isLive).1
    let ended := (t.releaseDead arena isLive).2
    (t.extendAlive arena alive = alive ∧ ∃ taken ≤ t.borrows.length,
      alive = (t.extendAlive arena)^[taken] (t.liveHolders isLive)) ∧
    after = { t with borrows := after.borrows } ∧
    after.borrows.Sublist t.borrows ∧
    IsLeast {needed | t.Needed arena isLive needed} {record | record ∈ after.borrows} ∧
    ended.Pairwise (· < ·) ∧
    (∀ id, id ∈ ended ↔ id ∈ t.borrows.map (·.id) ∧ id ∉ after.borrows.map (·.id)) ∧
    after.releaseDead arena isLive = (after, []) ∧
    ∀ more : PlaceId → Bool, (∀ holder, isLive holder = true → more holder = true) →
      after.borrows.Sublist (t.releaseDead arena more).1.borrows := by
  intro alive after ended
  obtain ⟨rests, -, -, rounds⟩ := t.aliveHolders_rests arena isLive
  obtain ⟨ordered, others⟩ := @ended_ascending t arena isLive ascending
  exact ⟨⟨rests, rounds⟩, rfl, List.filter_sublist, t.isLeast_releaseDead arena isLive, ordered,
    others, t.releaseDead_again arena isLive, fun _ wider => releaseDead_sublist wider⟩

/-- An integer, references to it and through one another, and one more reference. -/
def reborrowPlaces : Arena where
  places := #[{ kind := .local "n" false false, ty := some .i32 },
    { kind := .local "p" false false, ty := some (.ref false .i32), child := some 2 },
    { kind := .target 1 .sharedRef, ty := some .i32 },
    { kind := .local "q" false false, ty := some (.ref false .i32), child := some 4 },
    { kind := .target 3 .sharedRef, ty := some .i32 },
    { kind := .local "r" false false, ty := some (.ref false .i32) },
    { kind := .local "s" false false, ty := some (.ref false .i32) }]

/-- `p` borrows `n`, `q` borrows `*p`, `r` borrows `*q`, and `s` borrows `n`. -/
def reborrows : Tracker where
  borrows := [⟨0, 0, .shared, some 1, false, none⟩, ⟨1, 2, .shared, some 3, false, none⟩,
    ⟨2, 4, .shared, some 5, false, none⟩, ⟨3, 0, .shared, some 6, false, none⟩]

/-- Where only `r` is live, what `q` and `p` hold is needed too. -/
theorem releaseDead_needed_reborrows :
    (reborrows.borrows.map (·.id)).Pairwise (· < ·) ∧
      (reborrows.releaseDead reborrowPlaces (· == 5)).2 = [3] ∧
      IsLeast {needed | reborrows.Needed reborrowPlaces (· == 5) needed}
        {record | record ∈ reborrows.borrows.take 3} := by
  have ascending : (reborrows.borrows.map (·.id)).Pairwise (· < ·) := by decide
  have stays : (reborrows.releaseDead reborrowPlaces (· == 5)).1.borrows =
      reborrows.borrows.take 3 := by decide +kernel
  obtain ⟨-, -, -, least, -⟩ := reborrows.releaseDead_needed reborrowPlaces (· == 5) ascending
  rw [stays] at least
  exact ⟨ascending, by decide +kernel, least⟩

end Tracker

end BorrowLang
