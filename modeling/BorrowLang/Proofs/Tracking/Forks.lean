import BorrowLang.Proofs.Lifetimes.Places
import BorrowLang.Proofs.Tracking.Operations

/-!
# Trackers forked from one

Operations on a tracker and on its forks follow one another in any order, while more places are named;
forks may be joined again.  Since the forks share the numbers of borrows, a number stands for the same
place and kind in each of them.
-/

set_option autoImplicit false

namespace BorrowLang

/-- Trackers that were forked from one, over the places of one function, and the next free number. -/
structure Forks where
  arena : Arena := {}
  next : BorrowId := 1
  trackers : List Tracker := [{}]

namespace Forks

/-- What happens to trackers and places.  Trackers are told by their position. -/
inductive Event
  | addLocal (name : String) (ty : Option Ty) (isMut isParam : Bool)
  | target (parent : PlaceId) (via : Via) (ty : Option Ty)
  | act (index : Nat) (op : Tracker.Op)
  | fork (index : Nat)
  | join (index other : Nat)

/-- The trackers and places after an event; what does not exist is left alone. -/
def apply (s : Forks) : Event → Forks
  | .addLocal name ty isMut isParam =>
      { s with arena := (s.arena.addLocal name ty isMut isParam).1 }
  | .target parent via ty =>
      if parent < s.arena.size then { s with arena := (s.arena.target parent via ty).1 } else s
  | .act index op =>
      match s.trackers[index]? with
      | none => s
      | some t =>
          let (after, next) := t.apply s.arena s.next op
          { s with next, trackers := s.trackers.set index after }
  | .fork index =>
      match s.trackers[index]? with
      | none => s
      | some t => { s with trackers := s.trackers ++ [t] }
  | .join index other =>
      match s.trackers[index]?, s.trackers[other]? with
      | some t, some u => { s with trackers := s.trackers.set index (t.join u) }
      | _, _ => s

/-- The trackers and places after some events, one after another. -/
def run (s : Forks) (events : List Event) : Forks := events.foldl apply s

/-- What an event can come to: nothing, more places, or a change of one tracker. -/
inductive Moves (s : Forks) : Event → Forks → Prop
  | stay (event : Event) : Moves s event s
  | grow (event : Event) {arena : Arena} (linked : arena.Linked) (grows : s.arena.Grows arena) :
      Moves s event { s with arena }
  | act (index : Nat) (op : Tracker.Op) {t : Tracker} (found : t ∈ s.trackers) :
      Moves s (.act index op)
        { s with
          next := (t.apply s.arena s.next op).2
          trackers := s.trackers.set index (t.apply s.arena s.next op).1 }
  | fork (index : Nat) {t : Tracker} (found : t ∈ s.trackers) :
      Moves s (.fork index) { s with trackers := s.trackers ++ [t] }
  | join (index other : Nat) {t u : Tracker} (found : t ∈ s.trackers) (foundOther : u ∈ s.trackers) :
      Moves s (.join index other) { s with trackers := s.trackers.set index (t.join u) }

theorem apply_moves {s : Forks} (linked : s.arena.Linked) (event : Event) :
    Moves s event (s.apply event) := by
  cases event with
  | addLocal name ty isMut isParam =>
      exact .grow _ (Arena.addLocal_rooted linked name ty isMut isParam).1
        (Arena.addLocal_grows _ _ _ _ _)
  | target parent via ty =>
      rw [apply]
      by_cases there : parent < s.arena.size
      · rw [if_pos there]
        exact .grow _ (Arena.target_linked linked there via ty)
          (Arena.target_grows linked parent via ty)
      · rw [if_neg there]
        exact .stay _
  | act index op =>
      rw [apply]
      cases found : s.trackers[index]? with
      | none => exact .stay _
      | some t => exact .act index op (List.mem_of_getElem? found)
  | fork index =>
      rw [apply]
      cases found : s.trackers[index]? with
      | none => exact .stay _
      | some t => exact .fork index (List.mem_of_getElem? found)
  | join index other =>
      rw [apply]
      split
      · rename_i t u found foundOther
        exact .join index other (List.mem_of_getElem? found) (List.mem_of_getElem? foundOther)
      · exact .stay _

/-! ### What numbers stand for -/

/-- Active borrows are of places that exist, and are what their numbers stand for. -/
structure Accords (arena : Arena) (meaning : BorrowId → PlaceId × BorrowKind) (next : BorrowId)
    (record : BorrowRecord) : Prop where
  fresh : record.id < next
  there : record.place < arena.size
  means : meaning record.id = (record.place, record.kind)

variable {arena arena' : Arena} {meaning meaning' : BorrowId → PlaceId × BorrowKind}
  {next next' : BorrowId}

theorem Accords.mono {record : BorrowRecord} (accords : Accords arena meaning next record)
    (size : arena.size ≤ arena'.size) (more : next ≤ next')
    (same : ∀ id < next, meaning' id = meaning id) : Accords arena' meaning' next' record where
  fresh := Nat.lt_of_lt_of_le accords.fresh more
  there := Nat.lt_of_lt_of_le accords.there size
  means := (same record.id accords.fresh).trans accords.means

theorem Accords.of_claim {record other : BorrowRecord} (accords : Accords arena meaning next other)
    (same : other.claim = record.claim) : Accords arena meaning next record := by
  obtain ⟨id, place, kind⟩ := BorrowRecord.claim_inj same
  exact ⟨id ▸ accords.fresh, place ▸ accords.there, id ▸ place ▸ kind ▸ accords.means⟩

/-- Records of which all claims are those of records that accord do so as well. -/
theorem accords_of_claims {records after : List BorrowRecord}
    (accords : ∀ record ∈ records, Accords arena meaning next record)
    (part : after.map BorrowRecord.claim ⊆ records.map BorrowRecord.claim) :
    ∀ record ∈ after, Accords arena meaning next record := by
  intro record member
  obtain ⟨old, inRecords, same⟩ := List.mem_map.mp (part (List.mem_map_of_mem member))
  exact (accords old inRecords).of_claim same

/-- A new borrow has a number that stood for nothing. -/
theorem accords_push {records : List BorrowRecord} {record : BorrowRecord}
    (accords : ∀ old ∈ records, Accords arena meaning record.id old)
    (there : record.place < arena.size) :
    ∃ meaning', (∀ id < record.id, meaning' id = meaning id) ∧
      ∀ old ∈ records ++ [record], Accords arena meaning' (record.id + 1) old := by
  have same : ∀ id < record.id,
      Function.update meaning record.id (record.place, record.kind) id = meaning id :=
    fun id below => Function.update_of_ne (Nat.ne_of_lt below) _ _
  refine ⟨_, same, fun old member => ?_⟩
  rcases List.mem_append.mp member with inRecords | isNew
  · exact (accords old inRecords).mono (Nat.le_refl _) (Nat.le_succ _) same
  · rw [List.mem_singleton.mp isNew]
    exact ⟨Nat.lt_succ_self _, there, Function.update_self ..⟩

/-- Numbers that are handed out in the course of changes stand for the borrows that get them. -/
theorem accords_changes {copied : BorrowKind → Prop} {records after : List BorrowRecord}
    (changes : Tracker.Changes arena copied records next after next')
    (accords : ∀ record ∈ records, Accords arena meaning next record) :
    next ≤ next' ∧ ∃ meaning', (∀ id < next, meaning' id = meaning id) ∧
      ∀ record ∈ after, Accords arena meaning' next' record := by
  induction changes generalizing meaning with
  | fewer part =>
      exact ⟨Nat.le_refl _, meaning, fun _ _ => rfl, accords_of_claims accords part.subset⟩
  | begun record there room => exact ⟨Nat.le_succ _, accords_push accords there⟩
  | copied copy member place kind may =>
      exact ⟨Nat.le_succ _, accords_push accords (place ▸ (accords _ member).there)⟩
  | trans before after ih ihAfter =>
      obtain ⟨more, meaning', same, mid⟩ := ih accords
      obtain ⟨moreAfter, meaning'', sameAfter, last⟩ := ihAfter mid
      exact ⟨Nat.le_trans more moreAfter, meaning'', fun id below =>
        (sameAfter id (Nat.lt_of_lt_of_le below more)).trans (same id below), last⟩

/-! ### Runs -/

/-- Targets know what points at them, and all active borrows accord. -/
structure Sound (s : Forks) (meaning : BorrowId → PlaceId × BorrowKind) : Prop where
  linked : s.arena.Linked
  accords : ∀ t ∈ s.trackers, ∀ record ∈ t.borrows, Accords s.arena meaning s.next record

variable {s : Forks}

theorem sound_start (meaning : BorrowId → PlaceId × BorrowKind) : Sound {} meaning := by
  refine ⟨Arena.linked_empty, fun t member record inBorrows => ?_⟩
  rw [List.mem_singleton.mp member] at inBorrows
  exact absurd inBorrows List.not_mem_nil

theorem Sound.grow (sound : s.Sound meaning) {arena : Arena} (linked : arena.Linked)
    (grows : s.arena.Grows arena) : Sound { s with arena } meaning :=
  ⟨linked, fun t member record inBorrows =>
    (sound.accords t member record inBorrows).mono grows.size (Nat.le_refl _) fun _ _ => rfl⟩

/-- One of the trackers is replaced by another, and new numbers have got a meaning. -/
theorem Sound.set (sound : s.Sound meaning) (index : Nat) {t : Tracker} (more : s.next ≤ next')
    (same : ∀ id < s.next, meaning' id = meaning id)
    (accords : ∀ record ∈ t.borrows, Accords s.arena meaning' next' record) :
    Sound { s with next := next', trackers := s.trackers.set index t } meaning' := by
  refine ⟨sound.linked, fun other member record inBorrows => ?_⟩
  rcases List.mem_or_eq_of_mem_set member with old | rfl
  · exact (sound.accords other old record inBorrows).mono (Nat.le_refl _) more same
  · exact accords record inBorrows

theorem Sound.moves {after : Forks} {event : Event} (sound : s.Sound meaning)
    (moves : Moves s event after) : ∃ meaning', after.Sound meaning' := by
  cases moves with
  | stay => exact ⟨meaning, sound⟩
  | grow _ linked grows => exact ⟨meaning, sound.grow linked grows⟩
  | @act index op t found =>
      obtain ⟨more, meaning', same, accords⟩ :=
        accords_changes (Tracker.apply_changes s.arena s.next t op) (sound.accords t found)
      exact ⟨meaning', sound.set index more same accords⟩
  | @fork index t found =>
      refine ⟨meaning, sound.linked, fun other member => ?_⟩
      rcases List.mem_append.mp member with old | isFork
      · exact sound.accords other old
      · rw [List.mem_singleton.mp isFork]
        exact sound.accords t found
  | @join index other t u found foundOther =>
      have both : ∀ record ∈ t.borrows ++ u.borrows, Accords s.arena meaning s.next record :=
        fun record member => (List.mem_append.mp member).elim
          (sound.accords t found record) (sound.accords u foundOther record)
      have means := fun record known => (both record known).means
      refine ⟨meaning, sound.set index (Nat.le_refl _) (fun _ _ => rfl) (accords_of_claims both ?_)⟩
      exact fun claim member => (Tracker.mem_claims_join means).mp member

theorem Sound.run (sound : s.Sound meaning) (events : List Event) :
    ∃ meaning', (s.run events).Sound meaning' := by
  induction events generalizing s meaning with
  | nil => exact ⟨meaning, sound⟩
  | cons event rest ih =>
      obtain ⟨meaning', next⟩ := sound.moves (apply_moves sound.linked event)
      exact ih next

end Forks

end BorrowLang
