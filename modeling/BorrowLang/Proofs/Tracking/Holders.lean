import BorrowLang.Proofs.Tracking.Forks
import Mathlib.Data.List.Nodup

/-!
# Who holds what where two paths meet

Where two paths meet, a number that is known on both stands for one borrow with one holder: the binding
that holds it on the first path.  What a binding holds on either path it still holds afterwards, pinned
if it was pinned there, unless the first path has passed that very borrow on to another binding.
-/

set_option autoImplicit false

namespace BorrowLang

/-- One borrow as two paths know it: the first path says who holds it, and it is pinned when either
path pins it. -/
def BorrowRecord.merge : Option BorrowRecord → Option BorrowRecord → Option BorrowRecord
  | none, theirs => theirs
  | some mine, none => some mine
  | some mine, some theirs => some { mine with pinned := mine.pinned || theirs.pinned }

/-- Nothing of a borrow of the first path is lost. -/
theorem BorrowRecord.exists_merge (mine : BorrowRecord) (theirs? : Option BorrowRecord) :
    ∃ kept, merge (some mine) theirs? = some kept ∧ kept.id = mine.id ∧ kept.place = mine.place ∧
      kept.kind = mine.kind ∧ kept.holder = mine.holder ∧
      (kept.pinned = true ↔ mine.pinned = true ∨
        ∃ theirs, theirs? = some theirs ∧ theirs.pinned = true) := by
  cases theirs? with
  | none => exact ⟨mine, rfl, rfl, rfl, rfl, rfl, by simp⟩
  | some theirs => exact ⟨_, rfl, rfl, rfl, rfl, rfl, by simp⟩

/-- What a borrow says of its holder is still so: who holds it, of what, and for how long at least. -/
structure BorrowRecord.StillHeld (record kept : BorrowRecord) : Prop where
  place : kept.place = record.place
  kind : kept.kind = record.kind
  holder : kept.holder = record.holder
  pinned : record.pinned = true → kept.pinned = true

namespace Tracker

variable {t u : Tracker} {records others : List BorrowRecord} {record : BorrowRecord} {id : BorrowId}

/-! ### Borrows by their numbers -/

/-- A number stands for one borrow. -/
def Distinct (records : List BorrowRecord) : Prop := records.Pairwise fun a b => a.id ≠ b.id

theorem id_of_find? (found : records.find? (fun other => other.id = id) = some record) :
    record.id = id := by simpa using List.find?_some found

theorem find?_of_mem (distinct : Distinct records) (member : record ∈ records) :
    records.find? (fun other => other.id = record.id) = some record := by
  induction records with
  | nil => exact absurd member List.not_mem_nil
  | cons first rest ih =>
      obtain ⟨apart, distinct⟩ := List.pairwise_cons.mp distinct
      rcases List.mem_cons.mp member with rfl | inRest
      · exact List.find?_cons_of_pos (by simp)
      · rw [List.find?_cons_of_neg (by simpa using apart record inRest)]
        exact ih distinct inRest

theorem borrow?_eq_some (distinct : Distinct t.borrows) :
    t.borrow? id = some record ↔ record ∈ t.borrows ∧ record.id = id :=
  ⟨fun found => ⟨List.mem_of_find?_eq_some found, id_of_find? found⟩,
    fun ⟨member, same⟩ => same ▸ find?_of_mem distinct member⟩

theorem find?_insertById (isNew : ∀ other ∈ records, other.id ≠ record.id) :
    (insertById record records).find? (fun other => other.id = id) =
      if record.id = id then some record else records.find? fun other => other.id = id := by
  induction records with
  | nil => by_cases same : record.id = id <;> simp [insertById, same]
  | cons first rest ih =>
      have known := ih fun other member => isNew other (List.mem_cons_of_mem _ member)
      rw [insertById]
      split
      · by_cases same : record.id = id <;> simp [same]
      · by_cases here : first.id = id
        · have other : record.id ≠ id := fun same =>
            isNew first List.mem_cons_self (here.trans same.symm)
          simp [here, other]
        · rw [List.find?_cons_of_neg (by simpa using here), known,
            List.find?_cons_of_neg (by simpa using here)]

/-- A record of another path is merged into the one with its number, and leaves the others alone. -/
theorem find?_joinRecord (records : List BorrowRecord) (record : BorrowRecord) (id : BorrowId) :
    (joinRecord records record).find? (fun other => other.id = id) =
      if record.id = id then
        BorrowRecord.merge (records.find? fun other => other.id = id) (some record)
      else records.find? fun other => other.id = id := by
  rw [joinRecord]
  by_cases known : (records.any fun mine => mine.id = record.id) = true
  · rw [if_pos known, List.find?_map]
    have ids : (fun other : BorrowRecord => decide (other.id = id)) ∘ (fun mine : BorrowRecord =>
        if mine.id = record.id && record.pinned then { mine with pinned := true } else mine) =
        fun other => decide (other.id = id) := by
      funext mine
      rw [Function.comp_apply]
      split <;> rfl
    rw [ids]
    cases found : records.find? fun other => other.id = id with
    | none =>
        have other : record.id ≠ id := by
          rintro rfl
          obtain ⟨mine, member, same⟩ := List.any_eq_true.mp known
          exact List.find?_eq_none.mp found mine member same
        rw [if_neg other, Option.map_none]
    | some mine =>
        have isId : mine.id = id := id_of_find? found
        by_cases same : record.id = id
        · obtain ⟨_, _, _, _, pinned, _⟩ := mine
          cases theirs : record.pinned <;> simp_all [BorrowRecord.merge]
        · have other : mine.id ≠ record.id := fun this => same (this.symm.trans isId)
          simp [same, other]
  · rw [if_neg known]
    have isNew : ∀ other ∈ records, other.id ≠ record.id := by simpa using known
    rw [find?_insertById isNew]
    by_cases same : record.id = id
    · have nothing : records.find? (fun other => other.id = id) = none :=
        List.find?_eq_none.mpr fun other member => by simpa [← same] using isNew other member
      rw [if_pos same, if_pos same, nothing, BorrowRecord.merge]
    · rw [if_neg same, if_neg same]

theorem find?_foldl_joinRecord (distinct : Distinct others) (records : List BorrowRecord)
    (id : BorrowId) : (others.foldl joinRecord records).find? (fun other => other.id = id) =
      BorrowRecord.merge (records.find? fun other => other.id = id)
        (others.find? fun other => other.id = id) := by
  induction others generalizing records with
  | nil =>
      rw [List.foldl_nil, List.find?_nil]
      cases records.find? fun other => other.id = id <;> rfl
  | cons first rest ih =>
      obtain ⟨apart, distinct⟩ := List.pairwise_cons.mp distinct
      rw [List.foldl_cons, ih distinct, find?_joinRecord]
      by_cases here : first.id = id
      · have nothing : rest.find? (fun other => other.id = id) = none :=
          List.find?_eq_none.mpr fun other member same =>
            apart other member (here.trans (of_decide_eq_true same).symm)
        rw [if_pos here, nothing, List.find?_cons_of_pos (by simpa using here)]
        cases records.find? fun other => other.id = id <;> rfl
      · rw [if_neg here, List.find?_cons_of_neg (by simpa using here)]

/-- What a number stands for where two paths meet. -/
theorem borrow?_join (distinct : Distinct u.borrows) (id : BorrowId) :
    (t.join u).borrow? id = BorrowRecord.merge (t.borrow? id) (u.borrow? id) :=
  find?_foldl_joinRecord distinct t.borrows id

/-! ### Numbers stay apart -/

/-- Which borrows there are is a matter of their claims. -/
theorem Distinct.of_claims {after : List BorrowRecord} (distinct : Distinct records)
    (part : (after.map BorrowRecord.claim).Sublist (records.map BorrowRecord.claim)) :
    Distinct after := by
  have ofClaims : ∀ records : List BorrowRecord,
      (records.map BorrowRecord.claim).Pairwise (fun a b => a.1 ≠ b.1) ↔ Distinct records :=
    fun _ => List.pairwise_map
  exact (ofClaims after).mp (((ofClaims records).mpr distinct).sublist part)

theorem Distinct.push (distinct : Distinct records)
    (isNew : ∀ other ∈ records, other.id ≠ record.id) : Distinct (records ++ [record]) := by
  refine List.pairwise_append.mpr ⟨distinct, List.pairwise_singleton _ _, ?_⟩
  intro other member new isRecord
  rw [List.mem_singleton.mp isRecord]
  exact isNew other member

theorem Distinct.insertById (distinct : Distinct records)
    (isNew : ∀ other ∈ records, other.id ≠ record.id) :
    Distinct (Tracker.insertById record records) := by
  induction records with
  | nil => exact List.pairwise_singleton _ _
  | cons first rest ih =>
      obtain ⟨apart, distinctRest⟩ := List.pairwise_cons.mp distinct
      rw [Tracker.insertById]
      split
      · exact List.pairwise_cons.mpr ⟨fun other member => (isNew other member).symm, distinct⟩
      · refine List.pairwise_cons.mpr ⟨fun other member => ?_, ih distinctRest fun other inRest =>
          isNew other (List.mem_cons_of_mem _ inRest)⟩
        rcases mem_insertById.mp member with rfl | inRest
        · exact isNew first List.mem_cons_self
        · exact apart other inRest

theorem Distinct.joinRecord (distinct : Distinct records) (record : BorrowRecord) :
    Distinct (Tracker.joinRecord records record) := by
  rw [Tracker.joinRecord]
  split
  · refine List.pairwise_map.mpr (distinct.imp fun apart => ?_)
    split <;> split <;> exact apart
  · rename_i unknown
    exact distinct.insertById (by simpa using unknown)

theorem Distinct.join (distinct : Distinct t.borrows) (u : Tracker) :
    Distinct (t.join u).borrows :=
  List.foldlRecOn u.borrows Tracker.joinRecord distinct fun _ known record _ =>
    known.joinRecord record

/-! ### Paths that meet -/

theorem exists_mem_iff_borrow? (distinct : Distinct t.borrows) {holds : BorrowRecord → Prop} :
    (∃ record ∈ t.borrows, record.id = id ∧ holds record) ↔
      ∃ record, t.borrow? id = some record ∧ holds record := by
  simp only [borrow?_eq_some distinct, and_assoc]

/-- What either path knows of a borrow is still so where they meet, unless the first path knows another
holder of it. -/
theorem stillHeld_join {meaning : BorrowId → PlaceId × BorrowKind} (distinct : Distinct t.borrows)
    (distinctOther : Distinct u.borrows)
    (means : ∀ record ∈ t.borrows ++ u.borrows, meaning record.id = (record.place, record.kind))
    (known : record ∈ t.borrows ++ u.borrows) :
    (∃ kept ∈ (t.join u).borrows, kept.id = record.id ∧ record.StillHeld kept) ↔
      ∀ mine ∈ t.borrows, mine.id = record.id → mine.holder = record.holder := by
  rw [exists_mem_iff_borrow? (distinct.join u), borrow?_join distinctOther]
  cases found : t.borrow? record.id with
  | none =>
      have unknown : ∀ mine ∈ t.borrows, mine.id ≠ record.id := by
        simpa [borrow?] using found
      have theirs : u.borrow? record.id = some record := by
        refine (borrow?_eq_some distinctOther).mpr ⟨?_, rfl⟩
        exact (List.mem_append.mp known).resolve_left fun isMine => unknown record isMine rfl
      refine iff_of_true ⟨record, by rw [theirs, BorrowRecord.merge], rfl, rfl, rfl, id⟩ ?_
      exact fun mine member same => absurd same (unknown mine member)
  | some mine =>
      obtain ⟨isMine, same⟩ := (borrow?_eq_some distinct).mp found
      have one : ∀ other ∈ t.borrows, other.id = record.id → other = mine := fun other member isId =>
        Option.some.inj (((borrow?_eq_some distinct).mpr ⟨member, isId⟩).symm.trans found)
      have alike : (mine.place, mine.kind) = (record.place, record.kind) := by
        rw [← means mine (List.mem_append_left _ isMine), ← means record known, same]
      obtain ⟨place, kind⟩ := Prod.mk.inj alike
      obtain ⟨kept, isMerged, -, keptPlace, keptKind, holder, pins⟩ :=
        mine.exists_merge (u.borrow? record.id)
      constructor
      · rintro ⟨other, isOther, still⟩ own member isId
        obtain rfl := Option.some.inj (isMerged.symm.trans isOther)
        rw [one own member isId, ← holder, still.holder]
      · intro agrees
        refine ⟨kept, isMerged, keptPlace.trans place, keptKind.trans kind,
          holder.trans (agrees mine isMine same), fun pinned => pins.mpr ?_⟩
        rcases List.mem_append.mp known with inFirst | inOther
        · exact Or.inl (one record inFirst rfl ▸ pinned)
        · exact Or.inr ⟨record, (borrow?_eq_some distinctOther).mpr ⟨inOther, rfl⟩, pinned⟩

/-- What is known of a borrow where two paths meet is known on one of them, and its pin too. -/
theorem known_before_join (distinct : Distinct t.borrows) (distinctOther : Distinct u.borrows)
    {kept : BorrowRecord} (member : kept ∈ (t.join u).borrows) :
    ∃ record ∈ t.borrows ++ u.borrows, kept.id = record.id ∧ record.StillHeld kept ∧
      (kept.pinned = true →
        ∃ pinning ∈ t.borrows ++ u.borrows, pinning.id = kept.id ∧ pinning.pinned = true) := by
  have found := (borrow?_eq_some (distinct.join u)).mpr ⟨member, rfl⟩
  rw [borrow?_join distinctOther] at found
  cases mine? : t.borrow? kept.id with
  | none =>
      rw [mine?, BorrowRecord.merge] at found
      have theirs := List.mem_append_right t.borrows (List.mem_of_find?_eq_some found)
      exact ⟨kept, theirs, rfl, ⟨rfl, rfl, rfl, fun pinned => pinned⟩, fun pinned =>
        ⟨kept, theirs, rfl, pinned⟩⟩
  | some mine =>
      rw [mine?] at found
      have isMine := List.mem_append_left u.borrows (List.mem_of_find?_eq_some mine?)
      obtain ⟨merged, isMerged, id, place, kind, holder, pins⟩ :=
        mine.exists_merge (u.borrow? kept.id)
      obtain rfl := Option.some.inj (isMerged.symm.trans found)
      refine ⟨mine, isMine, id, ⟨place, kind, holder, fun pinned => pins.mpr (Or.inl pinned)⟩,
        fun pinned => ?_⟩
      rcases pins.mp pinned with first | ⟨theirs, isTheirs, other⟩
      · exact ⟨mine, isMine, id.symm, first⟩
      · exact ⟨theirs, List.mem_append_right _ (List.mem_of_find?_eq_some isTheirs),
          id_of_find? isTheirs, other⟩

end Tracker

namespace Forks

variable {s after : Forks} {event : Event} {arena : Arena} {next next' : BorrowId}
  {meaning : BorrowId → PlaceId × BorrowKind}

/-! ### Numbers along a run -/

/-- A number that is handed out in the course of changes is that of no other borrow. -/
theorem distinct_changes {copied : BorrowKind → Prop} {records after : List BorrowRecord}
    (changes : Tracker.Changes arena copied records next after next')
    (accords : ∀ record ∈ records, Accords arena meaning next record)
    (distinct : Tracker.Distinct records) : Tracker.Distinct after := by
  induction changes generalizing meaning with
  | fewer part => exact distinct.of_claims part
  | begun | copied =>
      exact distinct.push fun other member => Nat.ne_of_lt (accords other member).fresh
  | trans before after ih ihAfter =>
      obtain ⟨-, meaning', -, mid⟩ := accords_changes before accords
      exact ihAfter mid (ih accords distinct)

/-- In each tracker a number stands for one borrow. -/
def Distinct (s : Forks) : Prop := ∀ t ∈ s.trackers, Tracker.Distinct t.borrows

theorem distinct_start : Distinct {} := by
  intro t member
  rw [List.mem_singleton.mp member]
  exact .nil

theorem Distinct.moves (distinct : s.Distinct) (sound : s.Sound meaning) (moves : Moves s event after) :
    after.Distinct := by
  intro other member
  cases moves with
  | stay | grow => exact distinct other member
  | @act index op t found =>
      rcases List.mem_or_eq_of_mem_set member with old | rfl
      · exact distinct other old
      · exact distinct_changes (Tracker.apply_changes s.arena s.next t op) (sound.accords t found)
          (distinct t found)
  | @fork index t found =>
      rcases List.mem_append.mp member with old | isFork
      · exact distinct other old
      · rw [List.mem_singleton.mp isFork]
        exact distinct t found
  | @join index other' t u found foundOther =>
      rcases List.mem_or_eq_of_mem_set member with old | rfl
      · exact distinct other old
      · exact (distinct t found).join u

theorem Distinct.run (distinct : s.Distinct) (sound : s.Sound meaning) (events : List Event) :
    (s.run events).Distinct := by
  induction events generalizing s meaning with
  | nil => exact distinct
  | cons event rest ih =>
      have moves := apply_moves sound.linked event
      obtain ⟨meaning', next⟩ := sound.moves moves
      exact ih (distinct.moves sound moves) next

/-- Where two trackers that were forked from one meet, what a binding holds on either path it still holds,
pinned if it was pinned there, but for a borrow that the first path knows another holder of; and nothing
is held that was held on neither path, or pinned that was pinned on neither. -/
theorem run_joinHolders (events : List Event) :
    ∀ t ∈ (run {} events).trackers, ∀ u ∈ (run {} events).trackers,
      (∀ record ∈ t.borrows ++ u.borrows,
        (∃ kept ∈ (t.join u).borrows, kept.id = record.id ∧ record.StillHeld kept) ↔
          ∀ mine ∈ t.borrows, mine.id = record.id → mine.holder = record.holder) ∧
      ∀ kept ∈ (t.join u).borrows, ∃ record ∈ t.borrows ++ u.borrows,
        kept.id = record.id ∧ record.StillHeld kept ∧
          (kept.pinned = true →
            ∃ pinning ∈ t.borrows ++ u.borrows, pinning.id = kept.id ∧ pinning.pinned = true) := by
  intro t mine u theirs
  have begun := sound_start fun _ => (0, .shared)
  obtain ⟨meaning, sound⟩ := begun.run events
  have distinct : (run {} events).Distinct := distinct_start.run begun events
  have means : ∀ record ∈ t.borrows ++ u.borrows, meaning record.id = (record.place, record.kind) :=
    fun record member => (List.mem_append.mp member).elim
      (fun isMine => (sound.accords t mine record isMine).means)
      fun isTheirs => (sound.accords u theirs record isTheirs).means
  refine ⟨fun record known => ?_, fun kept member => ?_⟩
  · exact Tracker.stillHeld_join (distinct t mine) (distinct u theirs) means known
  · exact Tracker.known_before_join (distinct t mine) (distinct u theirs) member

/-- `m` holds a borrow of `a`; on a fork it is pinned, and `n` holds a borrow of `c`. -/
def pinnedAside : List Event :=
  [.addLocal "a" none true false, .addLocal "m" none true false, .addLocal "n" none true false,
    .addLocal "c" none true false, .act 0 (.declare 0 true), .act 0 (.declare 1 true),
    .act 0 (.declare 2 true), .act 0 (.declare 3 true),
    .act 0 (.beginBorrow 0 .exclusive (some 1) false none), .fork 0, .act 1 (.adopt [1] 1 true),
    .act 1 (.beginBorrow 3 .shared (some 2) false none)]

theorem pinnedAside_forked : 1 < (run {} pinnedAside).trackers.length := by decide +kernel

/-- Both bindings hold what they held on the fork, and the pin is there. -/
theorem run_joinHolders_pinnedAside :
    ∃ t ∈ (run {} pinnedAside).trackers, ∃ u ∈ (run {} pinnedAside).trackers,
      t.borrows.map (fun record => (record.holder, record.pinned)) = [(some 1, false)] ∧
      u.borrows.map (fun record => (record.holder, record.pinned)) =
        [(some 1, true), (some 2, false)] ∧
      ∀ record ∈ u.borrows, ∃ kept ∈ (t.join u).borrows,
        kept.id = record.id ∧ record.StillHeld kept := by
  have first := List.getElem_mem (Nat.lt_of_succ_lt pinnedAside_forked)
  have second := List.getElem_mem pinnedAside_forked
  refine ⟨_, first, _, second, by decide +kernel, by decide +kernel, fun record member => ?_⟩
  refine ((run_joinHolders pinnedAside _ first _ second).1 record
    (List.mem_append_right _ member)).mpr ?_
  revert record
  decide +kernel

/-- `m` holds a borrow of `a`; on a fork it passes it on to `n`. -/
def passedOn : List Event :=
  [.addLocal "a" none true false, .addLocal "m" none true false, .addLocal "n" none true false,
    .act 0 (.declare 0 true), .act 0 (.declare 1 true), .act 0 (.declare 2 true),
    .act 0 (.beginBorrow 0 .exclusive (some 1) false none), .fork 0, .act 1 (.detach 1),
    .act 1 (.adopt [1] 2 false)]

theorem passedOn_forked : 1 < (run {} passedOn).trackers.length := by decide +kernel

/-- Where the fork comes back, `n` no longer holds the borrow. -/
theorem run_joinHolders_passedOn :
    ∃ t ∈ (run {} passedOn).trackers, ∃ u ∈ (run {} passedOn).trackers,
      (∃ record ∈ u.borrows, record.holder = some 2 ∧ record.place = 0) ∧
      ∀ kept ∈ (t.join u).borrows, kept.holder ≠ some 2 :=
  ⟨_, List.getElem_mem (Nat.lt_of_succ_lt passedOn_forked), _, List.getElem_mem passedOn_forked,
    by decide +kernel, by decide +kernel⟩

end Forks

end BorrowLang
