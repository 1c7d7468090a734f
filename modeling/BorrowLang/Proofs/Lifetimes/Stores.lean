import BorrowLang.Proofs.Lifetimes.Uses
import BorrowLang.Proofs.Referents

/-!
# Storing borrows beside each other

The bindings that a reference may point at are found through borrows that are not released, so both
checks find the same ones.
-/

set_option autoImplicit false

namespace BorrowLang.Checker

variable {gone : Released} {s t : State} {ctx ctx' : Context}

/-! ### Borrows that leave the function -/

/-- The borrow with a number, if it is of storage that the function owns. -/
def State.owned? (s : State) (id : BorrowId) : Option BorrowRecord :=
  (s.tracker.borrow? id).filter fun record => (s.arena.innermostRef record.place).isNone

/-- A borrow that the strict check does not find to be of owned storage, the loose one does not find
either. -/
theorem Trails.owned?_eq_none (trails : Trails gone s t) {id : BorrowId} (kept : gone.ids id = false)
    (notOwned : t.owned? id = none) : s.owned? id = none := by
  cases found : s.owned? id with
  | none => rfl
  | some record =>
      obtain ⟨isBorrow, isOwned⟩ := Option.filter_eq_some_iff.mp found
      have same := trails.borrow? kept
      rw [isBorrow, Option.map_some] at same
      obtain ⟨other, isOther, unpinned⟩ := Option.map_eq_some_iff.mp same.symm
      rw [trails.arena, ← (BorrowRecord.fields_of_unpinned unpinned).2.1] at isOwned
      rw [State.owned?, Option.filter_eq_some_iff.mpr ⟨isOther, isOwned⟩] at notOwned
      simp at notOwned

/-- A borrow of owned storage must not leave. -/
def refuseEscape (ctx : Context) (s : State) (loc : Option Position) (stored : Bool) :
    Option BorrowRecord → Check Unit
  | none => pure ()
  | some record =>
      let rule : Rule :=
        if stored then .outlived
        else if (s.arena.parent? record.place).isNone then .returnedLocal
        else .returnedData
      throw (.reported
        (Violation.report ⟨rule, record.place, some record⟩ s.arena (ctx.span loc)))

theorem checkEscape_eq (ctx : Context) (loans : List BorrowId) (loc : Option Position)
    (stored : Bool) :
    checkEscape ctx loans loc stored = (do
      let s ← get
      refuseEscape ctx s loc stored
        ((loans.mergeSort fun a b => decide (a ≤ b)).findSome? s.owned?)) := rfl

theorem checkEscape_follows (trails : Trails gone s t) {loans : List BorrowId}
    (free : Free gone loans) (loc : Option Position) (stored : Bool) :
    Follows (checkEscape ctx' loans loc stored) (checkEscape ctx loans loc stored) s t
      fun _ s' t' => s = s' ∧ t = t' := by
  rw [checkEscape_eq, checkEscape_eq]
  refine follows_get _ ?_
  cases theirs : (loans.mergeSort fun a b => decide (a ≤ b)).findSome? t.owned? with
  | some record => exact follows_throw _ _ _
  | none =>
      have mine : (loans.mergeSort fun a b => decide (a ≤ b)).findSome? s.owned? = none := by
        rw [List.findSome?_eq_none_iff] at theirs ⊢
        intro id member
        exact trails.owned?_eq_none (free id (List.mem_mergeSort.mp member)) (theirs id member)
      rw [mine]
      exact ⟨s, rfl, rfl, rfl⟩

/-! ### Bindings that a reference may point at -/

theorem unionReferents_congr {f g : PlaceId → Except Fault (Option (List PlaceId))}
    {places : List PlaceId} (same : ∀ place ∈ places, f place = g place) :
    unionReferents f places = unionReferents g places := by
  induction places with
  | nil => rfl
  | cons place rest ih =>
      rw [unionReferents, unionReferents, same place List.mem_cons_self,
        ih fun other member => same other (List.mem_cons_of_mem _ member)]

/-- The places that borrows held by a binding are of. -/
theorem Ledger.reached_of_held (ledger : Ledger gone t) {holder : PlaceId}
    (kept : gone.holders holder = false) {record : BorrowRecord}
    (held : record ∈ t.tracker.heldBy holder) : Reached gone t record.place := by
  obtain ⟨member, holds⟩ := List.mem_filter.mp held
  have isHolder : record.holder = some holder := by simpa using holds
  have entered := ledger.records.each record member
  exact ⟨entered.there, entered.closed (entered.kept (by simp [isHolder, kept]))⟩

/-- Both checks know the same about a place. -/
theorem Trails.lead_eq (trails : Trails gone s t) (ledger : Ledger gone t) {place : PlaceId}
    (reached : Reached gone t place) : s.lead place = t.lead place := by
  have held := trails.heldBy ledger reached.kept
  have empty := congrArg List.isEmpty held
  have places := congrArg (List.map BorrowRecord.place) held
  rw [List.isEmpty_map, List.isEmpty_map] at empty
  rw [List.map_map, List.map_map] at places
  have targets : (s.tracker.heldBy (t.arena.root place)).map (·.place) =
      (t.tracker.heldBy (t.arena.root place)).map (·.place) := places
  simp only [State.lead, trails.arena, empty, targets]

theorem referents_eq (trails : Trails gone s t) (ledger : Ledger gone t) (fuel : Nat)
    {place : PlaceId} (reached : Reached gone t place) :
    referents s fuel place = referents t fuel place := by
  induction fuel generalizing place with
  | zero => rw [referents, referents, trails.lead_eq ledger reached]
  | succ fuel ih =>
      rw [referents, referents, trails.lead_eq ledger reached]
      cases lead : t.lead place with
      | known bindings => rfl
      | among targets =>
          refine unionReferents_congr fun target member => ih ?_
          obtain ⟨⟨record, inHeld, rfl⟩, -⟩ := State.lead_among lead member
          exact ledger.reached_of_held reached.kept inHeld

theorem referents_present (ledger : Ledger gone t) (fuel : Nat) {place : PlaceId}
    (reached : Reached gone t place) {holders : List PlaceId}
    (known : referents t fuel place = .ok (some holders)) {holder : PlaceId} (member : holder ∈ holders) :
    Present gone t holder := by
  have onward : ∀ other, Reached gone t other →
      ∀ record ∈ t.tracker.heldBy (t.arena.root other), Reached gone t record.place :=
    fun _ reachedOther _ inHeld => ledger.reached_of_held reachedOther.kept inHeld
  obtain ⟨target, reachedTarget, -, rfl⟩ := root_of_referents onward fuel reached known member
  exact reachedTarget.root

/-- Both checks find the same bindings, none of them released, or the storage of a caller. -/
theorem unionReferents_eq (trails : Trails gone s t) (ledger : Ledger gone t) {places : List PlaceId}
    (reached : ∀ place ∈ places, Reached gone t place) :
    unionReferents s.referents places = unionReferents t.referents places ∧
      ∀ holders, unionReferents t.referents places = .ok (some holders) →
        ∀ holder ∈ holders, Present gone t holder := by
  constructor
  · refine unionReferents_congr fun place member => ?_
    rw [State.referents, State.referents, trails.arena]
    exact referents_eq trails ledger _ (reached place member)
  · intro holders known holder member
    obtain ⟨place, isPlace, found, isFound, inFound⟩ := mem_of_unionReferents known member
    exact referents_present ledger _ (reached place isPlace) isFound inFound

/-! ### Copies for other bindings -/

/-- Copies of borrows for a binding are made alike on both sides; only pins may differ. -/
theorem shareEach_along (trails : Trails gone s t) (ledger : Ledger gone t) {holder : PlaceId}
    (present : Present gone t holder) (pin pin' : Bool) {loans : List BorrowId}
    (free : Free gone loans) :
    let mine := Tracker.shareEach holder pin' loans s.tracker s.nextBorrow
    let theirs := Tracker.shareEach holder pin loans t.tracker t.nextBorrow
    Along gone s t { s with tracker := mine.1, nextBorrow := mine.2.1 }
      { t with tracker := theirs.1, nextBorrow := theirs.2.1 } := by
  induction loans generalizing s t with
  | nil => exact .refl trails ledger
  | cons loan rest ih =>
      have freeRest : Free gone rest := fun id member => free id (List.mem_cons_of_mem _ member)
      have same := trails.borrow? (free loan List.mem_cons_self)
      intro mine theirs
      cases found : t.tracker.borrow? loan with
      | none =>
          have missing : s.tracker.borrow? loan = none := by
            rw [found] at same
            simpa using same
          simp only [mine, theirs, Tracker.shareEach, Tracker.shareOne, found, missing,
            Option.map_none]
          exact ih trails ledger present freeRest
      | some record =>
          rw [found, Option.map_some] at same
          obtain ⟨other, isOther, unpinned⟩ := Option.map_eq_some_iff.mp same
          simp only [mine, theirs, Tracker.shareEach, Tracker.shareOne, found, isOther,
            Option.map_some]
          have member := List.mem_of_find?_eq_some found
          have entered := ledger.records.each record member
          have isLoan : record.id = loan := by simpa using List.find?_some found
          have new := ledger.new (Nat.le_refl t.nextBorrow)
          have copies : ∀ record : BorrowRecord,
              ({ record with id := t.nextBorrow, holder := some holder, pinned := pin } :
                BorrowRecord).unpinned =
              { record.unpinned with id := t.nextBorrow, holder := some holder } := fun _ => rfl
          have pushed : Along gone s t
              { s with
                tracker := { s.tracker with
                  borrows := s.tracker.borrows ++
                    [{ other with id := s.nextBorrow, holder := some holder, pinned := pin' }] }
                nextBorrow := s.nextBorrow + 1 }
              { t with
                tracker := { t.tracker with
                  borrows := t.tracker.borrows ++
                    [{ record with id := t.nextBorrow, holder := some holder, pinned := pin }] }
                nextBorrow := t.nextBorrow + 1 } := by
            refine .next ledger { trails with next := by rw [trails.next], borrows := ?_ } rfl rfl rfl
              (Nat.le_succ _) ?_ (.append _ _) (.append _ _)
            · refine trails.borrows.append ?_
              rw [trails.next, List.map_singleton, List.map_singleton, copies, ← unpinned]
              rfl
            · refine ledger.records.push rfl ⟨Nat.lt_succ_self _, entered.there, ?_, ?_, fun _ => ?_⟩
              · rintro _ ⟨rfl⟩
                exact present.there
              · simpa [present.kept] using new
              · exact entered.closed (isLoan ▸ free loan List.mem_cons_self)
          exact pushed.trans (ih pushed.trails pushed.ledger (present.rooted pushed.rooted) freeRest)

/-- The copies for each of some bindings. -/
theorem shareWith_follows (trails : Trails gone s t) (ledger : Ledger gone t)
    {loans : List BorrowId} (free : Free gone loans) {holders : List PlaceId}
    (present : ∀ holder ∈ holders, Present gone t holder) :
    Follows (shareWith ctx' loans holders) (shareWith ctx loans holders) s t
      fun _ s' t' => Along gone s t s' t' := by
  induction holders generalizing s t with
  | nil => exact (follows_pure _ _).mpr (.refl trails ledger)
  | cons holder rest ih =>
      rw [shareWith, shareWith]
      refine follows_get _ ?_
      have sorted : Free gone (loans.mergeSort fun a b => decide (a ≤ b)) :=
        fun id member => free id (List.mem_mergeSort.mp member)
      have along := shareEach_along trails ledger (present holder List.mem_cons_self)
        (t.pins ctx holder) (s.pins ctx' holder) sorted
      refine follows_set _ ?_
      refine (ih along.trails along.ledger fun other member =>
        (present other (List.mem_cons_of_mem _ member)).rooted along.rooted).mono fun _ s' t' next => along.trans next

theorem storeInto_follows (trails : Trails gone s t) (ledger : Ledger gone t)
    {places : List PlaceId} (reached : ∀ place ∈ places, Reached gone t place)
    {loans : List BorrowId} (free : Free gone loans) (loc : Option Position) :
    Follows (storeInto ctx' places loans loc) (storeInto ctx places loans loc) s t
      fun _ s' t' => Along gone s t s' t' := by
  obtain ⟨same, present⟩ := unionReferents_eq trails ledger reached
  unfold storeInto
  refine follows_get _ ?_
  rw [same]
  cases found : unionReferents t.referents places with
  | error fault => exact follows_throw _ _ _
  | ok bindings =>
      cases bindings with
      | none =>
          refine (checkEscape_follows trails free loc true).bind ?_
          rintro _ s' t' ⟨rfl, rfl⟩
          exact (follows_pure _ _).mpr (.refl trails ledger)
      | some holders =>
          refine (shareWith_follows trails ledger free fun holder member =>
            present holders found holder (List.mem_mergeSort.mp member)).bind
              fun _ s' t' along => ?_
          exact (follows_pure _ _).mpr along

/-- The borrows of a value pass to the same binding on both sides. -/
theorem storeLoans_follows (trails : Trails gone s t) (ledger : Ledger gone t) {holder : PlaceId}
    (present : Present gone t holder) {loans : List BorrowId} (free : Free gone loans) :
    Follows (storeLoans ctx' holder loans) (storeLoans ctx holder loans) s t
      fun _ s' t' => Along gone s t s' t' := by
  have id : ∀ (pin : Bool) (record : BorrowRecord),
      (if loans.contains record.id then { record with holder := some holder, pinned := pin }
        else record).id = record.id := by
    intro pin record
    split <;> rfl
  let effect (record : BorrowRecord) : BorrowRecord :=
    if loans.contains record.id then { record with holder := some holder } else record
  have unpinned : ∀ (pin : Bool) (record : BorrowRecord),
      (if loans.contains record.id then { record with holder := some holder, pinned := pin }
        else record).unpinned = effect record.unpinned :=
    fun _ _ => apply_ite BorrowRecord.unpinned _ _ _
  refine ⟨_, rfl, .next ledger { trails with
    borrows := trails.borrows.map (unpinned _) (unpinned _) fun record => ?_ } rfl rfl rfl
    (Nat.le_refl _) (ledger.records.map (id _) fun record member => ?_) (.map _ (id _))
    (.map _ (id _))⟩
  · simp only [effect]
    split <;> rfl
  · have entered := ledger.records.each record member
    split
    · rename_i isLoan
      have stays := free record.id (by simpa using isLoan)
      refine ⟨entered.fresh, entered.there, ?_, by simpa [present.kept] using stays, entered.closed⟩
      rintro _ ⟨rfl⟩
      exact present.there
    · exact entered

/-! ### Arguments of calls -/

theorem free_unionLoans {a b : List BorrowId} (first : Free gone a) (second : Free gone b) :
    Free gone (unionLoans a b) := by
  intro id member
  rcases List.mem_append.mp member with inFirst | inSecond
  · exact first id inFirst
  · exact second id (List.mem_of_mem_filter inSecond)

theorem free_unionAll {loans : List (List BorrowId)} (each : ∀ part ∈ loans, Free gone part) :
    Free gone (unionAll loans) := by
  have folded : ∀ {start : List BorrowId}, Free gone start →
      Free gone (loans.foldl unionLoans start) := by
    induction loans with
    | nil => exact fun known => known
    | cons part rest ih =>
        intro start known
        exact ih (fun other member => each other (List.mem_cons_of_mem _ member))
          (free_unionLoans known (each part List.mem_cons_self))
  exact folded fun id impossible => by simp at impossible

theorem storeArguments_follows (trails : Trails gone s t) (ledger : Ledger gone t)
    {loans : List (List BorrowId)} (free : ∀ part ∈ loans, Free gone part)
    (slots : List (Nat × Ty × Option Position)) :
    Follows (storeArguments ctx' loans slots) (storeArguments ctx loans slots) s t
      fun _ s' t' => Along gone s t s' t' := by
  induction slots generalizing s t with
  | nil => exact (follows_pure _ _).mpr (.refl trails ledger)
  | cons slot rest ih =>
      obtain ⟨index, param, loc⟩ := slot
      have next : ∀ {s' t' : State}, Along gone s t s' t' →
          Follows (storeArguments ctx' loans rest) (storeArguments ctx loans rest) s' t'
            fun _ s'' t'' => Along gone s t s'' t'' := fun along =>
        (ih along.trails along.ledger).mono fun _ _ _ more => along.trans more
      have others : Free gone (unionAll (loans.eraseIdx index)) :=
        free_unionAll fun part member => free part (List.mem_of_mem_eraseIdx member)
      have own : Free gone (((loans[index]?).getD []).mergeSort fun a b => decide (a ≤ b)) := by
        intro id member
        cases given : loans[index]? with
        | none => simp [given] at member
        | some part =>
            rw [given] at member
            exact free part (List.mem_of_getElem? given) id (List.mem_mergeSort.mp member)
      simp only [storeArguments]
      split
      · split
        · refine follows_get _ ?_
          have same : (((loans[index]?).getD []).mergeSort fun a b => decide (a ≤ b)).filterMap
                (fun id => (s.tracker.borrow? id).map (·.place)) =
              (((loans[index]?).getD []).mergeSort fun a b => decide (a ≤ b)).filterMap
                (fun id => (t.tracker.borrow? id).map (·.place)) := by
            refine List.filterMap_congr fun id member => ?_
            have known := congrArg (Option.map BorrowRecord.place) (trails.borrow? (own id member))
            rwa [Option.map_map, Option.map_map] at known
          rw [same]
          split
          · refine (storeInto_follows trails ledger (fun place member => ?_) others loc).bind
              fun _ s' t' along => next along
            obtain ⟨id, isOwn, found⟩ := List.mem_filterMap.mp member
            obtain ⟨record, isRecord, rfl⟩ := Option.map_eq_some_iff.mp found
            have entered := ledger.records.each record (List.mem_of_find?_eq_some isRecord)
            have isId : record.id = id := by simpa using List.find?_some isRecord
            exact ⟨entered.there, entered.closed (isId ▸ own id isOwn)⟩
          · exact next (.refl trails ledger)
        · exact next (.refl trails ledger)
      · exact next (.refl trails ledger)
end BorrowLang.Checker
