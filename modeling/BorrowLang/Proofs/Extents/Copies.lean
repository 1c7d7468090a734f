import BorrowLang.Proofs.Extents.Mentions

/-!
# Copies of references

A binding that is given a copy of a reference holds a copy of each shared borrow that the binding of
the reference holds.  So what is borrowed stays as it is until the copy is out of use too, whatever
becomes of the reference.  Of an exclusive borrow no copy is made, even where a shared reference holds
it.
-/

set_option autoImplicit false

namespace BorrowLang

/-- What copies of a borrow have in common. -/
def BorrowRecord.loan (record : BorrowRecord) : PlaceId × BorrowKind × Option Position :=
  (record.place, record.kind, record.origin)

/-- A borrow after a binding has taken it. -/
def BorrowRecord.heldFrom (record : BorrowRecord) (holder : PlaceId) (pinned : Bool) :
    BorrowRecord :=
  { record with holder := some holder, pinned }

namespace Tracker

variable {t : Tracker} {arena : Arena} {next : BorrowId} {record : BorrowRecord}
  {holder taker : PlaceId} {pinned : Bool}

/-- A binding holds a borrow of a place; so nothing that overlaps the place can be written, moved or
borrowed exclusively. -/
structure Shields (t : Tracker) (arena : Arena) (holder place : PlaceId) : Prop where
  held : ∃ record ∈ t.heldBy holder, record.place = place
  refused : ∀ other, arena.overlaps place other = true → t.canWrite arena other ≠ .ok () ∧
    t.canMove arena other ≠ .ok () ∧ t.checkBorrow arena other .exclusive ≠ .ok ()

theorem mem_heldBy : record ∈ t.heldBy holder ↔ record ∈ t.borrows ∧ record.holder = some holder := by
  simp [heldBy]

theorem shields_of_mem (member : record ∈ t.borrows) (held : record.holder = some holder) :
    t.Shields arena holder record.place where
  held := ⟨record, mem_heldBy.mpr ⟨member, held⟩, rfl⟩
  refused other overlap := by
    refine ⟨fun allowed => ?_, fun allowed => ?_, fun allowed => ?_⟩
    · exact (canWrite_eq_ok.mp allowed).2.2 record member overlap
    · exact (canMove_eq_ok.mp allowed).2.2 record member overlap
    · exact absurd ((checkBorrow_eq_ok.mp allowed).2 record member overlap).2 nofun

/-- A binding's borrows do not end with those of another one. -/
theorem mem_endHeldBy {other : PlaceId} (member : record ∈ t.borrows)
    (held : record.holder = some holder) (apart : other ≠ holder) :
    record ∈ (t.endHeldBy other).borrows :=
  List.mem_filter.mpr ⟨member, by simp [held, Ne.symm apart]⟩

/-! ### A reference is copied -/

theorem renumbered_loan (next : BorrowId) (records : List BorrowRecord) :
    (renumbered next records).map BorrowRecord.loan = records.map BorrowRecord.loan := by
  induction records generalizing next with
  | nil => rfl
  | cons record rest ih =>
      rw [renumbered, List.map_cons, List.map_cons, ih]
      rfl

/-- The copies that a binding is given of the shared borrows of another one. -/
def copiesOf (t : Tracker) (next : BorrowId) (holder taker : PlaceId) (pinned : Bool) :
    List BorrowRecord :=
  (renumbered next ((t.heldBy holder).filter fun record => record.kind = .shared)).map
    (·.heldFrom taker pinned)

/-- There is one copy for each shared borrow that the other binding holds. -/
theorem copiesOf_loan : (t.copiesOf next holder taker pinned).map BorrowRecord.loan =
    ((t.heldBy holder).filter fun record => record.kind = .shared).map BorrowRecord.loan := by
  rw [copiesOf, List.map_map, ← renumbered_loan next]
  rfl

theorem of_mem_copiesOf (member : record ∈ t.copiesOf next holder taker pinned) :
    record.holder = some taker ∧ record.pinned = pinned := by
  obtain ⟨copy, -, rfl⟩ := List.mem_map.mp member
  exact ⟨rfl, rfl⟩

theorem exists_copy {old : BorrowRecord} (member : old ∈ t.heldBy holder)
    (shared : old.kind = .shared) (next : BorrowId) (taker : PlaceId) (pinned : Bool) :
    ∃ copy ∈ t.copiesOf next holder taker pinned, copy.place = old.place := by
  have hasLoan : old.loan ∈ (t.copiesOf next holder taker pinned).map BorrowRecord.loan := by
    rw [copiesOf_loan]
    exact List.mem_map_of_mem (List.mem_filter.mpr ⟨member, decide_eq_true shared⟩)
  obtain ⟨copy, isCopy, same⟩ := List.mem_map.mp hasLoan
  exact ⟨copy, isCopy, congrArg Prod.fst same⟩

/-- A binding that stores a copy takes the new borrows only: their numbers are new. -/
theorem borrows_adopt_cloneHeld {u : Tracker} (numbered : ∀ record ∈ t.borrows, record.id < next)
    (known : u.borrows = (t.cloneHeld next holder).1.borrows) (taker : PlaceId) (pinned : Bool) :
    (u.adopt (t.cloneHeld next holder).2.2 taker pinned).borrows =
      t.borrows ++ t.copiesOf next holder taker pinned := by
  simp only [adopt, known, cloneHeld, copiesOf, List.map_append]
  congr 1
  · refine (List.map_congr_left fun record member => if_neg ?_).trans (List.map_id _)
    rw [List.contains_iff_mem]
    intro isNew
    obtain ⟨copy, isCopy, same⟩ := List.mem_map.mp isNew
    exact absurd (numbered record member) (Nat.not_lt.mpr (same ▸ (mem_renumbered isCopy).1))
  · refine List.map_congr_left fun copy isCopy => if_pos ?_
    rw [List.contains_iff_mem]
    exact List.mem_map_of_mem isCopy

/-- The copies are all that a binding holds that has held nothing before. -/
theorem heldBy_taker {u : Tracker} (holdsNone : ∀ record ∈ t.borrows, record.holder ≠ some taker)
    (known : u.borrows = t.borrows ++ t.copiesOf next holder taker pinned) :
    u.heldBy taker = t.copiesOf next holder taker pinned := by
  rw [heldBy, known, List.filter_append]
  have former : t.borrows.filter (fun record => record.holder = some taker) = [] :=
    List.filter_eq_nil_iff.mpr fun record member => by simpa using holdsNone record member
  rw [former, List.nil_append, List.filter_eq_self]
  exact fun record member => decide_eq_true (of_mem_copiesOf member).1

/-- What another binding holds it still holds. -/
theorem heldBy_other {u : Tracker} {other : PlaceId} (apart : other ≠ taker)
    (known : u.borrows = t.borrows ++ t.copiesOf next holder taker pinned) :
    u.heldBy other = t.heldBy other := by
  have none : (t.copiesOf next holder taker pinned).filter (fun record => record.holder = some other) =
      [] := by
    refine List.filter_eq_nil_iff.mpr fun record member => ?_
    simp [(of_mem_copiesOf member).1, Ne.symm apart]
  rw [heldBy, known, List.filter_append, none, List.append_nil, heldBy]

end Tracker

namespace Checker

variable {ctx : Context} {s : State} {name ident : String} {place : PlaceId} {inner : Ty}
  {loc nameLoc : Option Position} {isMut : Bool}

/-- A new binding has held nothing. -/
theorem State.Framed.holds_none (framed : s.Framed) :
    ∀ record ∈ s.tracker.borrows, record.holder ≠ some s.arena.size := fun record member held =>
  Nat.lt_irrefl _
    (framed.sheltered.locals _ ((framed.sheltered.records record member).holder _ held)).1

/-- A binding is found under its name. -/
theorem bind_meets (ty : Option Ty) (isParam initialized : Bool) :
    Meets (bind ident ty isMut isParam initialized) s (fun taker after =>
      taker = s.arena.size ∧ lookup? after.scopes ident = some taker ∧
        after.tracker.borrows = s.tracker.borrows) fun _ _ => False := by
  simp only [bind, meets_bind, meets_get, meets_set, meets_pure]
  refine ⟨rfl, ?_, rfl⟩
  cases s.scopes <;> simp [lookup?, Arena.addLocal]

/-- Reading a shared reference copies the borrows of its binding. -/
theorem usePlace_copies (ctx : Context) (nameLoc : Option Position)
    (typed : s.arena.ty? place = some (.ref false inner))
    (readable : s.tracker.canRead s.arena place = .ok ()) :
    Meets (usePlace ctx nameLoc place) s (fun value after =>
      let copied := s.tracker.cloneHeld s.nextBorrow (s.arena.root place)
      value = { ty := .ref false inner, loans := copied.2.2 } ∧
        after = { s with tracker := copied.1, nextBorrow := copied.2.1 }) fun _ _ => False := by
  simp only [usePlace, typeOf, meets_bind, meets_get, typed, meets_pure]
  rw [if_pos (show (Ty.ref false inner).isCopy = true from rfl)]
  simp only [requireRead, meets_bind, meets_get, readable, guard, meets_pure]
  exact ⟨rfl, rfl⟩

/-- A new binding is given a copy of a shared reference. -/
theorem letName_meets (numbered : s.Numbered) (root : s.arena.root place = place)
    (bound : lookup? s.scopes name = some place)
    (typed : s.arena.ty? place = some (.ref false inner))
    (readable : s.tracker.canRead s.arena place = .ok ()) :
    Meets (checkStmt ctx (.letVar loc ident none (some (.name nameLoc name)) isMut)) s
      (fun leaves after => leaves = false ∧
        lookup? after.scopes ident = some s.arena.size ∧
        after.tracker.borrows = s.tracker.borrows ++
          s.tracker.copiesOf s.nextBorrow place s.arena.size (after.pins ctx s.arena.size))
      fun _ _ => False := by
  have copies := usePlace_copies ctx nameLoc typed readable
  simp only [checkStmt, checkExpr, meets_bind, meets_pure, lookup, meets_get, bound]
  refine copies.mono ?_ fun _ _ impossible => impossible
  rintro value mid ⟨rfl, rfl⟩
  refine (bind_meets _ _ _).mono ?_ fun _ _ impossible => impossible
  rintro taker stored ⟨rfl, found, borrows⟩
  rw [root] at borrows ⊢
  have taken := Tracker.borrows_adopt_cloneHeld numbered borrows s.arena.size
    (stored.pins ctx s.arena.size)
  split
  · simp only [storeLoans, meets_bind, meets_modify, meets_pure]
    exact ⟨trivial, found, taken⟩
  · rename_i loans
    -- Without loans there is nothing to take.
    have noLoans : (s.tracker.cloneHeld s.nextBorrow place).2.2 = [] := by simpa using loans
    refine ⟨rfl, found, ?_⟩
    simpa [Tracker.adopt, noLoans] using taken

/-- What a binding holds stays at the end of a statement, if it is pinned just when the binding asks
for that. -/
theorem endStatement_kept (ctx : Context) (s : State) : ∃ ended,
    endStatement ctx s = (.ok (), ended) ∧
      ∀ record ∈ s.tracker.borrows, ∀ holder, record.holder = some holder →
        record.pinned = s.pins ctx holder → record ∈ ended.tracker.borrows := by
  have kept : ∀ record ∈ s.tracker.borrows, ∀ holder, record.holder = some holder →
      record ∈ (s.tracker.endTemporaries []).borrows := by
    intro record member holder held
    exact List.mem_filter.mpr ⟨member, by simp [held]⟩
  rw [endStatement_eq]
  cases strict : ctx.settings.lexical with
  | true =>
      exact ⟨_, rfl, fun record member holder held _ => kept record member holder held⟩
  | false =>
      obtain ⟨log, released⟩ :=
        releaseUnused_eq { s with tracker := s.tracker.endTemporaries [] }
      refine ⟨_, released, fun record member holder held pins => ?_⟩
      have there := kept record member holder held
      have needed := ((s.tracker.endTemporaries []).isLeast_releaseDead s.arena s.isLive).1
      cases live : s.isLive holder with
      | true => exact needed.live record there holder held live
      | false =>
          refine needed.pinned record there (pins.trans ?_)
          rw [State.pins, live]
          exact Bool.or_true _

/-- When a local that is a shared reference is copied into a new binding, the binding holds a copy of
each shared borrow that the local holds, and nothing else.  What these borrows are of stays as it is
when the local's borrows end, before the end of the statement and after it, and as long as the binding
is live. -/
theorem copy_shields {f : FunctionDef} {start : State} {part : Part}
    (visited : Visited ctx f start part s) (bound : lookup? s.scopes name = some place)
    (typed : s.arena.ty? place = some (.ref false inner))
    (readable : s.tracker.canRead s.arena place = .ok ()) : ∃ after ended,
    let taker := s.arena.size
    checkStmt (ctx.within f) (.letVar loc ident none (some (.name nameLoc name)) isMut) s =
      (.ok false, after) ∧
    endStatement (ctx.within f) after = (.ok (), ended) ∧
    lookup? after.scopes ident = some taker ∧
    after.tracker.heldBy place = s.tracker.heldBy place ∧
    (after.tracker.heldBy taker).map BorrowRecord.loan =
      ((s.tracker.heldBy place).filter fun record => record.kind = .shared).map BorrowRecord.loan ∧
    ∀ old ∈ s.tracker.heldBy place, old.kind = .shared →
      (after.tracker.endHeldBy place).Shields after.arena taker old.place ∧
      (ended.tracker.endHeldBy place).Shields ended.arena taker old.place ∧
      ∀ isLive, isLive taker = true →
        (ended.tracker.releaseDead ended.arena isLive).1.Shields ended.arena taker old.place := by
  have framed := visited.framed
  have isLocal : s.arena.IsLocal place :=
    framed.sheltered.locals place (mem_frames_of_lookup? framed bound)
  have apart : place ≠ s.arena.size := Nat.ne_of_lt isLocal.1
  obtain ⟨_, after, checked, rfl, found, borrows⟩ :=
    (letName_meets visited.numbered isLocal.root bound typed readable).completes
  obtain ⟨ended, atEnd, kept⟩ := endStatement_kept (ctx.within f) after
  refine ⟨after, ended, checked, atEnd, found, Tracker.heldBy_other apart borrows, ?_, ?_⟩
  · rw [Tracker.heldBy_taker framed.holds_none borrows]
    exact Tracker.copiesOf_loan
  intro old member shared
  obtain ⟨copy, isCopy, same⟩ := Tracker.exists_copy member shared s.nextBorrow s.arena.size
    (after.pins (ctx.within f) s.arena.size)
  obtain ⟨held, pinned⟩ := Tracker.of_mem_copiesOf isCopy
  have there : copy ∈ after.tracker.borrows := borrows ▸ List.mem_append_right _ isCopy
  have still : copy ∈ ended.tracker.borrows := kept copy there _ held pinned
  rw [← same]
  refine ⟨Tracker.shields_of_mem (Tracker.mem_endHeldBy there held apart) held,
    Tracker.shields_of_mem (Tracker.mem_endHeldBy still held apart) held, fun isLive live => ?_⟩
  have needed := (ended.tracker.isLeast_releaseDead ended.arena isLive).1
  exact Tracker.shields_of_mem (needed.live copy still _ held live) held

/-! ### A shared reference to what is borrowed in either way -/

def copyOfR : Stmt := .letVar none "s" none (some (.name none "r")) false

/-- A function that borrows `x` for a shared reference `r`, and copies the reference. -/
def copiesR (isMut : Bool) : FunctionDef :=
  { name := "main", params := [], returnType := none, loc := none
    body := .mk [.letVar none "x" none (some (.literal none (.int 1))) true,
      .letVar none "r" (some (.mk "&" [.mk "i32" []])) (some (.borrow none (.name none "x") isMut))
        false, copyOfR] none none }

/-- The copy holds a borrow of `x`, and keeps `x` from being written, just when `r` has borrowed it by
`&`. -/
theorem copiesR_visited (isMut : Bool) : ∃ s, Visited {} (copiesR isMut) {} (.stmt copyOfR) s ∧
    lookup? s.scopes "r" = some 1 ∧ s.arena.ty? 1 = some (.ref false .i32) ∧
    s.tracker.canRead s.arena 1 = .ok () ∧
    (s.tracker.heldBy 1).map (fun record => (record.place, record.kind)) = [(0, .ofMut isMut)] ∧
    let (answer, after) := checkStmt (Context.within {} (copiesR isMut)) copyOfR s
    answer = .ok false ∧
    (after.tracker.heldBy s.arena.size).length = (if isMut then 0 else 1) ∧
    ((after.tracker.endHeldBy 1).canWrite after.arena 0 = .ok () ↔ isMut = true) := by
  have body : Visited {} (copiesR isMut) {} _ _ :=
    .body (eq_ok_of_toBool (by cases isMut <;> decide +kernel))
  have stmts := body.within .statements (eq_ok_of_toBool (by cases isMut <;> decide +kernel))
  have second := stmts.within .moreStmts (eq_ok_of_toBool (by cases isMut <;> decide +kernel))
  have third := second.within .moreStmts (eq_ok_of_toBool (by cases isMut <;> decide +kernel))
  have here := third.within .stmt (eq_ok_of_toBool (by cases isMut <;> decide +kernel))
  refine ⟨_, here, ?_, ?_, ?_, ?_, ?_, ?_, ?_⟩
  all_goals cases isMut <;> decide +kernel

/-- Where `r` is `&x`, the copy shields `x`. -/
theorem copy_shields_copiesR : ∃ s after old,
    Visited {} (copiesR false) {} (.stmt copyOfR) s ∧
    checkStmt (Context.within {} (copiesR false)) copyOfR s = (.ok false, after) ∧
    old ∈ s.tracker.heldBy 1 ∧ old.kind = .shared ∧
    (after.tracker.endHeldBy 1).Shields after.arena s.arena.size old.place := by
  obtain ⟨s, visited, bound, typed, readable, held, -⟩ := copiesR_visited false
  obtain ⟨old, same, kinds⟩ := List.map_eq_singleton_iff.mp held
  have member : old ∈ s.tracker.heldBy 1 := same ▸ List.mem_singleton_self old
  have shared : old.kind = .shared := congrArg Prod.snd kinds
  obtain ⟨after, _, checked, -, -, -, -, each⟩ := copy_shields visited bound typed readable
  exact ⟨s, after, old, visited, checked, member, shared, (each old member shared).1⟩

/-- Where `r` is `&mut x`, it is a shared reference all the same, but the copy of it holds nothing, and
`x` can be written as soon as the borrows of `r` have ended. -/
theorem copy_shields_not_copiesR : ∃ s after old,
    Visited {} (copiesR true) {} (.stmt copyOfR) s ∧
    lookup? s.scopes "r" = some 1 ∧ s.arena.ty? 1 = some (.ref false .i32) ∧
    s.tracker.canRead s.arena 1 = .ok () ∧
    checkStmt (Context.within {} (copiesR true)) copyOfR s = (.ok false, after) ∧
    old ∈ s.tracker.heldBy 1 ∧ after.tracker.heldBy s.arena.size = [] ∧
    (after.tracker.endHeldBy 1).canWrite after.arena old.place = .ok () := by
  obtain ⟨s, visited, bound, typed, readable, held, answer, none, freed⟩ := copiesR_visited true
  obtain ⟨old, same, claims⟩ := List.map_eq_singleton_iff.mp held
  have member : old ∈ s.tracker.heldBy 1 := same ▸ List.mem_singleton_self old
  have isX : old.place = 0 := congrArg Prod.fst claims
  refine ⟨s, _, old, visited, bound, typed, readable, Prod.ext answer rfl, member,
    List.length_eq_zero_iff.mp none, ?_⟩
  rw [isX]
  exact freed.mpr rfl

end Checker

end BorrowLang
