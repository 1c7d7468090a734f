import BorrowLang.Proofs.Uses.Stores

/-!
# Actions that use a value

A value that is read stays where it is, or it is a box, which has left its cell after every reference
on the way there has ended.  A value that is assigned takes the place of what was there.
-/

set_option autoImplicit false

namespace BorrowLang.Evaluator

open Ownership BorrowStacks

variable {s mid after : State} {flight : List Addr} {l : Location} (ctx : Context)

theorem Location.path_eq (l : Location) : l.owners ++ [l.addr] = l.first :: l.inner := by
  cases owners : l.owners <;> simp [Location.first, Location.inner, owners]

/-! ### References that end -/

theorem accessOwned_idle {cause : DiagnosticKind} {addrs : List Addr} {before borrows : BorrowStacks}
    (allowed : accessOwned true cause before addrs = .ok borrows) :
    Lowered before borrows ∧ ∀ addr ∈ addrs, borrows.stack addr = [] := by
  induction addrs generalizing before with
  | nil =>
      obtain rfl := Except.ok.inj allowed
      exact ⟨.refl before, by rintro _ ⟨⟩⟩
  | cons addr rest ih =>
      obtain ⟨next, first, lowered, empty⟩ := access_owner_write before addr cause
      rw [accessOwned, first] at allowed
      obtain ⟨loweredRest, emptyRest⟩ := ih allowed
      refine ⟨lowered.trans loweredRest, List.forall_mem_cons.mpr ⟨?_, emptyRest⟩⟩
      exact loweredRest.empty addr empty

/-- No reference is left on the way from a binding to a location that was written. -/
theorem access_idle (l : Location) (expr : Expr) (cause : DiagnosticKind) (s : State) :
    Meets (access ctx l expr true cause) s
      (fun _ after => l.tag = none → ∀ addr ∈ l.owners ++ [l.addr], after.borrows.stack addr = [])
      (fun _ _ => True) := by
  simp only [access, meets_bind, meets_get]
  split
  · trivial
  · split
    · trivial
    · rename_i mid first
      split
      · trivial
      · rename_i last rest
        intro owner
        obtain ⟨loweredRest, emptyRest⟩ := accessOwned_idle rest
        obtain ⟨next, same, -, empty⟩ := access_owner_write s.borrows l.first cause
        rw [owner] at first
        obtain rfl := Except.ok.inj (first.symm.trans same)
        rw [l.path_eq]
        exact List.forall_mem_cons.mpr ⟨loweredRest.empty _ empty, emptyRest⟩

theorem spares_endOwned (fuel : Nat) (value : Value) (caused : s.borrows.Caused) :
    Spares (endOwned fuel value) s := by
  induction fuel generalizing s value with
  | zero =>
      cases value with
      | box addr => exact spares_fail id
      | _ => exact caused
  | succ fuel ih =>
      cases value with
      | box addr =>
          obtain ⟨borrows, allowed, -, -⟩ :=
            access_owner_write s.borrows addr .moveWhileBorrowed
          have other : DiagnosticKind.moveWhileBorrowed ≠ .useAfterMove := by rintro ⟨⟩
          have causedMid := caused.access other allowed
          unfold Spares
          simp only [endOwned, meets_bind, meets_get, allowed, meets_set]
          cases found : s.heap.cell addr with
          | error fault => exact id
          | ok cell =>
              rw [meets_ofHeap_ok]
              cases cell.liveValue? with
              | none => exact causedMid
              | some value => exact ih value causedMid
      | _ => exact caused

/-! ### Values that are read -/

/-- A value was read at a location. -/
inductive Used (s : State) (l : Location) : Value → State → Prop
  | stayed {value : Value} {after : State} (plain : value.box? = none) (ended : Ended s after) :
      Used s l value after
  | left {b : Addr} {mid : State} (ended : Ended s mid)
      (idle : l.tag = none → ∀ addr ∈ l.owners ++ [l.addr], mid.borrows.stack addr = []) :
      Used s l (.box b)
        { mid with heap := { mid.heap with cells := mid.heap.cells.insert l.addr ⟨.unit, .moved⟩ } }

variable {ctx}

theorem load_uses (expr : Expr) (caused : s.borrows.Caused)
    (held : (s.heap.lookup l.first).isSome →
      (∀ tag, l.tag = some tag → s.borrows.stack l.first ≠ []) →
        ∀ cell, s.heap.lookup l.addr = some cell → cell.state = .live) :
    Meets (load ctx l expr) s
      (fun value after => Ended s after ∧ s.heap.lookup l.addr = some ⟨value, .live⟩ ∧
        (∀ tag, l.tag = some tag → s.borrows.stack l.first ≠ []) ∧ after.borrows.Caused)
      (fun interrupt _ => interrupt.Spared) := by
  refine Meets.mono (Meets.both (load_ends ctx l expr s) (spares_load ctx l expr caused held)) ?_
    fun _ _ met => met.2
  rintro value after ⟨⟨ended, found, valid⟩, causedAfter⟩
  exact ⟨ended, found, valid, causedAfter⟩

theorem access_uses (l : Location) (expr : Expr) (isWrite : Bool) {cause : DiagnosticKind}
    (other : cause ≠ .useAfterMove) (caused : s.borrows.Caused) :
    Meets (access ctx l expr isWrite cause) s
      (fun _ after => Ended s after ∧ (s.heap.lookup l.first).isSome ∧
        (∀ tag, l.tag = some tag → s.borrows.stack l.first ≠ []) ∧ after.borrows.Caused)
      (fun interrupt _ => interrupt.Spared) := by
  refine Meets.mono (Meets.both (access_meets ctx l expr isWrite cause s)
    (spares_access ctx l expr isWrite other caused)) ?_ fun _ _ met => met.2
  rintro _ after ⟨⟨ended, here, valid⟩, causedAfter⟩
  exact ⟨ended, here, valid, causedAfter⟩

theorem read_uses (expr : Expr) (owned : Owned s flight) (caused : s.borrows.Caused)
    (held : (s.heap.lookup l.first).isSome →
      (∀ tag, l.tag = some tag → s.borrows.stack l.first ≠ []) →
        ∀ cell, s.heap.lookup l.addr = some cell → cell.state = .live) :
    Meets (read ctx l expr) s
      (fun value after => s.heap.lookup l.addr = some ⟨value, .live⟩ ∧ Used s l value after ∧
        after.borrows.Caused)
      (fun interrupt _ => interrupt.Spared) := by
  simp only [read, meets_bind]
  refine Meets.onOk (load_uses expr caused held) ?_
  rintro value loaded ⟨ended, found, -, causedLoaded⟩
  cases value with
  | box b =>
      have owns : boxAt s.heap.lookup l.addr = some b := by
        simp [boxAt, found, Cell.box?, Cell.liveValue?, Value.box?]
      obtain ⟨chain, run⟩ := owned.forest.ends b (owned.forest.target _ _ owns)
      simp only [meets_bind, meets_get]
      refine Meets.mono (Meets.both (access_uses l expr true (by rintro ⟨⟩) causedLoaded)
        (access_idle ctx l expr _ loaded)) ?_ fun _ _ met => met.1
      rintro _ accessed ⟨⟨endedAccess, -, -, causedAccess⟩, idle⟩
      have ended := ended.trans endedAccess
      have bound : chain.length ≤ accessed.heap.live + 1 := by
        rw [ended.heap]
        exact Nat.le_succ_of_le run.length_le_live
      rw [← ended.heap] at run
      refine Meets.mono (Meets.both (endOwned_meets run _ bound)
        (spares_endOwned _ (.box b) causedAccess)) ?_ fun _ _ met => met.1.elim
      rintro _ quieted ⟨⟨endedOwned, -⟩, causedQuieted⟩
      have ended := ended.trans endedOwned
      have foundHere : quieted.heap.lookup l.addr = some ⟨.box b, .live⟩ := by
        rw [ended.heap, found]
      simp only [Heap.take_eq_ok foundHere, meets_ofHeap_ok, meets_set, meets_pure]
      refine ⟨found, .left ended fun owner addr member => ?_, causedQuieted⟩
      exact endedOwned.lowered.empty addr (idle owner addr member)
  | _ => exact ⟨found, .stayed rfl ended, causedLoaded⟩

/-! ### Values that are assigned -/

/-- A value was stored at a location, and what the cell owned before is gone. -/
structure Stored (s : State) (l : Location) (value : Value) (after : State) : Prop where
  present : (s.heap.lookup l.addr).isSome
  replaced : ∃ gone, OwnedBy s.heap.lookup l.addr gone ∧ after.heap.lookup =
    Function.update (without s.heap.lookup gone) l.addr (some ⟨value, .live⟩)
  valid : ∀ tag, l.tag = some tag → s.borrows.stack l.first ≠ []
  allocated : after.heap.allocated = s.heap.allocated
  frames : after.frames = s.frames
  lowered : Lowered s.borrows after.borrows
  caused : after.borrows.Caused

theorem spares_dropHeld (cell : Cell) (caused : s.borrows.Caused) : Spares (dropHeld cell) s := by
  unfold dropHeld
  split
  · exact spares_dropValue _ caused
  · exact caused

theorem assign_uses (target : Expr) (value : Value) (owned : Owned s flight)
    (reached : Reached s l) (caused : s.borrows.Caused) :
    Meets (assign ctx l target value) s (fun _ after => Stored s l value after)
      (fun interrupt _ => interrupt.Spared) := by
  simp only [assign, meets_bind, meets_get]
  refine Meets.onOk (access_uses l target true (by rintro ⟨⟩) caused) ?_
  rintro _ accessed ⟨ended, here, valid, causedAccess⟩
  have present := reached.present owned here
  obtain ⟨cell, found⟩ := Option.isSome_iff_exists.mp present
  have foundHere : accessed.heap.lookup l.addr = some cell := by rw [ended.heap, found]
  rw [Heap.cell_eq_ok foundHere, meets_ofHeap_ok]
  refine Meets.mono (Meets.both (dropHeld_meets (ended.owned owned).forest foundHere)
    (spares_dropHeld cell causedAccess)) ?_ fun _ _ met => met.1.elim
  rintro _ dropped ⟨⟨gone, held, lookupEq, thinned⟩, causedDropped⟩
  have notGone : l.addr ∉ gone := by
    rcases held with ⟨-, rfl⟩ | ⟨b, owns, run⟩
    · simp
    · exact (List.nodup_cons.mp (Chain.next owns run).nodup).1
  have foundDropped : dropped.heap.lookup l.addr = some cell := by
    rw [lookupEq, without_of_notMem notGone, foundHere]
  simp only [storeAt, meets_bind, meets_get, Heap.store_eq_ok value foundDropped, meets_ofHeap_ok,
    meets_set]
  refine ⟨present, ⟨gone, ended.heap ▸ held, ?_⟩, valid, ?_, thinned.frames.trans ended.frames,
    ended.lowered.trans thinned.lowered, causedDropped⟩
  · rw [Heap.lookup_insert, lookupEq, ended.heap]
  · exact thinned.allocated.trans (by rw [ended.heap])

theorem arith_uses (loc : Option Position) (op : BinaryOp) (left right : Value) (s : State) :
    Meets (arith ctx loc op left right) s
      (fun result after => after = s ∧ left.box? = none ∧ result.addr? = none)
      (fun interrupt _ => interrupt.Spared) := by
  unfold arith
  split
  · rename_i m n known _
    have plain : left.box? = none := by
      cases left <;> simp [number?, Value.box?] at known ⊢
    split
    · unfold ofArith
      split
      · exact ⟨rfl, plain, rfl⟩
      · exact spared_of_kind (by rintro ⟨⟩)
    · exact (id : ¬ False)
  · exact (id : ¬ False)

theorem combine_uses (loc : Option Position) (target : Expr) (op : BinaryOp) (value : Value)
    (caused : s.borrows.Caused)
    (held : (s.heap.lookup l.first).isSome →
      (∀ tag, l.tag = some tag → s.borrows.stack l.first ≠ []) →
        ∀ cell, s.heap.lookup l.addr = some cell → cell.state = .live) :
    Meets (combine ctx loc l target op value) s
      (fun _ after => ∃ result : Value, result.addr? = none ∧ Stored s l result after)
      (fun interrupt _ => interrupt.Spared) := by
  simp only [combine, meets_bind]
  refine Meets.onOk (load_uses target caused held) ?_
  rintro current loaded ⟨ended, found, valid, causedLoaded⟩
  refine Meets.onOk (arith_uses loc op current value loaded) ?_
  rintro result _ ⟨rfl, wasPlain, plain⟩
  refine Meets.onOk (access_uses l target true (by rintro ⟨⟩) causedLoaded) ?_
  rintro _ accessed ⟨endedAccess, -, -, causedAccess⟩
  have ended := ended.trans endedAccess
  have foundHere : accessed.heap.lookup l.addr = some ⟨current, .live⟩ := by rw [ended.heap, found]
  simp only [storeAt, meets_bind, meets_get, Heap.store_eq_ok result foundHere, meets_ofHeap_ok,
    meets_set]
  refine ⟨result, plain, by simp [found], ⟨[], Or.inl ⟨?_, rfl⟩, ?_⟩, valid, ?_, ended.frames,
    ended.lowered, causedAccess⟩
  · simpa [boxAt, found, Cell.box?, Cell.liveValue?] using wasPlain
  · rw [Heap.lookup_insert, ended.heap, without_nil]
  · rw [ended.heap]

/-! ### Operators -/

theorem unary_uses (loc : Option Position) (op : UnaryOp) (operand : Value) (s : State) :
    Meets (unary ctx loc op operand) s (fun result after => after = s ∧ result.addr? = none)
      (fun interrupt _ => interrupt.Spared) := by
  unfold unary
  split
  · exact ⟨rfl, rfl⟩
  · split
    · unfold ofArith
      split
      · exact ⟨rfl, rfl⟩
      · exact spared_of_kind (by rintro ⟨⟩)
    · exact (id : ¬ False)

theorem binary_uses (loc : Option Position) (op : BinaryOp) (left right : Value) (s : State) :
    Meets (binary ctx loc op left right) s (fun result after => after = s ∧ result.addr? = none)
      (fun interrupt _ => interrupt.Spared) := by
  unfold binary
  split
  · exact ⟨rfl, rfl⟩
  · exact ⟨rfl, rfl⟩
  · split
    · exact ⟨rfl, rfl⟩
    · exact (id : ¬ False)
  · exact (arith_uses loc op left right s).onOk fun _ _ met => ⟨met.1, met.2.2⟩

end BorrowLang.Evaluator
