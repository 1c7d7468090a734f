import BorrowLang.Proofs.Ownership.Access
import Mathlib.Data.List.Chain

/-!
# Actions keep the state in order

Each action moves boxes between the cells and the evaluation, one at a time: into a new cell, out of
a location, into a location in the place of what was there.
-/

set_option autoImplicit false

namespace BorrowLang.Evaluator

open Ownership BorrowStacks

variable {s after : State} {flight : List Addr}

/-! ### New contents of a cell -/

theorem Owned.overwrite {l : Addr} {cell : Cell} (here : (s.heap.lookup l).isSome)
    (stacked : ∀ addr, s.borrows.byAddr.contains addr → (s.heap.lookup addr).isSome)
    (accounted : s.heap.Accounted)
    (forest : Forest (Function.update s.heap.lookup l (some cell)) (s.scopeCells ++ flight))
    (quiet : ∀ box ∈ flight, ∃ chain, Chain s.heap.lookup box chain ∧ l ∉ chain ∧
      ∀ addr ∈ chain, s.borrows.stack addr = []) :
    Owned { s with heap := { s.heap with cells := s.heap.cells.insert l cell } } flight where
  forest := by
    rw [s.heap.lookup_insert]
    exact forest
  quiet box member := by
    obtain ⟨chain, run, outside, empty⟩ := quiet box member
    refine ⟨chain, ?_, empty⟩
    rw [s.heap.lookup_insert]
    exact run.update outside
  stacked addr known := by
    rw [s.heap.lookup_insert, isSome_update]
    simp [stacked addr known]
  accounted := accounted.overwrite here

theorem Steady.overwrite {l : Addr} {cell : Cell} (here : (s.heap.lookup l).isSome) :
    Steady s { s with heap := { s.heap with cells := s.heap.cells.insert l cell } } where
  allocated := Nat.le_refl _
  gone addr _ present := by
    rw [s.heap.lookup_insert, isSome_update] at present
    rcases (Bool.or_eq_true _ _).mp present with same | present
    · exact of_decide_eq_true same ▸ here
    · exact present
  inScope addr member _ := Or.inl member
  shape := rfl

/-- A value that is read is moved out of its cell if it is a box. -/
theorem read_meets (ctx : Context) {l : Location} (expr : Expr) (owned : Owned s flight)
    (reached : Reached s l) :
    Meets (read ctx l expr) s
      (fun value after => Owned after (flight ++ boxes [value]) ∧ Steady s after)
      (Broken s flight) := by
  simp only [read, meets_bind]
  apply Meets.onOk (load_meets ctx l expr owned)
  intro value loaded met
  obtain ⟨ended, found, valid⟩ := met
  cases value with
  | box b =>
      have owns : boxAt s.heap.lookup l.addr = some b := by
        simp [boxAt, found, Cell.box?, Cell.liveValue?, Value.box?]
      obtain ⟨chain, run⟩ := owned.forest.ends b (owned.forest.target _ _ owns)
      have outside : l.addr ∉ chain := (List.nodup_cons.mp (Chain.next owns run).nodup).1
      simp only [meets_bind, meets_get]
      refine (access_meets ctx l expr _ _ loaded).mono ?_ ?_
      · intro _ accessed met
        obtain ⟨endedAccess, -, -⟩ := met
        have ended := ended.trans endedAccess
        have bound : chain.length ≤ accessed.heap.live + 1 := by
          rw [ended.heap]
          exact Nat.le_succ_of_le run.length_le_live
        rw [← ended.heap] at run
        apply Meets.uncut (endOwned_meets run _ bound)
        intro _ quieted met
        obtain ⟨endedOwned, empty⟩ := met
        rw [ended.heap] at run
        have ended := ended.trans endedOwned
        have owned := ended.owned owned
        rw [← ended.heap] at found run owns
        simp only [Heap.take_eq_ok found, meets_ofHeap_ok, meets_set, meets_pure]
        have present : (quieted.heap.lookup l.addr).isSome := by simp [found]
        refine ⟨.overwrite present owned.stacked owned.accounted ?_ ?_,
          ended.steady.trans (.overwrite present)⟩
        · refine (owned.forest.take owns rfl).weaken (List.Perm.subperm ?_)
          exact (List.append_assoc _ _ _).symm ▸ List.perm_append_singleton b _
        · intro box member
          rcases List.mem_append.mp member with old | new
          · obtain ⟨boxChain, boxRun, boxEmpty⟩ := owned.quiet box old
            refine ⟨boxChain, boxRun, ?_, boxEmpty⟩
            rw [ended.heap] at boxRun
            exact reached.outside ‹Owned s flight› valid old boxRun
          · obtain rfl := List.mem_singleton.mp new
            exact ⟨chain, run, outside, empty⟩
      · intro interrupt failed met
        obtain ⟨rfl, diagnostic, rfl⟩ := met
        exact ended.broken owned trivial
  | _ =>
      simp only [meets_pure, boxes, List.filterMap, Value.box?, List.append_nil]
      exact ⟨ended.owned owned, ended.steady⟩

/-- What a cell holds is dropped with all that it owns. -/
theorem dropHeld_meets {l : Addr} {cell : Cell} {roots : List Addr}
    (forest : Forest s.heap.lookup roots) (found : s.heap.lookup l = some cell) :
    Meets (dropHeld cell) s
      (fun _ after => ∃ gone, OwnedBy s.heap.lookup l gone ∧
        after.heap.lookup = without s.heap.lookup gone ∧ Thinned s after)
      (fun _ _ => False) := by
  have boxEq : boxAt s.heap.lookup l = cell.box? := by simp [boxAt, found]
  unfold dropHeld
  cases box : cell.box? with
  | none =>
      have nothing : OwnedBy s.heap.lookup l [] := Or.inl ⟨boxEq.trans box, rfl⟩
      have unchanged : s.heap.lookup = without s.heap.lookup [] := (without_nil _).symm
      split
      · rename_i value held
        have plain : value.box? = none := by simpa [Cell.box?, held] using box
        simp only [dropValue, meets_bind, meets_get, owned_eq_nil plain, meets_ofHeap_ok]
        exact ⟨[], nothing, unchanged, .refl s⟩
      · exact ⟨[], nothing, unchanged, .refl s⟩
  | some b =>
      have owns := boxEq.trans box
      obtain ⟨chain, run⟩ := forest.ends b (forest.target _ _ owns)
      split
      · rename_i value held
        obtain rfl := Value.box?_eq_some.mp (by simpa [Cell.box?, held] using box)
        apply Meets.onOk (dropValue_box_meets run)
        intro _ after met
        obtain ⟨lookupEq, thinned⟩ := met
        exact ⟨chain, Or.inr ⟨b, owns, run⟩, lookupEq, thinned⟩
      · rename_i empty
        simp [Cell.box?, empty] at box

/-- A value that is stored takes the place of what was there, which is dropped. -/
theorem assign_meets (ctx : Context) {l : Location} (target : Expr) (value : Value)
    (owned : Owned s (flight ++ boxes [value])) (reached : Reached s l) :
    Meets (assign ctx l target value) s
      (fun _ after => Owned after flight ∧ Steady s after)
      (Broken s flight) := by
  have fewer : flight.Subperm (flight ++ boxes [value]) :=
    (List.sublist_append_left _ _).subperm
  simp only [assign, meets_bind, meets_get]
  refine (access_meets ctx l target _ _ s).mono ?_ ?_
  · intro _ accessed met
    obtain ⟨ended, -, valid⟩ := met
    have ownedHere := ended.owned owned
    cases found : accessed.heap.lookup l.addr with
    | none =>
        rw [Heap.cell_eq_error found, meets_ofHeap_error]
        exact ended.broken (owned.weaken fewer) trivial
    | some cell =>
        rw [Heap.cell_eq_ok found, meets_ofHeap_ok]
        apply Meets.uncut (dropHeld_meets ownedHere.forest found)
        intro _ dropped met
        obtain ⟨gone, held, lookupEq, thinned⟩ := met
        have outside : ∀ box ∈ flight ++ boxes [value], ∀ chain,
            Chain accessed.heap.lookup box chain → l.addr ∉ chain := by
          intro box member chain run
          rw [ended.heap] at run
          exact reached.outside owned valid member run
        have notGone : l.addr ∉ gone := by
          rcases held with ⟨-, rfl⟩ | ⟨b, owns, run⟩
          · simp
          · exact (List.nodup_cons.mp (Chain.next owns run).nodup).1
        have foundDropped : dropped.heap.lookup l.addr = some cell := by
          rw [lookupEq, without_of_notMem notGone, found]
        have present : (dropped.heap.lookup l.addr).isSome := by simp [foundDropped]
        have scopeCellsEq : dropped.scopeCells = accessed.scopeCells := by
          rw [State.scopeCells, State.scopeCells, thinned.frames]
        have thinnedSteady : Steady accessed dropped :=
          ⟨thinned.kept, by rw [State.shape, State.shape, thinned.frames]⟩
        simp only [storeAt, meets_bind, meets_get, Heap.store_eq_ok value foundDropped,
          meets_ofHeap_ok, meets_set]
        refine ⟨.overwrite present (thinned.stacked ownedHere.stacked)
          (thinned.accounted ownedHere.accounted) ?_ ?_,
          (ended.steady.trans thinnedSteady).trans (.overwrite present)⟩
        · rw [lookupEq, scopeCellsEq]
          have cellBox : Cell.box? ⟨value, .live⟩ = value.box? := rfl
          refine Forest.replace ?_ (by simp [found]) ?_ held
          · refine ownedHere.forest.weaken (List.Perm.subperm ?_)
            rw [cellBox, ← boxes_singleton, ← List.append_assoc accessed.scopeCells]
            exact List.perm_append_comm
          · intro b chain box run
            refine outside b (List.mem_append_right _ ?_) chain run
            simp [boxes_singleton, ← cellBox, box]
        · intro box member
          have boxMember := List.mem_append_left (boxes [value]) member
          obtain ⟨chain, run, empty⟩ := ownedHere.quiet box boxMember
          have apart := ownedHere.forest.apart (List.mem_append_right _ boxMember) run
            (outside box boxMember chain run) held
          refine ⟨chain, ?_, outside box boxMember chain run, ?_⟩
          · rw [lookupEq]
            exact run.frame fun x inChain => without_of_notMem (apart x inChain)
          · exact fun addr inChain => thinned.lowered.empty addr (empty addr inChain)
  · intro interrupt after met
    obtain ⟨rfl, diagnostic, rfl⟩ := met
    exact (Ended.refl after).broken (owned.weaken fewer) trivial

theorem arith_meets (ctx : Context) (loc : Option Position) (op : BinaryOp) (left right : Value)
    (s : State) :
    Meets (arith ctx loc op left right) s
      (fun value after => after = s ∧ value.box? = none)
      (fun interrupt after => after = s ∧ ∃ fault, interrupt = .failed fault ∧ fault.FromUse) := by
  unfold arith
  split
  · split
    · unfold ofArith
      split
      · exact ⟨rfl, rfl⟩
      · exact ⟨rfl, _, rfl, trivial⟩
    · exact ⟨rfl, _, rfl, trivial⟩
  · exact ⟨rfl, _, rfl, trivial⟩

theorem combine_meets (ctx : Context) (loc : Option Position) {l : Location} (target : Expr)
    (op : BinaryOp) (value : Value) (owned : Owned s flight) (reached : Reached s l) :
    Meets (combine ctx loc l target op value) s
      (fun _ after => Owned after flight ∧ Steady s after)
      (Broken s flight) := by
  simp only [combine, meets_bind]
  apply Meets.onOk (load_meets ctx l target owned)
  intro current loaded met
  obtain ⟨ended, found, valid⟩ := met
  refine (arith_meets ctx loc op current value loaded).mono ?_ ?_
  · intro result _ met
    obtain ⟨rfl, plain⟩ := met
    refine (access_meets ctx l target _ _ _).mono ?_ ?_
    · intro _ accessed met
      obtain ⟨endedAccess, -, -⟩ := met
      have ended := ended.trans endedAccess
      have ownedHere := ended.owned owned
      rw [← ended.heap] at found
      have present : (accessed.heap.lookup l.addr).isSome := by simp [found]
      have outside : ∀ box ∈ flight, ∀ chain, Chain accessed.heap.lookup box chain →
          l.addr ∉ chain := by
        intro box member chain run
        rw [ended.heap] at run
        exact reached.outside owned valid member run
      have cellBox : Cell.box? ⟨result, .live⟩ = none := plain
      simp only [storeAt, meets_bind, meets_get, Heap.store_eq_ok result found,
        meets_ofHeap_ok, meets_set]
      refine ⟨.overwrite present ownedHere.stacked ownedHere.accounted ?_ ?_,
        ended.steady.trans (.overwrite present)⟩
      · refine Forest.store ?_ present (by simp [cellBox])
        rw [cellBox]
        exact ownedHere.forest
      · intro box member
        obtain ⟨chain, run, empty⟩ := ownedHere.quiet box member
        exact ⟨chain, run, outside box member chain run, empty⟩
    · intro interrupt after met
      obtain ⟨rfl, diagnostic, rfl⟩ := met
      exact ended.broken owned trivial
  · intro interrupt _ met
    obtain ⟨rfl, fault, rfl, fromUse⟩ := met
    exact ended.broken owned fromUse

/-! ### New cells -/

/-- A new cell is a root, in the place of the box that moves into it. -/
theorem Owned.alloc {cell : Cell} {value : Value} {initialized : Bool} {next : List Addr}
    (owned : Owned s (flight ++ cell.box?.toList))
    (cellEq : cell = ⟨value, if initialized then .live else .uninit⟩)
    (heap : after.heap = (s.heap.alloc value initialized).1) (borrows : after.borrows = s.borrows)
    (roots : (after.scopeCells ++ next).Perm
      ((s.heap.allocated + 1) :: (s.scopeCells ++ flight)))
    (part : ∀ box ∈ next, box ∈ flight ∨ box = s.heap.allocated + 1) :
    Owned after next := by
  have fresh := owned.accounted.fresh (Nat.lt_succ_self s.heap.allocated)
  have lookupEq : after.heap.lookup =
      Function.update s.heap.lookup (s.heap.allocated + 1) (some cell) := by
    rw [heap, Heap.lookup_alloc, cellEq]
  have update : ∀ {x chain}, Chain s.heap.lookup x chain → Chain after.heap.lookup x chain := by
    intro x chain run
    rw [lookupEq]
    refine run.update fun member => ?_
    simpa [fresh] using run.present _ member
  constructor
  · rw [lookupEq]
    refine (Forest.insert ?_ fresh).weaken roots.subperm
    refine owned.forest.weaken (List.Perm.subperm ?_)
    rw [← List.append_assoc s.scopeCells]
    exact List.perm_append_comm
  · intro box member
    rcases part box member with old | rfl
    · obtain ⟨chain, run, empty⟩ := owned.quiet box (List.mem_append_left _ old)
      exact ⟨chain, update run, by rwa [borrows]⟩
    · have newEmpty : after.borrows.stack (s.heap.allocated + 1) = [] := by
        rw [borrows]
        refine stack_of_absent (Bool.eq_false_iff.mpr fun known => ?_)
        simpa [fresh] using owned.stacked _ known
      cases box : cell.box? with
      | none =>
          refine ⟨_, .last (by simp [lookupEq]) (by simp [lookupEq, boxAt_update, box]), ?_⟩
          simpa using newEmpty
      | some b =>
          obtain ⟨chain, run, empty⟩ := owned.quiet b (by simp [box])
          refine ⟨_, .next (by simp [lookupEq, boxAt_update, box]) (update run), ?_⟩
          intro addr inChain
          rcases List.mem_cons.mp inChain with rfl | later
          · exact newEmpty
          · exact borrows ▸ empty addr later
  · intro addr known
    rw [borrows] at known
    rw [lookupEq, isSome_update]
    simp [owned.stacked addr known]
  · rw [heap]
    exact owned.accounted.alloc value initialized

theorem Steady.alloc {value : Value} {initialized : Bool}
    (heap : after.heap = (s.heap.alloc value initialized).1)
    (scopeCells : ∀ addr ∈ s.scopeCells, addr ∈ after.scopeCells) (shape : after.shape = s.shape) :
    Steady s after where
  allocated := by
    rw [heap]
    exact Nat.le_succ _
  gone addr old present := by
    have different : addr ≠ s.heap.allocated + 1 := by
      rintro rfl
      exact absurd old (Nat.not_succ_le_self _)
    rw [heap, Heap.lookup_alloc, isSome_update] at present
    simpa [different] using present
  inScope addr member _ := Or.inl (scopeCells addr member)
  shape := shape

def Open (shape : List Nat) : Prop := ∃ count rest, shape = (count + 1) :: rest

theorem Open.frames (isOpen : Open s.shape) :
    ∃ scope scopes frames, s.frames = ⟨scope :: scopes⟩ :: frames := by
  obtain ⟨count, rest, shape⟩ := isOpen
  cases frames : s.frames with
  | nil => simp [State.shape, frames] at shape
  | cons activation others =>
      obtain ⟨scopes⟩ := activation
      cases scopes with
      | nil => simp [State.shape, frames] at shape
      | cons scope scopes => exact ⟨scope, scopes, others, rfl⟩

theorem boxNew_meets {value : Value} (owned : Owned s (flight ++ boxes [value])) :
    Meets (alloc value true) s
      (fun addr after => Owned after (flight ++ [addr]) ∧ Steady s after)
      (fun _ _ => False) := by
  simp only [Evaluator.alloc, meets_bind, meets_get, meets_set, meets_pure]
  rw [boxes_singleton] at owned
  refine ⟨@Owned.alloc _ _ _ ⟨value, .live⟩ _ _ _ owned rfl rfl rfl ?_ ?_, .alloc rfl (fun _ h => h) rfl⟩
  · change (s.scopeCells ++ (flight ++ [s.heap.allocated + 1])).Perm _
    rw [← List.append_assoc]
    exact List.perm_append_singleton _ _
  · intro box member
    rcases List.mem_append.mp member with old | new
    · exact Or.inl old
    · exact Or.inr (List.mem_singleton.mp new)

theorem bind_meets (name : String) {value : Value} {initialized : Bool}
    (owned : Owned s (flight ++
      (Cell.box? ⟨value, if initialized then .live else .uninit⟩).toList))
    (isOpen : Open s.shape) :
    Meets (bind name value initialized) s
      (fun _ after => Owned after flight ∧ Steady s after)
      (fun _ _ => False) := by
  obtain ⟨scope, scopes, frames, framesEq⟩ := isOpen.frames
  simp only [bind, Evaluator.alloc, modifyScope, meets_bind, meets_get, meets_set, meets_pure,
    meets_modify, framesEq]
  refine ⟨.alloc owned rfl rfl rfl ?_ fun _ h => Or.inl h, .alloc rfl ?_ ?_⟩
  · simp [State.scopeCells, framesEq, Heap.alloc, Scope.bind]
  · intro addr member
    simp only [State.scopeCells, framesEq, List.flatMap_cons, List.mem_append] at member ⊢
    simp only [Scope.bind, List.mem_cons]
    tauto
  · simp [State.shape, framesEq]

theorem materialize_meets {value : Value} (owned : Owned s (flight ++ boxes [value]))
    (isOpen : Open s.shape) :
    Meets (materialize value) s
      (fun addr after => Owned after flight ∧ Steady s after ∧ addr ∈ after.scopeCells ∧
        after.heap.lookup addr = some ⟨value, .live⟩)
      (fun _ _ => False) := by
  obtain ⟨scope, scopes, frames, framesEq⟩ := isOpen.frames
  simp only [materialize, Evaluator.alloc, modifyScope, meets_bind, meets_get, meets_set, meets_pure,
    meets_modify, framesEq]
  rw [boxes_singleton] at owned
  refine ⟨@Owned.alloc _ _ _ ⟨value, .live⟩ _ _ _ owned rfl rfl rfl ?_ fun _ h => Or.inl h,
    .alloc rfl ?_ ?_, ?_, ?_⟩
  · simp [State.scopeCells, framesEq, Heap.alloc, Scope.hold]
  · intro addr member
    simp only [State.scopeCells, framesEq, List.flatMap_cons, List.mem_append] at member ⊢
    simp only [Scope.hold, List.mem_cons]
    tauto
  · simp [State.shape, framesEq]
  · simp [State.scopeCells, Scope.hold]
  · simp [Heap.alloc, Heap.lookup_insert]

/-- The arguments of a call become the cells of its outermost scope. -/
theorem bindArgs_meets {args : List (Param × Value)}
    (owned : Owned s (flight ++ boxes (args.map (·.2)))) (isOpen : Open s.shape) :
    Meets (bindArgs args) s
      (fun _ after => Owned after flight ∧ Steady s after)
      (fun _ _ => False) := by
  induction args generalizing s with
  | nil => exact ⟨by simpa using owned, .refl s⟩
  | cons arg rest ih =>
      obtain ⟨param, value⟩ := arg
      simp only [bindArgs, meets_bind]
      have first : Owned s ((flight ++ boxes (rest.map (·.2))) ++
          (Cell.box? ⟨value, if true then .live else .uninit⟩).toList) := by
        refine owned.weaken (List.Perm.subperm ?_)
        change ((flight ++ boxes (rest.map (·.2))) ++ value.box?.toList).Perm _
        rw [List.map_cons, boxes_cons, List.append_assoc]
        exact List.perm_append_comm.append_left flight
      apply Meets.onOk (bind_meets param.name first isOpen)
      intro _ mid met
      obtain ⟨ownedMid, steady⟩ := met
      have openMid : Open mid.shape := by rwa [steady.shape]
      apply Meets.onOk (ih ownedMid openMid)
      intro _ after met
      obtain ⟨ownedAfter, steadyRest⟩ := met
      exact ⟨ownedAfter, steady.trans steadyRest⟩

/-! ### Scopes and calls -/

/-- Scopes may be arranged in another way as long as their cells stay the same. -/
theorem Owned.reframe (owned : Owned s flight) (heap : after.heap = s.heap)
    (borrows : after.borrows = s.borrows) (scopeCells : after.scopeCells = s.scopeCells) :
    Owned after flight where
  forest := by
    rw [heap, scopeCells]
    exact owned.forest
  quiet box member := by
    obtain ⟨chain, run, empty⟩ := owned.quiet box member
    exact ⟨chain, by rwa [heap], by rwa [borrows]⟩
  stacked addr known := by
    rw [heap]
    exact owned.stacked addr (borrows ▸ known)
  accounted := by
    rw [heap]
    exact owned.accounted

theorem Kept.reframe (heap : after.heap = s.heap) (scopeCells : after.scopeCells = s.scopeCells) :
    Kept s after where
  allocated := Nat.le_of_eq (by rw [heap])
  gone addr _ present := by rwa [heap] at present
  inScope addr member _ := Or.inl (by rwa [scopeCells])

theorem pushScope_meets (owned : Owned s flight) {count : Nat} {rest : List Nat}
    (shape : s.shape = (count + 1) :: rest) :
    Meets pushScope s
      (fun _ after => Owned after flight ∧ Kept s after ∧ after.shape = (count + 2) :: rest)
      (fun _ _ => False) := by
  obtain ⟨scope, scopes, frames, framesEq⟩ := Open.frames ⟨count, rest, shape⟩
  simp only [pushScope, meets_modify, framesEq]
  have scopeCells : State.scopeCells { s with frames := ⟨{} :: scope :: scopes⟩ :: frames } =
      s.scopeCells := by
    simp [State.scopeCells, framesEq]
  refine ⟨owned.reframe rfl rfl scopeCells, .reframe rfl scopeCells, ?_⟩
  simpa [State.shape, framesEq] using shape

/-- The state without the innermost scope, whose cells belong to no scope then. -/
def State.leaveScope (s : State) : State :=
  match s.frames with
  | ⟨_ :: scopes⟩ :: frames => { s with frames := ⟨scopes⟩ :: frames }
  | _ => s

/-- A scope that is left has its cells dropped, and no drop fails. -/
theorem popScope_meets (owned : Owned s flight) {count : Nat} {rest : List Nat}
    (shape : s.shape = (count + 1) :: rest) :
    Meets popScope s
      (fun _ after => Owned after flight ∧ Kept s after ∧ after.shape = count :: rest ∧
        Thinned s.leaveScope after)
      (fun _ _ => False) := by
  obtain ⟨scope, scopes, frames, framesEq⟩ := Open.frames ⟨count, rest, shape⟩
  simp only [popScope, meets_bind, meets_get, framesEq, meets_set]
  let left : State := { s with frames := ⟨scopes⟩ :: frames }
  have leftEq : s.leaveScope = left := by simp only [State.leaveScope, framesEq, left]
  have scopeCells : s.scopeCells = scope.cells ++ left.scopeCells := by
    simp [State.scopeCells, framesEq, left]
  have forest : Forest left.heap.lookup (scope.cells ++ (left.scopeCells ++ flight)) := by
    rw [← List.append_assoc, ← scopeCells]
    exact owned.forest
  have ownedLeft : Owned left flight :=
    ⟨forest.weaken (List.sublist_append_right _ _).subperm, owned.quiet, owned.stacked,
      owned.accounted⟩
  apply Meets.onOk (dropCells_meets forest)
  intro _ after met
  obtain ⟨forestAfter, thinned, gone⟩ := met
  have cellsAfter : after.scopeCells = left.scopeCells := by
    rw [State.scopeCells, State.scopeCells, thinned.frames]
  refine ⟨thinned.owned ownedLeft (List.Subset.refl _) (cellsAfter ▸ forestAfter), ?_, ?_,
    leftEq ▸ thinned⟩
  · constructor
    · exact Nat.le_of_eq thinned.allocated.symm
    · exact fun addr _ present => thinned.cells addr present ▸ present
    · intro addr member _
      rw [scopeCells] at member
      rcases List.mem_append.mp member with dropped | stays
      · exact Or.inr (gone addr dropped)
      · exact Or.inl (cellsAfter ▸ stays)
  · rw [State.shape, thinned.frames]
    simpa [State.shape, framesEq, left] using shape

/-- A call that is left has one scope left, that of its parameters. -/
theorem popFrame_meets (owned : Owned s flight) {rest : List Nat} (shape : s.shape = 1 :: rest) :
    Meets popFrame s
      (fun _ after => Owned after flight ∧ Kept s after ∧ after.shape = rest ∧
        Thinned { s with frames := s.frames.drop 1 } after)
      (fun _ _ => False) := by
  obtain ⟨scope, scopes, frames, framesEq⟩ := Open.frames ⟨0, rest, shape⟩
  obtain ⟨rfl, shapeRest⟩ : scopes = [] ∧ frames.map (·.scopes.length) = rest := by
    simpa [State.shape, framesEq] using shape
  have openScopes : (s.frames.head?.map (·.scopes.length)).getD 0 = 1 := by simp [framesEq]
  simp only [popFrame, meets_bind, meets_get, openScopes, popScopes]
  apply Meets.onOk (@popScope_meets _ _ owned 0 _ shape)
  intro _ mid met
  obtain ⟨ownedMid, kept, -, thinned⟩ := met
  simp only [meets_pure, meets_modify]
  have framesMid : mid.frames = ⟨[]⟩ :: frames := by
    rw [thinned.frames]
    simp only [State.leaveScope, framesEq]
  have scopeCells : State.scopeCells { mid with frames := mid.frames.drop 1 } =
      mid.scopeCells := by
    simp [State.scopeCells, framesMid]
  have leftHeap : s.leaveScope.heap = s.heap ∧ s.leaveScope.borrows = s.borrows := by
    simp [State.leaveScope, framesEq]
  refine ⟨ownedMid.reframe rfl rfl scopeCells, kept.trans (.reframe rfl scopeCells), ?_, ?_⟩
  · simpa [State.shape, framesMid] using shapeRest
  · obtain ⟨cells, allocated, lowered, stacked, accounted, -⟩ := thinned
    rw [leftHeap.1] at cells allocated stacked accounted
    rw [leftHeap.2] at lowered stacked
    exact ⟨cells, allocated, lowered, stacked, accounted, by simp [framesMid, framesEq]⟩

theorem pushFrame_meets (ctx : Context) (f : FunctionDef) (loc : Option Position)
    (owned : Owned s flight) :
    Meets (pushFrame ctx f loc) s
      (fun _ after => Owned after flight ∧ Kept s after ∧ after.shape = 1 :: s.shape)
      (Broken s flight) := by
  simp only [pushFrame, meets_bind, meets_get]
  split
  · exact (Ended.refl s).broken owned trivial
  · rw [meets_set]
    have scopeCells : State.scopeCells { s with frames := ⟨[default]⟩ :: s.frames } =
        s.scopeCells := by
      simp [State.scopeCells, default]
    exact ⟨owned.reframe rfl rfl scopeCells, .reframe rfl scopeCells, rfl⟩

/-! ### References and pointers -/

/-- A reference may be made to a cell outside of the boxes in flight. -/
theorem pushTag_meets {addr : Addr} (isMut : Bool) (owned : Owned s flight)
    (present : (s.heap.lookup addr).isSome)
    (outside : ∀ box ∈ flight, ∀ chain, Chain s.heap.lookup box chain → addr ∉ chain) :
    Meets (pushTag addr isMut) s
      (fun value after => Owned after flight ∧ Steady s after ∧ value.box? = none)
      (fun _ _ => False) := by
  simp only [pushTag, meets_bind, meets_get, meets_set, meets_pure]
  refine ⟨⟨owned.forest, ?_, ?_, owned.accounted⟩, ⟨.reframe rfl rfl, rfl⟩, rfl⟩
  · intro box member
    obtain ⟨chain, run, empty⟩ := owned.quiet box member
    refine ⟨chain, run, fun other inChain => ?_⟩
    rw [stack_push _ _ _ (by rintro rfl; exact outside box member chain run inChain)]
    exact empty other inChain
  · intro other known
    rcases contains_push known with rfl | known
    · exact present
    · exact owned.stacked other known

/-- A pointer that was read at a location leads on from it. -/
theorem pointee_some_meets {base : Location} {pointer : Value} (source : Expr)
    (reached : Reached s base) (found : s.heap.lookup base.addr = some ⟨pointer, .live⟩) :
    Meets (pointee (some base) pointer source) s
      (fun l after => after = s ∧ Reached s l)
      (fun interrupt after => after = s ∧ ∃ fault, interrupt = .failed fault ∧ fault.FromUse) := by
  cases pointer with
  | ref addr isMut tag => exact ⟨rfl, by simp, by simp⟩
  | box addr =>
      have owns : boxAt s.heap.lookup base.addr = some addr := by
        simp [boxAt, found, Cell.box?, Cell.liveValue?, Value.box?]
      refine ⟨rfl, ?_, ?_⟩
      · refine List.isChain_append.mpr ⟨reached.path, by simp, ?_⟩
        intro a last b head
        simp only [List.getLast?_append, List.getLast?_singleton, Option.some_or,
          Option.mem_def, Option.some.injEq, List.head?_cons] at last head
        exact last ▸ head ▸ owns
      · intro owner
        obtain ⟨root, member, chain, run, first⟩ := reached.base owner
        refine ⟨root, member, chain, run, ?_⟩
        cases owners : base.owners <;> simpa [Location.first, owners] using first
  | _ => exact ⟨rfl, _, rfl, trivial⟩

/-- A pointer that is a temporary leads to a cell of its own. -/
theorem pointee_none_meets (pointer : Value) (source : Expr)
    (kept : ∀ addr, pointer = .box addr →
      ∃ root ∈ s.scopeCells, ∃ chain, Chain s.heap.lookup root chain ∧ addr ∈ chain) :
    Meets (pointee none pointer source) s
      (fun l after => after = s ∧ Reached s l)
      (fun interrupt after => after = s ∧ ∃ fault, interrupt = .failed fault ∧ fault.FromUse) := by
  cases pointer with
  | ref addr isMut tag => exact ⟨rfl, by simp, by simp⟩
  | box addr => exact ⟨rfl, by simp, fun _ => kept addr rfl⟩
  | _ => exact ⟨rfl, _, rfl, trivial⟩

end BorrowLang.Evaluator
