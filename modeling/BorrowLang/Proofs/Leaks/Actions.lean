import BorrowLang.Proofs.Ownership.Covers
import BorrowLang.Proofs.Ownership.Effects

/-!
# Actions lose no cell

A state is covered when the cells of its scopes and some boxes in flight lead to every cell in use.
An action keeps it covered: a box that leaves the flight goes into a cell or is dropped with what it
owns, and a box that leaves its cell comes into flight.
-/

set_option autoImplicit false

namespace BorrowLang.Evaluator

open Ownership

variable {s after : State} {flight roots others : List Addr} {l : Location} {value : Value}

/-- Scopes and some boxes lead to every cell in use. -/
def State.Covered (s : State) (flight : List Addr) : Prop :=
  Covers s.heap.lookup (s.scopeCells ++ flight)

namespace State.Covered

theorem more (covered : s.Covered flight) {others : List Addr}
    (part : ∀ box ∈ flight, box ∈ others) : s.Covered others :=
  Covers.more covered fun root member => by
    rcases List.mem_append.mp member with inScope | inFlight
    · exact List.mem_append_left _ inScope
    · exact List.mem_append_right _ (part root inFlight)

theorem unmoved (covered : s.Covered flight) (unmoved : Unmoved s after) : after.Covered flight := by
  unfold State.Covered
  rw [unmoved.heap, unmoved.scopeCells]
  exact covered

/-- The boxes in flight may stand before the cells of the scopes. -/
theorem swap (covered : s.Covered (flight ++ roots)) :
    Covers s.heap.lookup (roots ++ (s.scopeCells ++ flight)) :=
  Covers.more covered fun root member => by
    simp only [List.mem_append] at member ⊢
    tauto

theorem taken (covered : s.Covered flight) (taken : Taken s l value after) :
    after.Covered (flight ++ boxes [value]) := by
  have scopeCells : after.scopeCells = s.scopeCells := by
    rw [State.scopeCells, State.scopeCells, taken.frames]
  unfold State.Covered
  rw [taken.lookup, scopeCells, boxes_singleton]
  cases box : value.box? with
  | none =>
      rw [Option.toList_none, List.append_nil]
      exact covered
  | some b =>
      have owns : boxAt s.heap.lookup l.addr = some b := by
        simp [boxAt, taken.found, Cell.box?, Cell.liveValue?, box]
      refine Covers.more (Covers.take covered owns) fun root member => ?_
      simp only [List.mem_cons, List.mem_append] at member ⊢
      simp only [Option.toList_some, List.mem_singleton]
      tauto

theorem replaced (covered : s.Covered (flight ++ boxes [value]))
    (replaced : Replaced s l value after) : after.Covered flight := by
  have scopeCells : after.scopeCells = s.scopeCells := by
    rw [State.scopeCells, State.scopeCells, replaced.frames]
  obtain ⟨gone, owned, lookup⟩ := replaced.lookup
  unfold State.Covered
  rw [lookup, scopeCells]
  have boxEq : Cell.box? ⟨value, .live⟩ = value.box? := rfl
  refine Covers.replace ?_ replaced.present owned
  rw [boxEq, ← boxes_singleton]
  exact covered.swap

/-- A new cell of a scope takes over the box that goes into it. -/
theorem added {initialized : Bool}
    (covered : s.Covered (flight ++
      (Cell.box? ⟨value, if initialized then .live else .uninit⟩).toList))
    (accounted : s.heap.Accounted) (added : Added s value initialized after)
    (scope : after.scopeCells = (s.heap.allocated + 1) :: s.scopeCells) : after.Covered flight := by
  unfold State.Covered
  rw [added.lookup, scope, List.cons_append]
  exact Covers.insert covered.swap (accounted.fresh (Nat.lt_succ_self _))

end State.Covered

/-! ### New cells -/

theorem boxNew_covers (covered : s.Covered (flight ++ boxes [value]))
    (accounted : s.heap.Accounted) :
    Meets (alloc value true) s (fun addr after => after.Covered (flight ++ [addr]))
      (fun _ _ => False) := by
  apply Meets.onOk (alloc_effect value true s)
  intro addr after met
  obtain ⟨rfl, frames, added⟩ := met
  have scopeCells : after.scopeCells = s.scopeCells := by
    rw [State.scopeCells, State.scopeCells, frames]
  have rooted : Covers s.heap.lookup
      ((Cell.box? ⟨value, .live⟩).toList ++ (s.scopeCells ++ flight)) := by
    have boxEq : Cell.box? ⟨value, .live⟩ = value.box? := rfl
    rw [boxEq, ← boxes_singleton]
    exact covered.swap
  unfold State.Covered
  rw [added.lookup, scopeCells]
  refine Covers.more (rooted.insert (accounted.fresh (Nat.lt_succ_self _))) ?_
  intro root member
  simp only [List.mem_cons, List.mem_append] at member ⊢
  tauto

theorem bind_covers (name : String) {initialized : Bool}
    (covered : s.Covered (flight ++
      (Cell.box? ⟨value, if initialized then .live else .uninit⟩).toList))
    (accounted : s.heap.Accounted) (isOpen : Open s.shape) :
    Meets (bind name value initialized) s (fun _ after => after.Covered flight)
      (fun _ _ => False) := by
  apply Meets.onOk (bind_effect name value initialized isOpen)
  intro _ after met
  exact covered.added accounted met.2 met.1

theorem materialize_covers (covered : s.Covered (flight ++ boxes [value]))
    (accounted : s.heap.Accounted) (isOpen : Open s.shape) :
    Meets (materialize value) s (fun _ after => after.Covered flight) (fun _ _ => False) := by
  rw [boxes_singleton] at covered
  apply Meets.onOk (materialize_effect value isOpen)
  intro _ after met
  exact State.Covered.added covered accounted met.2 met.1

/-- The arguments of a call go into cells of its outermost scope. -/
theorem bindArgs_covers {args : List (Param × Value)}
    (owned : Owned s (flight ++ boxes (args.map (·.2))))
    (covered : s.Covered (others ++ boxes (args.map (·.2)))) (isOpen : Open s.shape) :
    Meets (bindArgs args) s (fun _ after => after.Covered others) (fun _ _ => False) := by
  induction args generalizing s with
  | nil => exact covered.more (by simp)
  | cons arg rest ih =>
      obtain ⟨param, value⟩ := arg
      have first : Owned s ((flight ++ boxes (rest.map (·.2))) ++
          (Cell.box? ⟨value, if true then .live else .uninit⟩).toList) := by
        refine owned.weaken (List.Perm.subperm ?_)
        change ((flight ++ boxes (rest.map (·.2))) ++ value.box?.toList).Perm _
        rw [List.map_cons, boxes_cons, List.append_assoc]
        exact List.perm_append_comm.append_left flight
      have firstCovered : s.Covered ((others ++ boxes (rest.map (·.2))) ++
          (Cell.box? ⟨value, if true then .live else .uninit⟩).toList) := by
        refine covered.more fun root member => ?_
        change root ∈ (others ++ boxes (rest.map (·.2))) ++ value.box?.toList
        rw [List.map_cons, boxes_cons] at member
        simp only [List.mem_append] at member ⊢
        tauto
      simp only [bindArgs, meets_bind]
      apply Meets.onOk ((bind_meets param.name first isOpen).and
        (bind_covers param.name firstCovered owned.accounted isOpen))
      intro _ mid met
      obtain ⟨⟨ownedMid, steady⟩, coveredMid⟩ := met
      exact ih ownedMid coveredMid (steady.shape ▸ isOpen)

/-! ### Dropping -/

theorem dropValue_covers (forest : Forest s.heap.lookup (value.box?.toList ++ roots))
    (covers : Covers s.heap.lookup (value.box?.toList ++ others)) :
    Meets (dropValue value) s
      (fun _ after => Forest after.heap.lookup roots ∧ Covers after.heap.lookup others ∧
        after.frames = s.frames)
      (fun _ _ => False) := by
  cases plain : value.box? with
  | none =>
      rw [plain] at forest covers
      simp only [dropValue, meets_bind, meets_get, owned_eq_nil plain, meets_ofHeap_ok,
        List.reverse_nil, freeCells, meets_pure]
      exact ⟨forest, covers, trivial⟩
  | some root =>
      obtain rfl := Value.box?_eq_some.mp plain
      obtain ⟨chain, run⟩ := forest.ends root (forest.present root (by simp [plain]))
      apply Meets.onOk (dropValue_box_meets run)
      intro _ after met
      obtain ⟨lookup, thinned⟩ := met
      rw [lookup]
      exact ⟨Forest.drop forest run, Covers.drop covers run, thinned.frames⟩

theorem dropCells_covers {cells : List Addr} (forest : Forest s.heap.lookup (cells ++ roots))
    (covers : Covers s.heap.lookup (cells ++ others)) :
    Meets (dropCells cells) s
      (fun _ after => Covers after.heap.lookup others ∧ after.frames = s.frames)
      (fun _ _ => False) := by
  induction cells generalizing s with
  | nil => exact ⟨covers, rfl⟩
  | cons addr rest ih =>
      have forestHere : Forest s.heap.lookup ((Value.box addr).box?.toList ++ (rest ++ roots)) :=
        forest
      simp only [dropCells, dropCell, meets_bind]
      apply Meets.onOk (dropValue_covers forestHere covers)
      intro _ mid met
      obtain ⟨forestMid, coversMid, frames⟩ := met
      apply Meets.onOk (ih forestMid coversMid)
      intro _ after met
      exact ⟨met.1, met.2.trans frames⟩

theorem dropValues_covers {values : List Value}
    (forest : Forest s.heap.lookup (boxes values ++ roots))
    (covers : Covers s.heap.lookup (boxes values ++ others)) :
    Meets (dropValues values) s
      (fun _ after => Covers after.heap.lookup others ∧ after.frames = s.frames)
      (fun _ _ => False) := by
  induction values generalizing s with
  | nil => exact ⟨covers, rfl⟩
  | cons value rest ih =>
      rw [boxes_cons, List.append_assoc] at forest covers
      simp only [dropValues, meets_bind]
      apply Meets.onOk (dropValue_covers forest covers)
      intro _ mid met
      obtain ⟨forestMid, coversMid, frames⟩ := met
      apply Meets.onOk (ih forestMid coversMid)
      intro _ after met
      exact ⟨met.1, met.2.trans frames⟩

/-! ### Scopes and calls -/

theorem popScope_covers (owned : Owned s flight) (covered : s.Covered others)
    (isOpen : Open s.shape) :
    Meets popScope s (fun _ after => after.Covered others) (fun _ _ => False) := by
  obtain ⟨scope, scopes, frames, framesEq⟩ := isOpen.frames
  simp only [popScope, meets_bind, meets_get, framesEq, meets_set]
  let left : State := { s with frames := ⟨scopes⟩ :: frames }
  have scopeCells : s.scopeCells = scope.cells ++ left.scopeCells := by
    simp [State.scopeCells, framesEq, left]
  have forest : Forest left.heap.lookup (scope.cells ++ (left.scopeCells ++ flight)) := by
    rw [← List.append_assoc, ← scopeCells]
    exact owned.forest
  have covers : Covers left.heap.lookup (scope.cells ++ (left.scopeCells ++ others)) := by
    rw [← List.append_assoc, ← scopeCells]
    exact covered
  apply Meets.onOk (dropCells_covers forest covers)
  intro _ after met
  have cellsAfter : after.scopeCells = left.scopeCells := by
    rw [State.scopeCells, State.scopeCells, met.2]
  unfold State.Covered
  rw [cellsAfter]
  exact met.1

theorem popFrame_covers (owned : Owned s flight) (covered : s.Covered others) {rest : List Nat}
    (shape : s.shape = 1 :: rest) :
    Meets popFrame s (fun _ after => after.Covered others) (fun _ _ => False) := by
  obtain ⟨scope, scopes, frames, framesEq⟩ := Open.frames ⟨0, rest, shape⟩
  have openScopes : (s.frames.head?.map (·.scopes.length)).getD 0 = 1 := by
    have first := congrArg List.head? shape
    simpa [State.shape, framesEq] using first
  simp only [popFrame, meets_bind, meets_get, openScopes, popScopes]
  have oneScope : s.shape = (0 + 1) :: rest := shape
  have both := (popScope_meets owned oneScope).and
    (popScope_covers owned covered ⟨0, rest, shape⟩)
  apply Meets.onOk both
  intro _ mid met
  obtain ⟨⟨-, -, shapeMid, -⟩, coveredMid⟩ := met
  simp only [meets_pure, meets_modify]
  -- The activation that is left has no scope any more, and so no cell.
  have scopeCells : State.scopeCells { mid with frames := mid.frames.drop 1 } = mid.scopeCells := by
    cases framesMid : mid.frames with
    | nil => simp [State.scopeCells, framesMid]
    | cons activation rest =>
        obtain ⟨scopes⟩ := activation
        have none : scopes = [] := by
          have first := congrArg List.head? shapeMid
          simpa [State.shape, framesMid] using first
        simp [State.scopeCells, framesMid, none]
  unfold State.Covered
  rw [scopeCells]
  exact coveredMid

end BorrowLang.Evaluator
