import BorrowLang.Proofs.Meets
import BorrowLang.Proofs.Ownership.Heap
import BorrowLang.Proofs.Ownership.Stacks
import Mathlib.Data.List.Nodup

/-!
# Dropping

A state is in order when the cells of the scopes and the boxes in flight are the roots of the
ownership in its heap.  A box is in flight when it is the value of something that is still being
evaluated; what it owns is out of the reach of every reference.  Dropping a root frees its chain,
each cell of it once, and leaves the state in order.
-/

set_option autoImplicit false

namespace BorrowLang.Evaluator

open Ownership BorrowStacks

/-- The cells that the boxes among some values point at. -/
def boxes (values : List Value) : List Addr := values.filterMap Value.box?

@[simp] theorem boxes_nil : boxes [] = [] := rfl

@[simp] theorem boxes_append (first second : List Value) :
    boxes (first ++ second) = boxes first ++ boxes second := List.filterMap_append

theorem boxes_singleton (value : Value) : boxes [value] = value.box?.toList := by
  cases value <;> rfl

theorem boxes_cons (value : Value) (rest : List Value) :
    boxes (value :: rest) = value.box?.toList ++ boxes rest := by
  cases value <;> rfl

namespace State

def scopeCells (s : State) : List Addr :=
  s.frames.flatMap fun activation => activation.scopes.flatMap Scope.cells

/-- The number of open scopes of each activation. -/
def shape (s : State) : List Nat := s.frames.map fun activation => activation.scopes.length

end State

/-- No reference reaches a cell that a box owns. -/
def Quiet (s : State) (box : Addr) : Prop :=
  ∃ chain, Chain s.heap.lookup box chain ∧ ∀ addr ∈ chain, s.borrows.stack addr = []

/-- A state in order, with some boxes in flight. -/
structure Owned (s : State) (flight : List Addr) : Prop where
  forest : Forest s.heap.lookup (s.scopeCells ++ flight)
  quiet : ∀ box ∈ flight, Quiet s box
  stacked : ∀ addr, s.borrows.byAddr.contains addr → (s.heap.lookup addr).isSome
  accounted : s.heap.Accounted

/-- What every evaluation keeps: a cell that is gone does not come back, and a cell of a scope
stays one until it is gone. -/
structure Kept (s after : State) : Prop where
  allocated : s.heap.allocated ≤ after.heap.allocated
  gone : ∀ addr ≤ s.heap.allocated, (after.heap.lookup addr).isSome → (s.heap.lookup addr).isSome
  inScope : ∀ addr ∈ s.scopeCells, addr ≤ s.heap.allocated →
    addr ∈ after.scopeCells ∨ after.heap.lookup addr = none

theorem Kept.refl (s : State) : Kept s s :=
  ⟨Nat.le_refl _, fun _ _ here => here, fun _ member _ => Or.inl member⟩

theorem Kept.trans {s mid after : State} (first : Kept s mid) (second : Kept mid after) :
    Kept s after where
  allocated := Nat.le_trans first.allocated second.allocated
  gone addr old here :=
    first.gone addr old (second.gone addr (Nat.le_trans old first.allocated) here)
  inScope addr member old := by
    have oldMid := Nat.le_trans old first.allocated
    rcases first.inScope addr member old with member | absent
    · exact second.inScope addr member oldMid
    · refine Or.inr (Option.not_isSome_iff_eq_none.mp fun here => ?_)
      simpa [absent] using second.gone addr oldMid here

theorem Owned.weaken {s : State} {flight fewer : List Addr} (owned : Owned s flight)
    (part : fewer.Subperm flight) : Owned s fewer where
  forest := owned.forest.weaken ((List.subperm_append_left _).mpr part)
  quiet box member := owned.quiet box (part.subset member)
  stacked := owned.stacked
  accounted := owned.accounted

/-! ### Cells that leave the heap -/

/-- Some cells have left the heap, with their borrow stacks, and nothing else has changed. -/
structure Thinned (s after : State) : Prop where
  cells : ∀ addr, (after.heap.lookup addr).isSome → after.heap.lookup addr = s.heap.lookup addr
  allocated : after.heap.allocated = s.heap.allocated
  lowered : Lowered s.borrows after.borrows
  stacked : (∀ addr, s.borrows.byAddr.contains addr → (s.heap.lookup addr).isSome) →
    ∀ addr, after.borrows.byAddr.contains addr → (after.heap.lookup addr).isSome
  accounted : s.heap.Accounted → after.heap.Accounted
  frames : after.frames = s.frames

namespace Thinned

variable {s mid after : State}

theorem refl (s : State) : Thinned s s :=
  ⟨fun _ _ => rfl, rfl, .refl _, fun stacked => stacked, fun accounted => accounted, rfl⟩

theorem trans (first : Thinned s mid) (second : Thinned mid after) : Thinned s after where
  cells addr here := by
    have eq := second.cells addr here
    rw [eq]
    exact first.cells addr (eq ▸ here)
  allocated := second.allocated.trans first.allocated
  lowered := first.lowered.trans second.lowered
  stacked stacked := second.stacked (first.stacked stacked)
  accounted accounted := second.accounted (first.accounted accounted)
  frames := second.frames.trans first.frames

theorem chain (thinned : Thinned s after) {a : Addr} {chain : List Addr}
    (run : Chain after.heap.lookup a chain) : Chain s.heap.lookup a chain :=
  run.frame fun x member => (thinned.cells x (run.present x member)).symm

theorem absent (thinned : Thinned s after) {a : Addr} (gone : s.heap.lookup a = none) :
    after.heap.lookup a = none := by
  refine Option.not_isSome_iff_eq_none.mp fun here => ?_
  simp [thinned.cells a here, gone] at here

theorem kept (thinned : Thinned s after) : Kept s after where
  allocated := Nat.le_of_eq thinned.allocated.symm
  gone addr _ here := thinned.cells addr here ▸ here
  inScope addr member _ := by
    have cellsEq : after.scopeCells = s.scopeCells := by simp [State.scopeCells, thinned.frames]
    exact Or.inl (cellsEq ▸ member)

theorem owned (thinned : Thinned s after) {flight kept : List Addr} (owned : Owned s flight)
    (part : kept ⊆ flight) (forest : Forest after.heap.lookup (after.scopeCells ++ kept)) :
    Owned after kept where
  forest := forest
  quiet box member := by
    obtain ⟨chain, run⟩ := forest.ends box (forest.present box (List.mem_append_right _ member))
    obtain ⟨before, beforeRun, empty⟩ := owned.quiet box (part member)
    obtain rfl := (thinned.chain run).unique beforeRun
    exact ⟨chain, run, fun addr inChain => thinned.lowered.empty addr (empty addr inChain)⟩
  stacked := thinned.stacked owned.stacked
  accounted := thinned.accounted owned.accounted

end Thinned

theorem freeCell_meets {s : State} {addr : Addr} (here : (s.heap.lookup addr).isSome) :
    Meets (freeCell addr) s
      (fun _ after => after.heap.lookup = without s.heap.lookup [addr] ∧ Thinned s after)
      (fun _ _ => False) := by
  simp only [freeCell, meets_bind, meets_get, Heap.free_eq_ok here, meets_ofHeap_ok, meets_set]
  refine ⟨s.heap.lookup_erase _ _ _, ?_⟩
  constructor
  · intro other present
    rw [s.heap.lookup_erase] at present ⊢
    exact without_of_notMem (isSome_without present).1
  · rfl
  · exact forget_lowered _ _
  · intro stacked other present
    rw [s.heap.lookup_erase]
    have outside : other ∉ [addr] := by
      intro member
      obtain rfl := List.mem_singleton.mp member
      rw [contains_forget] at present
      exact absurd present (by simp)
    rw [without_of_notMem outside]
    exact stacked other ((forget_lowered _ _).keys other present)
  · exact fun accounted => accounted.erase here
  · rfl

/-- Different cells that are in use are freed, one after another. -/
theorem freeCells_meets {s : State} {gone : List Addr} (nodup : gone.Nodup)
    (present : ∀ addr ∈ gone, (s.heap.lookup addr).isSome) :
    Meets (freeCells gone) s
      (fun _ after => after.heap.lookup = without s.heap.lookup gone ∧ Thinned s after)
      (fun _ _ => False) := by
  induction gone generalizing s with
  | nil => exact ⟨by funext x; simp [without], .refl s⟩
  | cons addr rest ih =>
      have nodup := List.nodup_cons.mp nodup
      simp only [freeCells, meets_bind]
      apply Meets.onOk (freeCell_meets (present addr (List.mem_cons_self ..)))
      intro _ mid met
      obtain ⟨lookupEq, thinned⟩ := met
      have restPresent : ∀ x ∈ rest, (mid.heap.lookup x).isSome := by
        intro x member
        have different : x ∉ [addr] := by
          intro same
          exact nodup.1 (List.mem_singleton.mp same ▸ member)
        rw [lookupEq, without_of_notMem different]
        exact present x (List.mem_cons_of_mem _ member)
      apply Meets.onOk (ih nodup.2 restPresent)
      intro _ after met
      obtain ⟨afterEq, thinnedRest⟩ := met
      refine ⟨?_, thinned.trans thinnedRest⟩
      rw [afterEq, lookupEq]
      funext x
      by_cases first : x = addr
      · simp [without, first]
      · simp [without, first]

theorem dropValue_box_meets {s : State} {root : Addr} {chain : List Addr}
    (run : Chain s.heap.lookup root chain) :
    Meets (dropValue (.box root)) s
      (fun _ after => after.heap.lookup = without s.heap.lookup chain ∧ Thinned s after)
      (fun _ _ => False) := by
  simp only [dropValue, meets_bind, meets_get, run.owned_eq, meets_ofHeap_ok]
  refine Meets.onOk (freeCells_meets (List.nodup_reverse.mpr run.nodup) ?_) ?_
  · exact fun addr member => run.present addr (List.mem_reverse.mp member)
  · intro _ after met
    obtain ⟨lookupEq, thinned⟩ := met
    refine ⟨?_, thinned⟩
    rw [lookupEq]
    funext x
    simp [without]

theorem dropValue_meets {s : State} {value : Value} {roots : List Addr}
    (forest : Forest s.heap.lookup (value.box?.toList ++ roots)) :
    Meets (dropValue value) s
      (fun _ after => Forest after.heap.lookup roots ∧ Thinned s after ∧
        ∀ addr ∈ value.box?, after.heap.lookup addr = none)
      (fun _ _ => False) := by
  cases plain : value.box? with
  | none =>
      simp only [dropValue, meets_bind, meets_get, owned_eq_nil plain, meets_ofHeap_ok,
        List.reverse_nil, freeCells, meets_pure]
      rw [plain] at forest
      exact ⟨forest, .refl s, by simp⟩
  | some root =>
      obtain rfl := Value.box?_eq_some.mp plain
      obtain ⟨chain, run⟩ := forest.ends root (forest.present root (by simp [plain]))
      apply Meets.onOk (dropValue_box_meets run)
      intro _ after met
      obtain ⟨lookupEq, thinned⟩ := met
      refine ⟨lookupEq ▸ Forest.drop forest run, thinned, ?_⟩
      intro addr member
      obtain rfl := Option.some.inj member
      simp [lookupEq, without, run.head_mem]

theorem dropCells_meets {s : State} {cells roots : List Addr}
    (forest : Forest s.heap.lookup (cells ++ roots)) :
    Meets (dropCells cells) s
      (fun _ after => Forest after.heap.lookup roots ∧ Thinned s after ∧
        ∀ addr ∈ cells, after.heap.lookup addr = none)
      (fun _ _ => False) := by
  induction cells generalizing s with
  | nil => exact ⟨forest, .refl s, by simp⟩
  | cons addr rest ih =>
      simp only [dropCells, meets_bind, dropCell]
      have rooted : Forest s.heap.lookup ((Value.box addr).box?.toList ++ (rest ++ roots)) := forest
      apply Meets.onOk (dropValue_meets rooted)
      intro _ mid met
      obtain ⟨forestMid, thinned, gone⟩ := met
      apply Meets.onOk (ih forestMid)
      intro _ after met
      obtain ⟨forestAfter, thinnedRest, goneRest⟩ := met
      refine ⟨forestAfter, thinned.trans thinnedRest, ?_⟩
      intro other member
      rcases List.mem_cons.mp member with rfl | later
      · exact thinnedRest.absent (gone other rfl)
      · exact goneRest other later

theorem dropValues_meets {s : State} {values : List Value} {roots : List Addr}
    (forest : Forest s.heap.lookup (boxes values ++ roots)) :
    Meets (dropValues values) s
      (fun _ after => Forest after.heap.lookup roots ∧ Thinned s after)
      (fun _ _ => False) := by
  induction values generalizing s with
  | nil => exact ⟨forest, .refl s⟩
  | cons value rest ih =>
      rw [boxes_cons, List.append_assoc] at forest
      simp only [dropValues, meets_bind]
      apply Meets.onOk (dropValue_meets forest)
      intro _ mid met
      obtain ⟨forestMid, thinned, -⟩ := met
      apply Meets.onOk (ih forestMid)
      intro _ after met
      obtain ⟨forestAfter, thinnedRest⟩ := met
      exact ⟨forestAfter, thinned.trans thinnedRest⟩

end BorrowLang.Evaluator
