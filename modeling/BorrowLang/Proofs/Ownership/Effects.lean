import BorrowLang.Proofs.Ownership.Action

/-!
# What actions do to the cells

Each action on a location that was reached in order changes at most the cell there, and what that
cell owned; a new cell changes no other.  Where an action fails, it does so before it has changed a
cell, and not because a cell is gone that it needs.
-/

set_option autoImplicit false

namespace BorrowLang.Evaluator

open Ownership

variable {s mid after : State} {flight : List Addr} {l : Location}

/-- Cells and scopes are as they were. -/
structure Unmoved (s after : State) : Prop where
  heap : after.heap = s.heap
  frames : after.frames = s.frames

namespace Unmoved

theorem refl (s : State) : Unmoved s s := ⟨rfl, rfl⟩

theorem trans (first : Unmoved s mid) (second : Unmoved mid after) : Unmoved s after :=
  ⟨second.heap.trans first.heap, second.frames.trans first.frames⟩

theorem scopeCells (unmoved : Unmoved s after) : after.scopeCells = s.scopeCells := by
  rw [State.scopeCells, State.scopeCells, unmoved.frames]

end Unmoved

theorem Ended.unmoved (ended : Ended s after) : Unmoved s after := ⟨ended.heap, ended.frames⟩

/-- A fault is misuse of the heap. -/
def Fault.OfHeap : Fault → Prop
  | .heap _ => True
  | _ => False

/-- An action has failed before it moved anything, and the heap was not misused. -/
structure Declined (s : State) (interrupt : Interrupt) (after : State) : Prop where
  fault : ∃ fault, interrupt = .failed fault ∧ ¬ fault.OfHeap
  unmoved : Unmoved s after

theorem Unmoved.declined (unmoved : Unmoved s after) {fault : Fault} (plain : ¬ fault.OfHeap) :
    Declined s (.failed fault) after :=
  ⟨⟨fault, rfl, plain⟩, unmoved⟩

theorem Declined.since {interrupt : Interrupt} (unmoved : Unmoved s mid)
    (declined : Declined mid interrupt after) : Declined s interrupt after :=
  ⟨declined.fault, unmoved.trans declined.unmoved⟩

/-! ### Uses of a location -/

theorem access_effect (ctx : Context) (l : Location) (expr : Expr) (isWrite : Bool)
    (cause : DiagnosticKind) (s : State) :
    Meets (access ctx l expr isWrite cause) s
      (fun _ after => Ended s after ∧ (s.heap.lookup l.first).isSome) (Declined s) := by
  refine (access_meets ctx l expr isWrite cause s).mono ?_ ?_
  · intro _ after met
    exact ⟨met.1, met.2.1⟩
  · intro interrupt after met
    obtain ⟨rfl, diagnostic, rfl⟩ := met
    exact (Unmoved.refl after).declined id

theorem load_effect (ctx : Context) (expr : Expr) (owned : Owned s flight) (reached : Reached s l) :
    Meets (load ctx l expr) s
      (fun value after => Ended s after ∧ s.heap.lookup l.addr = some ⟨value, .live⟩)
      (Declined s) := by
  simp only [load, meets_bind, meets_get]
  refine (access_effect ctx l expr false _ s).onOk ?_
  intro _ mid met
  obtain ⟨ended, here⟩ := met
  obtain ⟨cell, found⟩ := Option.isSome_iff_exists.mp (reached.present owned here)
  rw [ended.heap, Heap.cell_eq_ok found, meets_ofHeap_ok]
  obtain ⟨value, state⟩ := cell
  cases state with
  | live => exact ⟨ended, found⟩
  | moved => exact ended.unmoved.declined id
  | uninit => exact ended.unmoved.declined id

/-- A reference by itself is a location. -/
theorem reached_ref (s : State) (addr : Addr) (tag : Tag) (source : Option Expr) :
    Reached s { addr, tag := some tag, source } :=
  ⟨by simp, by simp⟩

/-- A value was read at a location: a box was moved out of its cell, any other value stays there. -/
structure Taken (s : State) (l : Location) (value : Value) (after : State) : Prop where
  frames : after.frames = s.frames
  found : s.heap.lookup l.addr = some ⟨value, .live⟩
  lookup : after.heap.lookup =
    if value.box?.isSome then Function.update s.heap.lookup l.addr (some ⟨.unit, .moved⟩)
    else s.heap.lookup

theorem read_effect (ctx : Context) (expr : Expr) (owned : Owned s flight) (reached : Reached s l) :
    Meets (read ctx l expr) s (fun value after => Taken s l value after) (Declined s) := by
  simp only [read, meets_bind]
  apply Meets.onOk (load_effect ctx expr owned reached)
  intro value loaded met
  obtain ⟨ended, found⟩ := met
  cases value with
  | box b =>
      have owns : boxAt s.heap.lookup l.addr = some b := by
        simp [boxAt, found, Cell.box?, Cell.liveValue?, Value.box?]
      obtain ⟨chain, run⟩ := owned.forest.ends b (owned.forest.target _ _ owns)
      simp only [meets_bind, meets_get]
      refine (access_effect ctx l expr _ _ loaded).mono ?_ fun _ _ declined =>
        declined.since ended.unmoved
      intro _ accessed met
      have ended := ended.trans met.1
      have bound : chain.length ≤ accessed.heap.live + 1 := by
        rw [ended.heap]
        exact Nat.le_succ_of_le run.length_le_live
      rw [← ended.heap] at run
      apply Meets.uncut (endOwned_meets run _ bound)
      intro _ quieted met
      have ended := ended.trans met.1
      have foundHere : quieted.heap.lookup l.addr = some ⟨.box b, .live⟩ := by
        rw [ended.heap, found]
      simp only [Heap.take_eq_ok foundHere, meets_ofHeap_ok, meets_set, meets_pure]
      refine ⟨ended.frames, found, ?_⟩
      rw [Heap.lookup_insert, ended.heap]
      simp [Value.box?]
  | _ => exact ⟨ended.frames, found, by simp [ended.heap, Value.box?]⟩

/-- A value was stored at a location, and what the cell owned before is gone. -/
structure Replaced (s : State) (l : Location) (value : Value) (after : State) : Prop where
  frames : after.frames = s.frames
  present : (s.heap.lookup l.addr).isSome
  lookup : ∃ gone, OwnedBy s.heap.lookup l.addr gone ∧ after.heap.lookup =
    Function.update (without s.heap.lookup gone) l.addr (some ⟨value, .live⟩)

theorem assign_effect (ctx : Context) (target : Expr) (value : Value) (owned : Owned s flight)
    (reached : Reached s l) :
    Meets (assign ctx l target value) s (fun _ after => Replaced s l value after)
      (Declined s) := by
  simp only [assign, meets_bind, meets_get]
  refine (access_effect ctx l target _ _ s).onOk ?_
  intro _ accessed met
  obtain ⟨ended, here⟩ := met
  have present := reached.present owned here
  obtain ⟨cell, found⟩ := Option.isSome_iff_exists.mp present
  have foundHere : accessed.heap.lookup l.addr = some cell := by rw [ended.heap, found]
  rw [Heap.cell_eq_ok foundHere, meets_ofHeap_ok]
  apply Meets.uncut (dropHeld_meets (ended.owned owned).forest foundHere)
  intro _ dropped met
  obtain ⟨gone, held, lookupEq, thinned⟩ := met
  have notGone : l.addr ∉ gone := by
    rcases held with ⟨-, rfl⟩ | ⟨b, owns, run⟩
    · simp
    · exact (List.nodup_cons.mp (Chain.next owns run).nodup).1
  have foundDropped : dropped.heap.lookup l.addr = some cell := by
    rw [lookupEq, without_of_notMem notGone, foundHere]
  simp only [storeAt, meets_bind, meets_get, Heap.store_eq_ok value foundDropped, meets_ofHeap_ok,
    meets_set]
  refine ⟨thinned.frames.trans ended.frames, present, gone, ended.heap ▸ held, ?_⟩
  rw [Heap.lookup_insert, lookupEq, ended.heap]

theorem arith_effect (ctx : Context) (loc : Option Position) (op : BinaryOp) (left right : Value)
    (s : State) :
    Meets (arith ctx loc op left right) s
      (fun result after => after = s ∧ left.box? = none ∧ result.box? = none) (Declined s) := by
  unfold arith
  split
  · rename_i m n known _
    have plain : left.box? = none := by
      cases left <;> simp [number?, Value.box?] at known ⊢
    split
    · unfold ofArith
      split
      · exact ⟨rfl, plain, rfl⟩
      · exact (Unmoved.refl s).declined id
    · exact (Unmoved.refl s).declined id
  · exact (Unmoved.refl s).declined id

theorem combine_effect (ctx : Context) (loc : Option Position) (target : Expr) (op : BinaryOp)
    (value : Value) (owned : Owned s flight) (reached : Reached s l) :
    Meets (combine ctx loc l target op value) s
      (fun _ after => ∃ result, result.box? = none ∧ Replaced s l result after) (Declined s) := by
  simp only [combine, meets_bind]
  apply Meets.onOk (load_effect ctx target owned reached)
  intro current loaded met
  obtain ⟨ended, found⟩ := met
  refine (arith_effect ctx loc op current value loaded).mono ?_ fun _ _ declined =>
    declined.since ended.unmoved
  intro result _ met
  obtain ⟨rfl, wasPlain, plain⟩ := met
  refine (access_effect ctx l target _ _ _).mono ?_ fun _ _ declined =>
    declined.since ended.unmoved
  intro _ accessed met
  have ended := ended.trans met.1
  have foundHere : accessed.heap.lookup l.addr = some ⟨current, .live⟩ := by rw [ended.heap, found]
  simp only [storeAt, meets_bind, meets_get, Heap.store_eq_ok result foundHere, meets_ofHeap_ok,
    meets_set]
  refine ⟨result, plain, ended.frames, by simp [found], [], Or.inl ⟨?_, rfl⟩, ?_⟩
  · simpa [boxAt, found, Cell.box?, Cell.liveValue?] using wasPlain
  · rw [Heap.lookup_insert, ended.heap, without_nil]

/-- What a box or reference that is shown leads to was in a cell in use. -/
theorem follow_effect (ctx : Context) (arg : Expr) {value : Value} (owned : Owned s flight)
    (present : ∀ b, value = .box b → (s.heap.lookup b).isSome) :
    Meets (follow ctx arg value) s
      (fun inner after => Ended s after ∧
        ∀ next ∈ inner, ∃ addr cell, s.heap.lookup addr = some cell ∧ cell.value = next)
      (Declined s) := by
  cases value with
  | ref addr isMut tag =>
      simp only [follow, meets_bind, meets_pure]
      apply Meets.onOk (load_effect ctx arg owned (reached_ref s addr tag (some arg)))
      intro inner after met
      obtain ⟨ended, found⟩ := met
      refine ⟨ended, fun next isNext => ⟨addr, _, found, Option.some.inj isNext⟩⟩
  | box b =>
      obtain ⟨cell, found⟩ := Option.isSome_iff_exists.mp (present b rfl)
      simp only [follow, meets_bind, meets_get, Heap.load, Heap.cell_eq_ok found]
      exact ⟨.refl s, fun next isNext => ⟨b, cell, found, Option.some.inj isNext⟩⟩
  | _ => exact ⟨.refl s, by simp⟩

/-! ### References and new cells -/

theorem pushTag_effect (addr : Addr) (isMut : Bool) (s : State) :
    Meets (pushTag addr isMut) s (fun value after => Unmoved s after ∧ value.box? = none)
      (fun _ _ => False) :=
  ⟨⟨rfl, rfl⟩, rfl⟩

/-- A cell was added, in the innermost scope or in none. -/
structure Added (s : State) (value : Value) (initialized : Bool) (after : State) : Prop where
  heap : after.heap = (s.heap.alloc value initialized).1
  scopes : after.frames = s.frames ∨ after.scopeCells = (s.heap.allocated + 1) :: s.scopeCells

theorem Added.lookup {value : Value} {initialized : Bool} (added : Added s value initialized after) :
    after.heap.lookup = Function.update s.heap.lookup (s.heap.allocated + 1)
      (some ⟨value, if initialized then .live else .uninit⟩) := by
  rw [added.heap, Heap.lookup_alloc]

theorem alloc_effect (value : Value) (initialized : Bool) (s : State) :
    Meets (alloc value initialized) s
      (fun addr after => addr = s.heap.allocated + 1 ∧ after.frames = s.frames ∧
        Added s value initialized after)
      (fun _ _ => False) :=
  ⟨rfl, rfl, rfl, Or.inl rfl⟩

theorem bind_effect (name : String) (value : Value) (initialized : Bool) (isOpen : Open s.shape) :
    Meets (bind name value initialized) s
      (fun _ after => after.scopeCells = (s.heap.allocated + 1) :: s.scopeCells ∧
        Added s value initialized after)
      (fun _ _ => False) := by
  obtain ⟨scope, scopes, frames, framesEq⟩ := isOpen.frames
  simp only [bind, Evaluator.alloc, modifyScope, meets_bind, meets_get, meets_set, meets_pure,
    meets_modify, framesEq]
  have cells : State.scopeCells { s with
      heap := (s.heap.alloc value initialized).1
      frames := ⟨scope.bind name (s.heap.alloc value initialized).2 :: scopes⟩ :: frames } =
        (s.heap.allocated + 1) :: s.scopeCells := by
    simp [State.scopeCells, framesEq, Heap.alloc, Scope.bind]
  exact ⟨cells, rfl, Or.inr cells⟩

theorem materialize_effect (value : Value) (isOpen : Open s.shape) :
    Meets (materialize value) s
      (fun _ after => after.scopeCells = (s.heap.allocated + 1) :: s.scopeCells ∧
        Added s value true after)
      (fun _ _ => False) := by
  obtain ⟨scope, scopes, frames, framesEq⟩ := isOpen.frames
  simp only [materialize, Evaluator.alloc, modifyScope, meets_bind, meets_get, meets_set,
    meets_pure, meets_modify, framesEq]
  have cells : State.scopeCells { s with
      heap := (s.heap.alloc value true).1
      frames := ⟨scope.hold (s.heap.alloc value true).2 :: scopes⟩ :: frames } =
        (s.heap.allocated + 1) :: s.scopeCells := by
    simp [State.scopeCells, framesEq, Heap.alloc, Scope.hold]
  exact ⟨cells, rfl, Or.inr cells⟩

/-- A pointer leads to a location without any change. -/
theorem pointee_effect (base : Option Location) (pointer : Value) (source : Expr) (s : State) :
    Meets (pointee base pointer source) s (fun _ after => after = s) (Declined s) := by
  cases pointer with
  | ref addr isMut tag => cases base <;> rfl
  | box addr => cases base <;> rfl
  | _ => exact (Unmoved.refl s).declined id

theorem unary_effect (ctx : Context) (loc : Option Position) (op : UnaryOp) (operand : Value)
    (s : State) :
    Meets (unary ctx loc op operand) s (fun result after => after = s ∧ result.box? = none)
      (Declined s) := by
  unfold unary
  split
  · exact ⟨rfl, rfl⟩
  · split
    · unfold ofArith
      split
      · exact ⟨rfl, rfl⟩
      · exact (Unmoved.refl s).declined id
    · exact (Unmoved.refl s).declined id

theorem binary_effect (ctx : Context) (loc : Option Position) (op : BinaryOp) (left right : Value)
    (s : State) :
    Meets (binary ctx loc op left right) s (fun result after => after = s ∧ result.box? = none)
      (Declined s) := by
  unfold binary
  split
  · exact ⟨rfl, rfl⟩
  · exact ⟨rfl, rfl⟩
  · split
    · exact ⟨rfl, rfl⟩
    · exact (Unmoved.refl s).declined id
  · exact (arith_effect ctx loc _ left right s).onOk fun _ _ met => ⟨met.1, met.2.2⟩

end BorrowLang.Evaluator
