import BorrowLang.Proofs.Numbers.Literals
import BorrowLang.Proofs.Ownership.Heap
import BorrowLang.Proofs.Meets

/-!
# Actions on values within 32 bits

An action that starts from integers of 32 bits comes to such integers, in its result, in the cells
and in the fault that it may end with.  Only arithmetic makes a new integer, and it looks at each
one; a boolean that is taken for a number is zero or one.
-/

set_option autoImplicit false

namespace BorrowLang

/-- A value is no integer beyond 32 bits. -/
def Value.Bounded : Value → Prop
  | .int n => IsInt32 n
  | _ => True

/-- The cells hold no integer beyond 32 bits, whether they are live or not. -/
def Heap.Bounded (heap : Heap) : Prop :=
  ∀ addr cell, heap.lookup addr = some cell → cell.value.Bounded

namespace Heap.Bounded

variable {heap : Heap} {value : Value} {addr : Addr}

theorem insert (bounded : heap.Bounded) {cell : Cell} (fits : cell.value.Bounded)
    (allocated freed : Nat) : Heap.Bounded ⟨heap.cells.insert addr cell, allocated, freed⟩ := by
  intro other found known
  rw [heap.lookup_insert] at known
  by_cases same : other = addr
  · rw [same, Function.update_self] at known
    exact Option.some.inj known ▸ fits
  · rw [Function.update_of_ne same] at known
    exact bounded other found known

theorem erase (bounded : heap.Bounded) (allocated freed : Nat) :
    Heap.Bounded ⟨heap.cells.erase addr, allocated, freed⟩ := by
  intro other found known
  rw [heap.lookup_erase, Ownership.without] at known
  split at known
  · simp at known
  · exact bounded other found known

theorem alloc (bounded : heap.Bounded) (fits : value.Bounded) (initialized : Bool) :
    (heap.alloc value initialized).1.Bounded :=
  bounded.insert fits _ _

theorem cell (bounded : heap.Bounded) :
    Answers (heap.cell addr) fun cell => cell.value.Bounded :=
  fun cell found => bounded addr cell (lookup_of_cell found)

theorem load (bounded : heap.Bounded) : Answers (heap.load addr) Value.Bounded :=
  (answers_map _ _ _).mpr bounded.cell

theorem store (bounded : heap.Bounded) (fits : value.Bounded) :
    Answers (heap.store addr value) Heap.Bounded :=
  (answers_map _ _ _).mpr fun _ _ => bounded.insert fits _ _

theorem take (bounded : heap.Bounded) :
    Answers (heap.take addr) fun taken => taken.1.Bounded ∧ taken.2.Bounded :=
  (answers_map _ _ _).mpr fun cell found =>
    ⟨bounded.insert (by trivial) _ _, bounded.cell cell found⟩

theorem free (bounded : heap.Bounded) : Answers (heap.free addr) Heap.Bounded := by
  unfold Heap.free
  split
  · exact (answers_ok _ _).mpr (bounded.erase _ _)
  · exact answers_error _ _

end Heap.Bounded

namespace Evaluator

/-- The value that a fault is about. -/
def Fault.values : Fault → List Value
  | .notPointer value => [value]
  | _ => []

/-- An interrupt carries no integer beyond 32 bits. -/
def Interrupt.Bounded : Interrupt → Prop
  | .returned value => value.Bounded
  | .failed fault => ∀ value ∈ fault.values, value.Bounded

/-- The cells of a state fit into 32 bits, and its outputs are among the texts that were told. -/
structure State.Bounded (told : String → Prop) (s : State) : Prop where
  heap : s.heap.Bounded
  outputs : ∀ text ∈ s.outputs, told text

/-- An action keeps the integers within 32 bits, and comes to results that are as a condition
says. -/
def Bounds (told : String → Prop) {α : Type} (x : Eval α) (ok : α → Prop) : Prop :=
  ∀ s : State, s.Bounded told →
    Meets x s (fun a after => ok a ∧ after.Bounded told)
      fun interrupt after => interrupt.Bounded ∧ after.Bounded told

section Rules

variable {told : String → Prop} {α β : Type} {x : Eval α} {ok : α → Prop}

theorem bounds_pure {a : α} (holds : ok a) : Bounds told (pure a) ok :=
  fun _ bounded => ⟨holds, bounded⟩

theorem bounds_throw {interrupt : Interrupt} (fits : interrupt.Bounded) :
    Bounds told (throw interrupt) ok :=
  fun _ bounded => ⟨fits, bounded⟩

theorem bounds_fail {fault : Fault} (plain : fault.values = []) : Bounds told (fail fault) ok :=
  bounds_throw (by simp [Interrupt.Bounded, plain])

/-- Nothing follows a fault. -/
theorem bounds_fail_bind {fault : Fault} (plain : fault.values = []) {f : β → Eval α} :
    Bounds told (fail fault >>= f) ok :=
  fun _ bounded => ⟨by simp [Interrupt.Bounded, plain], bounded⟩

theorem bounds_get : Bounds told get (State.Bounded told) := fun _ bounded => ⟨bounded, bounded⟩

theorem bounds_set {s : State} (bounded : s.Bounded told) : Bounds told (set s) fun _ => True :=
  fun _ _ => ⟨trivial, bounded⟩

theorem bounds_modify {f : State → State} (keeps : ∀ s, s.Bounded told → (f s).Bounded told) :
    Bounds told (modify f) fun _ => True :=
  fun s bounded => ⟨trivial, keeps s bounded⟩

theorem bounds_ofHeap {answer : Except HeapFault α} (known : Answers answer ok) :
    Bounds told (ofHeap answer) ok := by
  cases answer with
  | ok a => exact bounds_pure (known a rfl)
  | error fault => exact bounds_fail rfl

theorem Bounds.bind {f : α → Eval β} {ok' : β → Prop} (known : Bounds told x ok)
    (next : ∀ a, ok a → Bounds told (f a) ok') : Bounds told (x >>= f) ok' := by
  intro s bounded
  rw [meets_bind]
  exact (known s bounded).onOk fun a after holds => next a holds.1 after holds.2

/-- What only changes the state is followed by something else. -/
theorem Bounds.andThen {f : α → Eval β} {ok' : β → Prop} (known : Bounds told x ok)
    (next : ∀ a, Bounds told (f a) ok') : Bounds told (x >>= f) ok' :=
  known.bind fun a _ => next a

theorem Bounds.map {f : α → β} {ok' : β → Prop} (known : Bounds told x ok)
    (fits : ∀ a, ok a → ok' (f a)) : Bounds told (do return f (← x)) ok' :=
  known.bind fun a holds => bounds_pure (fits a holds)

namespace State.Bounded

variable {s : State} (bounded : s.Bounded told)
include bounded

theorem withHeap {heap : Heap} (fits : heap.Bounded) : State.Bounded told { s with heap } :=
  ⟨fits, bounded.outputs⟩

theorem withBorrows (borrows : BorrowStacks) : State.Bounded told { s with borrows } :=
  ⟨bounded.heap, bounded.outputs⟩

theorem withFrames (frames : List Activation) : State.Bounded told { s with frames } :=
  ⟨bounded.heap, bounded.outputs⟩

end State.Bounded

end Rules

section Actions

variable {told : String → Prop} {ctx : Context} {loc : Option Position}

/-! ### Cells and scopes -/

theorem modifyScope_bounds (f : Scope → Scope) : Bounds told (modifyScope f) fun _ => True := by
  refine bounds_modify fun s bounded => ?_
  split
  · exact bounded.withFrames _
  · exact bounded

theorem alloc_bounds {value : Value} (fits : value.Bounded) (initialized : Bool) :
    Bounds told (alloc value initialized) fun _ => True :=
  bounds_get.bind fun _ bounded =>
    (bounds_set (bounded.withHeap (bounded.heap.alloc fits initialized))).map fun _ _ => trivial

theorem bind_bounds (name : String) {value : Value} (fits : value.Bounded) (initialized : Bool) :
    Bounds told (bind name value initialized) fun _ => True :=
  (alloc_bounds fits initialized).andThen fun _ => modifyScope_bounds _

theorem materialize_bounds {value : Value} (fits : value.Bounded) :
    Bounds told (materialize value) fun _ => True :=
  (alloc_bounds fits true).andThen fun _ => (modifyScope_bounds _).map fun _ _ => trivial

theorem lookup_bounds (name : String) : Bounds told (lookup name) fun _ => True := by
  refine bounds_get.andThen fun s => ?_
  simp only
  split
  · exact bounds_pure trivial
  · exact bounds_fail rfl

theorem freeCell_bounds (addr : Addr) : Bounds told (freeCell addr) fun _ => True :=
  bounds_get.bind fun _ bounded =>
    (bounds_ofHeap bounded.heap.free).bind fun _ fits => bounds_set ⟨fits, bounded.outputs⟩

theorem freeCells_bounds (addrs : List Addr) : Bounds told (freeCells addrs) fun _ => True := by
  induction addrs with
  | nil => exact bounds_pure trivial
  | cons addr rest ih => exact (freeCell_bounds addr).andThen fun _ => ih

theorem dropValue_bounds (value : Value) : Bounds told (dropValue value) fun _ => True :=
  bounds_get.andThen fun _ =>
    (bounds_ofHeap (answers_true _)).andThen fun _ => freeCells_bounds _

theorem dropCells_bounds (addrs : List Addr) : Bounds told (dropCells addrs) fun _ => True := by
  induction addrs with
  | nil => exact bounds_pure trivial
  | cons addr rest ih => exact (dropValue_bounds _).andThen fun _ => ih

theorem dropValues_bounds (values : List Value) :
    Bounds told (dropValues values) fun _ => True := by
  induction values with
  | nil => exact bounds_pure trivial
  | cons value rest ih => exact (dropValue_bounds value).andThen fun _ => ih

theorem pushScope_bounds : Bounds told pushScope fun _ => True := by
  refine bounds_modify fun s bounded => ?_
  split
  · exact bounded.withFrames _
  · exact bounded

theorem popScope_bounds : Bounds told popScope fun _ => True := by
  refine bounds_get.bind fun s bounded => ?_
  split
  · exact (bounds_set (bounded.withFrames _)).andThen fun _ => dropCells_bounds _
  · exact bounds_fail rfl

theorem popScopes_bounds (count : Nat) : Bounds told (popScopes count) fun _ => True := by
  induction count with
  | zero => exact bounds_pure trivial
  | succ count ih => exact popScope_bounds.andThen fun _ => ih

theorem popFrame_bounds : Bounds told popFrame fun _ => True :=
  bounds_get.andThen fun _ => (popScopes_bounds _).andThen fun _ =>
    bounds_modify fun _ bounded => bounded.withFrames _

theorem pushFrame_bounds (f : FunctionDef) : Bounds told (pushFrame ctx f loc) fun _ => True := by
  refine bounds_get.bind fun s bounded => ?_
  simp only
  split
  · exact bounds_fail_bind rfl
  · exact bounds_set (bounded.withFrames _)

theorem emit_bounds {text : String} (known : told text) : Bounds told (emit text) fun _ => True :=
  bounds_modify fun _ bounded => ⟨bounded.heap, List.forall_mem_cons.mpr ⟨known, bounded.outputs⟩⟩

theorem bindArgs_bounds {args : List (Param × Value)} (fit : ∀ arg ∈ args, arg.2.Bounded) :
    Bounds told (bindArgs args) fun _ => True := by
  induction args with
  | nil => exact bounds_pure trivial
  | cons arg rest ih =>
      obtain ⟨first, others⟩ := List.forall_mem_cons.mp fit
      exact (bind_bounds _ first true).andThen fun _ => ih others

/-! ### Locations -/

theorem failRule_bounds {α : Type} {ok : α → Prop} (rule : Rule) (l : Location) (expr : Expr) :
    Bounds told (failRule ctx rule l expr) ok :=
  bounds_fail rfl

/-- A use of a location whose cell is there. -/
def useCells (ctx : Context) (s : State) (l : Location) (expr : Expr) (isWrite : Bool)
    (cause : DiagnosticKind) : Eval Unit :=
  match s.borrows.access l.first l.tag isWrite cause with
  | .error violation => failRule ctx violation.rule l expr
  | .ok borrows =>
      match accessOwned isWrite cause borrows l.inner with
      | .error violation => failRule ctx violation.rule l expr
      | .ok borrows => set { s with borrows }

theorem access_eq (l : Location) (expr : Expr) (isWrite : Bool) (cause : DiagnosticKind) :
    access ctx l expr isWrite cause = (do
      let s ← get
      if !s.heap.contains l.first then failRule ctx .freed l expr
      useCells ctx s l expr isWrite cause) := rfl

theorem access_bounds (l : Location) (expr : Expr) (isWrite : Bool) (cause : DiagnosticKind) :
    Bounds told (access ctx l expr isWrite cause) fun _ => True := by
  rw [access_eq]
  refine bounds_get.bind fun s bounded => ?_
  have used : Bounds told (useCells ctx s l expr isWrite cause) fun _ => True := by
    unfold useCells
    split
    · exact failRule_bounds _ _ _
    · split
      · exact failRule_bounds _ _ _
      · exact bounds_set (bounded.withBorrows _)
  split
  · exact bounds_fail_bind rfl
  · exact used

theorem load_bounds (l : Location) (expr : Expr) : Bounds told (load ctx l expr) Value.Bounded := by
  refine (access_bounds l expr false _).andThen fun _ => bounds_get.bind fun s bounded => ?_
  refine (bounds_ofHeap bounded.heap.cell).bind fun cell fits => ?_
  cases cell.state with
  | live => exact bounds_pure fits
  | moved | uninit => exact bounds_fail rfl

/-- What a box owns is ended, once its own cell is. -/
def endBehind (fuel : Nat) (s : State) (addr : Addr) : Eval Unit := do
  let cell ← ofHeap (s.heap.cell addr)
  match cell.liveValue? with
  | none => pure ()
  | some value => endOwned fuel value

theorem endOwned_box (fuel : Nat) (addr : Addr) :
    endOwned (fuel + 1) (.box addr) = (do
      let s ← get
      match s.borrows.access addr none true .moveWhileBorrowed with
      | .error _ => pure ()
      | .ok borrows => set { s with borrows }
      endBehind fuel s addr) := rfl

theorem endOwned_bounds (fuel : Nat) (value : Value) :
    Bounds told (endOwned fuel value) fun _ => True := by
  induction fuel generalizing value with
  | zero => cases value <;> first | exact bounds_pure trivial | exact bounds_fail rfl
  | succ fuel ih =>
      cases value with
      | box addr =>
          rw [endOwned_box]
          refine bounds_get.bind fun s bounded => ?_
          have below : Bounds told (endBehind fuel s addr) fun _ => True := by
            refine (bounds_ofHeap bounded.heap.cell).andThen fun cell => ?_
            split
            · exact bounds_pure trivial
            · exact ih _
          simp only
          split
          · exact below
          · exact (bounds_set (bounded.withBorrows _)).andThen fun _ => below
      | _ => exact bounds_pure trivial

theorem read_bounds (l : Location) (expr : Expr) : Bounds told (read ctx l expr) Value.Bounded := by
  refine (load_bounds l expr).bind fun value fits => ?_
  cases value with
  | box addr =>
      refine (access_bounds l expr true _).andThen fun _ => bounds_get.andThen fun _ => ?_
      refine (endOwned_bounds _ _).andThen fun _ => bounds_get.bind fun s bounded => ?_
      refine (bounds_ofHeap bounded.heap.take).bind fun taken fit => ?_
      exact (bounds_set (bounded.withHeap fit.1)).map fun _ _ => fit.2
  | _ => exact bounds_pure fits

theorem follow_bounds (expr : Expr) (value : Value) :
    Bounds told (follow ctx expr value) fun inner => ∀ known ∈ inner, known.Bounded := by
  cases value with
  | ref addr isMut tag => exact (load_bounds _ _).map fun inner fits => by simpa using fits
  | box addr =>
      exact bounds_get.bind fun s bounded =>
        (bounds_ofHeap bounded.heap.load).map fun inner fits => by simpa using fits
  | _ => exact bounds_pure nofun

theorem pushTag_bounds (addr : Addr) (isMut : Bool) :
    Bounds told (pushTag addr isMut) Value.Bounded := by
  refine bounds_get.bind fun s bounded => ?_
  obtain ⟨borrows, tag⟩ := s.borrows.push addr (.ofMut isMut)
  exact (bounds_set (bounded.withBorrows borrows)).andThen fun _ => bounds_pure trivial

theorem pointee_bounds (base : Option Location) {pointer : Value} (fits : pointer.Bounded)
    (source : Expr) : Bounds told (pointee base pointer source) fun _ => True := by
  cases pointer with
  | ref => exact bounds_pure trivial
  | box => cases base <;> exact bounds_pure trivial
  | int | bool | unit =>
      exact bounds_throw (List.forall_mem_singleton.mpr fits)

theorem storeAt_bounds (addr : Addr) {value : Value} (fits : value.Bounded) :
    Bounds told (storeAt addr value) fun _ => True :=
  bounds_get.bind fun _ bounded =>
    (bounds_ofHeap (bounded.heap.store fits)).bind fun _ stored =>
      bounds_set (bounded.withHeap stored)

theorem dropHeld_bounds (cell : Cell) : Bounds told (dropHeld cell) fun _ => True := by
  unfold dropHeld
  split
  · exact dropValue_bounds _
  · exact bounds_pure trivial

theorem assign_bounds (l : Location) (target : Expr) {value : Value} (fits : value.Bounded) :
    Bounds told (assign ctx l target value) fun _ => True :=
  (access_bounds l target true _).andThen fun _ => bounds_get.bind fun _ bounded =>
    (bounds_ofHeap bounded.heap.cell).andThen fun _ =>
      (dropHeld_bounds _).andThen fun _ => storeAt_bounds _ fits

/-! ### Operators -/

theorem inRange_answers (n : Int) (fault : ArithFault) : Answers (inRange n fault) IsInt32 := by
  unfold inRange
  split
  · exact (answers_ok _ _).mpr ‹_›
  · exact answers_error _ _

/-- An operator of arithmetic has no result beyond 32 bits, whatever its operands are. -/
theorem ArithOp.apply_answers (op : ArithOp) (left right : Int) :
    Answers (op.apply left right) IsInt32 := by
  cases op with
  | add | sub | mul => exact inRange_answers _ _
  | div | rem =>
      simp only [ArithOp.apply]
      split
      · exact answers_error _ _
      · exact inRange_answers _ _

theorem ofArith_bounds {result : Except ArithFault Int} (known : Answers result IsInt32) :
    Bounds told (ofArith ctx loc result) Value.Bounded := by
  cases result with
  | ok n => exact bounds_pure (known n rfl)
  | error fault => exact bounds_fail rfl

theorem arith_bounds (op : BinaryOp) (left right : Value) :
    Bounds told (arith ctx loc op left right) Value.Bounded := by
  unfold arith
  split
  · split
    · exact ofArith_bounds (ArithOp.apply_answers _ _ _)
    · exact bounds_fail rfl
  · exact bounds_fail rfl

theorem binary_bounds (op : BinaryOp) (left right : Value) :
    Bounds told (binary ctx loc op left right) Value.Bounded := by
  cases op with
  | eq | ne => exact bounds_pure trivial
  | order op =>
      simp only [binary]
      split
      · exact bounds_pure trivial
      · exact bounds_fail rfl
  | arith | and | or | unknown =>
      simp only [binary]
      exact arith_bounds _ _ _

theorem unary_bounds (op : UnaryOp) (operand : Value) :
    Bounds told (unary ctx loc op operand) Value.Bounded := by
  unfold unary
  split
  · exact bounds_pure trivial
  · split
    · exact ofArith_bounds (inRange_answers _ _)
    · exact bounds_fail rfl

theorem combine_bounds (l : Location) (target : Expr) (op : BinaryOp) (value : Value) :
    Bounds told (combine ctx loc l target op value) fun _ => True :=
  (load_bounds l target).andThen fun _ => (arith_bounds op _ value).bind fun _ fits =>
    (access_bounds l target true _).andThen fun _ => storeAt_bounds _ fits

end Actions

end Evaluator

end BorrowLang
