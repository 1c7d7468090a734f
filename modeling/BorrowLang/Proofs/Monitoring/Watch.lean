import BorrowLang.Evaluator.Program

/-!
# Watched runs

The evaluator notes each use of a cell in the borrow stacks.  Here what notes the uses is taken as a
parameter.  With the accesses of the borrow stacks it is the machine of the evaluator; with a watch
that lets every use pass and notes nothing, it is a machine that is not watched at all, except that
every reference still has its tag.
-/

set_option autoImplicit false

namespace BorrowLang.Evaluator

/-- What a use of a cell through a tag, or by the owner, makes of the borrow stacks. -/
def Watch : Type :=
  BorrowStacks → Addr → Option Tag → Bool → DiagnosticKind → Except Violation BorrowStacks

/-- Uses are accesses of the borrow stacks. -/
def Watch.stacks : Watch := BorrowStacks.access

/-- No use is noted, and none is a violation. -/
def Watch.off : Watch := fun borrows _ _ _ _ => .ok borrows

namespace Watch

variable (watch : Watch) (ctx : Context)

-- Each of these is what the evaluator does under the same name, on the watch.
def accessOwned (isWrite : Bool) (cause : DiagnosticKind) (borrows : BorrowStacks) :
    List Addr → Except Violation BorrowStacks
  | [] => .ok borrows
  | addr :: rest => do accessOwned isWrite cause (← watch borrows addr none isWrite cause) rest

def access (l : Location) (expr : Expr) (isWrite : Bool) (cause : DiagnosticKind) : Eval Unit := do
  let s ← get
  if !s.heap.contains l.first then failRule ctx .freed l expr
  match watch s.borrows l.first l.tag isWrite cause with
  | .error violation => failRule ctx violation.rule l expr
  | .ok borrows =>
      match watch.accessOwned isWrite cause borrows l.inner with
      | .error violation => failRule ctx violation.rule l expr
      | .ok borrows => set { s with borrows }

def load (l : Location) (expr : Expr) : Eval Value := do
  watch.access ctx l expr false .conflictingBorrow
  let cell ← ofHeap ((← get).heap.cell l.addr)
  match cell.state with
  | .live => return cell.value
  | .moved => report ctx .useAfterMove "use of moved value" expr.loc
  | .uninit => report ctx .useAfterMove "use of uninitialized value" expr.loc

def endOwned : (fuel : Nat) → Value → Eval Unit
  | fuel + 1, .box addr => do
      let s ← get
      match watch s.borrows addr none true .moveWhileBorrowed with
      | .error _ => pure ()
      | .ok borrows => set { s with borrows }
      let cell ← ofHeap (s.heap.cell addr)
      match cell.liveValue? with
      | none => pure ()
      | some value => endOwned fuel value
  | 0, .box _ => fail (.heap .cycle)
  | _, _ => pure ()

def read (l : Location) (expr : Expr) : Eval Value := do
  let value ← watch.load ctx l expr
  match value with
  | .box _ =>
      watch.access ctx l expr true .moveWhileBorrowed
      watch.endOwned ((← get).heap.live + 1) value
      let s ← get
      let (heap, taken) ← ofHeap (s.heap.take l.addr)
      set { s with heap }
      return taken
  | _ => return value

def follow (expr : Expr) : Value → Eval (Option Value)
  | .ref addr _ tag => do
      return some (← watch.load ctx { addr, tag := some tag, source := some expr } expr)
  | .box addr => do return some (← ofHeap ((← get).heap.load addr))
  | _ => return none

def assign (l : Location) (target : Expr) (value : Value) : Eval Unit := do
  watch.access ctx l target true .assignWhileBorrowed
  dropHeld (← ofHeap ((← get).heap.cell l.addr))
  storeAt l.addr value

def combine (loc : Option Position) (l : Location) (target : Expr) (op : BinaryOp) (value : Value) :
    Eval Unit := do
  let current ← watch.load ctx l target
  let result ← arith ctx loc op current value
  watch.access ctx l target true .assignWhileBorrowed
  storeAt l.addr result

def followFirst (template : String) (owned : List Value) (texts : List String) (arg : Expr)
    (value : Value) (rest : List (Expr × Value)) : Eval (Control .value) := do
  match ← watch.follow ctx arg value with
  | some inner => return .follow template owned texts ((arg, inner) :: rest)
  | none => return .follow template owned (texts ++ [value.text]) rest

def resumePlace (l : Location) {next : Mode} (frame : Frame .place next) (k : Stack next) :
    Transition :=
  match frame with
  | .readPlace expr => ⟨k, do return .value (← watch.read ctx l expr)⟩
  | .borrowPlace operand isMut =>
      ⟨k, do
        watch.access ctx l operand isMut .conflictingBorrow
        return .value (← pushTag l.addr isMut)⟩
  | .shownPlace template values arg rest =>
      ⟨k, do return addShown template values ⟨arg, ← watch.load ctx l arg, false⟩ rest⟩
  | .derefPlace operand =>
      ⟨k, do
        let pointer ← watch.load ctx l operand
        return .found (← pointee (some l) pointer operand)⟩
  | .assignPlace loc target op value =>
      ⟨k, do
        match op with
        | some op => watch.combine ctx loc l target op value
        | none => watch.assign ctx l target value
        return .finished⟩

/-- The step from a control.  Only a location that was found and a reference that is shown are uses
of a cell; every other step is the one that is not told of a watch. -/
def advance {mode : Mode} (control : Control mode) (k : Stack mode) : Option Transition :=
  match control with
  | .follow template owned texts ((arg, value) :: rest) =>
      some ⟨k, watch.followFirst ctx template owned texts arg value rest⟩
  | .found l =>
      match k with
      | .cons frame k => some (watch.resumePlace ctx l frame k)
  | control => Evaluator.advance ctx control k

def step (m : Machine) : Option Machine :=
  (watch.advance ctx m.control m.stack).map (·.perform m.state)

def run : (steps : Nat) → Machine → Machine
  | 0, m => m
  | steps + 1, m =>
      match watch.step ctx m with
      | none => m
      | some next => run steps next

/-- The machine of a run after some steps. -/
def reached (steps : Nat) : Machine := watch.run ctx steps (Machine.start ctx)

end Watch

/-! ### The watch of the evaluator -/

section Stacks

variable (ctx : Context)

theorem stacks_accessOwned : Watch.stacks.accessOwned = accessOwned := by
  funext isWrite cause borrows addrs
  induction addrs generalizing borrows with
  | nil => rfl
  | cons addr rest ih =>
      simp only [Watch.accessOwned, accessOwned, ih]
      rfl

theorem stacks_access : Watch.stacks.access ctx = access ctx := by
  funext l expr isWrite cause
  simp only [Watch.access, stacks_accessOwned]
  rfl

theorem stacks_load : Watch.stacks.load ctx = load ctx := by
  funext l expr
  simp only [Watch.load, stacks_access]
  rfl

theorem stacks_endOwned : Watch.stacks.endOwned = endOwned := by
  funext fuel value
  induction fuel generalizing value with
  | zero => cases value <;> rfl
  | succ fuel ih =>
      cases value with
      | box addr =>
          simp only [Watch.endOwned, endOwned, ih]
          rfl
      | _ => rfl

theorem stacks_read : Watch.stacks.read ctx = read ctx := by
  funext l expr
  simp only [Watch.read, stacks_load, stacks_access, stacks_endOwned]
  rfl

theorem stacks_follow : Watch.stacks.follow ctx = follow ctx := by
  funext expr value
  cases value with
  | ref addr isMut tag => simp only [Watch.follow, follow, stacks_load]
  | _ => rfl

theorem stacks_followFirst : Watch.stacks.followFirst ctx = followFirst ctx := by
  funext template owned texts arg value rest
  unfold Watch.followFirst
  rw [stacks_follow]
  rfl

theorem stacks_assign : Watch.stacks.assign ctx = assign ctx := by
  funext l target value
  simp only [Watch.assign, assign, stacks_access]

theorem stacks_combine : Watch.stacks.combine ctx = combine ctx := by
  funext loc l target op value
  simp only [Watch.combine, combine, stacks_load, stacks_access]

theorem stacks_resumePlace {next : Mode} (l : Location) (frame : Frame .place next)
    (k : Stack next) : Watch.stacks.resumePlace ctx l frame k = resumePlace ctx l frame k := by
  cases frame with
  | readPlace => simp only [Watch.resumePlace, resumePlace, stacks_read]
  | borrowPlace => simp only [Watch.resumePlace, resumePlace, stacks_access]
  | shownPlace => simp only [Watch.resumePlace, resumePlace, stacks_load]
  | derefPlace => simp only [Watch.resumePlace, resumePlace, stacks_load]
  | assignPlace loc target op value =>
      simp only [Watch.resumePlace, stacks_combine, stacks_assign]
      cases op <;> rfl

theorem stacks_advance {mode : Mode} (control : Control mode) (k : Stack mode) :
    Watch.stacks.advance ctx control k = advance ctx control k := by
  cases control with
  | follow template owned texts rest =>
      cases rest with
      | nil => rfl
      | cons first rest =>
          simp only [Watch.advance, advance, stacks_followFirst]
  | found l =>
      cases k with
      | cons frame k => simp only [Watch.advance, advance, stacks_resumePlace]
  | _ => rfl

theorem stacks_step (m : Machine) : Watch.stacks.step ctx m = m.step ctx := by
  simp only [Watch.step, Machine.step, stacks_advance]

/-- With the accesses of the borrow stacks, a watched run is a run of the evaluator. -/
theorem stacks_run (steps : Nat) (m : Machine) : Watch.stacks.run ctx steps m = m.run ctx steps := by
  induction steps generalizing m with
  | zero => rfl
  | succ steps ih =>
      simp only [Watch.run, Machine.run, stacks_step]
      cases m.step ctx with
      | none => rfl
      | some next => exact ih next

end Stacks

end BorrowLang.Evaluator
