import BorrowLang.Evaluator.Machine
import BorrowLang.Proofs.Ownership.Access
import BorrowLang.Proofs.Stacks.Permanence

/-!
# What finds the use of a moved value

A run reports the use of a value that was moved, or that was never there, where it loads from a cell
that holds none.  Every other action fails for other reasons; in particular, a reference that has
ended names the borrow, assignment or move that ended it.
-/

set_option autoImplicit false

namespace BorrowLang

/-- What is known of the end of a computation in two ways is known at once. -/
theorem Meets.both {σ ε α : Type} {x : ExceptT ε (StateM σ) α} {s : σ} {first second : α → σ → Prop}
    {cut other : ε → σ → Prop} (known : Meets x s first cut) (more : Meets x s second other) :
    Meets x s (fun a after => first a after ∧ second a after) fun e after =>
      cut e after ∧ other e after := by
  unfold Meets at *
  cases ended : x s with
  | mk result after =>
      rw [ended] at known more
      cases result <;> exact ⟨known, more⟩

/-- No reference has ended because a moved value was used. -/
def BorrowStacks.Caused (borrows : BorrowStacks) : Prop :=
  ∀ (tag : Tag) (cause : DiagnosticKind), borrows.revoked[tag]? = some cause →
    cause ≠ .useAfterMove

namespace BorrowStacks

variable {s after : BorrowStacks} {addr : Addr} {tag : Option Tag} {isWrite : Bool}
variable {cause : DiagnosticKind}

theorem Caused.access (caused : s.Caused) (other : cause ≠ .useAfterMove)
    (allowed : s.access addr tag isWrite cause = .ok after) : after.Caused := by
  intro tag known found
  obtain ⟨ended, -, revoked⟩ := revoked_access allowed
  rw [revoked] at found
  split at found
  · exact Option.some.inj found ▸ other
  · exact caused tag known found

/-- An access that is refused names what ended the reference. -/
theorem Caused.refused (caused : s.Caused) {violation : Violation}
    (broken : s.access addr tag isWrite cause = .error violation) :
    violation.rule.kind ≠ .useAfterMove := by
  unfold BorrowStacks.access at broken
  split at broken
  · obtain rfl := Except.error.inj broken
    cases tag with
    | none => rintro ⟨⟩
    | some tag =>
        simp only [Rule.kind, Option.bind_some]
        cases known : s.revoked[tag]? with
        | none => rintro ⟨⟩
        | some cause => exact caused tag cause known
  · cases broken

end BorrowStacks

namespace Evaluator

open BorrowStacks

/-- A fault reports the use of a value that is not there. -/
def Fault.OfMove : Fault → Prop
  | .reported diagnostic => diagnostic.kind = .useAfterMove
  | _ => False

instance : DecidablePred Fault.OfMove
  | .reported diagnostic => inferInstanceAs (Decidable (diagnostic.kind = .useAfterMove))
  | .heap _ | .template _ | .unknownName _ | .notPointer _ | .notPlace _ | .unsupportedStmt _
  | .unsupportedExpr _ | .unsupportedOperator _ | .unknownFunction | .notInteger | .wrongOperand
  | .missingArgument | .noScope => inferInstanceAs (Decidable False)

/-- An interrupt reports a failure other than that. -/
def Interrupt.Spared : Interrupt → Prop
  | .failed fault => ¬ fault.OfMove
  | .returned _ => False

theorem spared_of_kind {diagnostic : Diagnostic} (other : diagnostic.kind ≠ .useAfterMove) :
    (Interrupt.failed (.reported diagnostic)).Spared := other

/-- An action does not find the use of a moved value, and ends no reference for one. -/
def Spares {α : Type} (x : Eval α) (s : State) : Prop :=
  Meets x s (fun _ after => after.borrows.Caused) fun interrupt _ => interrupt.Spared

variable {α β : Type} {s mid after : State} {l : Location}

theorem spares_fail {fault : Fault} (other : ¬ fault.OfMove) :
    Spares (fail fault : Eval α) s := other

theorem spares_ofHeap (caused : s.borrows.Caused) (answer : Except HeapFault α) :
    Spares (ofHeap answer) s := by
  cases answer with
  | ok a => exact caused
  | error fault => exact spares_fail id

theorem Spares.bind {x : Eval β} {f : β → Eval α} (first : Spares x s)
    (next : ∀ b after, after.borrows.Caused → Spares (f b) after) : Spares (x >>= f) s := by
  unfold Spares
  rw [meets_bind]
  exact Meets.onOk first next

/-! ### Cells and scopes -/

theorem spares_freeCells (addrs : List Addr) (caused : s.borrows.Caused) :
    Spares (freeCells addrs) s := by
  induction addrs generalizing s with
  | nil => exact caused
  | cons addr rest ih =>
      refine Spares.bind (x := freeCell addr) ?_ fun _ _ => ih
      exact Spares.bind (x := ofHeap _) (spares_ofHeap caused _) fun _ _ _ =>
        show (s.borrows.forget addr).Caused from caused

theorem spares_dropValue (value : Value) (caused : s.borrows.Caused) :
    Spares (dropValue value) s :=
  Spares.bind (x := ofHeap _) (spares_ofHeap caused _) fun _ _ => spares_freeCells _

theorem spares_dropCells (addrs : List Addr) (caused : s.borrows.Caused) :
    Spares (dropCells addrs) s := by
  induction addrs generalizing s with
  | nil => exact caused
  | cons addr rest ih => exact (spares_dropValue (.box addr) caused).bind fun _ _ => ih

theorem spares_dropValues (values : List Value) (caused : s.borrows.Caused) :
    Spares (dropValues values) s := by
  induction values generalizing s with
  | nil => exact caused
  | cons value rest ih => exact (spares_dropValue value caused).bind fun _ _ => ih

theorem spares_popScope (caused : s.borrows.Caused) : Spares popScope s := by
  unfold Spares popScope
  rw [meets_bind, meets_get]
  split
  · exact spares_dropCells (s := { s with frames := _ }) _ caused
  · exact spares_fail id

theorem spares_popScopes (count : Nat) (caused : s.borrows.Caused) :
    Spares (popScopes count) s := by
  induction count generalizing s with
  | zero => exact caused
  | succ count ih => exact (spares_popScope caused).bind fun _ _ => ih

theorem spares_popFrame (caused : s.borrows.Caused) : Spares popFrame s :=
  Spares.bind (x := popScopes _) (spares_popScopes _ caused) fun _ _ caused => caused

variable (ctx : Context)

/-! ### Uses of cells -/

theorem accessOwned_caused {isWrite : Bool} {cause : DiagnosticKind} (other : cause ≠ .useAfterMove)
    {addrs : List Addr} {borrows : BorrowStacks} (caused : borrows.Caused) :
    match accessOwned isWrite cause borrows addrs with
    | .ok after => after.Caused
    | .error violation => violation.rule.kind ≠ .useAfterMove := by
  induction addrs generalizing borrows with
  | nil => exact caused
  | cons addr rest ih =>
      rw [accessOwned]
      cases first : borrows.access addr none isWrite cause with
      | error violation => exact caused.refused first
      | ok next => exact ih (caused.access other first)

theorem spares_access (l : Location) (expr : Expr) (isWrite : Bool) {cause : DiagnosticKind}
    (other : cause ≠ .useAfterMove) (caused : s.borrows.Caused) :
    Spares (access ctx l expr isWrite cause) s := by
  unfold Spares access
  simp only [meets_bind, meets_get]
  split
  · exact spared_of_kind (by rintro ⟨⟩)
  · cases first : s.borrows.access l.first l.tag isWrite cause with
    | error violation => exact caused.refused first
    | ok mid =>
        have known := @accessOwned_caused isWrite cause other l.inner mid (caused.access other first)
        simp only
        cases last : accessOwned isWrite cause mid l.inner with
        | error violation =>
            rw [last] at known
            exact known
        | ok borrows =>
            rw [last] at known
            exact known

/-- A load finds a value where there is one, as far as it gets to the cell. -/
theorem spares_load (l : Location) (expr : Expr) (caused : s.borrows.Caused)
    (held : (s.heap.lookup l.first).isSome →
      (∀ tag, l.tag = some tag → s.borrows.stack l.first ≠ []) →
        ∀ cell, s.heap.lookup l.addr = some cell → cell.state = .live) :
    Spares (load ctx l expr) s := by
  unfold Spares load
  rw [meets_bind]
  refine Meets.mono (Meets.both (access_meets ctx l expr false _ s)
    (spares_access ctx l expr false (by rintro ⟨⟩) caused)) ?_ ?_
  · rintro _ mid ⟨⟨ended, here, valid⟩, causedMid⟩
    rw [meets_bind, meets_get, meets_bind, ended.heap]
    cases found : s.heap.lookup l.addr with
    | none =>
        rw [Heap.cell_eq_error found]
        exact id
    | some cell =>
        rw [Heap.cell_eq_ok found, meets_ofHeap_ok, held here valid cell found]
        exact causedMid
  · exact fun _ _ met => met.2

end Evaluator

end BorrowLang
