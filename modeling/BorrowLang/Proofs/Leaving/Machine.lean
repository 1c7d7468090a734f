import BorrowLang.Proofs.Leaving.Checked
import BorrowLang.Proofs.Ownership.Machine
import BorrowLang.Proofs.Typing.Frames

/-!
# Frames that no value gets through

Some of the frames of a machine are the base, and code on top of them is evaluated.  A frame that
always leaves its function keeps every value from the base, whatever the frames inside of it do.
The interrupt that it makes reaches the base, unless a call in between ends it, and then another such
frame has to stand below that call.  A step keeps this up until an interrupt is at the base.
-/

set_option autoImplicit false

namespace BorrowLang.Evaluator

/-! ### Code that leaves -/

/-- Does what is left of a block always leave the function? -/
def restLeaves (rest : List Stmt) (tail : Option Expr) : Bool :=
  Stmt.anyLeaves rest || tail.any Expr.leaves

theorem restLeaves_eq (body : Block) : restLeaves body.statements body.tail = body.leaves := by
  obtain ⟨stmts, tail, loc⟩ := body
  cases tail <;> simp [restLeaves, Block.statements, Block.tail, Block.leaves]

/-- Does a control always leave the function? -/
def Control.leaves {mode : Mode} : Control mode → Bool
  | .expr e => e.leaves
  | .block body => body.leaves
  | .stmts rest tail => restLeaves rest tail
  | .stmt code => code.leaves
  | .interrupted _ => true
  | _ => false

/-- Does a frame always leave the function once it has the outcome that it waits for? -/
def Frame.leaves {first next : Mode} : Frame first next → Bool
  | .branch thenBlock (some elseBlock) => thenBlock.leaves && elseBlock.leaves
  | .ret => true
  | .stmts rest tail => restLeaves rest tail
  | _ => false

theorem Frame.isCall_of_leaves {first next : Mode} {frame : Frame first next}
    (leaves : frame.leaves = true) : frame.isCall = false := by
  cases frame <;> first | rfl | cases leaves

/-! ### Frames above a base -/

variable {ground mode next : Mode} {base : Stack ground} {k : Stack mode}

mutual

/-- What leaves the function does not come to a value for the base: no call stands in between, or
none whose value would get through. -/
inductive Stack.Spared (base : Stack ground) : {mode : Mode} → Stack mode → Prop
  | base : Stack.Spared base base
  | inside {mode next : Mode} {frame : Frame mode next} {k : Stack next}
      (plain : frame.isCall = false) (spared : Stack.Spared base k) :
      Stack.Spared base (.cons frame k)
  | call {f : FunctionDef} {k : Stack .value} (shielded : Stack.Shielded base k) :
      Stack.Spared base (.cons (.leaveCall f) k)

/-- No outcome gets through to the base: one of the frames always leaves its function. -/
inductive Stack.Shielded (base : Stack ground) : {mode : Mode} → Stack mode → Prop
  | here {mode next : Mode} {frame : Frame mode next} {k : Stack next}
      (leaves : frame.leaves = true) (spared : Stack.Spared base k) :
      Stack.Shielded base (.cons frame k)
  | under {mode next : Mode} {frame : Frame mode next} {k : Stack next}
      (shielded : Stack.Shielded base k) : Stack.Shielded base (.cons frame k)

end

theorem Stack.Shielded.spared (shielded : base.Shielded k) : base.Spared k := by
  induction k with
  | nil => cases shielded
  | cons frame k ih =>
      cases shielded with
      | here leaves spared => exact .inside (Frame.isCall_of_leaves leaves) spared
      | under shielded =>
          cases frame with
          | leaveCall f => exact .call shielded
          | _ => exact .inside rfl (ih shielded)

/-- The number of frames. -/
def Stack.height {mode : Mode} : Stack mode → Nat
  | .nil => 0
  | .cons _ rest => rest.height + 1

mutual

theorem Stack.Spared.height_le : {mode : Mode} → {k : Stack mode} → base.Spared k →
    base.height ≤ k.height
  | _, _, .base => Nat.le_refl _
  | _, _, .inside _ spared => Nat.le_succ_of_le spared.height_le
  | _, _, .call shielded => Nat.le_succ_of_le (Nat.le_of_lt shielded.height_lt)

theorem Stack.Shielded.height_lt : {mode : Mode} → {k : Stack mode} → base.Shielded k →
    base.height < k.height
  | _, _, .here _ spared => Nat.lt_succ_of_le spared.height_le
  | _, _, .under shielded => Nat.lt_succ_of_lt shielded.height_lt

end

/-- A base is not shielded from itself. -/
theorem Stack.not_shielded_self (base : Stack ground) : ¬ base.Shielded base :=
  fun shielded => Nat.lt_irrefl _ shielded.height_lt

/-- A control on top of frames does not come to a value for the base. -/
def Doomed (base : Stack ground) {mode : Mode} (control : Control mode) (k : Stack mode) : Prop :=
  base.Shielded k ∨ control.leaves = true ∧ base.Spared k

theorem Doomed.interrupted {interrupt : Interrupt} (spared : base.Spared k) :
    Doomed base (.interrupted interrupt) k := Or.inr ⟨rfl, spared⟩

theorem Doomed.spared {control : Control mode} (doomed : Doomed base control k) : base.Spared k :=
  doomed.elim Stack.Shielded.spared And.right

/-- A control that does not always leave is doomed by the frames only. -/
theorem Doomed.shielded {control : Control mode} (doomed : Doomed base control k)
    (stays : control.leaves = false) : base.Shielded k :=
  doomed.resolve_right fun both => by rw [stays] at both; cases both.1

/-! ### Steps -/

/-- A transition that leads to a machine that is doomed as well. -/
def Transition.Dooms (base : Stack ground) (t : Transition) (s : State) : Prop :=
  Meets t.action s (fun control _ => Doomed base control t.stack)
    (fun interrupt _ => Doomed base (.interrupted interrupt : Control t.mode) t.stack)

variable {ctx : Context} {s : State}

theorem dooms_of_shielded {t : Transition} (shielded : base.Shielded t.stack) : t.Dooms base s := by
  rw [Transition.Dooms, Meets]
  split
  · exact Or.inl shielded
  · exact Or.inl shielded

theorem Transition.Dooms.perform {t : Transition} (dooms : t.Dooms base s) :
    Doomed base (t.perform s).control (t.perform s).stack := by
  unfold Transition.Dooms Meets at dooms
  unfold Transition.perform
  cases done : t.action s with
  | mk result after =>
      rw [done] at dooms
      cases result <;> exact dooms

/-- A transition from some frames leads to these frames, or to one more. -/
inductive Transition.From (k : Stack mode) : Transition → Prop
  | same (action : Eval (Control mode)) : Transition.From k ⟨k, action⟩
  | push {first : Mode} (frame : Frame first mode) (action : Eval (Control first)) :
      Transition.From k ⟨.cons frame k, action⟩

/-- What shields the base from the frames of a machine does so after the step. -/
theorem Transition.From.dooms {t : Transition} (leads : t.From k) (shielded : base.Shielded k) :
    t.Dooms base s := by
  cases leads with
  | same action => exact dooms_of_shielded shielded
  | push frame action => exact dooms_of_shielded (.under shielded)

theorem enterExpr_from (expr : Expr) (k : Stack .value) : (enterExpr expr k).From k := by
  cases expr with
  | binary loc op left right => cases op <;> exact .push _ _
  | borrow loc operand isMut =>
      rw [enterExpr]
      split <;> exact .push _ _
  | literal | call | macroCall | block | ofStmt | ofBlock => exact .same _
  | _ => exact .push _ _

theorem enterPlace_from (expr : Expr) (k : Stack .place) : (enterPlace expr k).From k := by
  fun_cases enterPlace expr k with
  | case1 | case2 | case6 => exact .same _
  | _ => exact .push _ _

theorem enterStmt_from (stmt : Stmt) (k : Stack .done) : (enterStmt stmt k).From k := by
  fun_cases enterStmt stmt k with
  | case2 | case3 | case5 | case7 => exact .push _ _
  | _ => exact .same _

theorem applyCall_from (loc : Option Position) (func : String) (values : List Value)
    (k : Stack .value) : (applyCall ctx loc func values k).From k := by
  fun_cases applyCall ctx loc func values k <;> exact .same _

theorem resumeValue_from (v : Value) (frame : Frame .value next) (k : Stack next) :
    (resumeValue ctx v frame k).From k := by
  cases frame with
  | logic | loopCondition =>
      rw [resumeValue]
      split
      · exact .push _ _
      · exact .same _
  | branch thenBlock elseBlock =>
      simp only [resumeValue]
      split
      · exact .same _
      · cases elseBlock <;> exact .same _
  | left | assignValue => exact .push _ _
  | _ => exact .same _

theorem resumePlace_from (l : Location) (frame : Frame .place next) (k : Stack next) :
    (resumePlace ctx l frame k).From k := by
  cases frame <;> exact .same _

/-! ### Code that leaves, step by step -/

theorem enterExpr_dooms {expr : Expr} {k : Stack .value} (leaves : expr.leaves = true)
    (spared : base.Spared k) : (enterExpr expr k).Dooms base s := by
  cases expr with
  | ifElse loc condition thenBlock elseBlock =>
      cases elseBlock with
      | none => simp [Expr.leaves] at leaves
      | some elseBlock =>
          rw [Expr.leaves] at leaves
          exact Or.inl (.here leaves spared)
  | block loc body =>
      rw [Expr.leaves] at leaves
      exact Or.inr ⟨leaves, spared⟩
  | _ => simp [Expr.leaves] at leaves

theorem enterStmt_dooms {stmt : Stmt} {k : Stack .done} (leaves : stmt.leaves = true)
    (spared : base.Spared k) : (enterStmt stmt k).Dooms base s := by
  cases stmt with
  | ret loc value =>
      cases value with
      | none => exact Doomed.interrupted spared
      | some value => exact Or.inl (.here rfl spared)
  | expr loc value =>
      rw [Stmt.leaves] at leaves
      exact Or.inr ⟨leaves, .inside rfl spared⟩
  | _ => simp [Stmt.leaves] at leaves

theorem stmts_dooms {rest : List Stmt} {tail : Option Expr} {k : Stack .value} {t : Transition}
    (leaves : restLeaves rest tail = true) (spared : base.Spared k)
    (advanced : advance ctx (.stmts rest tail) k = some t) : t.Dooms base s := by
  cases rest with
  | nil =>
      cases tail with
      | none => cases leaves
      | some tail =>
          obtain rfl := Option.some.inj advanced
          have last : tail.leaves = true := by simpa [restLeaves, Stmt.anyLeaves] using leaves
          exact Or.inr ⟨last, spared⟩
  | cons stmt rest =>
      obtain rfl := Option.some.inj advanced
      rw [restLeaves, Stmt.anyLeaves, Bool.or_assoc] at leaves
      rcases (Bool.or_eq_true _ _).mp leaves with first | later
      · exact Or.inr ⟨first, .inside rfl spared⟩
      · exact Or.inl (.here later spared)

/-- A frame that always leaves its function does so with whatever value it has waited for. -/
theorem resumeValue_dooms {v : Value} {frame : Frame .value next} {k : Stack next}
    (leaves : frame.leaves = true) (spared : base.Spared k) :
    (resumeValue ctx v frame k).Dooms base s := by
  cases frame with
  | ret => exact Doomed.interrupted spared
  | branch thenBlock elseBlock =>
      cases elseBlock with
      | none => cases leaves
      | some elseBlock =>
          obtain ⟨first, other⟩ := (Bool.and_eq_true _ _).mp leaves
          rw [resumeValue]
          split
          · exact Or.inr ⟨first, spared⟩
          · exact Or.inr ⟨other, spared⟩
  | _ => cases leaves

/-- On the way out, an interrupt is stopped by a call only, and a value of the call does not get any
further. -/
theorem unwind_dooms {interrupt : Interrupt} {frame : Frame mode next} {k : Stack next}
    (spared : base.Spared k) (shielded : frame.isCall = true → base.Shielded k) :
    (unwind interrupt frame k).Dooms base s := by
  cases frame with
  | leaveCall f => exact dooms_of_shielded (shielded rfl)
  | leaveScope =>
      rw [unwind, Transition.Dooms, meets_bind, Meets]
      split <;> exact Doomed.interrupted spared
  | _ => exact Doomed.interrupted spared

theorem advance_dooms {control : Control mode} {t : Transition} (doomed : Doomed base control k)
    (notYet : ∀ interrupt, (⟨control, k, s⟩ : Machine) ≠
      ⟨(.interrupted interrupt : Control ground), base, s⟩)
    (advanced : advance ctx control k = some t) : t.Dooms base s := by
  cases control with
  | expr e =>
      obtain rfl := Option.some.inj advanced
      rcases doomed with shielded | ⟨leaves, spared⟩
      · exact (enterExpr_from e k).dooms shielded
      · exact enterExpr_dooms leaves spared
  | block body =>
      obtain rfl := Option.some.inj advanced
      rcases doomed with shielded | ⟨leaves, spared⟩
      · exact (Transition.From.push _ _).dooms shielded
      · have inside : base.Spared (.cons .leaveScope k) := .inside rfl spared
        rw [Transition.Dooms, meets_bind, Meets]
        split
        · exact Or.inr ⟨(restLeaves_eq body).trans leaves, inside⟩
        · exact Doomed.interrupted inside
  | stmts rest tail =>
      rcases doomed with shielded | ⟨leaves, spared⟩
      · refine Transition.From.dooms ?_ shielded
        cases rest with
        | nil => cases tail <;> cases advanced <;> exact .same _
        | cons stmt rest =>
            cases advanced
            exact .push _ _
      · exact stmts_dooms leaves spared advanced
  | args loc func values rest =>
      refine Transition.From.dooms ?_ (doomed.shielded rfl)
      cases rest with
      | nil =>
          obtain rfl := Option.some.inj advanced
          exact applyCall_from loc func values k
      | cons arg rest =>
          obtain rfl := Option.some.inj advanced
          exact .push _ _
  | call f values loc =>
      obtain rfl := Option.some.inj advanced
      exact (Transition.From.same _).dooms (doomed.shielded rfl)
  | enter f values =>
      obtain rfl := Option.some.inj advanced
      exact (Transition.From.push _ _).dooms (doomed.shielded rfl)
  | shown template values rest =>
      refine Transition.From.dooms ?_ (doomed.shielded rfl)
      cases rest with
      | nil =>
          obtain rfl := Option.some.inj advanced
          exact .same _
      | cons arg rest =>
          obtain rfl := Option.some.inj advanced
          split <;> exact .push _ _
  | follow template owned texts rest =>
      refine Transition.From.dooms ?_ (doomed.shielded rfl)
      cases rest <;>
      · obtain rfl := Option.some.inj advanced
        exact .same _
  | display value =>
      obtain rfl := Option.some.inj advanced
      exact (Transition.From.same _).dooms (doomed.shielded rfl)
  | value v =>
      cases k with
      | nil => cases advanced
      | cons frame k =>
          obtain rfl := Option.some.inj advanced
          cases doomed.shielded rfl with
          | here leaves spared => exact resumeValue_dooms leaves spared
          | under shielded => exact (resumeValue_from v frame k).dooms shielded
  | place e =>
      obtain rfl := Option.some.inj advanced
      exact (enterPlace_from e k).dooms (doomed.shielded rfl)
  | found l =>
      cases k with
      | cons frame k =>
          obtain rfl := Option.some.inj advanced
          cases doomed.shielded rfl with
          | here leaves spared => cases frame <;> cases leaves
          | under shielded => exact (resumePlace_from l frame k).dooms shielded
  | stmt code =>
      obtain rfl := Option.some.inj advanced
      rcases doomed with shielded | ⟨leaves, spared⟩
      · exact (enterStmt_from code k).dooms shielded
      · exact enterStmt_dooms leaves spared
  | loop condition body =>
      obtain rfl := Option.some.inj advanced
      exact (Transition.From.push _ _).dooms (doomed.shielded rfl)
  | finished =>
      cases k with
      | cons frame k =>
          obtain rfl := Option.some.inj advanced
          cases frame with
          | stmts rest tail =>
              cases doomed.shielded rfl with
              | here leaves spared => exact Or.inr ⟨leaves, spared⟩
              | under shielded => exact Or.inl shielded
  | interrupted interrupt =>
      cases k with
      | nil => cases advanced
      | cons frame k =>
          obtain rfl := Option.some.inj advanced
          cases doomed.spared with
          | base => exact absurd rfl (notYet interrupt)
          | inside plain spared =>
              exact unwind_dooms spared fun isCall => by rw [plain] at isCall; cases isCall
          | call shielded => exact unwind_dooms shielded.spared fun _ => shielded

end BorrowLang.Evaluator
