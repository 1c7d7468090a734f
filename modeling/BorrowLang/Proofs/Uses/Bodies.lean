import BorrowLang.Proofs.Uses.Expressions

/-!
# Bodies without uses of what is gone

Blocks, branches, statements and loops are safe when their parts are; of a loop, its condition must
leave no more gone than before, since a loop is left after a condition.
-/

set_option autoImplicit false

namespace BorrowLang

namespace Moves

/-- Nothing is gone after a condition that was not gone before it. -/
def Conserves (rules : Checker.Context) (condition : Expr) : Prop :=
  ∀ ⦃o after : Outline⦄ ⦃value : Checker.Operand⦄, expr rules condition o = some (value, after) →
    value.ty = .bool → ∀ ⦃level depth : Nat⦄, after.Gone level depth → o.Gone level depth

end Moves

namespace Evaluator

open Ownership Moves
open Checker (Operand)

/-- A statement is safe where the check accepts it. -/
def StmtSafe (ctx : Context) (rules : Checker.Context) (n : Nat) (statement : Stmt) : Prop :=
  ∀ ⦃o after : Outline⦄ ⦃leaves : Bool⦄ ⦃counts : List Nat⦄ ⦃callers : List Layer⦄
    ⦃types : CellTypes⦄ ⦃s : State⦄ ⦃k : Stack .done⦄,
    Moves.stmt rules statement o = some (leaves, after) →
    s.Tracked types (⟨o, counts⟩ :: callers) (boxes k.values) →
    OnReturn ctx n callers types rules.result k →
    (leaves = false → OnDone ctx n (⟨after, counts⟩ :: callers) types k) →
    Safe ctx n ⟨.stmt statement, k, s⟩

variable {ctx : Context} {rules : Checker.Context} {n : Nat} {s : State} {types : CellTypes}
variable {callers : List Layer} {o after : Outline} {counts : List Nat} {value : Operand}

/-! ### Blocks -/

theorem stmts_safe {statements : List Stmt} {tail : Option Expr} {leaves : Bool} {k : Stack .value}
    (each : ∀ statement ∈ statements, StmtSafe ctx rules n statement)
    (passed : Moves.stmts rules statements o = some (leaves, after))
    (tracked : s.Tracked types (⟨o, counts⟩ :: callers) (boxes k.values))
    (returns : OnReturn ctx n callers types rules.result k)
    (goesOn : leaves = false → ∀ (later : CellTypes) (s : State), types.Extends later →
      s.Tracked later (⟨after, counts⟩ :: callers) (boxes k.values) →
        Safe ctx n ⟨.stmts [] tail, k, s⟩) :
    Safe ctx n ⟨.stmts statements tail, k, s⟩ := by
  induction statements generalizing o leaves types s with
  | nil =>
      rw [Moves.stmts] at passed
      obtain ⟨rfl, rfl⟩ := pure_eq_some.mp passed
      exact goesOn rfl types s (.refl types) tracked
  | cons statement rest ih =>
      rw [Moves.stmts] at passed
      obtain ⟨leavesFirst, mid, begins, passed⟩ := bind_eq_some.mp passed
      obtain ⟨leavesRest, last, passes, ends⟩ := bind_eq_some.mp passed
      obtain ⟨rfl, rfl⟩ := pure_eq_some.mp ends
      have values : (Stack.cons (.stmts rest tail) k).values = k.values := List.append_nil _
      refine .goes rfl rfl (each statement List.mem_cons_self begins (values ▸ tracked)
        (returns.push fun _ => rfl) fun stays => ?_)
      intro later s extended tracked
      rw [values] at tracked
      refine .goes rfl rfl (ih (fun st member => each st (List.mem_cons_of_mem _ member)) passes
        tracked (returns.later extended) fun staysRest => ?_)
      intro last s extendedLast
      exact goesOn (by rw [stays, staysRest]; rfl) last s (extended.trans extendedLast)

theorem block_safe {body : Block}
    (each : ∀ statement ∈ body.statements, StmtSafe ctx rules n statement)
    (last : ∀ e ∈ body.tail, ExprSafe ctx rules n e) : BlockSafe ctx rules n body := by
  intro o after value counts callers types s k passed tracked goesOn
  refine .acts rfl rfl fun sound => ?_
  obtain ⟨scope, scopes, frames, framesEq⟩ := sound.fits.1.frames
  simp only [pushScope, meets_bind, meets_modify, meets_pure, framesEq]
  have values : (Stack.cons .leaveScope k).values = k.values := List.append_nil _
  have entered : State.Tracked types (⟨o, o.decls.length :: counts⟩ :: callers)
      (boxes (Stack.cons .leaveScope k).values)
      { s with frames := ⟨{} :: scope :: scopes⟩ :: frames } :=
    values ▸ tracked.pushScope framesEq rfl rfl rfl
  have returns := goesOn.returns.scope
  obtain ⟨statements, tail, loc⟩ := body
  cases tail with
  | none =>
      rw [Moves.block] at passed
      obtain ⟨inner, passes, rfl⟩ := inScope_eq_some passed
      obtain ⟨leaves, mid, runs, ends⟩ := bind_eq_some.mp passes
      obtain ⟨rfl, rfl⟩ := pure_eq_some.mp ends
      refine stmts_safe each runs entered returns fun stays => ?_
      intro later s extended tracked
      exact .goes rfl rfl ((goesOn.value stays).scope.plain extended rfl rfl tracked)
  | some e =>
      rw [Moves.block] at passed
      obtain ⟨inner, passes, rfl⟩ := inScope_eq_some passed
      obtain ⟨leaves, mid, runs, passes⟩ := bind_eq_some.mp passes
      obtain ⟨operand, known, begins, ends⟩ := bind_eq_some.mp passes
      obtain ⟨rfl, rfl⟩ := pure_eq_some.mp ends
      refine stmts_safe each runs entered returns fun stays => ?_
      intro later s extended tracked
      refine .goes rfl rfl (last e rfl begins tracked ⟨returns.later extended, fun comes => ?_⟩)
      exact ((goesOn.value (by simp [stays, comes])).later extended).scope

theorem blockExpr_safe (loc : Option Position) {body : Block} (inner : BlockSafe ctx rules n body) :
    ExprSafe ctx rules n (.block loc body) := by
  intro o after value counts callers types s k passed tracked goesOn
  rw [Moves.expr] at passed
  exact .goes rfl rfl (inner passed tracked goesOn)

/-! ### Branches -/

/-- Where two paths meet, what is gone on a path that gets there is gone. -/
theorem gone_meet (decls : List Decl) {first second : Marks} {diverges otherDiverges : Bool}
    {level depth : Nat} (comes : diverges = false)
    (gone : Outline.Gone ⟨decls, first⟩ level depth) :
    Outline.Gone ⟨decls, first.meet diverges otherDiverges second⟩ level depth := by
  subst comes
  cases otherDiverges with
  | true => exact gone
  | false => exact (Loosens.join_left (o := ⟨decls, first⟩) second).gone gone

theorem gone_meet_other (decls : List Decl) {first second : Marks} {diverges otherDiverges : Bool}
    {level depth : Nat} (comes : otherDiverges = false)
    (gone : Outline.Gone ⟨decls, second⟩ level depth) :
    Outline.Gone ⟨decls, first.meet diverges otherDiverges second⟩ level depth := by
  subst comes
  cases diverges with
  | true => exact gone
  | false => exact (Loosens.join_right (o := ⟨decls, second⟩) first).gone gone

/-- What the check knows where two arms meet, from what it knows before them and after each. -/
structure Meeting (o mid last after : Outline) (first other : Operand) : Prop where
  skipped : Loosens o { mid with marks := o.marks }
  first : first.diverges = false → Loosens mid after
  other : other.diverges = false → Loosens last after

theorem meeting_of_fork {x y : Bare Operand} {first other : Operand} (closes : Closes x)
    (closesOther : Closes y) (regular : Regular x) (regularOther : Regular y)
    (passed : Bare.fork x y o = some ((first, other), after)) :
    ∃ mid last, x o = some (first, mid) ∧ y { mid with marks := o.marks } = some (other, last) ∧
      Meeting o mid last after first other := by
  obtain ⟨mid, last, passes, passesOther, rfl⟩ := fork_eq_some passed
  have grows := regular.grows passes
  have growsOther := regularOther.grows passesOther
  have length := closes _ _ _ passes
  have lengthOther := closesOther _ _ _ passesOther
  refine ⟨mid, last, passes, passesOther, ?_, fun comes => ?_, fun comes => ?_⟩
  · exact .of_grows ⟨grows.binders, grows.ty⟩ length id
  · exact .of_grows ⟨growsOther.binders, growsOther.ty⟩ lengthOther fun gone =>
      gone_meet [] comes gone
  · exact ⟨rfl, id, fun gone => gone_meet_other [] comes gone⟩

/-- The condition of a branch is run, and then one of its arms, or none. -/
theorem condition_safe (loc : Option Position) {condition : Expr} {thenBlock : Block}
    {elseBlock : Option Block} {operand : Operand} {mid : Outline} {k : Stack .value}
    (test : ExprSafe ctx rules n condition)
    (begins : Moves.expr rules condition o = some (operand, mid))
    (tracked : s.Tracked types (⟨o, counts⟩ :: callers) (boxes k.values))
    (returns : OnReturn ctx n callers types rules.result k)
    (arms : ∀ (later : CellTypes) (s : State), types.Extends later →
      s.Tracked later (⟨mid, counts⟩ :: callers) (boxes k.values) →
        Safe ctx n ⟨.block thenBlock, k, s⟩ ∧
        (∀ body ∈ elseBlock, Safe ctx n ⟨.block body, k, s⟩) ∧
        (elseBlock = none → Safe ctx n ⟨.value .unit, k, s⟩)) :
    Safe ctx n ⟨.expr (.ifElse loc condition thenBlock elseBlock), k, s⟩ := by
  have values : (Stack.cons (.branch thenBlock elseBlock) k).values = k.values := List.append_nil _
  refine .goes rfl rfl (test begins (values ▸ tracked) (.push returns (fun _ => rfl) ?_))
  intro _ later v s extended _ tracked
  rw [values, boxes_append] at tracked
  obtain ⟨onThen, onElse, onNone⟩ := arms later s extended
    (tracked.weaken fun box member => List.mem_append_left _ member)
  by_cases goesThen : isTrue v = true
  · refine .goes (congrArg some ?_) rfl onThen
    simp only [resumeValue, goesThen, if_true]
  · cases elseBlock with
    | none =>
        refine .goes (congrArg some ?_) rfl (onNone rfl)
        simp only [resumeValue, goesThen, if_false, Bool.false_eq_true]
    | some body =>
        refine .goes (congrArg some ?_) rfl (onElse body rfl)
        simp only [resumeValue, goesThen, if_false, Bool.false_eq_true]

/-- A branch goes on with its arm. -/
theorem branch_safe (loc : Option Position) {condition : Expr} {thenBlock : Block}
    {elseBlock : Option Block} (test : ExprSafe ctx rules n condition)
    (first : BlockSafe ctx rules n thenBlock)
    (other : ∀ body ∈ elseBlock, BlockSafe ctx rules n body) :
    ExprSafe ctx rules n (.ifElse loc condition thenBlock elseBlock) := by
  intro o after value counts callers types s k passed tracked goesOn
  cases elseBlock with
  | none =>
      rw [Moves.expr] at passed
      obtain ⟨operand, mid, begins, rest⟩ := bind_eq_some.mp passed
      obtain ⟨_, -, rest⟩ := answer_bind rest
      obtain ⟨⟨taken, skipped⟩, met, forks, answers⟩ := bind_eq_some.mp rest
      obtain ⟨isAnswer, rfl⟩ := answer_eq_some answers
      obtain ⟨isUnit, comes, plain⟩ := ifOnlyOperand_eq_ok isAnswer
      obtain ⟨midThen, last, passes, skips, meeting⟩ :=
        meeting_of_fork (block_closes rules thenBlock)
        (.pure _) (block_regular thenBlock) (.pure _) forks
      obtain ⟨rfl, rfl⟩ := pure_eq_some.mp skips
      have goesOnHere := goesOn.value comes
      refine condition_safe loc test begins tracked goesOn.returns
        fun later s extended tracked => ⟨?_, by rintro _ ⟨⟩, fun _ => ?_⟩
      · refine first passes tracked ⟨goesOn.returns.later extended, fun comesThen => ?_⟩
        have isUnitThen : taken.ty = value.ty :=
          (plain.resolve_left (by simp [comesThen])).trans isUnit.symm
        rw [isUnitThen]
        exact (goesOnHere.later extended).loosen (meeting.first comesThen)
      · refine goesOnHere.plain extended rfl (by rw [isUnit]; rfl) ?_
        exact (tracked.loosen meeting.skipped).loosen (meeting.other rfl)
  | some elseBlock =>
      rw [Moves.expr] at passed
      obtain ⟨operand, mid, begins, rest⟩ := bind_eq_some.mp passed
      obtain ⟨_, -, rest⟩ := answer_bind rest
      obtain ⟨⟨taken, second⟩, met, forks, answers⟩ := bind_eq_some.mp rest
      obtain ⟨isAnswer, rfl⟩ := answer_eq_some answers
      obtain ⟨onFirst, onOther⟩ := ifOperand_eq_ok isAnswer
      obtain ⟨midThen, last, passes, passesOther, meeting⟩ := meeting_of_fork
        (block_closes rules thenBlock) (block_closes rules elseBlock) (block_regular thenBlock)
        (block_regular elseBlock) forks
      refine condition_safe loc test begins tracked goesOn.returns
        fun later s extended tracked => ⟨?_, ?_, by rintro ⟨⟩⟩
      · refine first passes tracked ⟨goesOn.returns.later extended, fun comes => ?_⟩
        obtain ⟨comesHere, sameTy⟩ := onFirst comes
        rw [← sameTy]
        exact ((goesOn.value comesHere).later extended).loosen (meeting.first comes)
      · rintro _ ⟨⟩
        refine other elseBlock rfl passesOther (tracked.loosen meeting.skipped)
          ⟨goesOn.returns.later extended, fun comes => ?_⟩
        obtain ⟨comesHere, coerces⟩ := onOther comes
        exact (((goesOn.value comesHere).later extended).loosen (meeting.other comes)).coerce coerces

end Evaluator

end BorrowLang
