import BorrowLang.Evaluator.Machine
import BorrowLang.Proofs.Typing.Actions
import BorrowLang.Proofs.Typing.Program

/-!
# Types of frames

A frame takes an outcome of a type, and so leads to an outcome of another type.  Frames fit together
when each of them takes what the frame inside of it leads to.  A part of a body that always leaves
the function leads to no outcome; the frames up to the call are then passed over, whatever they are,
so that it may stand where a value of any type is expected.
-/

set_option autoImplicit false

namespace BorrowLang.Evaluator

open Typing

/-- A value of one type may stand for another; a place may not. -/
def Mode.Suits : Mode → Outcome → Outcome → Prop
  | .place, out, wanted => out = wanted
  | .value, out, wanted | .done, out, wanted => out.Suits wanted

section Judgments

variable (types : CellTypes) (signature? : String → Option Signature) (result : Ty)

/-- An expression that leads to a cell of a type: a place, or the target of a pointer that is a
value. -/
inductive Located (env : Env) : Expr → Ty → Prop
  | place {expr : Expr} {ty : Ty} (place : PlaceTyped env expr ty) : Located env expr ty
  | derefValue {loc : Option Position} {operand : Expr} {out : Outcome} {pointer ty : Ty}
      (isValue : (Expr.deref loc operand).isPlace = false)
      (typed : Typed signature? result env operand out) (suits : out.Suits (some pointer))
      (points : pointer.pointee? = some ty) : Located env (.deref loc operand) ty

/-- A loop, whose condition is a boolean. -/
structure LoopTyped (env : Env) (condition : Expr) (body : Block) : Prop where
  test : ∃ out, Typed signature? result env condition out ∧ out.Suits (some .bool)
  body : ∃ out, BlockTyped signature? result env body out ∧ out.Suits (some .unit)

/-- What a frame takes among some bindings, and the bindings and the outcome that it leads to. -/
inductive Takes (env : Env) : {first next : Mode} → Frame first next → Ty → Env → Outcome → Prop
  | unary {loc : Option Position} {op : UnaryOp} {ty : Ty} (known : unaryType? op = some ty) :
      Takes env (.unary loc op) ty env (some ty)
  | logic {isAnd : Bool} {right : Expr} {out : Outcome}
      (typed : Typed signature? result env right out) (suits : out.Suits (some .bool)) :
      Takes env (.logic isAnd right) .bool env (some .bool)
  | truth : Takes env .truth .bool env (some .bool)
  | left {loc : Option Position} {op : BinaryOp} {right : Expr} {out : Outcome} {operand ty : Ty}
      (known : BinaryTyped op operand ty) (typed : Typed signature? result env right out)
      (suits : out.Suits (some operand)) : Takes env (.left loc op right) operand env (some ty)
  | right {loc : Option Position} {op : BinaryOp} {first : Value} {operand ty : Ty}
      (known : BinaryTyped op operand ty) (ofType : first.HasType types operand) :
      Takes env (.right loc op first) operand env (some ty)
  | borrowTemporary {isMut : Bool} {ty : Ty} :
      Takes env (.borrowTemporary isMut) ty env (some (.ref isMut ty))
  | boxNew {ty : Ty} : Takes env .boxNew ty env (some (.box ty))
  | arg {loc : Option Position} {func : String} {values : List Value} {rest : List Expr}
      {done later : List Ty} {ty returned : Ty}
      (found : signature? func = some ⟨done ++ ty :: later, returned⟩)
      (ofTypes : List.Forall₂ (Value.HasType types) values done)
      (typed : ArgsTyped signature? result env rest later) :
      Takes env (.arg loc func values rest) ty env (some returned)
  | shownValue {template : String} {values : List Shown} {arg : Expr} {rest : List Expr}
      {pieces : List String} {ty : Ty} (split : Template.split template = .ok pieces)
      (typed : ShownTyped signature? result env rest) :
      Takes env (.shownValue template values arg rest) ty env (some .unit)
  | branch {thenBlock elseBlock : Block} {first second wanted : Outcome}
      (thenTyped : BlockTyped signature? result env thenBlock first)
      (thenSuits : first.Suits wanted)
      (elseTyped : BlockTyped signature? result env elseBlock second)
      (elseSuits : second.Suits wanted) :
      Takes env (.branch thenBlock (some elseBlock)) .bool env wanted
  | branchOnly {thenBlock : Block} {first : Outcome}
      (thenTyped : BlockTyped signature? result env thenBlock first)
      (thenSuits : first.Suits (some .unit)) :
      Takes env (.branch thenBlock none) .bool env (some .unit)
  | leaveScope {ty : Ty} : Takes env .leaveScope ty env.tail (some ty)
  | derefValue {operand : Expr} {pointer ty : Ty} (points : pointer.pointee? = some ty) :
      Takes env (.derefValue operand) pointer env (some ty)
  | letVar {ident : String} {ty : Ty} : Takes env (.letVar ident) ty (env.bind ident ty) (some .unit)
  | assignValue {loc : Option Position} {target : Expr} {ty : Ty}
      (place : PlaceTyped env target ty) :
      Takes env (.assignValue loc target none) ty env (some .unit)
  | combineValue {loc : Option Position} {target : Expr} {op : ArithOp}
      (place : PlaceTyped env target .i32) :
      Takes env (.assignValue loc target (some (.arith op))) .i32 env (some .unit)
  | ret : Takes env .ret result env none
  | exprStmt {ty : Ty} : Takes env .exprStmt ty env (some .unit)
  | loopCondition {condition : Expr} {body : Block}
      (loop : LoopTyped signature? result env condition body) :
      Takes env (.loopCondition condition body) .bool env (some .unit)
  | loopBody {condition : Expr} {body : Block}
      (loop : LoopTyped signature? result env condition body) :
      Takes env (.loopBody condition body) .unit env (some .unit)
  | readPlace {expr : Expr} {ty : Ty} : Takes env (.readPlace expr) ty env (some ty)
  | borrowPlace {operand : Expr} {isMut : Bool} {ty : Ty} :
      Takes env (.borrowPlace operand isMut) ty env (some (.ref isMut ty))
  | shownPlace {template : String} {values : List Shown} {arg : Expr} {rest : List Expr}
      {pieces : List String} {ty : Ty} (split : Template.split template = .ok pieces)
      (typed : ShownTyped signature? result env rest) :
      Takes env (.shownPlace template values arg rest) ty env (some .unit)
  | derefPlace {operand : Expr} {pointer ty : Ty} (points : pointer.pointee? = some ty) :
      Takes env (.derefPlace operand) pointer env (some ty)
  | assignPlace {loc : Option Position} {target : Expr} {value : Value} {ty : Ty}
      (ofType : value.HasType types ty) :
      Takes env (.assignPlace loc target none value) ty env (some .unit)
  | combinePlace {loc : Option Position} {target : Expr} {op : ArithOp} {value : Value}
      (ofType : value.HasType types .i32) :
      Takes env (.assignPlace loc target (some (.arith op)) value) .i32 env (some .unit)

end Judgments

def Frame.isCall {first next : Mode} : Frame first next → Bool
  | .leaveCall _ => true
  | _ => false

section Stacks

variable (types : CellTypes) (signature? : String → Option Signature)

/-- Frames among the bindings of the open activations, in a function with a result, that take what
is wanted of the part inside of them. -/
inductive Fit : List Env → Ty → Outcome → {mode : Mode} → Stack mode → Prop
  | nil {result : Ty} {wanted : Outcome} : Fit [] result wanted .nil
  | frame {env next : Env} {callers : List Env} {result ty : Ty} {out wanted : Outcome}
      {first mode : Mode} {frame : Frame first mode} {k : Stack mode}
      (takes : Takes types signature? result env frame ty next out) (suits : mode.Suits out wanted)
      (rest : Fit (next :: callers) result wanted k) :
      Fit (env :: callers) result (some ty) (.cons frame k)
  /-- What is left of a block.  Its bindings end with the scope of the block. -/
  | stmts {env : Env} {callers : List Env} {result : Ty} {stmts : List Stmt} {tail : Option Expr}
      {out wanted : Outcome} {k : Stack .value}
      (typed : RestTyped signature? result env stmts tail out) (suits : out.Suits wanted)
      (outer : Fit (env.tail :: callers) result wanted k) :
      Fit (env :: callers) result (some .unit) (.cons (.stmts stmts tail) (.cons .leaveScope k))
  /-- A frame that is passed over on the way out of the function. -/
  | passed {env next : Env} {callers : List Env} {result : Ty} {first mode : Mode}
      {frame : Frame first mode} {k : Stack mode} (inside : frame.isCall = false)
      (rest : Fit (next :: callers) result none k) :
      Fit (env :: callers) result none (.cons frame k)
  | leaveCall {env : Env} {callers : List Env} {result outer : Ty} {given wanted : Outcome}
      {f : FunctionDef} {k : Stack .value} (declared : f.result? = some result)
      (returns : given = none ∨ given = some result) (suits : Outcome.Suits (some result) wanted)
      (rest : Fit callers outer wanted k) :
      Fit (env :: callers) result given (.cons (.leaveCall f) k)

end Stacks

variable {types later : CellTypes} {signature? : String → Option Signature} {result : Ty}
variable {env next : Env} {callers envs : List Env} {out wanted : Outcome} {mode : Mode}
variable {k : Stack mode}

theorem Takes.isCall {first : Mode} {frame : Frame first mode} {ty : Ty}
    (takes : Takes types signature? result env frame ty next out) : frame.isCall = false := by
  cases takes <;> rfl

theorem Takes.mono {first : Mode} {frame : Frame first mode} {ty : Ty}
    (takes : Takes types signature? result env frame ty next out)
    (extended : types.Extends later) : Takes later signature? result env frame ty next out := by
  cases takes with
  | right known ofType => exact .right known (ofType.mono extended)
  | arg found ofTypes typed =>
      exact .arg found (ofTypes.imp fun _ _ ofType => ofType.mono extended) typed
  | assignPlace ofType => exact .assignPlace (ofType.mono extended)
  | combinePlace ofType => exact .combinePlace (ofType.mono extended)
  | _ => constructor <;> assumption

namespace Fit

theorem mono (fit : Fit types signature? envs result wanted k)
    (extended : types.Extends later) : Fit later signature? envs result wanted k := by
  induction fit with
  | nil => exact .nil
  | frame takes suits _ ih => exact .frame (takes.mono extended) suits ih
  | stmts typed suits _ ih => exact .stmts typed suits ih
  | passed inside _ ih => exact .passed inside ih
  | leaveCall declared returns suits _ ih => exact .leaveCall declared returns suits ih

theorem leaves (fit : Fit types signature? envs result wanted k) :
    Fit types signature? envs result none k := by
  induction fit with
  | nil => exact .nil
  | frame takes _ _ ih => exact .passed takes.isCall ih
  | @stmts env callers result stmts tail out wanted k _ _ _ ih =>
      have block : Fit types signature? (env :: callers) result none (.cons .leaveScope k) :=
        .passed rfl ih
      exact .passed rfl block
  | passed inside rest _ => exact .passed inside rest
  | leaveCall declared _ suits rest _ => exact .leaveCall declared (Or.inl rfl) suits rest

theorem anywhere (fit : Fit types signature? (env :: callers) result none k) (other : Env) :
    Fit types signature? (other :: callers) result none k := by
  cases fit with
  | passed inside rest => exact .passed inside rest
  | leaveCall declared returns suits rest => exact .leaveCall declared returns suits rest

/-- A frame that takes a value of any type also fits where there is none. -/
theorem ofAny {first : Mode} {frame : Frame first mode} {given : Outcome}
    (fit : Fit types signature? (next :: callers) result wanted k)
    (takes : ∀ ty, Takes types signature? result env frame ty next out)
    (suits : ∀ ty, given = some ty → mode.Suits out wanted) :
    Fit types signature? (env :: callers) result given (.cons frame k) := by
  cases given with
  | none => exact .passed (takes .unit).isCall fit.leaves
  | some ty => exact .frame (takes ty) (suits ty rfl) fit

theorem leaveScope {k : Stack .value}
    (fit : Fit types signature? (env.tail :: callers) result wanted k) (suits : out.Suits wanted) :
    Fit types signature? (env :: callers) result out (.cons .leaveScope k) := by
  cases out with
  | none => exact .passed rfl fit.leaves
  | some ty => exact .frame .leaveScope suits fit

end Fit

end BorrowLang.Evaluator
