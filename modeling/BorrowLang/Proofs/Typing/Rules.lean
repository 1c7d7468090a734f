import BorrowLang.Builtin
import BorrowLang.Syntax.Tree
import BorrowLang.Template
import BorrowLang.Ty

/-!
# Typing rules

What it means for a part of a body to be of a type, without places and borrows.  The outcome of a
part is the type of its value, or none when it never comes to one, because it always leaves the
function; such a part may stand wherever a value is expected.
-/

set_option autoImplicit false

namespace BorrowLang

namespace Ty

theorem coercesTo_iff {actual expected : Ty} :
    actual.coercesTo expected = true ↔
      actual = expected ∨ ∃ target, actual = .ref true target ∧ expected = .ref false target := by
  unfold coercesTo
  rw [Bool.or_eq_true, decide_eq_true_iff]
  refine or_congr_right ⟨?_, ?_⟩
  · intro weaker
    split at weaker
    · exact ⟨_, rfl, of_decide_eq_true weaker ▸ rfl⟩
    · simp at weaker
  · intro met
    obtain ⟨target, rfl, rfl⟩ := met
    exact decide_eq_true rfl

theorem coercesTo_refl (ty : Ty) : ty.coercesTo ty = true := coercesTo_iff.mpr (Or.inl rfl)

theorem coercesTo_trans {first second third : Ty} (coerces : first.coercesTo second = true)
    (next : second.coercesTo third = true) : first.coercesTo third = true := by
  rcases coercesTo_iff.mp coerces with rfl | ⟨target, rfl, rfl⟩
  · exact next
  · rcases coercesTo_iff.mp next with rfl | ⟨_, impossible, -⟩
    · exact coerces
    · simp at impossible

end Ty

namespace Typing

/-- The bindings of the open scopes with their types, the innermost scope first, and in a scope the
latest binding. -/
abbrev Env := List (List (String × Ty))

namespace Env

/-- The type of the binding that a name denotes. -/
def type? (env : Env) (name : String) : Option Ty :=
  env.findSome? fun scope => (scope.find? (·.1 = name)).map (·.2)

/-- One more binding in the innermost scope. -/
def bind (env : Env) (name : String) (ty : Ty) : Env :=
  match env with
  | [] => [[(name, ty)]]
  | scope :: rest => ((name, ty) :: scope) :: rest

/-- Parameters become bindings, in their order. -/
def bindParams (env : Env) : List (Param × Ty) → Env
  | [] => env
  | (param, ty) :: rest => (env.bind param.name ty).bindParams rest

end Env

/-- The type of the value that a part of a body comes to; none when it always leaves the function. -/
abbrev Outcome := Option Ty

/-- A value may stand where another is expected; no value may stand anywhere. -/
def Outcome.Suits (out wanted : Outcome) : Prop :=
  ∀ ty, out = some ty → ∃ expected, wanted = some expected ∧ ty.coercesTo expected = true

namespace Outcome

theorem suits_none (wanted : Outcome) : Suits none wanted := nofun

theorem suits_of_coercesTo {ty expected : Ty} (coerces : ty.coercesTo expected = true) :
    Suits (some ty) (some expected) :=
  fun _ same => ⟨expected, rfl, Option.some.inj same ▸ coerces⟩

theorem Suits.refl (out : Outcome) : out.Suits out :=
  fun ty same => ⟨ty, same, Ty.coercesTo_refl ty⟩

theorem Suits.trans {first second third : Outcome} (suits : first.Suits second)
    (next : second.Suits third) : first.Suits third := by
  intro ty same
  obtain ⟨mid, isMid, coerces⟩ := suits ty same
  obtain ⟨last, isLast, coercesNext⟩ := next mid isMid
  exact ⟨last, isLast, Ty.coercesTo_trans coerces coercesNext⟩

end Outcome

/-- The outcome of one part after another. -/
def Outcome.followedBy (first second : Outcome) : Outcome := first.bind fun _ => second

def literalType : Literal → Ty
  | .int _ => .i32
  | .bool _ => .bool
  | .unit => .unit

/-- The type of the operand and value of a unary operator. -/
def unaryType? : UnaryOp → Option Ty
  | .neg => some .i32
  | .not => some .bool
  | .unknown _ => none

/-- A place expression, with the type of what the place holds. -/
inductive PlaceTyped (env : Env) : Expr → Ty → Prop
  | name {loc : Option Position} {ident : String} {ty : Ty} (bound : env.type? ident = some ty) :
      PlaceTyped env (.name loc ident) ty
  | ofBorrow {loc inner : Option Position} {operand : Expr} {isMut : Bool} {ty : Ty}
      (place : PlaceTyped env operand ty) :
      PlaceTyped env (.deref loc (.borrow inner operand isMut)) ty
  | deref {loc : Option Position} {operand : Expr} {pointer ty : Ty}
      (place : PlaceTyped env operand pointer) (points : pointer.pointee? = some ty) :
      PlaceTyped env (.deref loc operand) ty

section Judgments

/-! Names of functions have signatures, and the function around a body has a result. -/
variable (signature? : String → Option Signature) (result : Ty)

mutual

/-- An expression, with its outcome. -/
inductive Typed : Env → Expr → Outcome → Prop
  | literal {env : Env} {loc : Option Position} {value : Literal} :
      Typed env (.literal loc value) (some (literalType value))
  | place {env : Env} {expr : Expr} {ty : Ty} (place : PlaceTyped env expr ty) :
      Typed env expr (some ty)
  | derefValue {env : Env} {loc : Option Position} {operand : Expr} {out : Outcome}
      {pointer ty : Ty} (isValue : (Expr.deref loc operand).isPlace = false)
      (typed : Typed env operand out) (suits : out.Suits (some pointer))
      (points : pointer.pointee? = some ty) : Typed env (.deref loc operand) (some ty)
  | unary {env : Env} {loc : Option Position} {op : UnaryOp} {operand : Expr} {out : Outcome}
      {ty : Ty} (known : unaryType? op = some ty) (typed : Typed env operand out)
      (suits : out.Suits (some ty)) : Typed env (.unary loc op operand) (some ty)
  | arith {env : Env} {loc : Option Position} {op : ArithOp} {left right : Expr}
      {first second : Outcome} (leftTyped : Typed env left first)
      (leftSuits : first.Suits (some .i32)) (rightTyped : Typed env right second)
      (rightSuits : second.Suits (some .i32)) :
      Typed env (.binary loc (.arith op) left right) (some .i32)
  | order {env : Env} {loc : Option Position} {op : OrderOp} {left right : Expr}
      {first second : Outcome} (leftTyped : Typed env left first)
      (leftSuits : first.Suits (some .i32)) (rightTyped : Typed env right second)
      (rightSuits : second.Suits (some .i32)) :
      Typed env (.binary loc (.order op) left right) (some .bool)
  | equality {env : Env} {loc : Option Position} {op : BinaryOp} {left right : Expr} {ty : Ty}
      {first second : Outcome} (isEquality : op = .eq ∨ op = .ne) (plain : ty = .i32 ∨ ty = .bool)
      (leftTyped : Typed env left first) (leftSuits : first.Suits (some ty))
      (rightTyped : Typed env right second)
      (rightSuits : second.Suits (some ty)) :
      Typed env (.binary loc op left right) (some .bool)
  | logic {env : Env} {loc : Option Position} {op : BinaryOp} {left right : Expr}
      {first second : Outcome} (isLogic : op = .and ∨ op = .or) (leftTyped : Typed env left first)
      (leftSuits : first.Suits (some .bool)) (rightTyped : Typed env right second)
      (rightSuits : second.Suits (some .bool)) :
      Typed env (.binary loc op left right) (some .bool)
  | borrowPlace {env : Env} {loc : Option Position} {operand : Expr} {isMut : Bool} {ty : Ty}
      (place : PlaceTyped env operand ty) :
      Typed env (.borrow loc operand isMut) (some (.ref isMut ty))
  | borrowValue {env : Env} {loc : Option Position} {operand : Expr} {isMut : Bool} {out : Outcome}
      {ty : Ty} (isValue : operand.isPlace = false) (typed : Typed env operand out)
      (suits : out.Suits (some ty)) : Typed env (.borrow loc operand isMut) (some (.ref isMut ty))
  | boxNew {env : Env} {loc : Option Position} {value : Expr} {out : Outcome} {ty : Ty}
      (typed : Typed env value out) (suits : out.Suits (some ty)) :
      Typed env (.boxNew loc value) (some (.box ty))
  | call {env : Env} {loc : Option Position} {func : String} {args : List Expr}
      {signature : Signature} (found : signature? func = some signature)
      (typed : ArgsTyped env args signature.params) :
      Typed env (.call loc func args) (some signature.result)
  | macroCall {env : Env} {loc : Option Position} {callee template : String} {args : List Expr}
      {pieces : List String} (split : Template.split template = .ok pieces)
      (typed : ShownTyped env args) : Typed env (.macroCall loc callee template args) (some .unit)
  | ifElse {env : Env} {loc : Option Position} {condition : Expr} {thenBlock elseBlock : Block}
      {test first second wanted : Outcome} (testTyped : Typed env condition test)
      (testSuits : test.Suits (some .bool))
      (thenTyped : RestTyped ([] :: env) thenBlock.statements thenBlock.tail first)
      (thenSuits : first.Suits wanted)
      (elseTyped : RestTyped ([] :: env) elseBlock.statements elseBlock.tail second)
      (elseSuits : second.Suits wanted) :
      Typed env (.ifElse loc condition thenBlock (some elseBlock)) wanted
  | ifOnly {env : Env} {loc : Option Position} {condition : Expr} {thenBlock : Block}
      {test first : Outcome} (testTyped : Typed env condition test)
      (testSuits : test.Suits (some .bool))
      (thenTyped : RestTyped ([] :: env) thenBlock.statements thenBlock.tail first)
      (thenSuits : first.Suits (some .unit)) :
      Typed env (.ifElse loc condition thenBlock none) (some .unit)
  | block {env : Env} {loc : Option Position} {body : Block} {out : Outcome}
      (typed : RestTyped ([] :: env) body.statements body.tail out) :
      Typed env (.block loc body) out

/-- The arguments of a call, with the types of the parameters. -/
inductive ArgsTyped : Env → List Expr → List Ty → Prop
  | nil {env : Env} : ArgsTyped env [] []
  | cons {env : Env} {arg : Expr} {args : List Expr} {out : Outcome} {param : Ty}
      {params : List Ty} (typed : Typed env arg out) (suits : out.Suits (some param))
      (rest : ArgsTyped env args params) : ArgsTyped env (arg :: args) (param :: params)

/-- The arguments of a macro. -/
inductive ShownTyped : Env → List Expr → Prop
  | nil {env : Env} : ShownTyped env []
  | cons {env : Env} {arg : Expr} {args : List Expr} {out : Outcome} (typed : Typed env arg out)
      (rest : ShownTyped env args) : ShownTyped env (arg :: args)

/-- A statement, with the bindings after it, and the unit type as its outcome when what follows it
is reached. -/
inductive StmtTyped : Env → Stmt → Env → Outcome → Prop
  | letUnset {env : Env} {loc : Option Position} {ident : String} {written : Option TypeExpr}
      {isMut : Bool} {ty : Ty} :
      StmtTyped env (.letVar loc ident written none isMut) (env.bind ident ty) (some .unit)
  | letVar {env : Env} {loc : Option Position} {ident : String} {written : Option TypeExpr}
      {value : Expr} {isMut : Bool} {out : Outcome} {ty : Ty} (typed : Typed env value out)
      (suits : out.Suits (some ty)) :
      StmtTyped env (.letVar loc ident written (some value) isMut) (env.bind ident ty) (some .unit)
  | assign {env : Env} {loc : Option Position} {target value : Expr} {out : Outcome} {ty : Ty}
      (place : PlaceTyped env target ty) (typed : Typed env value out)
      (suits : out.Suits (some ty)) : StmtTyped env (.assign loc target value none) env (some .unit)
  | combine {env : Env} {loc : Option Position} {target value : Expr} {op : ArithOp} {out : Outcome}
      (place : PlaceTyped env target .i32) (typed : Typed env value out)
      (suits : out.Suits (some .i32)) :
      StmtTyped env (.assign loc target value (some (.arith op))) env (some .unit)
  | retUnit {env : Env} {loc : Option Position} (suits : Outcome.Suits (some .unit) (some result)) :
      StmtTyped env (.ret loc none) env none
  | ret {env : Env} {loc : Option Position} {value : Expr} {out : Outcome}
      (typed : Typed env value out) (suits : out.Suits (some result)) :
      StmtTyped env (.ret loc (some value)) env none
  | whileLoop {env : Env} {loc : Option Position} {condition : Expr} {body : Block}
      {test out : Outcome} (testTyped : Typed env condition test)
      (testSuits : test.Suits (some .bool))
      (bodyTyped : RestTyped ([] :: env) body.statements body.tail out)
      (bodySuits : out.Suits (some .unit)) :
      StmtTyped env (.whileLoop loc condition body) env (some .unit)
  | expr {env : Env} {loc : Option Position} {value : Expr} {out : Outcome}
      (typed : Typed env value out) :
      StmtTyped env (.expr loc value) env (out.followedBy (some .unit))

/-- What is left of a block. -/
inductive RestTyped : Env → List Stmt → Option Expr → Outcome → Prop
  | unit {env : Env} : RestTyped env [] none (some .unit)
  | tail {env : Env} {tail : Expr} {out : Outcome} (typed : Typed env tail out) :
      RestTyped env [] (some tail) out
  | cons {env next : Env} {stmt : Stmt} {rest : List Stmt} {tail : Option Expr}
      {first second : Outcome} (typed : StmtTyped env stmt next first)
      (restTyped : RestTyped next rest tail second) :
      RestTyped env (stmt :: rest) tail (first.followedBy second)

end

def BlockTyped (env : Env) (body : Block) (out : Outcome) : Prop :=
  RestTyped signature? result ([] :: env) body.statements body.tail out

end Judgments

end Typing

end BorrowLang
