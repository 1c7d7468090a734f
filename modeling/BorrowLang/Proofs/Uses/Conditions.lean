import BorrowLang.Proofs.Uses.Functions

/-!
# Conditions that move nothing

The conditions of loops are listed, and one that only computes with names and literals conserves what
is there: such an expression reads a name of a pointer only where the check refuses it.
-/

set_option autoImplicit false

namespace BorrowLang

open Moves

/-! ### Conditions of loops -/

mutual

/-- The conditions of the loops in an expression. -/
def Expr.conditions : Expr → List Expr
  | .literal _ _ | .name _ _ => []
  | .unary _ _ operand | .deref _ operand | .borrow _ operand _ | .boxNew _ operand =>
      operand.conditions
  | .binary _ _ left right => left.conditions ++ right.conditions
  | .call _ _ args | .macroCall _ _ _ args => conditionsOfArgs args
  | .ifElse _ condition thenBlock none => condition.conditions ++ thenBlock.conditions
  | .ifElse _ condition thenBlock (some elseBlock) =>
      condition.conditions ++ thenBlock.conditions ++ elseBlock.conditions
  | .block _ body | .ofBlock body => body.conditions
  | .ofStmt stmt => stmt.conditions

def conditionsOfArgs : List Expr → List Expr
  | [] => []
  | arg :: rest => arg.conditions ++ conditionsOfArgs rest

/-- The conditions of the loops in a statement. -/
def Stmt.conditions : Stmt → List Expr
  | .letVar _ _ _ (some value) _ => value.conditions
  | .letVar _ _ _ none _ => []
  | .assign _ target value _ => target.conditions ++ value.conditions
  | .ret _ (some value) => value.conditions
  | .ret _ none => []
  | .whileLoop _ condition body => condition :: (condition.conditions ++ body.conditions)
  | .expr _ value | .ofExpr value => value.conditions
  | .ofBlock body => body.conditions

def conditionsOfStmts : List Stmt → List Expr
  | [] => []
  | stmt :: rest => stmt.conditions ++ conditionsOfStmts rest

/-- The conditions of the loops in a block. -/
def Block.conditions : Block → List Expr
  | .mk statements none _ => conditionsOfStmts statements
  | .mk statements (some tail) _ => conditionsOfStmts statements ++ tail.conditions

end

theorem mem_conditionsOfArgs {condition : Expr} {args : List Expr} :
    condition ∈ conditionsOfArgs args ↔ ∃ arg ∈ args, condition ∈ arg.conditions := by
  induction args with
  | nil => simp [conditionsOfArgs]
  | cons arg rest ih => simp [conditionsOfArgs, ih]

theorem mem_conditionsOfStmts {condition : Expr} {stmts : List Stmt} :
    condition ∈ conditionsOfStmts stmts ↔ ∃ stmt ∈ stmts, condition ∈ stmt.conditions := by
  induction stmts with
  | nil => simp [conditionsOfStmts]
  | cons stmt rest ih => simp [conditionsOfStmts, ih]

namespace Node

variable {node child : Node} {condition : Expr}

/-- The conditions of the loops in a node. -/
def conditions : Node → List Expr
  | function f => f.body.conditions
  | param _ => []
  | block b => b.conditions
  | stmt s => s.conditions
  | expr e => e.conditions

theorem mem_conditions_of_child (member : child ∈ node.children)
    (isCondition : condition ∈ child.conditions) : condition ∈ node.conditions := by
  cases node with
  | function f =>
      rcases List.mem_append.mp member with isParam | isBody
      · obtain ⟨p, -, rfl⟩ := List.mem_map.mp isParam
        cases isCondition
      · obtain rfl := List.mem_singleton.mp isBody
        exact isCondition
  | param => cases member
  | block b =>
      obtain ⟨statements, tail, loc⟩ := b
      cases tail <;> simp [children, conditions, Block.conditions, Block.statements, Block.tail,
        mem_conditionsOfStmts] at member ⊢ <;> grind [conditions]
  | stmt s =>
      cases s with
      | letVar _ _ _ value | ret _ value =>
          cases value with
          | none => cases member
          | some init =>
              obtain rfl := List.mem_singleton.mp member
              exact isCondition
      | _ =>
          simp only [children, conditions, Stmt.conditions] at member ⊢
          grind [conditions]
  | expr e =>
      cases e with
      | ifElse _ _ _ elseBlock =>
          cases elseBlock <;> simp [children, conditions, Expr.conditions] at member ⊢ <;>
            grind [conditions]
      | _ =>
          simp only [children, conditions, Expr.conditions, mem_conditionsOfArgs] at member ⊢
          grind [conditions]

/-- The condition of a loop anywhere within a node is listed. -/
theorem mem_conditions {loc : Option Position} {body : Block}
    (within : (stmt (.whileLoop loc condition body)).Within node) : condition ∈ node.conditions := by
  induction within using Relation.ReflTransGen.head_induction_on with
  | refl => exact List.mem_cons_self
  | head member _ ih => exact mem_conditions_of_child member ih

end Node

/-! ### Expressions that only compute -/

/-- An expression computes with names and literals only. -/
def Expr.computes : Expr → Bool
  | .literal _ _ | .name _ _ => true
  | .unary _ _ operand => operand.computes
  | .binary _ _ left right => left.computes && right.computes
  | .borrow _ _ _ | .deref _ _ | .boxNew _ _ | .call _ _ _ | .macroCall _ _ _ _ | .ifElse _ _ _ _
  | .block _ _ | .ofStmt _ | .ofBlock _ => false

namespace Moves

open Checker (Operand)

variable {rules : Checker.Context} {o after : Outline} {value : Operand}

theorem plain_of_coerces {ty expected : Ty} (coerces : ty.coercesTo expected = true)
    (plain : expected.pointee? = none) : ty.pointee? = none := by
  obtain rfl | ⟨target, rfl, rfl⟩ := Ty.coercesTo_iff.mp coerces
  · exact plain
  · cases plain

theorem plain_of_expected {expected : Ty} {loc : Option Position} {u : Unit}
    (passed : (Checker.expect rules expected value loc default).1 = .ok u)
    (comes : value.diverges = false) (plain : expected.pointee? = none) :
    value.ty.pointee? = none :=
  plain_of_coerces ((expect_eq_ok passed).resolve_left (by simp [comes])) plain

/-- The operand of a unary operator is no pointer. -/
theorem plain_of_unary {loc : Option Position} {op : UnaryOp} {result : Operand}
    (passed : (Checker.unaryOperand rules loc op value default).1 = .ok result) :
    value.ty.pointee? = none := by
  unfold Checker.unaryOperand at passed
  generalize isExpected : (if op = .neg then Ty.i32 else .bool) = expected at passed
  split at passed
  · rename_i isTy
    subst isExpected
    rw [isTy]
    split <;> rfl
  · cases passed

theorem plain_of_int {op : BinaryOp} {loc : Option Position} {s : Checker.State} {u : Unit}
    (passed : (Checker.expectInt rules op value loc s).1 = .ok u) : value.ty.pointee? = none := by
  unfold Checker.expectInt at passed
  split at passed
  · rename_i isInt
    rw [isInt]
    rfl
  · cases passed

/-- The operands of a binary operator are no pointers. -/
theorem plain_of_binary {op : BinaryOp} {other result : Operand} {loc rightLoc : Option Position}
    (passed : (Checker.binaryOperand rules op value other loc rightLoc default).1 = .ok result)
    (comes : other.diverges = false) : value.ty.pointee? = none ∧ other.ty.pointee? = none := by
  unfold Checker.binaryOperand at passed
  cases op with
  | arith op | order op =>
      obtain ⟨_, mid, first, passed⟩ := bind_eq_ok_of_default passed
      refine ⟨plain_of_int (congrArg Prod.fst first), ?_⟩
      rw [run_bind] at passed
      split at passed
      · rename_i second
        exact plain_of_int (congrArg Prod.fst second)
      · cases passed
  | eq | ne =>
      simp only at passed
      split at passed
      · rename_i isPlain
        have plain : value.ty.pointee? = none := by
          rcases isPlain with isTy | isTy <;> rw [isTy] <;> rfl
        obtain ⟨_, _, expects, -⟩ := bind_eq_ok_of_default passed
        exact ⟨plain, plain_of_expected (congrArg Prod.fst expects) comes plain⟩
      · cases passed
  | and | or | unknown => cases passed

theorem join_self (marks : Marks) : marks.join marks = marks := by
  funext level depth
  cases known : marks level depth with
  | none => simp [Marks.join, known, MoveState.merge]
  | some state => cases state <;> simp [Marks.join, known, MoveState.merge]

/-- A place that is used where it is no pointer is left as it was. -/
theorem usePlace_plain {spot : Spot} (passed : usePlace spot o = some (value, after))
    (plain : value.ty.pointee? = none) : after = o := by
  obtain ⟨ty, -, used⟩ := typeOf_bind passed
  split at used
  · have ends := (ensure_bind used).2
    exact (pure_eq_some.mp ends).2.symm
  · rename_i moved
    have marked := mark_bind (ensure_bind used).2
    obtain ⟨rfl, -⟩ := pure_eq_some.mp marked
    cases ty with
    | box | ref => cases plain
    | _ => exact absurd rfl moved

/-- An expression that only computes comes to a value, and changes nothing unless that is a
pointer. -/
theorem computes_passes {e : Expr} (computes : e.computes = true)
    (passed : expr rules e o = some (value, after)) :
    value.diverges = false ∧ (value.ty.pointee? = none → after = o) := by
  induction e using Expr.computes.induct generalizing o after value with
  | case1 loc literal =>
      rw [expr] at passed
      obtain ⟨rfl, rfl⟩ := pure_eq_some.mp passed
      exact ⟨by cases literal <;> rfl, fun _ => rfl⟩
  | case2 loc ident =>
      rw [expr] at passed
      obtain ⟨spot, -, used⟩ := placeOf_bind passed
      exact ⟨Evaluator.usePlace_comes used, usePlace_plain used⟩
  | case3 loc op operand ih =>
      rw [expr] at passed
      obtain ⟨first, mid, begins, ends⟩ := bind_eq_some.mp passed
      obtain ⟨answers, rfl⟩ := answer_eq_some ends
      have plain := plain_of_unary answers
      exact ⟨(unaryOperand_eq_ok answers).2, fun _ => (ih computes begins).2 plain⟩
  | case4 loc op left right ihLeft ihRight =>
      obtain ⟨first, second⟩ := (Bool.and_eq_true _ _).mp computes
      rw [expr] at passed
      obtain ⟨operand, mid, begins, rest⟩ := bind_eq_some.mp passed
      obtain ⟨comes, same⟩ := ihLeft first begins
      split at rest
      · obtain ⟨_, expects, rest⟩ := answer_bind rest
        obtain ⟨_, joined, skips, ends⟩ := bind_eq_some.mp rest
        obtain ⟨inside, passes, rfl⟩ := orSkip_eq_some skips
        obtain ⟨other, last, beginsRight, answers⟩ := bind_eq_some.mp passes
        obtain ⟨expectsRight, rfl⟩ := answer_eq_some answers
        obtain ⟨rfl, rfl⟩ := pure_eq_some.mp ends
        obtain ⟨comesRight, sameRight⟩ := ihRight second beginsRight
        obtain rfl := same (plain_of_expected expects comes rfl)
        obtain rfl := sameRight (plain_of_expected expectsRight comesRight rfl)
        exact ⟨rfl, fun _ => by rw [join_self]⟩
      · obtain ⟨other, last, beginsRight, ends⟩ := bind_eq_some.mp rest
        obtain ⟨answers, rfl⟩ := answer_eq_some ends
        obtain ⟨comesRight, sameRight⟩ := ihRight second beginsRight
        obtain ⟨plain, plainRight⟩ := plain_of_binary answers comesRight
        exact ⟨(binaryOperand_eq_ok answers).2, fun _ => (sameRight plainRight).trans (same plain)⟩
  | _ => cases computes

theorem conserves_of_computes {condition : Expr} (computes : condition.computes = true) :
    Conserves rules condition := by
  intro o after value passed isBool level depth isGone
  obtain rfl := (computes_passes computes passed).2 (by rw [isBool]; rfl)
  exact isGone

end Moves

theorem Node.calm_of_computes {rules : Checker.Context} {node : Node}
    (computes : node.conditions.all Expr.computes = true) : node.Calm rules :=
  fun _ _ _ within => conserves_of_computes (List.all_eq_true.mp computes _ (mem_conditions within))

end BorrowLang
