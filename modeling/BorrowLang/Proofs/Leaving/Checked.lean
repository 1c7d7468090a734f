import BorrowLang.Proofs.Parts
import BorrowLang.Proofs.Typing.Passes

/-!
# Code that always leaves its function

Which code always leaves the function that it stands in can be read off the code: a `return` does,
and so does a block with such a statement or value, and an `if` whose arms both do.  The checker
marks the values of just this code as never reached, in every state in which the code passes.
-/

set_option autoImplicit false

namespace BorrowLang

mutual

/-- Does the evaluation of an expression always leave the function? -/
def Expr.leaves : Expr → Bool
  | .ifElse _ _ thenBlock (some elseBlock) => thenBlock.leaves && elseBlock.leaves
  | .block _ body => body.leaves
  | _ => false

/-- Does a statement always leave the function? -/
def Stmt.leaves : Stmt → Bool
  | .ret _ _ => true
  | .expr _ value => value.leaves
  | _ => false

def Stmt.anyLeaves : List Stmt → Bool
  | [] => false
  | stmt :: rest => stmt.leaves || Stmt.anyLeaves rest

/-- Does the evaluation of a block always leave the function? -/
def Block.leaves : Block → Bool
  | .mk stmts none _ => Stmt.anyLeaves stmts
  | .mk stmts (some tail) _ => Stmt.anyLeaves stmts || tail.leaves

end

namespace Checker

variable {α β : Type} {ctx : Context} {s : State}

/-- What always holds of the last part of a check holds of the check. -/
theorem Passes.last {x : Check β} {f : β → Check α} {ok : α → State → Prop}
    (last : ∀ b mid, Passes (f b) mid ok) : Passes (x >>= f) s ok := by
  rw [Passes, meets_bind, Meets]
  split
  · exact last _ _
  · trivial

/-- The value of the expression is marked as the code says. -/
def Marked (leaves : Bool) (x : Check Operand) : Prop :=
  ∀ s, Passes x s fun value _ => value.diverges = leaves

/-! ### Operators, places and calls -/

theorem usePlace_marked (loc : Option Position) (place : PlaceId) :
    Marked false (usePlace ctx loc place) := by
  intro s
  rw [usePlace]
  refine Passes.last fun ty mid => ?_
  split
  · refine Passes.last fun _ mid => ?_
    split
    · exact Passes.last fun _ _ => Passes.last fun _ _ => rfl
    · rfl
  · exact Passes.last fun _ _ => Passes.last fun _ _ => Passes.last fun _ _ => rfl

theorem derefValue_marked (loc : Option Position) (inner : Operand) :
    Marked false (derefValue ctx loc inner) := by
  intro s
  unfold derefValue
  split
  · trivial
  · split
    · trivial
    · rfl

theorem unaryOperand_marked (loc : Option Position) (op : UnaryOp) (operand : Operand) :
    Marked false (unaryOperand ctx loc op operand) := by
  intro s
  by_cases fits : operand.ty = if op = .neg then .i32 else .bool
  · rw [unaryOperand, if_pos fits]
    rfl
  · rw [unaryOperand, if_neg fits]
    trivial

theorem binaryOperand_marked (op : BinaryOp) (left right : Operand)
    (leftLoc rightLoc : Option Position) :
    Marked false (binaryOperand ctx op left right leftLoc rightLoc) := by
  intro s
  cases op with
  | arith | order => exact Passes.last fun _ _ => Passes.last fun _ _ => rfl
  | eq | ne =>
      simp only [binaryOperand]
      split
      · exact Passes.last fun _ _ => rfl
      · trivial
  | and | or | unknown => trivial

theorem borrowPlace_marked (loc : Option Position) (place : PlaceId) (isMut : Bool) :
    Marked false (borrowPlace ctx loc place isMut) := by
  intro s
  rw [borrowPlace_eq]
  have borrowed : ∀ known : State, Marked false (borrowChecked ctx known loc place isMut) := by
    intro known s
    refine Passes.last fun loan mid => ?_
    split
    · trivial
    · rfl
  refine Passes.last fun known mid => ?_
  split
  · exact Passes.last fun _ mid => borrowed known mid
  · exact borrowed known mid

/-- A binding with a value does not leave the function. -/
theorem letValue_passes (ident : String) (isMut : Bool) (declared : Option Ty) (operand : Operand)
    (loc : Option Position) (s : State) :
    Passes (do
      if let some ty := declared then expect ctx ty operand loc
      let place ← bind ident (declared <|> some operand.ty) isMut false true
      if !operand.loans.isEmpty then storeLoans ctx place operand.loans
      return false) s fun leaves _ => leaves = false := by
  have bound : ∀ mid, Passes (do
      let place ← bind ident (declared <|> some operand.ty) isMut false true
      if !operand.loans.isEmpty then storeLoans ctx place operand.loans
      return false) mid fun leaves _ => leaves = false := by
    intro mid
    refine Passes.last fun place mid => ?_
    split
    · exact Passes.last fun _ _ => rfl
    · rfl
  cases declared with
  | none => exact bound s
  | some ty => exact Passes.last fun _ mid => bound mid

/-! ### Branches and blocks -/

theorem ifOperand_marked (loc : Option Position) (first other : Operand) :
    Marked (first.diverges && other.diverges) (ifOperand ctx loc first other) := by
  intro s
  unfold ifOperand
  split
  · rename_i both
    exact both.symm
  · rename_i either
    have stays : (first.diverges && other.diverges) = false := Bool.eq_false_iff.mpr either
    rw [stays]
    split
    · rfl
    · split
      · rfl
      · split
        · rfl
        · trivial

theorem ifOnlyOperand_marked (loc : Option Position) (first : Operand) :
    Marked false (ifOnlyOperand ctx loc first) := by
  intro s
  unfold ifOnlyOperand
  split
  · rfl
  · trivial

/-- What is known of the value of a check is still known where the rest of the check uses it. -/
theorem Passes.using {x : Check β} {f : β → Check α} {known : β → Prop} {ok : α → State → Prop}
    (first : ∀ s, Passes x s fun b _ => known b) (last : ∀ b mid, known b → Passes (f b) mid ok) :
    Passes (x >>= f) s ok := by
  rw [Passes, meets_bind]
  exact (first s).mono fun b mid => last b mid

mutual

/-- The value of an expression is marked as never reached just when the expression always leaves the
function. -/
theorem checkExpr_marked : (e : Expr) → Marked e.leaves (checkExpr ctx e)
  | .literal _ value, s => by
      rw [checkExpr]
      cases value <;> rfl
  | .name loc ident, s => by
      rw [checkExpr]
      exact Passes.last fun place mid => usePlace_marked loc place mid
  | .deref loc operand, s => by
      rw [checkExpr]
      split
      · exact Passes.last fun place mid => usePlace_marked loc place mid
      · exact Passes.last fun inner mid => derefValue_marked loc inner mid
  | .unary loc op operand, s => by
      rw [checkExpr]
      exact Passes.last fun inner mid => unaryOperand_marked loc op inner mid
  | .binary loc op left right, s => by
      rw [checkExpr]
      refine Passes.last fun first mid => ?_
      split
      · exact Passes.last fun _ _ => Passes.last fun _ _ => Passes.last fun _ _ =>
          Passes.last fun _ _ => Passes.last fun _ _ => rfl
      · exact Passes.last fun second mid => binaryOperand_marked op first second _ _ mid
  | .borrow loc operand isMut, s => by
      rw [checkExpr]
      split
      · exact Passes.last fun place mid => borrowPlace_marked loc place isMut mid
      · exact Passes.last fun _ _ => rfl
  | .call loc func args, s => by
      rw [checkExpr]
      refine Passes.last fun signature mid => ?_
      split
      · exact Passes.last fun _ _ => Passes.last fun _ _ => Passes.last fun _ _ => rfl
      · exact Passes.last fun _ _ => Passes.last fun _ _ => rfl
  | .boxNew loc value, s => by
      rw [checkExpr]
      exact Passes.last fun _ _ => rfl
  | .macroCall loc callee template args, s => by
      rw [checkExpr]
      exact Passes.last fun _ _ => Passes.last fun _ _ => rfl
  | .ifElse loc condition thenBlock none, s => by
      rw [checkExpr]
      refine Passes.last fun cond _ => Passes.last fun _ _ => Passes.last fun before _ =>
        Passes.last fun first _ => Passes.last fun _ _ => Passes.last fun _ _ =>
          Passes.last fun _ mid => ?_
      exact ifOnlyOperand_marked _ first mid
  | .ifElse loc condition thenBlock (some elseBlock), s => by
      rw [checkExpr]
      refine Passes.last fun cond _ => Passes.last fun _ _ => Passes.last fun before _ =>
        Passes.using (checkBlock_marked thenBlock false) fun first _ isFirst =>
          Passes.last fun _ _ => Passes.last fun _ _ =>
            Passes.using (checkBlock_marked elseBlock false) fun other _ isOther =>
              Passes.last fun _ mid => ?_
      rw [Expr.leaves, ← isFirst, ← isOther]
      exact ifOperand_marked loc first other mid
  | .block loc body, s => by
      rw [checkExpr]
      exact checkBlock_marked body false s
  | .ofStmt _, s | .ofBlock _, s => by
      rw [checkExpr]
      trivial

theorem checkStmt_marked : (stmt : Stmt) → ∀ s : State,
    Passes (checkStmt ctx stmt) s fun leaves _ => leaves = stmt.leaves
  | .letVar loc ident written none isMut, s => by
      simp only [checkStmt]
      split
      · exact Passes.last fun _ _ => Passes.last fun _ _ => rfl
      · exact Passes.last fun _ _ => Passes.last fun _ _ => rfl
  | .letVar loc ident written (some value) isMut, s => by
      simp only [checkStmt]
      cases written with
      | none =>
          exact Passes.last fun declared _ => Passes.last fun operand mid =>
            letValue_passes ident isMut declared operand value.loc mid
      | some written =>
          exact Passes.last fun _ _ => Passes.last fun declared _ => Passes.last fun operand mid =>
            letValue_passes ident isMut declared operand value.loc mid
  | .assign loc target value op, s => by
      rw [checkStmt]
      split
      · exact Passes.last fun _ _ => Passes.last fun _ _ => Passes.last fun _ _ =>
          Passes.last fun _ _ => Passes.last fun _ _ => rfl
      · exact Passes.last fun _ _ => Passes.last fun _ _ => Passes.last fun _ _ =>
          Passes.last fun _ _ => rfl
  | .ret loc none, s => by
      rw [checkStmt]
      exact Passes.last fun _ _ => rfl
  | .ret loc (some value), s => by
      rw [checkStmt]
      exact Passes.last fun _ _ => Passes.last fun _ _ => rfl
  | .whileLoop loc condition body, s => by
      rw [checkStmt]
      exact Passes.last fun _ _ => Passes.last fun _ _ => Passes.last fun _ _ =>
        Passes.last fun _ _ => Passes.last fun _ _ => Passes.last fun _ _ => rfl
  | .expr loc value, s => by
      rw [checkStmt]
      exact Passes.using (checkExpr_marked value) fun _ _ isMarked => isMarked
  | .ofExpr _, s | .ofBlock _, s => by
      rw [checkStmt]
      trivial

theorem checkStmts_marked : (stmts : List Stmt) → ∀ (tailNames : List String) (s : State),
    Passes (checkStmts ctx tailNames stmts) s fun leaves _ => leaves = Stmt.anyLeaves stmts
  | [], _, s => by
      rw [checkStmts]
      rfl
  | stmt :: rest, tailNames, s => by
      rw [checkStmts]
      refine Passes.last fun _ _ => Passes.using (checkStmt_marked stmt) fun leaves _ isFirst =>
        Passes.last fun _ _ => Passes.last fun _ _ =>
          Passes.using (checkStmts_marked rest tailNames) fun later _ isLater => ?_
      rw [Stmt.anyLeaves, ← isFirst, ← isLater]
      rfl

theorem checkBlock_marked : (body : Block) → ∀ isBody : Bool,
    Marked body.leaves (checkBlock ctx isBody body)
  | .mk stmts none loc, isBody, s => by
      rw [checkBlock]
      refine Passes.last fun _ _ =>
        Passes.using (checkStmts_marked stmts []) fun leaves _ isFirst =>
          Passes.last fun _ _ => ?_
      rw [Block.leaves, ← isFirst]
      rfl
  | .mk stmts (some tail) loc, isBody, s => by
      rw [checkBlock]
      refine Passes.last fun _ _ => Passes.using (checkStmts_marked stmts tail.names)
        fun leaves _ isFirst => Passes.using (checkExpr_marked tail) fun value _ isLast => ?_
      rw [Block.leaves, ← isFirst, ← isLast]
      split
      · exact Passes.last fun _ _ => Passes.last fun _ _ => rfl
      · exact Passes.last fun _ _ => rfl

end

end Checker

end BorrowLang
