import BorrowLang.Proofs.Syntax.Spelled

/-!
# Literals within 32 bits

A program that was read from a text has no integer literal beyond 32 bits: a literal that does not
fit is refused, and one after `-` is looked at together with its sign.
-/

set_option autoImplicit false

namespace BorrowLang

/-- A number fits into 32 bits. -/
def IsInt32 (n : Int) : Prop := minInt ≤ n ∧ n ≤ maxInt

instance (n : Int) : Decidable (IsInt32 n) := inferInstanceAs (Decidable (_ ∧ _))

/-- A literal is no integer beyond 32 bits. -/
def Literal.Bounded : Literal → Prop
  | .int n => IsInt32 n
  | .bool _ | .unit => True

mutual

/-- The literals of an expression fit into 32 bits. -/
def Expr.Bounded : Expr → Prop
  | .literal _ value => value.Bounded
  | .name _ _ | .ofStmt _ | .ofBlock _ => True
  | .unary _ _ operand | .deref _ operand | .borrow _ operand _ | .boxNew _ operand =>
      operand.Bounded
  | .binary _ _ left right => left.Bounded ∧ right.Bounded
  | .call _ _ args | .macroCall _ _ _ args => Expr.AllBounded args
  | .ifElse _ condition thenBlock none => condition.Bounded ∧ thenBlock.Bounded
  | .ifElse _ condition thenBlock (some elseBlock) =>
      condition.Bounded ∧ thenBlock.Bounded ∧ elseBlock.Bounded
  | .block _ body => body.Bounded

/-- The literals of some expressions fit into 32 bits. -/
def Expr.AllBounded : List Expr → Prop
  | [] => True
  | expr :: rest => expr.Bounded ∧ Expr.AllBounded rest

/-- The literals of a statement fit into 32 bits. -/
def Stmt.Bounded : Stmt → Prop
  | .letVar _ _ _ none _ | .ret _ none | .ofExpr _ | .ofBlock _ => True
  | .letVar _ _ _ (some value) _ | .ret _ (some value) | .expr _ value => value.Bounded
  | .assign _ target value _ => target.Bounded ∧ value.Bounded
  | .whileLoop _ condition body => condition.Bounded ∧ body.Bounded

/-- The literals of some statements fit into 32 bits. -/
def Stmt.AllBounded : List Stmt → Prop
  | [] => True
  | stmt :: rest => stmt.Bounded ∧ Stmt.AllBounded rest

/-- The literals of a block fit into 32 bits. -/
def Block.Bounded : Block → Prop
  | .mk statements none _ => Stmt.AllBounded statements
  | .mk statements (some tail) _ => Stmt.AllBounded statements ∧ tail.Bounded

end

theorem Expr.allBounded_iff {exprs : List Expr} :
    Expr.AllBounded exprs ↔ ∀ expr ∈ exprs, expr.Bounded := by
  induction exprs with
  | nil => simp [AllBounded]
  | cons expr rest ih => simp [AllBounded, ih]

theorem Stmt.allBounded_iff {stmts : List Stmt} :
    Stmt.AllBounded stmts ↔ ∀ stmt ∈ stmts, stmt.Bounded := by
  induction stmts with
  | nil => simp [AllBounded]
  | cons stmt rest ih => simp [AllBounded, ih]

theorem Block.bounded_iff {body : Block} :
    body.Bounded ↔
      (∀ stmt ∈ body.statements, stmt.Bounded) ∧ ∀ tail ∈ body.tail, tail.Bounded := by
  obtain ⟨statements, _ | tail, loc⟩ := body <;>
    simp [Bounded, Block.statements, Block.tail, Stmt.allBounded_iff]

/-- The rule of trees without literals beyond 32 bits. -/
def TreeRule.bounded : TreeRule where
  expr := Expr.Bounded
  stmt := Stmt.Bounded
  block := Block.Bounded
  integer low high := ⟨low, high⟩
  flag := trivial
  unit := trivial
  name := trivial
  neg operand := operand
  not operand := operand
  deref operand := operand
  borrow operand := operand
  binary left right := ⟨left, right⟩
  call args := Expr.allBounded_iff.mpr args
  boxNew value := value
  macroCall args := Expr.allBounded_iff.mpr args
  ifElse {_ _ _ elseBlock} condition thenBlock arms := by
    cases elseBlock with
    | none => exact ⟨condition, thenBlock⟩
    | some arm => exact ⟨condition, thenBlock, arms arm rfl⟩
  blockExpr body := body
  letVar {_ _ _ value _} known := by
    cases value with
    | none => trivial
    | some value => exact known value rfl
  assign target value _ := ⟨target, value⟩
  ret {_ value} known := by
    cases value with
    | none => trivial
    | some value => exact known value rfl
  whileLoop condition body := ⟨condition, body⟩
  exprStmt value := value
  body statements last := Block.bounded_iff.mpr ⟨statements, last⟩

/-- The literals of a program fit into 32 bits. -/
def Program.Bounded (program : Program) : Prop := ∀ f ∈ program.functions, f.body.Bounded

theorem ofText_bounded {file : Option String} {text : String} {program : Program}
    (read : Program.ofText file text = .ok program) : program.Bounded :=
  TreeRule.bounded.ofText_follows read

end BorrowLang
