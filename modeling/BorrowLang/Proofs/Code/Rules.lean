import BorrowLang.Syntax.Tree

/-!
# Rules for code

A rule says which constructs a piece of code may use, and which argument may come after others.  It
can be evaluated for every tree, and what a tree obeys its parts obey too.
-/

set_option autoImplicit false

namespace BorrowLang

/-- What code may do. -/
structure CodeRule where
  calls : Bool := true
  macros : Bool := true
  blocks : Bool := true
  returns : Bool := true
  /-- May an argument of a call come after others? -/
  callArg : (before : List Expr) → (arg : Expr) → Bool := fun _ _ => true
  /-- May an argument of a macro come after others? -/
  macroArg : (before : List Expr) → (arg : Expr) → Bool := fun _ _ => true

/-- Each of some arguments may come after those before it. -/
def argsAllowed (may : List Expr → Expr → Bool) (before : List Expr) : List Expr → Bool
  | [] => true
  | arg :: rest => may before arg && argsAllowed may (before ++ [arg]) rest

mutual

/-- An expression obeys a rule. -/
def Expr.obeys (rule : CodeRule) : Expr → Bool
  | .literal _ _ | .name _ _ | .ofStmt _ | .ofBlock _ => true
  | .unary _ _ operand | .deref _ operand | .borrow _ operand _ | .boxNew _ operand =>
      operand.obeys rule
  | .binary _ _ left right => left.obeys rule && right.obeys rule
  | .call _ _ args => rule.calls && argsAllowed rule.callArg [] args && Expr.allObey rule args
  | .macroCall _ _ _ args =>
      rule.macros && argsAllowed rule.macroArg [] args && Expr.allObey rule args
  | .ifElse _ condition thenBlock elseBlock =>
      condition.obeys rule && thenBlock.obeys rule && Block.ifAnyObeys rule elseBlock
  | .block _ body => body.obeys rule

def Expr.allObey (rule : CodeRule) : List Expr → Bool
  | [] => true
  | expr :: rest => expr.obeys rule && Expr.allObey rule rest

def Expr.ifAnyObeys (rule : CodeRule) : Option Expr → Bool
  | none => true
  | some expr => expr.obeys rule

/-- A statement obeys a rule. -/
def Stmt.obeys (rule : CodeRule) : Stmt → Bool
  | .letVar _ _ _ value _ => Expr.ifAnyObeys rule value
  | .assign _ target value _ => target.obeys rule && value.obeys rule
  | .ret _ value => rule.returns && Expr.ifAnyObeys rule value
  | .whileLoop _ condition body => condition.obeys rule && body.obeys rule
  | .expr _ value => value.obeys rule
  | .ofExpr _ | .ofBlock _ => true

def Stmt.allObey (rule : CodeRule) : List Stmt → Bool
  | [] => true
  | stmt :: rest => stmt.obeys rule && Stmt.allObey rule rest

/-- A block obeys a rule. -/
def Block.obeys (rule : CodeRule) : Block → Bool
  | .mk statements tail _ =>
      rule.blocks && Stmt.allObey rule statements && Expr.ifAnyObeys rule tail

def Block.ifAnyObeys (rule : CodeRule) : Option Block → Bool
  | none => true
  | some body => body.obeys rule

end

/-- A program obeys a rule when the body of each function does. -/
def Program.obeys (rule : CodeRule) (program : Program) : Bool :=
  program.functions.all fun f => f.body.obeys rule

section Parts

variable {rule : CodeRule}

@[simp] theorem Expr.allObey_iff (exprs : List Expr) :
    Expr.allObey rule exprs = true ↔ ∀ expr ∈ exprs, expr.obeys rule = true := by
  induction exprs with
  | nil => simp [allObey]
  | cons expr rest ih => simp [allObey, ih]

@[simp] theorem Stmt.allObey_iff (stmts : List Stmt) :
    Stmt.allObey rule stmts = true ↔ ∀ stmt ∈ stmts, stmt.obeys rule = true := by
  induction stmts with
  | nil => simp [allObey]
  | cons stmt rest ih => simp [allObey, ih]

@[simp] theorem Expr.ifAnyObeys_iff (expr : Option Expr) :
    Expr.ifAnyObeys rule expr = true ↔ ∀ known ∈ expr, known.obeys rule = true := by
  cases expr <;> simp [ifAnyObeys]

@[simp] theorem Block.ifAnyObeys_iff (body : Option Block) :
    Block.ifAnyObeys rule body = true ↔ ∀ known ∈ body, known.obeys rule = true := by
  cases body <;> simp [ifAnyObeys]

theorem Block.obeys_iff (body : Block) :
    body.obeys rule = true ↔ rule.blocks = true ∧
      (∀ stmt ∈ body.statements, stmt.obeys rule = true) ∧
      ∀ tail ∈ body.tail, tail.obeys rule = true := by
  cases body
  simp [obeys, statements, tail, and_assoc]

end Parts

namespace CodeRule

/-- No statement returns from the function. -/
def noReturn : CodeRule where
  returns := false

/-- Nothing is run but operators, borrows and moves: no statement, and no other function. -/
def calm : CodeRule where
  calls := false
  macros := false
  blocks := false

end CodeRule

end BorrowLang
