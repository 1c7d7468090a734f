import BorrowLang.Checker.Body
import Mathlib.Logic.Basic

/-!
# Types and move states alone

What the checker knows of the bindings in scope when borrows are left out: their types, and the move
states of the places that belong to them.  The bare check goes through a body as the checker does
and keeps the rules about types and move states only.
-/

set_option autoImplicit false

namespace BorrowLang.Moves

open Checker

/-! ### What is known of bindings -/

/-- A binding in scope; a binding that is declared without a value may have no type yet. -/
structure Decl where
  name : String
  isMut : Bool
  ty : Option Ty

/-- What a binding is declared as, but for its type. -/
def Decl.binder (decl : Decl) : String × Bool := (decl.name, decl.isMut)

/-- A place: the number of its binding, the oldest in scope first, and the number of boxes and
references before it. -/
structure Spot where
  level : Nat
  depth : Nat

/-- What a place points at. -/
def Spot.behind (spot : Spot) : Spot := { spot with depth := spot.depth + 1 }

/-- The move states of places, by their binding and the boxes and references before them. -/
abbrev Marks := Nat → Nat → Option MoveState

/-- The bindings in scope, the oldest first, and what is known of their places. -/
structure Outline where
  decls : List Decl
  marks : Marks

/-- The type of the place that many boxes and references behind a binding. -/
def Decl.tyAt (decl : Decl) : Nat → Option Ty
  | 0 => decl.ty
  | depth + 1 => (decl.tyAt depth).bind Ty.pointee?

/-- The boxes and references before a place of a binding. -/
def Decl.steps (decl : Decl) (depth : Nat) : List Via :=
  (List.range depth).filterMap fun above => (decl.tyAt above).map viaOf

/-- The number of the binding that a name stands for: the latest of that name. -/
def level? : List Decl → String → Option Nat
  | [], _ => none
  | decl :: later, name =>
      match level? later name with
      | some level => some (level + 1)
      | none => if decl.name = name then some 0 else none

namespace Marks

variable (marks : Marks)

def set (spot : Spot) (state : MoveState) : Marks := fun level depth =>
  if level = spot.level ∧ depth = spot.depth then some state else marks level depth

/-- A place has a new value; nothing is known any more of the places behind it. -/
def setLive (spot : Spot) : Marks := fun level depth =>
  if level = spot.level ∧ spot.depth ≤ depth then
    if depth = spot.depth then some .live else none
  else marks level depth

def join (others : Marks) : Marks := fun level depth =>
  MoveState.merge (marks level depth) (others level depth)

/-- Where two paths meet; one that always leaves the function does not get there, unless both do. -/
def meet (diverges otherDiverges : Bool) (others : Marks) : Marks :=
  if diverges && !otherDiverges then others
  else if otherDiverges && !diverges then marks
  else marks.join others

end Marks

namespace Outline

variable (o : Outline)

def ty? (spot : Spot) : Option Ty := o.decls[spot.level]?.bind (·.tyAt spot.depth)

def isMut (level : Nat) : Bool := (o.decls[level]?.map (·.isMut)).getD false

def steps (spot : Spot) : List Via := (o.decls[spot.level]?.map (·.steps spot.depth)).getD []

/-- The binding has been given a value, and no part of it has been moved out since. -/
structure Whole (level : Nat) : Prop where
  initialized : o.marks level 0 ≠ some .uninit
  unmoved : ∀ depth, o.marks level depth ≠ some .moved

/-- No reference is on the way to the place. -/
def Owned (spot : Spot) : Prop := (o.steps spot).reverse.find? Via.isRef = none

/-- The place may be changed as far as declarations go. -/
def Mutable (spot : Spot) : Prop :=
  (Tracker.mutabilityAlong (o.isMut spot.level) (o.steps spot)).1 = true

/-- The place may be assigned to: the places on the way to it hold values, and this is the first
value of its binding or the place may be changed. -/
structure Writable (spot : Spot) : Prop where
  owners : ∀ depth < spot.depth, o.marks spot.level depth ≠ some .uninit ∧
    o.marks spot.level depth ≠ some .moved
  declared : spot.depth = 0 ∧ o.marks spot.level 0 = some .uninit ∨ o.Mutable spot

def declare (decl : Decl) (initialized : Bool) : Outline where
  decls := o.decls ++ [decl]
  marks := o.marks.set ⟨o.decls.length, 0⟩ (if initialized then .live else .uninit)

/-- A binding without a type gets one. -/
def setTy (level : Nat) (ty : Ty) : Outline :=
  { o with decls := o.decls.modify level fun decl => { decl with ty := decl.ty <|> some ty } }

/-- Only the first bindings are still in scope. -/
def cut (count : Nat) : Outline where
  decls := o.decls.take count
  marks level depth := if level < count then o.marks level depth else none

end Outline

/-! ### The bare check -/

/-- A check of types and move states; it has no answer where a rule about these is broken. -/
abbrev Bare (α : Type) := StateT Outline Option α

namespace Bare

variable {α β : Type}

def refuse : Bare α := fun _ => none

open scoped Classical in
/-- A condition on what is known. -/
noncomputable def ensure (holds : Outline → Prop) : Bare Unit := fun o =>
  if holds o then some ((), o) else none

/-- The answer of a check that has nothing to do with what is known. -/
def answer (x : Check α) : Bare α := fun o =>
  match (x default).1 with
  | .ok a => some (a, o)
  | .error _ => none

def mark (change : Marks → Marks) : Bare Unit := fun o =>
  some ((), { o with marks := change o.marks })

/-- What is declared inside goes out of scope. -/
def inScope (x : Bare α) : Bare α := fun o => do
  let (a, after) ← x o
  return (a, after.cut o.decls.length)

/-- What may also be passed over. -/
def orSkip (x : Bare α) : Bare α := fun o => do
  let (a, after) ← x o
  return (a, { after with marks := after.marks.join o.marks })

/-- Two paths that meet again. -/
def fork (first other : Bare Operand) : Bare (Operand × Operand) := fun o => do
  let (a, mid) ← first o
  let (b, after) ← other { mid with marks := o.marks }
  return ((a, b), { after with marks := mid.marks.meet a.diverges b.diverges after.marks })

end Bare

open Bare

/-- The type of a place, if it has one. -/
def typeOf (spot : Spot) : Bare Ty := fun o => (o.ty? spot).map fun ty => (ty, o)

noncomputable def placeOf : Expr → Bare Spot
  | .name _ ident => fun o => (level? o.decls ident).map fun level => (⟨level, 0⟩, o)
  | .deref _ (.borrow _ operand isMut) => do
      let spot ← placeOf operand
      if isMut then ensure (·.Mutable spot)
      ensure (·.Whole spot.level)
      return spot
  | .deref _ operand => do
      let base ← placeOf operand
      match (← typeOf base).pointee? with
      | none => refuse
      | some _ => return base.behind
  | _ => refuse

noncomputable def usePlace (spot : Spot) : Bare Operand := do
  let ty ← typeOf spot
  if ty.isCopy then
    ensure (·.Whole spot.level)
    return { ty }
  else
    ensure fun o => o.Whole spot.level ∧ o.Owned spot
    mark (·.set spot .moved)
    return { ty }

noncomputable def borrowPlace (spot : Spot) (isMut : Bool) : Bare Operand := do
  if isMut then ensure (·.Mutable spot)
  ensure (·.Whole spot.level)
  return { ty := .ref isMut (← typeOf spot) }

noncomputable def showPlace (ctx : Context) (loc : Option Position) (spot : Spot) : Bare Unit := do
  ensure (·.Whole spot.level)
  answer (expectDisplayable ctx loc (some (← typeOf spot)))

/-- The value of an argument: a `&mut` binding passed to a `&mut` parameter is borrowed anew. -/
noncomputable def argument (arg : Expr) (param : Ty) (value : Bare Operand) : Bare Operand :=
  match param with
  | .ref true _ =>
      if arg.isPlace then do
        let spot ← placeOf arg
        match ← typeOf spot with
        | .ref true inner => do
            ensure (·.Whole spot.level)
            ensure (·.Whole spot.behind.level)
            return { ty := .ref true inner }
        | _ => value
      else value
  | _ => value

/-- The type of an assigned place after the assignment. -/
noncomputable def assignType (ctx : Context) (loc : Option Position) (spot : Spot) (value : Operand)
    (op : Option BinaryOp) : Bare Unit :=
  match op with
  | some _ => do
      ensure (·.Whole spot.level)
      ensure fun o => o.ty? spot = some .i32 ∧ value.ty = .i32
  | none => fun o =>
      match o.ty? spot with
      | none => some ((), o.setTy spot.level value.ty)
      | some ty => answer (expect ctx ty value loc) o

noncomputable def assignPlace (spot : Spot) : Bare Unit := do
  ensure (·.Writable spot)
  mark (·.setLive spot)

def declare (ident : String) (ty : Option Ty) (isMut initialized : Bool) : Bare Unit := fun o =>
  some ((), o.declare ⟨ident, isMut, ty⟩ initialized)

/-- The written type of a binding. -/
def declaredType (ctx : Context) (loc : Option Position) :
    Option TypeExpr → Check (Option Ty)
  | none => pure none
  | some written => do return some (← (ctx.resolve written loc : Except Checker.Fault Ty))

/-- One pass over a loop: its condition is a boolean, and its body has no value. -/
noncomputable def turn (ctx : Context) (conditionLoc : Option Position)
    (condition body : Bare Operand) : Bare Unit := do
  let cond ← condition
  answer (expect ctx .bool cond conditionLoc)
  let value ← body
  ensure fun _ => value.diverges = true ∨ value.ty = .unit

mutual

noncomputable def expr (ctx : Context) : Expr → Bare Operand
  | .literal _ value => pure (literalOperand value)
  | .name loc ident => do usePlace (← placeOf (.name loc ident))
  | .deref loc operand =>
      if (Expr.deref loc operand).isPlace then do usePlace (← placeOf (.deref loc operand))
      else do answer (derefValue ctx loc (← expr ctx operand))
  | .unary loc op operand => do answer (unaryOperand ctx loc op (← expr ctx operand))
  | .binary _ op left right => do
      let first ← expr ctx left
      if op = .and ∨ op = .or then
        answer (expect ctx .bool first left.loc)
        orSkip do answer (expect ctx .bool (← expr ctx right) right.loc)
        return { ty := .bool }
      else
        let second ← expr ctx right
        answer (binaryOperand ctx op first second left.loc right.loc)
  | .borrow _ operand isMut =>
      if operand.isPlace then do borrowPlace (← placeOf operand) isMut
      else do return { ty := .ref isMut (← expr ctx operand).ty }
  | .call loc func args => do
      let signature ← answer (signatureOf ctx loc func)
      ensure fun _ => args.length = signature.params.length
      arguments ctx args signature.params
      return { ty := signature.result }
  | .boxNew _ value => do return { ty := .box (← expr ctx value).ty }
  | .macroCall loc callee template args => do
      answer (checkTemplate ctx loc callee template args.length)
      shown ctx args
      return { ty := .unit }
  | .ifElse loc condition thenBlock elseBlock => do
      answer (expect ctx .bool (← expr ctx condition) condition.loc)
      match elseBlock with
      | none => do
          let (first, _) ← fork (block ctx thenBlock) (pure { ty := .unit })
          answer (ifOnlyOperand ctx (tailLoc thenBlock loc) first)
      | some elseBlock => do
          let (first, other) ← fork (block ctx thenBlock) (block ctx elseBlock)
          answer (ifOperand ctx loc first other)
  | .block _ body => block ctx body
  | .ofStmt _ | .ofBlock _ => refuse

noncomputable def arguments (ctx : Context) : List Expr → List Ty → Bare Unit
  | arg :: args, param :: params => do
      answer (expect ctx param (← argument arg param (expr ctx arg)) arg.loc)
      arguments ctx args params
  | _, _ => pure ()

noncomputable def shown (ctx : Context) : List Expr → Bare Unit
  | [] => pure ()
  | arg :: rest => do
      if arg.isPlace then showPlace ctx arg.loc (← placeOf arg)
      else answer (expectDisplayable ctx arg.loc (some (← expr ctx arg).ty))
      shown ctx rest

/-- A statement: does it always leave the function? -/
noncomputable def stmt (ctx : Context) : Stmt → Bare Bool
  | .letVar loc ident written value isMut => do
      let declared ← answer (declaredType ctx loc written)
      match value with
      | none => declare ident declared isMut false
      | some value => do
          let operand ← expr ctx value
          if let some ty := declared then answer (expect ctx ty operand value.loc)
          declare ident (declared <|> some operand.ty) isMut true
      return false
  | .assign _ target value op => do
      ensure fun _ => target.isPlace = true
      let operand ← expr ctx value
      let spot ← placeOf target
      assignType ctx value.loc spot operand op
      assignPlace spot
      return false
  | .ret loc none => do
      answer (expect ctx ctx.result { ty := .unit } loc)
      return true
  | .ret _ (some value) => do
      answer (expect ctx ctx.result (← expr ctx value) value.loc)
      return true
  | .whileLoop _ condition body => do
      orSkip do
        turn ctx condition.loc (expr ctx condition) (block ctx body)
        turn ctx condition.loc (expr ctx condition) (block ctx body)
      return false
  | .expr _ value => do return (← expr ctx value).diverges
  | .ofExpr _ | .ofBlock _ => refuse

/-- Statements: does one always leave the function? -/
noncomputable def stmts (ctx : Context) : List Stmt → Bare Bool
  | [] => pure false
  | first :: rest => do
      let leaves ← stmt ctx first
      let later ← stmts ctx rest
      return leaves || later

noncomputable def block (ctx : Context) : Block → Bare Operand
  | .mk statements none _ => inScope do
      return { ty := .unit, diverges := ← stmts ctx statements }
  | .mk statements (some tail) _ => inScope do
      let leaves ← stmts ctx statements
      let value ← expr ctx tail
      return { value with diverges := leaves || value.diverges }

end

end BorrowLang.Moves
