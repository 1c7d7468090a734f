import BorrowLang.Checker.Use
import BorrowLang.Template

/-! # Checking bodies

Expressions, statements and blocks, in the order in which they are evaluated.  The arms of an `if`
and the right operand of `&&` and `||` are checked on forks that meet again; an arm that always
leaves the function does not reach the meeting.  The body of a loop is checked twice, so that the
second pass sees what the first has moved and borrowed. -/
set_option autoImplicit false
namespace BorrowLang.Checker

def counted (count : Nat) (thing : String) : String :=
  if count = 1 then toString count ++ " " ++ thing else toString count ++ " " ++ thing ++ "s"

def wasOrWere (count : Nat) : String := if count = 1 then "was" else "were"

/-- What is said when a call has the wrong number of arguments. -/
def arityText (expected given : Nat) : String :=
  "this function takes " ++ counted expected "argument" ++ " but " ++ counted given "argument"
    ++ " " ++ wasOrWere given ++ " supplied"

/-- What is said when a macro call has the wrong number of arguments. -/
def holesText (holes given : Nat) : String :=
  counted holes "positional argument" ++ " in format string, but " ++ counted given "argument"
    ++ " " ++ wasOrWere given ++ " given"

/-- The signature of a function that can be called. -/
def signatureOf (ctx : Context) (loc : Option Position) (func : String) : Check Signature :=
  match ctx.signature? func <|> builtin? func with
  | some signature => pure signature
  | none =>
      throw (ctx.fault .unresolvedName ("cannot find function `" ++ func ++ "` in this scope") loc
        (some func))

def literalOperand : Literal → Operand
  | .int _ => { ty := .i32 }
  | .bool _ => { ty := .bool }
  | .unit => { ty := .unit }

def derefValue (ctx : Context) (loc : Option Position) (inner : Operand) : Check Operand :=
  match inner.ty.pointee? with
  | none => throw (ctx.fault .typeMismatch (notPointerText inner.ty) loc)
  | some target =>
      if inner.ty.isRef && !target.isCopy then
        let kind := if inner.ty = .ref true target then "mutable" else "shared"
        throw (ctx.fault .moveOutOfBorrow ("cannot move out of a " ++ kind ++ " reference") loc)
      else pure { ty := target, loans := if target.hasRef then inner.loans else [] }

def unaryOperand (ctx : Context) (loc : Option Position) (op : UnaryOp) (operand : Operand) :
    Check Operand :=
  let expected : Ty := if op = .neg then .i32 else .bool
  if operand.ty = expected then pure { ty := expected }
  else
    throw (ctx.fault .typeMismatch
      ("cannot apply unary operator `" ++ op.text ++ "` to type `" ++ operand.ty.text ++ "`") loc)

/-- An operand of a binary operator on integers. -/
def expectInt (ctx : Context) (op : BinaryOp) (operand : Operand) (loc : Option Position) :
    Check Unit :=
  if operand.ty = .i32 then pure ()
  else
    throw (ctx.fault .typeMismatch
      ("cannot apply binary operator `" ++ op.text ++ "` to type `" ++ operand.ty.text ++ "`") loc)

/-- The value of a binary operator whose operands are both evaluated. -/
def binaryOperand (ctx : Context) (op : BinaryOp) (left right : Operand)
    (leftLoc rightLoc : Option Position) : Check Operand := do
  match op with
  | .arith _ =>
      expectInt ctx op left leftLoc
      expectInt ctx op right rightLoc
      return { ty := .i32 }
  | .order _ =>
      expectInt ctx op left leftLoc
      expectInt ctx op right rightLoc
      return { ty := .bool }
  | .eq | .ne =>
      if left.ty = .i32 ∨ left.ty = .bool then
        expect ctx left.ty right rightLoc
        return { ty := .bool }
      else
        throw (ctx.fault .typeMismatch
          ("binary operation `" ++ op.text ++ "` cannot be applied to type `" ++ left.ty.text
            ++ "`")
          leftLoc)
  | .and | .or | .unknown _ => throw .unsupported

def borrowPlace (ctx : Context) (loc : Option Position) (place : PlaceId) (isMut : Bool) :
    Check Operand := do
  let s ← get
  if isMut then guard ctx loc (Tracker.checkMutable s.arena place true)
  let loan ← borrow ctx loc place (.ofMut isMut)
  match s.arena.ty? place with
  | none => throw .unreachable
  | some ty => return { ty := .ref isMut ty, loans := [loan] }

/-- A function that takes a `&mut` to a reference may store the borrows of its other arguments
there. -/
def storeArguments (ctx : Context) (loans : List (List BorrowId)) :
    List (Nat × Ty × Option Position) → Check Unit
  | [] => pure ()
  | (index, param, loc) :: rest => do
      match param with
      | .ref true inner =>
          if inner.hasRef then
            let others := unionAll (loans.eraseIdx index)
            let own := ((loans[index]?).getD []).mergeSort fun a b => decide (a ≤ b)
            let tracker := (← get).tracker
            let places := own.filterMap fun id => (tracker.borrow? id).map (·.place)
            if !others.isEmpty && !places.isEmpty then
              let _ ← storeInto ctx places others loc
      | _ => pure ()
      storeArguments ctx loans rest

/-- The value of a call: what it returns may carry any borrow of its arguments. -/
def callOperand (result : Ty) (loans : List (List BorrowId)) : Operand :=
  { ty := result, loans := if result.hasRef then unionAll loans else [] }

def expectDisplayable (ctx : Context) (loc : Option Position) (ty : Option Ty) : Check Unit :=
  if (ty.map Ty.isDisplayable).getD false then pure ()
  else
    throw (ctx.fault .typeMismatch
      ("`" ++ tyText? ty ++ "` doesn't implement `std::fmt::Display`") loc)

/-- A macro call has a known macro and a template with as many holes as arguments. -/
def checkTemplate (ctx : Context) (loc : Option Position) (callee template : String) (given : Nat) :
    Check Unit :=
  if callee = printName then
    match Template.holes template with
    | .error fault => throw (ctx.fault .formatMismatch fault.message loc)
    | .ok holes =>
        if holes = given then pure ()
        else throw (ctx.fault .formatMismatch (holesText holes given) loc)
  else
    throw (ctx.fault .unresolvedName ("cannot find macro `" ++ callee ++ "` in this scope") loc
      (some (callee ++ "!")))

/-- A place shown by a macro is borrowed for a moment, never moved. -/
def showPlace (ctx : Context) (loc : Option Position) (place : PlaceId) : Check Unit := do
  let s ← get
  guard ctx loc (s.tracker.checkBorrow s.arena place .shared)
  expectDisplayable ctx loc (s.arena.ty? place)

/-- The state where the arms of an `if` meet; an arm that always leaves the function does not get
there, unless both do. -/
def meet (thenDiverges otherDiverges : Bool) (thenTracker otherTracker : Tracker) : Tracker :=
  if thenDiverges && !otherDiverges then otherTracker
  else if otherDiverges && !thenDiverges then thenTracker
  else thenTracker.join otherTracker

def ifOperand (ctx : Context) (loc : Option Position) (first other : Operand) : Check Operand :=
  if first.diverges && other.diverges then pure { ty := first.ty, diverges := true }
  else if first.diverges then pure { ty := other.ty, loans := other.loans }
  else if other.diverges then pure { ty := first.ty, loans := first.loans }
  else if other.ty.coercesTo first.ty then
    pure { ty := first.ty, loans := unionLoans first.loans other.loans }
  else
    throw (ctx.fault .typeMismatch
      ("`if` and `else` have incompatible types: expected `" ++ first.ty.text ++ "`, found `"
        ++ other.ty.text ++ "`") loc)

/-- The value of an `if` without `else`: it must have none. -/
def ifOnlyOperand (ctx : Context) (loc : Option Position) (first : Operand) : Check Operand :=
  if first.diverges || first.ty = .unit then pure { ty := .unit }
  else
    throw (ctx.fault .typeMismatch
      ("`if` may be missing an `else` clause: expected `()`, found `" ++ first.ty.text ++ "`") loc)

/-- The type of an assigned place after the assignment: the first value fixes a type that was left
open. -/
def assignType (ctx : Context) (loc valueLoc : Option Position) (targetLoc : Option Position)
    (place : PlaceId) (value : Operand) (op : Option BinaryOp) : Check Unit := do
  let s ← get
  let ty := s.arena.ty? place
  match op with
  | some op =>
      requireRead ctx targetLoc place
      if ty ≠ some .i32 ∨ value.ty ≠ .i32 then
        let found := if ty ≠ some .i32 then ty else some value.ty
        throw (ctx.fault .typeMismatch
          ("cannot apply `" ++ op.text ++ "=` to type `" ++ tyText? found ++ "`") loc)
  | none =>
      match ty with
      | none => set { s with arena := s.arena.setTy place (some value.ty) }
      | some ty => expect ctx ty value valueLoc

def assignPlace (ctx : Context) (targetLoc valueLoc : Option Position) (place : PlaceId)
    (value : Operand) : Check Unit := do
  let s ← get
  guard ctx targetLoc (s.tracker.canWrite s.arena place)
  let root := s.arena.root place
  if place = root then modifyTracker (·.endHeldBy place)
  modifyTracker (·.markLive s.arena place)
  if !value.loans.isEmpty then
    if (s.arena.innermostRef place).isNone then storeLoans ctx root value.loans
    else if !(← storeInto ctx [place] value.loans valueLoc) then storeLoans ctx root value.loans

def returnValue (ctx : Context) (value : Operand) (loc : Option Position) : Check Unit := do
  expect ctx ctx.result value loc
  checkEscape ctx value.loans loc false

/-- The end of a statement: temporaries end, and so do borrows whose holder is not used again. -/
def endStatement (ctx : Context) : Check Unit := do
  modifyTracker (·.endTemporaries [])
  if !ctx.settings.lexical then
    let s ← get
    let (tracker, released) := s.tracker.releaseDead s.arena s.isLive
    set { s with tracker }
    if !released.isEmpty then note (.released released.length)

/-- The end of a block: temporaries end but for the borrows of its value, then borrows whose holder
is not used again, then the bindings. -/
def endBlock (ctx : Context) (loc : Option Position) (keep : List BorrowId) : Check Unit := do
  modifyTracker (·.endTemporaries keep)
  if !ctx.settings.lexical then
    modify fun s => { s with tracker := (s.tracker.releaseDead s.arena s.isLive).1 }
  let s ← get
  let (tracker, answer) := s.tracker.popFrame s.arena
  set { s with tracker, scopes := s.scopes.drop 1 }
  match answer with
  | .ok _ => pure ()
  | .error .outermost => throw .unreachable
  | .error (.dangling violation) =>
      let origin := violation.conflict.bind (·.origin)
      throw (.reported (violation.report s.arena (ctx.span (origin <|> loc))))

def beginBlock : Check Unit :=
  modify fun s => { s with tracker := s.tracker.pushFrame, scopes := [] :: s.scopes }

/-- Names are mentioned later until they are dropped again. -/
def enterNames (names : List String) : Check Unit :=
  modify fun s => { s with live := s.live.enter names }

def exitNames : Check Unit :=
  modify fun s => { s with live := (s.live.exit?).getD s.live }

/-- The position at which a block without the expected value is reported. -/
def tailLoc (body : Block) (otherwise : Option Position) : Option Position :=
  match body.tail with
  | some tail => tail.loc
  | none => otherwise

/-- One pass over a loop: its condition, then its body, which must have no value. -/
def loopPass (ctx : Context) (conditionLoc bodyLoc : Option Position)
    (condition body : Check Operand) : Check Unit := do
  let cond ← condition
  expect ctx .bool cond conditionLoc
  modifyTracker (·.endTemporaries [])
  let value ← body
  if !value.diverges && value.ty ≠ .unit then
    throw (ctx.fault .typeMismatch (mismatchText .unit value.ty) bodyLoc)

mutual

def checkExpr (ctx : Context) : Expr → Check Operand
  | .literal _ value => pure (literalOperand value)
  | .name loc ident => do usePlace ctx loc (← lookup ctx loc ident)
  | .deref loc operand =>
      if (Expr.deref loc operand).isPlace then do
        usePlace ctx loc (← placeOf ctx (.deref loc operand))
      else do derefValue ctx loc (← checkExpr ctx operand)
  | .unary loc op operand => do unaryOperand ctx loc op (← checkExpr ctx operand)
  | .binary _ op left right => do
      let first ← checkExpr ctx left
      if op = .and ∨ op = .or then
        expect ctx .bool first left.loc
        let skipped := (← get).tracker
        let second ← checkExpr ctx right
        expect ctx .bool second right.loc
        modifyTracker (·.join skipped)
        return { ty := .bool }
      else
        let second ← checkExpr ctx right
        binaryOperand ctx op first second left.loc right.loc
  | .borrow loc operand isMut =>
      if operand.isPlace then do borrowPlace ctx loc (← placeOf ctx operand) isMut
      else do
        let inner ← checkExpr ctx operand
        return { ty := .ref isMut inner.ty, loans := inner.loans }
  | .call loc func args => do
      let signature ← signatureOf ctx loc func
      if args.length ≠ signature.params.length then
        throw (ctx.fault .typeMismatch (arityText signature.params.length args.length) loc
          (some func))
      let loans ← checkArgs ctx args signature.params
      storeArguments ctx loans
        ((signature.params.zip (args.map Expr.loc)).zipIdx.map fun (slot, i) => (i, slot.1, slot.2))
      return callOperand signature.result loans
  | .boxNew _ value => do
      let inner ← checkExpr ctx value
      return { ty := .box inner.ty, loans := inner.loans }
  | .macroCall loc callee template args => do
      checkTemplate ctx loc callee template args.length
      checkShown ctx args
      return { ty := .unit }
  | .ifElse loc condition thenBlock elseBlock => do
      let cond ← checkExpr ctx condition
      expect ctx .bool cond condition.loc
      let before := (← get).tracker
      let first ← checkBlock ctx false thenBlock
      let thenTracker := (← get).tracker
      modifyTracker fun _ => before
      match elseBlock with
      | none =>
          modifyTracker (meet first.diverges false thenTracker)
          ifOnlyOperand ctx (tailLoc thenBlock loc) first
      | some elseBlock =>
          let other ← checkBlock ctx false elseBlock
          modifyTracker (meet first.diverges other.diverges thenTracker)
          ifOperand ctx loc first other
  | .block _ body => checkBlock ctx false body
  | .ofStmt _ | .ofBlock _ => throw .unsupported

/-- The borrows that the arguments of a call carry. -/
def checkArgs (ctx : Context) : List Expr → List Ty → Check (List (List BorrowId))
  | arg :: args, param :: params => do
      let value ←
        match ← reborrow? ctx arg param with
        | some value => pure value
        | none => checkExpr ctx arg
      expect ctx param value arg.loc
      let rest ← checkArgs ctx args params
      return value.loans :: rest
  | _, _ => pure []

def checkShown (ctx : Context) : List Expr → Check Unit
  | [] => pure ()
  | arg :: rest => do
      if arg.isPlace then showPlace ctx arg.loc (← placeOf ctx arg)
      else expectDisplayable ctx arg.loc (some (← checkExpr ctx arg).ty)
      checkShown ctx rest

/-- A statement: does it always leave the function? -/
def checkStmt (ctx : Context) : Stmt → Check Bool
  | .letVar loc ident written value isMut => do
      let declared ←
        match written with
        | none => pure none
        | some written => pure (some (← (ctx.resolve written loc : Except Fault Ty)))
      match value with
      | none =>
          let _ ← bind ident declared isMut false false
      | some value =>
          let operand ← checkExpr ctx value
          if let some ty := declared then expect ctx ty operand value.loc
          let place ← bind ident (declared <|> some operand.ty) isMut false true
          if !operand.loans.isEmpty then storeLoans ctx place operand.loans
      return false
  | .assign loc target value op => do
      if !target.isPlace then
        throw (ctx.fault .invalidAssignTarget "invalid left-hand side of assignment" target.loc)
      let operand ← checkExpr ctx value
      let place ← placeOf ctx target
      assignType ctx loc value.loc target.loc place operand op
      assignPlace ctx target.loc value.loc place operand
      return false
  | .ret loc none => do
      returnValue ctx { ty := .unit } loc
      return true
  | .ret _ (some value) => do
      returnValue ctx (← checkExpr ctx value) value.loc
      return true
  | .whileLoop loc condition body => do
      let before := (← get).tracker
      enterNames (condition.names ++ body.names)
      let pass :=
        loopPass ctx condition.loc (tailLoc body loc) (checkExpr ctx condition)
          (checkBlock ctx false body)
      pass
      pass
      exitNames
      modifyTracker (·.join before)
      return false
  | .expr _ value => do return (← checkExpr ctx value).diverges
  | .ofExpr _ | .ofBlock _ => throw .unsupported

/-- Statements, with the names mentioned after them: does one always leave the function? -/
def checkStmts (ctx : Context) (tailNames : List String) : List Stmt → Check Bool
  | [] => pure false
  | stmt :: rest => do
      enterNames (namesOfStmts rest ++ tailNames)
      let leaves ← checkStmt ctx stmt
      endStatement ctx
      exitNames
      let later ← checkStmts ctx tailNames rest
      return leaves || later

/-- The value of a block.  The value of a function's body leaves the function. -/
def checkBlock (ctx : Context) (isBody : Bool) : Block → Check Operand
  | .mk statements none loc => do
      beginBlock
      let leaves ← checkStmts ctx [] statements
      endBlock ctx loc []
      return { ty := .unit, diverges := leaves }
  | .mk statements (some tail) loc => do
      beginBlock
      let leaves ← checkStmts ctx tail.names statements
      let value ← checkExpr ctx tail
      if isBody then checkEscape ctx value.loans tail.loc false
      endBlock ctx loc value.loans
      return { value with diverges := leaves || value.diverges }

end

end BorrowLang.Checker
