import BorrowLang.Proofs.Scoping.Points
import BorrowLang.Proofs.Searches.Circles

/-!
# Checks that come to an end

A check that goes on forever does so in a search: every other part of it ends, and the state that
the check has come to is one in which a search circles.
-/

set_option autoImplicit false

namespace BorrowLang.Checker

variable {α β : Type} {ctx : Context}

/-- The check ends, in whatever state it begins, or it has come to a state in which a search
circles. -/
def Settles (x : Check α) : Prop :=
  ∀ s, Meets x s (fun _ _ => True) fun fault after =>
    fault = .endless → ∃ place, after.Circles place

theorem settles_pure (a : α) : Settles (pure a) := fun _ => trivial

theorem settles_throw {fault : Fault} (differs : fault ≠ .endless) :
    Settles (throw fault : Check α) := fun _ same => absurd same differs

theorem settles_get : Settles (get : Check State) := fun _ => trivial

theorem settles_set (s : State) : Settles (set s : Check PUnit) := fun _ => trivial

theorem settles_modify (f : State → State) : Settles (modify f : Check PUnit) := fun _ => trivial

theorem Settles.bind {x : Check β} {f : β → Check α} (first : Settles x)
    (next : ∀ b, Settles (f b)) : Settles (x >>= f) := by
  intro s
  rw [meets_bind]
  exact (first s).onOk fun b mid _ => next b mid

theorem Settles.ite {p : Prop} [Decidable p] {x y : Check α} (first : Settles x)
    (other : Settles y) : Settles (if p then x else y) := by
  split
  · exact first
  · exact other

/-- A check in front of others that is made only in some cases. -/
theorem Settles.optional {p : Prop} [Decidable p] {x : Check Unit} {f : Unit → Check α}
    (first : Settles x) (next : ∀ b, Settles (f b)) :
    Settles (if p then x >>= f else f ()) := .ite (first.bind next) (next ())

theorem settles_fault (kind : DiagnosticKind) (message : String) (loc : Option Position)
    (subject : Option String) : Settles (throw (ctx.fault kind message loc subject) : Check α) :=
  settles_throw (by simp [Context.fault])

/-! ### Places and borrows -/

theorem guard_settles (loc : Option Position) (answer : Except Violation α) :
    Settles (guard ctx loc answer) := by
  cases answer with
  | ok a => exact settles_pure a
  | error violation => exact settles_get.bind fun _ => settles_throw (by simp)

theorem requireRead_settles (loc : Option Position) (place : PlaceId) :
    Settles (requireRead ctx loc place) := settles_get.bind fun _ => guard_settles _ _

theorem borrow_settles (loc : Option Position) (place : PlaceId) (kind : BorrowKind) :
    Settles (borrow ctx loc place kind) :=
  settles_get.bind fun _ => (guard_settles _ _).bind fun _ => (settles_set _).bind fun _ =>
    settles_pure _

theorem modifyTracker_settles (f : Tracker → Tracker) : Settles (modifyTracker f) :=
  settles_modify _

theorem expect_settles (expected : Ty) (value : Operand) (loc : Option Position) :
    Settles (expect ctx expected value loc) := by
  rw [expect]
  exact .ite (settles_pure _) (settles_fault _ _ _ _)

theorem checkEscape_settles (loans : List BorrowId) (loc : Option Position) (stored : Bool) :
    Settles (checkEscape ctx loans loc stored) := by
  rw [checkEscape]
  refine settles_get.bind fun s => ?_
  dsimp only
  split
  · exact settles_pure _
  · exact settles_throw (by simp)

theorem shareWith_settles (loans : List BorrowId) (holders : List PlaceId) :
    Settles (shareWith ctx loans holders) := by
  induction holders with
  | nil => exact settles_pure _
  | cons holder rest ih =>
      rw [shareWith]
      exact settles_get.bind fun _ => (settles_set _).bind fun _ => ih

/-- The only part of a check that may go on forever. -/
theorem storeInto_settles (places : List PlaceId) (loans : List BorrowId) (loc : Option Position) :
    Settles (storeInto ctx places loans loc) := by
  intro s
  simp only [storeInto, meets_bind, meets_get]
  split
  · rename_i fault failed
    rintro rfl
    obtain ⟨_, place, _, _, endless, _⟩ := unionReferents_error failed
    exact ⟨place, circles_of_endless endless⟩
  · exact ((checkEscape_settles loans loc true).bind fun _ => settles_pure _) s
  · exact ((shareWith_settles loans _).bind fun _ => settles_pure _) s

theorem storeLoans_settles (holder : PlaceId) (loans : List BorrowId) :
    Settles (storeLoans ctx holder loans) := settles_modify _

theorem lookup_settles (loc : Option Position) (name : String) : Settles (lookup ctx loc name) := by
  rw [lookup]
  refine settles_get.bind fun s => ?_
  split
  · exact settles_pure _
  · exact settles_fault _ _ _ _

theorem bind_settles (name : String) (ty : Option Ty) (isMut isParam initialized : Bool) :
    Settles (bind name ty isMut isParam initialized) :=
  settles_get.bind fun _ => (settles_set _).bind fun _ => settles_pure _

theorem typeOf_settles (loc : Option Position) (place : PlaceId) :
    Settles (typeOf ctx loc place) := by
  rw [typeOf]
  refine settles_get.bind fun s => ?_
  split
  · exact settles_pure _
  · exact (requireRead_settles _ _).bind fun _ => settles_fault _ _ _ _

theorem target_settles (place : PlaceId) (via : Via) (ty : Ty) : Settles (target place via ty) :=
  settles_get.bind fun _ => (settles_set _).bind fun _ => settles_pure _

theorem placeOf_settles (e : Expr) : Settles (placeOf ctx e) := by
  induction e using placeOf.induct with
  | case1 loc ident =>
      rw [placeOf]
      exact lookup_settles loc ident
  | case2 loc inner operand isMut ih =>
      rw [placeOf]
      exact ih.bind fun _ => settles_get.bind fun _ =>
        .optional (guard_settles _ _) fun _ => (guard_settles _ _).bind fun _ => settles_pure _
  | case3 loc operand notBorrow ih =>
      rw [placeOf]
      · refine ih.bind fun _ => (typeOf_settles _ _).bind fun ty => ?_
        split
        · exact settles_fault _ _ _ _
        · exact target_settles _ _ _
      · exact notBorrow
  | case4 e notName notBorrow notDeref =>
      rw [placeOf]
      · exact settles_throw (by simp)
      · exact notName
      · exact notBorrow
      · exact notDeref

theorem usePlace_settles (loc : Option Position) (place : PlaceId) :
    Settles (usePlace ctx loc place) := by
  rw [usePlace]
  refine (typeOf_settles _ _).bind fun ty => .ite ((requireRead_settles _ _).bind fun _ => ?_) ?_
  · exact .ite (settles_get.bind fun _ => (settles_set _).bind fun _ => settles_pure _)
      (settles_pure _)
  · exact settles_get.bind fun _ => (guard_settles _ _).bind fun _ => (settles_set _).bind fun _ =>
      settles_pure _

theorem reborrow?_settles (arg : Expr) (param : Ty) : Settles (reborrow? ctx arg param) := by
  unfold reborrow?
  split
  · refine .ite ((placeOf_settles _).bind fun _ => settles_get.bind fun s => ?_) (settles_pure _)
    split
    · exact (requireRead_settles _ _).bind fun _ => (target_settles _ _ _).bind fun _ =>
        (borrow_settles _ _ _).bind fun _ => settles_pure _
    · exact settles_pure _
  · exact settles_pure _

/-! ### Operators and calls -/

theorem signatureOf_settles (loc : Option Position) (func : String) :
    Settles (signatureOf ctx loc func) := by
  rw [signatureOf]
  split
  · exact settles_pure _
  · exact settles_fault _ _ _ _

theorem derefValue_settles (loc : Option Position) (inner : Operand) :
    Settles (derefValue ctx loc inner) := by
  rw [derefValue]
  split
  · exact settles_fault _ _ _ _
  · exact .ite (settles_fault _ _ _ _) (settles_pure _)

theorem unaryOperand_settles (loc : Option Position) (op : UnaryOp) (operand : Operand) :
    Settles (unaryOperand ctx loc op operand) := .ite (settles_pure _) (settles_fault _ _ _ _)

theorem expectInt_settles (op : BinaryOp) (operand : Operand) (loc : Option Position) :
    Settles (expectInt ctx op operand loc) := .ite (settles_pure _) (settles_fault _ _ _ _)

theorem binaryOperand_settles (op : BinaryOp) (left right : Operand)
    (leftLoc rightLoc : Option Position) :
    Settles (binaryOperand ctx op left right leftLoc rightLoc) := by
  cases op with
  | arith | order =>
      exact (expectInt_settles _ _ _).bind fun _ => (expectInt_settles _ _ _).bind fun _ =>
        settles_pure _
  | eq | ne =>
      exact .ite ((expect_settles _ _ _).bind fun _ => settles_pure _) (settles_fault _ _ _ _)
  | and | or | unknown => exact settles_throw (by simp)

theorem borrowPlace_settles (loc : Option Position) (place : PlaceId) (isMut : Bool) :
    Settles (borrowPlace ctx loc place isMut) := by
  rw [borrowPlace_eq]
  refine settles_get.bind fun s => .optional (guard_settles _ _) fun _ =>
    (borrow_settles _ _ _).bind fun _ => ?_
  split
  · exact settles_throw (by simp)
  · exact settles_pure _

theorem storeArguments_settles (loans : List (List BorrowId))
    (slots : List (Nat × Ty × Option Position)) : Settles (storeArguments ctx loans slots) := by
  induction slots with
  | nil => exact settles_pure _
  | cons slot rest ih =>
      obtain ⟨index, param, loc⟩ := slot
      simp only [storeArguments]
      split
      · refine .ite (settles_get.bind fun _ => .ite ?_ ih) ih
        exact (storeInto_settles _ _ _).bind fun _ => ih
      · exact ih

theorem expectDisplayable_settles (loc : Option Position) (ty : Option Ty) :
    Settles (expectDisplayable ctx loc ty) := .ite (settles_pure _) (settles_fault _ _ _ _)

theorem checkTemplate_settles (loc : Option Position) (callee template : String) (given : Nat) :
    Settles (checkTemplate ctx loc callee template given) := by
  refine .ite ?_ (settles_fault _ _ _ _)
  split
  · exact settles_fault _ _ _ _
  · exact .ite (settles_pure _) (settles_fault _ _ _ _)

theorem showPlace_settles (loc : Option Position) (place : PlaceId) :
    Settles (showPlace ctx loc place) :=
  settles_get.bind fun _ => (guard_settles _ _).bind fun _ => expectDisplayable_settles _ _

theorem ifOperand_settles (loc : Option Position) (first other : Operand) :
    Settles (ifOperand ctx loc first other) :=
  .ite (settles_pure _) (.ite (settles_pure _) (.ite (settles_pure _) (.ite (settles_pure _)
    (settles_fault _ _ _ _))))

theorem ifOnlyOperand_settles (loc : Option Position) (first : Operand) :
    Settles (ifOnlyOperand ctx loc first) := .ite (settles_pure _) (settles_fault _ _ _ _)

/-! ### Assignments, returns and scopes -/

theorem assignType_settles (loc valueLoc targetLoc : Option Position) (place : PlaceId)
    (value : Operand) (op : Option BinaryOp) :
    Settles (assignType ctx loc valueLoc targetLoc place value op) := by
  unfold assignType
  refine settles_get.bind fun s => ?_
  cases op with
  | some op =>
      exact (requireRead_settles _ _).bind fun _ => .ite (settles_fault _ _ _ _) (settles_pure _)
  | none =>
      dsimp only
      split
      · exact settles_set _
      · exact expect_settles _ _ _

theorem assignPlace_settles (targetLoc valueLoc : Option Position) (place : PlaceId)
    (value : Operand) : Settles (assignPlace ctx targetLoc valueLoc place value) := by
  unfold assignPlace
  refine settles_get.bind fun s => (guard_settles _ _).bind fun _ =>
    .optional (modifyTracker_settles _) fun _ => (modifyTracker_settles _).bind fun _ =>
      .ite (.ite (storeLoans_settles _ _) ?_) (settles_pure _)
  exact (storeInto_settles _ _ _).bind fun _ => .ite (storeLoans_settles _ _) (settles_pure _)

theorem returnValue_settles (value : Operand) (loc : Option Position) :
    Settles (returnValue ctx value loc) :=
  (expect_settles _ _ _).bind fun _ => checkEscape_settles _ _ _

theorem endStatement_settles : Settles (endStatement ctx) := by
  rw [endStatement_eq]
  refine (modifyTracker_settles _).bind fun _ => .ite ?_ (settles_pure _)
  exact settles_get.bind fun _ => (settles_set _).bind fun _ =>
    .ite (settles_modify _) (settles_pure _)

theorem closeScope_settles (loc : Option Position) : Settles (closeScope ctx loc) := by
  unfold closeScope
  refine settles_get.bind fun s => (settles_set _).bind fun _ => ?_
  split
  · exact settles_pure _
  · exact settles_throw (by simp)
  · exact settles_throw (by simp)

theorem endBlock_settles (loc : Option Position) (keep : List BorrowId) :
    Settles (endBlock ctx loc keep) := by
  rw [endBlock_eq]
  exact (modifyTracker_settles _).bind fun _ => .optional (settles_modify _) fun _ =>
    closeScope_settles _

theorem loopPass_settles {condition body : Check Operand} (tested : Settles condition)
    (passed : Settles body) (conditionLoc bodyLoc : Option Position) :
    Settles (loopPass ctx conditionLoc bodyLoc condition body) :=
  tested.bind fun _ => (expect_settles _ _ _).bind fun _ => (modifyTracker_settles _).bind fun _ =>
    passed.bind fun _ => .ite (settles_fault _ _ _ _) (settles_pure _)

/-- A type that is written ends the check, or stands for a type. -/
theorem resolve_settles (written : TypeExpr) (loc : Option Position) :
    Settles (liftM (ctx.resolve written loc) : Check Ty) := by
  unfold Context.resolve
  split
  · exact settles_pure _
  · exact settles_throw (by simp)
  · exact settles_fault _ _ _ _
  · exact settles_fault _ _ _ _

/-- A binding with a value. -/
theorem letValue_settles (ident : String) (isMut : Bool) (declared : Option Ty) (operand : Operand)
    (loc : Option Position) : Settles (do
      if let some ty := declared then expect ctx ty operand loc
      let place ← bind ident (declared <|> some operand.ty) isMut false true
      if !operand.loans.isEmpty then storeLoans ctx place operand.loans
      return false) := by
  have bound : Settles (do
      let place ← bind ident (declared <|> some operand.ty) isMut false true
      if !operand.loans.isEmpty then storeLoans ctx place operand.loans
      return false) := (bind_settles _ _ _ _ _).bind fun _ =>
    .optional (storeLoans_settles _ _) fun _ => settles_pure _
  cases declared with
  | none => exact bound
  | some ty => exact (expect_settles _ _ _).bind fun _ => bound

/-! ### Bodies -/

mutual

theorem checkExpr_settles : (e : Expr) → Settles (checkExpr ctx e)
  | .literal _ value => by
      rw [checkExpr]
      exact settles_pure _
  | .name loc ident => by
      rw [checkExpr]
      exact (lookup_settles _ _).bind fun _ => usePlace_settles _ _
  | .deref loc operand => by
      rw [checkExpr]
      exact .ite ((placeOf_settles _).bind fun _ => usePlace_settles _ _)
        ((checkExpr_settles operand).bind fun _ => derefValue_settles _ _)
  | .unary loc op operand => by
      rw [checkExpr]
      exact (checkExpr_settles operand).bind fun _ => unaryOperand_settles _ _ _
  | .binary loc op left right => by
      rw [checkExpr]
      refine (checkExpr_settles left).bind fun _ => .ite ?_ ?_
      · exact (expect_settles _ _ _).bind fun _ => settles_get.bind fun _ =>
          (checkExpr_settles right).bind fun _ => (expect_settles _ _ _).bind fun _ =>
            (modifyTracker_settles _).bind fun _ => settles_pure _
      · exact (checkExpr_settles right).bind fun _ => binaryOperand_settles _ _ _ _ _
  | .borrow loc operand isMut => by
      rw [checkExpr]
      exact .ite ((placeOf_settles _).bind fun _ => borrowPlace_settles _ _ _)
        ((checkExpr_settles operand).bind fun _ => settles_pure _)
  | .call loc func args => by
      rw [checkExpr]
      refine (signatureOf_settles _ _).bind fun signature =>
        .optional (settles_fault _ _ _ _) fun _ => ?_
      exact (checkArgs_settles args signature.params).bind fun _ =>
        (storeArguments_settles _ _).bind fun _ => settles_pure _
  | .boxNew loc value => by
      rw [checkExpr]
      exact (checkExpr_settles value).bind fun _ => settles_pure _
  | .macroCall loc callee template args => by
      rw [checkExpr]
      exact (checkTemplate_settles _ _ _ _).bind fun _ => (checkShown_settles args).bind fun _ =>
        settles_pure _
  | .ifElse loc condition thenBlock none => by
      rw [checkExpr]
      exact (checkExpr_settles condition).bind fun _ => (expect_settles _ _ _).bind fun _ =>
        settles_get.bind fun _ => (checkBlock_settles thenBlock false).bind fun _ =>
          settles_get.bind fun _ => (modifyTracker_settles _).bind fun _ =>
            (modifyTracker_settles _).bind fun _ => ifOnlyOperand_settles _ _
  | .ifElse loc condition thenBlock (some elseBlock) => by
      rw [checkExpr]
      exact (checkExpr_settles condition).bind fun _ => (expect_settles _ _ _).bind fun _ =>
        settles_get.bind fun _ => (checkBlock_settles thenBlock false).bind fun _ =>
          settles_get.bind fun _ => (modifyTracker_settles _).bind fun _ =>
            (checkBlock_settles elseBlock false).bind fun _ =>
              (modifyTracker_settles _).bind fun _ => ifOperand_settles _ _ _
  | .block loc body => by
      rw [checkExpr]
      exact checkBlock_settles body false
  | .ofStmt _ | .ofBlock _ => by
      rw [checkExpr]
      exact settles_throw (by simp)

theorem checkArgs_settles : (args : List Expr) → (params : List Ty) →
    Settles (checkArgs ctx args params)
  | arg :: args, param :: params => by
      rw [checkArgs]
      refine (reborrow?_settles _ _).bind fun found => ?_
      have rest : ∀ value : Operand, Settles (do
          expect ctx param value arg.loc
          let rest ← checkArgs ctx args params
          return value.loans :: rest) := fun _ =>
        (expect_settles _ _ _).bind fun _ => (checkArgs_settles args params).bind fun _ =>
          settles_pure _
      cases found with
      | some value => exact (settles_pure value).bind rest
      | none => exact (checkExpr_settles arg).bind rest
  | [], _ => by
      rw [checkArgs]
      · exact settles_pure _
      · nofun
  | _ :: _, [] => by
      rw [checkArgs]
      · exact settles_pure _
      · nofun

theorem checkShown_settles : (args : List Expr) → Settles (checkShown ctx args)
  | [] => by
      rw [checkShown]
      exact settles_pure _
  | arg :: rest => by
      rw [checkShown]
      have others := checkShown_settles rest
      refine .ite ?_ ?_
      · exact (placeOf_settles _).bind fun _ => (showPlace_settles _ _).bind fun _ => others
      · exact (checkExpr_settles arg).bind fun _ => (expectDisplayable_settles _ _).bind
          fun _ => others

theorem checkStmt_settles : (stmt : Stmt) → Settles (checkStmt ctx stmt)
  | .letVar loc ident written none isMut => by
      have bound : ∀ declared, Settles (do
          let _ ← bind ident declared isMut false false
          return false) := fun _ => (bind_settles _ _ _ _ _).bind fun _ => settles_pure _
      simp only [checkStmt]
      cases written with
      | none => exact (settles_pure _).bind bound
      | some written =>
          exact (resolve_settles _ _).bind fun _ => (settles_pure _).bind bound
  | .letVar loc ident written (some value) isMut => by
      have bound : ∀ declared, Settles (do
          let operand ← checkExpr ctx value
          if let some ty := declared then expect ctx ty operand value.loc
          let place ← bind ident (declared <|> some operand.ty) isMut false true
          if !operand.loans.isEmpty then storeLoans ctx place operand.loans
          return false) := fun declared => (checkExpr_settles value).bind fun operand =>
        letValue_settles ident isMut declared operand value.loc
      simp only [checkStmt]
      cases written with
      | none => exact (settles_pure _).bind bound
      | some written =>
          exact (resolve_settles _ _).bind fun _ => (settles_pure _).bind bound
  | .assign loc target value op => by
      rw [checkStmt]
      refine .optional (settles_fault _ _ _ _) fun _ => (checkExpr_settles value).bind fun _ => ?_
      exact (placeOf_settles _).bind fun _ => (assignType_settles _ _ _ _ _ _).bind fun _ =>
        (assignPlace_settles _ _ _ _).bind fun _ => settles_pure _
  | .ret loc none => by
      rw [checkStmt]
      exact (returnValue_settles _ _).bind fun _ => settles_pure _
  | .ret loc (some value) => by
      rw [checkStmt]
      exact (checkExpr_settles value).bind fun _ => (returnValue_settles _ _).bind fun _ =>
        settles_pure _
  | .whileLoop loc condition body => by
      rw [checkStmt]
      have pass : Settles (loopPass ctx condition.loc (tailLoc body loc) (checkExpr ctx condition)
          (checkBlock ctx false body)) :=
        loopPass_settles (checkExpr_settles condition) (checkBlock_settles body false) _ _
      exact settles_get.bind fun _ => (settles_modify _).bind fun _ => pass.bind fun _ =>
        pass.bind fun _ => (settles_modify _).bind fun _ => (modifyTracker_settles _).bind fun _ =>
          settles_pure _
  | .expr loc value => by
      rw [checkStmt]
      exact (checkExpr_settles value).bind fun _ => settles_pure _
  | .ofExpr _ | .ofBlock _ => by
      rw [checkStmt]
      exact settles_throw (by simp)

theorem checkStmts_settles : (stmts : List Stmt) → (tailNames : List String) →
    Settles (checkStmts ctx tailNames stmts)
  | [], _ => by
      rw [checkStmts]
      exact settles_pure _
  | stmt :: rest, tailNames => by
      rw [checkStmts]
      exact (settles_modify _).bind fun _ => (checkStmt_settles stmt).bind fun _ =>
        endStatement_settles.bind fun _ => (settles_modify _).bind fun _ =>
          (checkStmts_settles rest tailNames).bind fun _ => settles_pure _

theorem checkBlock_settles : (body : Block) → (isBody : Bool) →
    Settles (checkBlock ctx isBody body)
  | .mk stmts none loc, isBody => by
      rw [checkBlock]
      exact (settles_modify _).bind fun _ => (checkStmts_settles stmts []).bind fun _ =>
        (endBlock_settles _ _).bind fun _ => settles_pure _
  | .mk stmts (some tail) loc, isBody => by
      rw [checkBlock]
      refine (settles_modify _).bind fun _ => (checkStmts_settles stmts tail.names).bind fun _ =>
        (checkExpr_settles tail).bind fun _ => .optional (checkEscape_settles _ _ _) fun _ => ?_
      exact (endBlock_settles _ _).bind fun _ => settles_pure _

end

/-! ### Functions -/

theorem bindParams_settles (params : List (Param × Ty)) : Settles (bindParams ctx params) := by
  induction params with
  | nil => exact settles_pure _
  | cons slot rest ih =>
      obtain ⟨param, ty⟩ := slot
      rw [bindParams]
      exact settles_get.bind fun _ => .optional (settles_fault _ _ _ _) fun _ =>
        (bind_settles _ _ _ _ _).bind fun _ => ih

theorem checkFunction_settles (f : FunctionDef) : Settles (checkFunction ctx f) := by
  unfold checkFunction
  refine (settles_modify _).bind fun _ => (settles_modify _).bind fun _ =>
    (bindParams_settles _).bind fun _ => (checkBlock_settles _ _).bind fun _ =>
      .optional (settles_fault _ _ _ _) fun _ => settles_get.bind fun s =>
        (settles_set _).bind fun _ => ?_
  split
  · exact settles_modify _
  · exact settles_throw (by simp)
  · exact settles_throw (by simp)

theorem checkFunctions_settles (functions : List FunctionDef) :
    Settles (checkFunctions ctx functions) := by
  induction functions with
  | nil => exact settles_pure _
  | cons f rest ih => exact (checkFunction_settles f).bind fun _ => ih

/-! ### Signatures -/

theorem resolve_ne_endless (written : TypeExpr) (loc : Option Position) :
    ctx.resolve written loc ≠ .error .endless := by
  unfold Context.resolve
  split <;> nofun

theorem bind_ne_endless {x : Except Fault β} {f : β → Except Fault α} (first : x ≠ .error .endless)
    (next : ∀ b, f b ≠ .error .endless) : x >>= f ≠ .error .endless := by
  cases x with
  | error fault =>
      rintro ⟨⟩
      exact first rfl
  | ok b => exact next b

theorem params_ne_endless (params : List Param) :
    (params.mapM fun param => ctx.resolve param.typeExpr param.loc) ≠ .error .endless := by
  induction params with
  | nil => nofun
  | cons param rest ih =>
      rw [List.mapM_cons]
      exact bind_ne_endless (resolve_ne_endless _ _) fun _ => bind_ne_endless ih fun _ => nofun

theorem signatureOfDef_ne_endless (f : FunctionDef) : signatureOfDef ctx f ≠ .error .endless := by
  refine bind_ne_endless (params_ne_endless f.params) fun params => ?_
  cases f.returnType with
  | none => nofun
  | some written => exact bind_ne_endless (resolve_ne_endless _ _) fun _ => nofun

theorem collectSignatures_ne_endless (functions : List FunctionDef)
    (known : List (String × Signature)) :
    collectSignatures ctx functions known ≠ .error .endless := by
  induction functions generalizing known with
  | nil => nofun
  | cons f rest ih =>
      rw [collectSignatures]
      split
      · nofun
      · exact bind_ne_endless (signatureOfDef_ne_endless f) fun _ => ih _

theorem checkEntry_ne_endless (program : Program) : checkEntry ctx program ≠ .error .endless := by
  simp only [checkEntry]
  split
  · nofun
  · split <;> nofun

/-- A check of a program that goes on forever does so in the body of a function. -/
theorem exists_of_check_endless {settings : Settings} {file : Option String} {program : Program}
    (endless : program.check settings file = .error .endless) :
    ∃ functions after, checkFunctions { settings, file, functions } program.functions {} =
      (.error .endless, after) := by
  unfold Program.check Checker.run at endless
  dsimp only at endless
  split at endless
  · rename_i failed
    exact absurd (failed.trans (congrArg _ (Except.error.inj endless)))
      (collectSignatures_ne_endless _ _)
  · rename_i functions _
    split at endless
    · rename_i failed
      exact absurd (failed.trans (congrArg _ (Except.error.inj endless)))
        (checkEntry_ne_endless program)
    · split at endless
      · rename_i fault after ended
        obtain rfl := Except.error.inj endless
        exact ⟨functions, after, ended⟩
      · cases endless

/-- In every state, the search for the bindings whose storage a place may be ends, with what the
search with a bound finds, just when no way of it circles, and none does where no reference leads to
another one.  A check of a program that goes on forever has come to a state in which a search
circles. -/
theorem search_ends_iff (s : State) (place : PlaceId) (settings : Settings) (file : Option String)
    (program : Program) :
    ((∃ bindings, Found s place bindings) ↔ ¬ s.Circles place) ∧
    (∀ bindings, Found s place bindings ↔ s.referents place = .ok bindings) ∧
    (s.Circles place ↔ s.referents place = .error .endless) ∧
    (s.Circles place → ∃ target, (s.arena.innermostRef target).isSome ∧
      ((s.arena.ty? target).map Ty.hasRef).getD false = true) ∧
    (program.check settings file = .error .endless →
      ∃ functions after, checkFunctions { settings, file, functions } program.functions {} =
        (.error .endless, after) ∧ ∃ place, after.Circles place) := by
  refine ⟨⟨?_, fun ends => ?_⟩, fun _ => found_iff_referents, endless_iff_circles.symm,
    fun circles => circles.nested, fun endless => ?_⟩
  · rintro ⟨bindings, found⟩
    exact found.not_circles
  · cases answer : s.referents place with
    | error fault =>
        rw [referents_error answer] at answer
        exact absurd (circles_of_endless answer) ends
    | ok bindings => exact ⟨bindings, .of_referents answer⟩
  · obtain ⟨functions, after, failed⟩ := exists_of_check_endless endless
    have settles := @checkFunctions_settles { settings, file, functions } program.functions {}
    rw [Meets, failed] at settles
    exact ⟨functions, after, failed, settles rfl⟩

/-- An assignment that makes one reference borrow through another. -/
def reborrow (ident of : String) : Stmt :=
  .assign none (.name none ident) (.borrow none (.deref none (.name none of)) true) none

/-- A statement whose arms make either of two references borrow through the other, and then a third
one through the first. -/
def crossing : Stmt :=
  .expr none (.ifElse none (.literal none (.bool true))
    (.mk [reborrow "a" "b", reborrow "w" "a"] none none) (some (.mk [reborrow "b" "a"] none none)))

/-- A statement that stores a borrow through the third reference. -/
def storeAcross : Stmt :=
  .assign none (.deref none (.name none "w")) (.borrow none (.name none "n") false) none

/-- A binding to a borrow of another one. -/
def letBorrow (ident of : String) (isMut : Bool) : Stmt :=
  .letVar none ident none (some (.borrow none (.name none of) isMut)) true

/-- A function with both statements. -/
def crosses : FunctionDef :=
  { name := "main", params := [], returnType := none, loc := none
    body := .mk [.letVar none "n" none (some (.literal none (.int 1))) false,
      letBorrow "x" "n" false, letBorrow "y" "n" false, letBorrow "z" "n" false,
      letBorrow "a" "x" true, letBorrow "b" "y" true, letBorrow "w" "z" true,
      crossing, storeAcross] none none }

theorem search_ends_iff_crosses :
    Program.check {} none ⟨[crosses]⟩ = .error .endless ∧
      ∃ functions after, checkFunctions { functions } [crosses] {} = (.error .endless, after) ∧
        ∃ place, after.Circles place :=
  have endless : Program.check {} none ⟨[crosses]⟩ = .error .endless := by decide +kernel
  ⟨endless, (search_ends_iff {} 0 {} none ⟨[crosses]⟩).2.2.2.2 endless⟩

theorem eq_error_of_fst {x : Check Unit} {s : State} {fault : Fault}
    (ended : (x s).1 = .error fault) : x s = (.error fault, (x s).2) := Prod.ext ended rfl

/-- While the function is checked, a search for what the third reference points at goes on forever. -/
theorem crosses_searches_forever : ∃ s after,
    Visited {} crosses {} (.stmt storeAcross) s ∧
    (Part.stmt storeAcross).check (Context.within {} crosses) s = (.error .endless, after) ∧
    ∃ place, after.arena.render place = "*w" ∧ ¬ ∃ bindings, Found after place bindings := by
  have body : Visited {} crosses {} _ _ := .body (eq_ok_of_toBool (by decide +kernel))
  have stmts := body.within .statements (eq_ok_of_toBool (by decide +kernel))
  have second := stmts.within .moreStmts (eq_ok_of_toBool (by decide +kernel))
  have third := second.within .moreStmts (eq_ok_of_toBool (by decide +kernel))
  have fourth := third.within .moreStmts (eq_ok_of_toBool (by decide +kernel))
  have fifth := fourth.within .moreStmts (eq_ok_of_toBool (by decide +kernel))
  have sixth := fifth.within .moreStmts (eq_ok_of_toBool (by decide +kernel))
  have seventh := sixth.within .moreStmts (eq_ok_of_toBool (by decide +kernel))
  have crossed := seventh.within .moreStmts (eq_ok_of_toBool (by decide +kernel))
  have last := crossed.within .moreStmts (eq_ok_of_toBool (by decide +kernel))
  have here := last.within .stmt (eq_ok_of_toBool (by decide +kernel))
  refine ⟨_, _, here, eq_error_of_fst (by decide +kernel), 9, by decide +kernel, ?_⟩
  rintro ⟨bindings, found⟩
  exact found.not_circles (circles_of_endless (by decide +kernel))

end BorrowLang.Checker
