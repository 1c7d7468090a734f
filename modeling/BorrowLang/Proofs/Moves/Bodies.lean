import BorrowLang.Proofs.Moves.Effects
import BorrowLang.Proofs.Moves.Twice

/-!
# Bodies and bare bodies

Whatever is checked, types and move states are what the bare check makes of them.
-/

set_option autoImplicit false

namespace BorrowLang.Checker

open Moves

variable {ctx : Context} {s mid after : State}

/-- An expression is checked as the bare check does. -/
def ExprMirrors (ctx : Context) (e : Expr) : Prop :=
  ∀ s : State, s.Outlined → Mirrors (checkExpr ctx e) (expr ctx e)
    (fun value bare after => bare = value.bare ∧ Level s after) s

/-- The arguments of a call are checked as the bare check does. -/
def ArgsMirror (ctx : Context) (args : List Expr) : Prop :=
  ∀ (params : List Ty) (s : State), s.Outlined →
    Mirrors (checkArgs ctx args params) (arguments ctx args params)
      (fun _ _ after => Level s after) s

/-- The arguments of a macro are checked as the bare check does. -/
def ShownMirror (ctx : Context) (args : List Expr) : Prop :=
  ∀ s : State, s.Outlined → Mirrors (checkShown ctx args) (shown ctx args)
    (fun _ _ after => Level s after) s

/-- A statement is checked as the bare check does. -/
def StmtMirrors (ctx : Context) (statement : Stmt) : Prop :=
  ∀ s : State, s.Outlined → Mirrors (checkStmt ctx statement) (stmt ctx statement)
    (fun leaves bare after => bare = leaves ∧ Widened s after) s

/-- Statements are checked as the bare check does. -/
def StmtsMirror (ctx : Context) (statements : List Stmt) : Prop :=
  ∀ (tailNames : List String) (s : State), s.Outlined →
    Mirrors (checkStmts ctx tailNames statements) (stmts ctx statements)
      (fun leaves bare after => bare = leaves ∧ Widened s after) s

/-- A block is checked as the bare check does. -/
def BlockMirrors (ctx : Context) (body : Block) : Prop :=
  ∀ (isBody : Bool) (s : State), s.Outlined →
    Mirrors (checkBlock ctx isBody body) (block ctx body)
      (fun value bare after => bare = value.bare ∧ Level s after) s

/-! ### Checks of values -/

section Values

variable (loc : Option Position)

theorem derefValue_likewise (inner : Operand) :
    Likewise Operand.bare (derefValue ctx loc inner) (derefValue ctx loc inner.bare) := by
  have same : inner.bare.ty = inner.ty := rfl
  simp only [derefValue, same]
  cases inner.ty.pointee? with
  | none => exact .throw _
  | some target =>
      have none : (if target.hasRef then inner.bare.loans else []) = [] := ite_self _
      simp only [none]
      exact .ite (.throw _) (.pure ({ ty := target, loans := _ } : Operand))

theorem unaryOperand_likewise (op : UnaryOp) (operand : Operand) :
    Likewise Operand.bare (unaryOperand ctx loc op operand)
      (unaryOperand ctx loc op operand.bare) :=
  .ite (.pure ({ ty := _ } : Operand)) (.throw _)

theorem expectInt_likewise (op : BinaryOp) (operand : Operand) :
    Likewise id (expectInt ctx op operand loc) (expectInt ctx op operand.bare loc) :=
  .ite (.pure ()) (.throw _)

theorem binaryOperand_likewise (op : BinaryOp) (left right : Operand) (rightLoc : Option Position) :
    Likewise Operand.bare (binaryOperand ctx op left right loc rightLoc)
      (binaryOperand ctx op left.bare right.bare loc rightLoc) := by
  have integers : ∀ ty : Ty, Likewise Operand.bare (do
      expectInt ctx op left loc
      expectInt ctx op right rightLoc
      return { ty }) (do
      expectInt ctx op left.bare loc
      expectInt ctx op right.bare rightLoc
      return { ty }) := fun ty =>
    (expectInt_likewise loc op left).bind fun _ => (expectInt_likewise rightLoc op right).bind
      fun _ => .pure ({ ty } : Operand)
  cases op with
  | arith => exact integers .i32
  | order => exact integers .bool
  | eq | ne =>
      refine .ite ?_ (.throw _)
      exact (expect_likewise left.ty right rightLoc).bind fun _ => .pure ({ ty := .bool } : Operand)
  | and | or | unknown => exact .throw _

theorem ifOperand_likewise (first other : Operand) :
    Likewise Operand.bare (ifOperand ctx loc first other)
      (ifOperand ctx loc first.bare other.bare) :=
  .ite (.pure ({ ty := first.ty, diverges := true } : Operand)) <|
    .ite (.pure ({ ty := other.ty, loans := other.loans } : Operand)) <|
      .ite (.pure ({ ty := first.ty, loans := first.loans } : Operand)) <|
        .ite (.pure ({ ty := first.ty, loans := unionLoans first.loans other.loans } : Operand))
          (.throw _)

theorem ifOnlyOperand_likewise (first : Operand) :
    Likewise Operand.bare (ifOnlyOperand ctx loc first) (ifOnlyOperand ctx loc first.bare) :=
  .ite (.pure ({ ty := .unit } : Operand)) (.throw _)

theorem signatureOf_likewise (func : String) :
    Likewise id (signatureOf ctx loc func) (signatureOf ctx loc func) := by
  unfold signatureOf
  split
  · exact .pure _
  · exact .throw _

theorem checkTemplate_likewise (callee template : String) (given : Nat) :
    Likewise id (checkTemplate ctx loc callee template given)
      (checkTemplate ctx loc callee template given) := by
  unfold checkTemplate
  split
  · split
    · exact .throw _
    · split
      · exact .pure ()
      · exact .throw _
  · exact .throw _

theorem declaredType_likewise (written : Option TypeExpr) :
    Likewise id (declaredType ctx loc written) (declaredType ctx loc written) := by
  cases written with
  | none => exact .pure none
  | some written =>
      rw [declaredType]
      cases ctx.resolve written loc <;> exact ⟨fun _ => rfl, fun _ => rfl, rfl⟩

end Values

/-! ### Values of expressions -/

/-- What follows on what has left open scopes as they are. -/
theorem Mirrors.since {x : Check Operand} {y : Bare Operand} (level : Level s mid)
    (next : Mirrors x y (fun value bare after => bare = value.bare ∧ Level mid after) mid) :
    Mirrors x y (fun value bare after => bare = value.bare ∧ Level s after) mid :=
  next.mono fun _ _ _ ⟨same, later⟩ => ⟨same, level.trans later⟩

/-- The value that a check comes to is checked on, as the bare value is. -/
theorem Mirrors.answers {x : Check Operand} {y : Bare Operand} {z : Operand → Check Operand}
    {w : Operand → Check Operand}
    (inner : Mirrors x y (fun value bare after => bare = value.bare ∧ Level s after) s)
    (likewise : ∀ value, Likewise Operand.bare (z value) (w value.bare)) :
    Mirrors (x >>= z) (do Bare.answer (w (← y)))
      (fun value bare after => bare = value.bare ∧ Level s after) s := by
  refine inner.bind ?_
  rintro value _ mid outlined ⟨rfl, level⟩
  refine ((likewise value).mirrors outlined).mono ?_
  rintro result bare _ ⟨rfl, same⟩
  exact ⟨same, level⟩

theorem literal_mirrors (loc : Option Position) (value : Literal) :
    ExprMirrors ctx (.literal loc value) := by
  intro s outlined
  rw [checkExpr, expr]
  exact .pure outlined ⟨by cases value <;> rfl, .refl outlined.framed⟩

theorem used_mirrors (outlined : s.Outlined) (loc : Option Position) (e : Expr) :
    Mirrors (do Checker.usePlace ctx loc (← Checker.placeOf ctx e))
      (do Moves.usePlace (← Moves.placeOf e))
      (fun value bare after => bare = value.bare ∧ Level s after) s := by
  refine (placeOf_mirrors outlined e).bind ?_
  rintro place spot mid midOutlined ⟨level, stands⟩
  exact (usePlace_mirrors midOutlined stands loc).since level

theorem name_mirrors (loc : Option Position) (ident : String) :
    ExprMirrors ctx (.name loc ident) := by
  intro s outlined
  have used := @used_mirrors ctx s outlined loc (.name loc ident)
  rw [Checker.placeOf] at used
  rw [checkExpr, expr]
  exact used

theorem deref_mirrors (loc : Option Position) {operand : Expr} (inner : ExprMirrors ctx operand) :
    ExprMirrors ctx (.deref loc operand) := by
  intro s outlined
  rw [checkExpr, expr]
  split
  · exact used_mirrors outlined loc _
  · exact (inner s outlined).answers fun value => derefValue_likewise loc value

theorem unary_mirrors (loc : Option Position) (op : UnaryOp) {operand : Expr}
    (inner : ExprMirrors ctx operand) : ExprMirrors ctx (.unary loc op operand) := by
  intro s outlined
  rw [checkExpr, expr]
  exact (inner s outlined).answers fun value => unaryOperand_likewise loc op value

theorem binary_mirrors (loc : Option Position) (op : BinaryOp) {left right : Expr}
    (first : ExprMirrors ctx left) (second : ExprMirrors ctx right) :
    ExprMirrors ctx (.binary loc op left right) := by
  intro s outlined
  rw [checkExpr, expr]
  refine (first s outlined).bind ?_
  rintro leftValue _ mid midOutlined ⟨rfl, leftLevel⟩
  split
  · refine (expect_mirrors midOutlined .bool leftValue left.loc).bind ?_
    rintro _ _ mid _ rfl
    refine .get ?_
    have right : Mirrors (do
        let second ← checkExpr ctx right
        expect ctx .bool second right.loc) (do
        Bare.answer (expect ctx .bool (← expr ctx right) right.loc))
        (fun _ _ after => True ∧ Level mid after) mid := by
      refine (second mid midOutlined).bind ?_
      rintro value _ last lastOutlined ⟨rfl, level⟩
      refine (expect_mirrors lastOutlined .bool value right.loc).mono ?_
      rintro _ _ _ rfl
      exact ⟨trivial, level⟩
    have passes : ∀ after : State, after.Outlined → Level mid after →
        Mirrors (pure { ty := .bool } : Check Operand) (pure { ty := .bool } : Bare Operand)
          (fun value bare after => bare = value.bare ∧ Level s after) after :=
      fun after joined level => .pure joined ⟨rfl, leftLevel.trans level⟩
    have skips := orSkip_mirrors midOutlined right fun _ _ after joined _ => passes after joined
    simpa only [bind_assoc] using skips
  · refine (second mid midOutlined).bind ?_
    rintro rightValue _ last lastOutlined ⟨rfl, rightLevel⟩
    have values := @binaryOperand_likewise ctx left.loc op leftValue rightValue right.loc
    refine (values.mirrors lastOutlined).mono ?_
    rintro result bare _ ⟨rfl, same⟩
    exact ⟨same, leftLevel.trans rightLevel⟩

theorem borrowed_mirrors (loc : Option Position) {operand : Expr} (isMut : Bool)
    (inner : ExprMirrors ctx operand) : ExprMirrors ctx (.borrow loc operand isMut) := by
  intro s outlined
  rw [checkExpr, expr]
  split
  · refine (placeOf_mirrors outlined operand).bind ?_
    rintro place spot mid midOutlined ⟨level, stands⟩
    exact (borrowPlace_mirrors midOutlined stands loc isMut).since level
  · refine (inner s outlined).bind ?_
    rintro value _ mid midOutlined ⟨rfl, level⟩
    exact .pure midOutlined ⟨rfl, level⟩

theorem boxNew_mirrors (loc : Option Position) {value : Expr} (inner : ExprMirrors ctx value) :
    ExprMirrors ctx (.boxNew loc value) := by
  intro s outlined
  rw [checkExpr, expr]
  refine (inner s outlined).bind ?_
  rintro value _ mid midOutlined ⟨rfl, level⟩
  exact .pure midOutlined ⟨rfl, level⟩

/-! ### Calls -/

/-- The expression of a place uses the place. -/
theorem expr_of_isPlace {e : Expr} (isPlace : e.isPlace = true) :
    expr ctx e = (do Moves.usePlace (← Moves.placeOf e)) := by
  cases e with
  | name => rw [expr]
  | deref => rw [expr, if_pos isPlace]
  | _ => cases isPlace

/-- A value that nothing gives is no value of the checker either. -/
theorem Mirrors.never {α β : Type} {x : Check α} {y : Bare β} {same : α → β → State → Prop}
    (mirrors : Mirrors x y same s) (refuses : y s.outline = none) :
    Passes x s fun _ _ => False := by
  refine Meets.mono mirrors (fun a after known => ?_) fun _ _ _ => trivial
  obtain ⟨b, passes, -⟩ := known
  cases refuses.symm.trans passes

/-- A value that is not borrowed anew is checked like any other. -/
theorem notReborrowed_mirrors (outlined : s.Outlined) {arg : Expr} (inner : ExprMirrors ctx arg) :
    Mirrors (do
      match ← (pure none : Check (Option Operand)) with
      | some value => pure value
      | none => checkExpr ctx arg) (expr ctx arg)
      (fun value bare after => bare = value.bare ∧ Level s after) s := by
  simpa only [pure_bind] using inner s outlined

/-- A place of a `&mut` is borrowed anew. -/
theorem reborrowed_mirrors {spot : Spot} {place : PlaceId} (outlined : s.Outlined)
    (stands : s.At spot place) (loc : Option Position) {inner : Ty}
    (known : s.arena.ty? place = some (.ref true inner)) :
    Mirrors (do
      requireRead ctx loc place
      let reborrowed ← target place .mutRef inner
      let loan ← borrow ctx loc reborrowed .exclusive
      return ({ ty := .ref true inner, loans := [loan] } : Operand)) (do
      Bare.ensure (·.Whole spot.level)
      Bare.ensure (·.Whole spot.behind.level)
      return { ty := .ref true inner })
      (fun value bare after => bare = value.bare ∧ Level s after) s := by
  refine (requireRead_mirrors outlined stands loc).bind ?_
  rintro _ _ s _ rfl
  have named := target_mirrors outlined stands known (rfl : (Ty.ref true inner).pointee? = _)
  change Mirrors _ (do
    let behind ← (pure spot.behind : Bare Spot)
    Bare.ensure (·.Whole behind.level)
    return ({ ty := .ref true inner } : Operand)) _ _
  refine named.bind ?_
  rintro id behind mid midOutlined ⟨level, behindStands⟩
  refine (borrow_mirrors midOutlined behindStands loc .exclusive).bind ?_
  rintro loan _ last lastOutlined ⟨lastLevel, -⟩
  exact .pure lastOutlined ⟨rfl, level.trans lastLevel⟩

/-- An argument of a call is borrowed anew or checked like any other value. -/
def checkArgument (ctx : Context) (arg : Expr) (param : Ty) : Check Operand := do
  match ← reborrow? ctx arg param with
  | some value => pure value
  | none => checkExpr ctx arg

theorem argument_mirrors (outlined : s.Outlined) {arg : Expr} (inner : ExprMirrors ctx arg)
    (param : Ty) :
    Mirrors (checkArgument ctx arg param) (argument arg param (expr ctx arg))
      (fun value bare after => bare = value.bare ∧ Level s after) s := by
  unfold checkArgument reborrow? argument
  cases param with
  | ref isMut target =>
      cases isMut with
      | false => exact notReborrowed_mirrors outlined inner
      | true =>
          dsimp only
          split
          · rename_i isPlace
            simp only [bind_assoc]
            refine (placeOf_mirrors outlined arg).bind_known ?_
            rintro place spot mid found midOutlined ⟨level, stands⟩
            have onward := (notReborrowed_mirrors midOutlined inner).since level
            have types := stands.ty? midOutlined
            refine .get ?_
            cases known : mid.arena.ty? place with
            | none =>
                refine .of_refuses (typeOf_bind_none (types.trans known)) (onward.never ?_)
                rw [← Reads.placeOf _ _ _ _ found] at found
                rw [expr_of_isPlace isPlace]
                change (Moves.placeOf arg mid.outline).bind _ = none
                rw [found]
                exact typeOf_bind_none (types.trans known)
            | some ty =>
                simp only [Mirrors, typeOf_bind_some (types.trans known)]
                split
                · rename_i inner same
                  obtain rfl := Option.some.inj same
                  have anew := (@reborrowed_mirrors ctx mid spot place midOutlined stands arg.loc
                    inner known).since level
                  simpa only [Mirrors, bind_assoc, pure_bind] using anew
                · rename_i other
                  split
                  · exact absurd rfl (other _)
                  · exact onward
          · exact notReborrowed_mirrors outlined inner
  | _ => exact notReborrowed_mirrors outlined inner

theorem noArgs_mirror : ArgsMirror ctx [] := by
  intro params s outlined
  rw [checkArgs, arguments]
  · exact .pure outlined (.refl outlined.framed)
  all_goals rintro _ _ _ _ ⟨⟩

/-- The first of some arguments is checked before the others. -/
theorem checkArgs_argument (ctx : Context) (arg : Expr) (args : List Expr) (param : Ty)
    (params : List Ty) :
    checkArgs ctx (arg :: args) (param :: params) = (do
      let value ← checkArgument ctx arg param
      expect ctx param value arg.loc
      let rest ← checkArgs ctx args params
      return value.loans :: rest) := by
  rw [checkArgs, checkArgument, bind_assoc]
  refine congrArg _ (funext fun found => ?_)
  cases found <;> rfl

theorem moreArgs_mirror {arg : Expr} {args : List Expr} (first : ExprMirrors ctx arg)
    (others : ArgsMirror ctx args) : ArgsMirror ctx (arg :: args) := by
  intro params s outlined
  cases params with
  | nil =>
      rw [checkArgs, arguments]
      · exact .pure outlined (.refl outlined.framed)
      all_goals rintro _ _ _ _ _ ⟨⟩
  | cons param params =>
      rw [checkArgs_argument, arguments]
      refine (argument_mirrors outlined first param).bind ?_
      rintro value _ mid midOutlined ⟨rfl, level⟩
      refine (expect_mirrors midOutlined param value arg.loc).bind ?_
      rintro _ _ mid _ rfl
      rw [← bind_pure (arguments ctx args params)]
      refine (others params mid midOutlined).bind ?_
      rintro rest _ last lastOutlined lastLevel
      exact .pure lastOutlined (level.trans lastLevel)

theorem noShown_mirror : ShownMirror ctx [] := by
  intro s outlined
  rw [checkShown, shown]
  exact .pure outlined (.refl outlined.framed)

/-- One argument of a macro: a place is shown where it is, any other value is checked. -/
theorem shownFirst_mirrors (outlined : s.Outlined) {arg : Expr} (inner : ExprMirrors ctx arg) :
    Mirrors (do
      if arg.isPlace then Checker.showPlace ctx arg.loc (← Checker.placeOf ctx arg)
      else expectDisplayable ctx arg.loc (some (← checkExpr ctx arg).ty)) (do
      if arg.isPlace then Moves.showPlace ctx arg.loc (← Moves.placeOf arg)
      else Bare.answer (expectDisplayable ctx arg.loc (some (← expr ctx arg).ty)))
      (fun _ _ after => Level s after) s := by
  split
  · refine (placeOf_mirrors outlined arg).bind ?_
    rintro place spot mid midOutlined ⟨level, stands⟩
    refine (showPlace_mirrors midOutlined stands arg.loc).mono ?_
    rintro _ _ _ rfl
    exact level
  · refine (inner s outlined).bind ?_
    rintro value _ mid midOutlined ⟨rfl, level⟩
    refine ((expectDisplayable_likewise arg.loc (some value.ty)).mirrors midOutlined).mono ?_
    rintro _ _ _ ⟨rfl, -⟩
    exact level

theorem moreShown_mirror {arg : Expr} {args : List Expr} (first : ExprMirrors ctx arg)
    (others : ShownMirror ctx args) : ShownMirror ctx (arg :: args) := by
  intro s outlined
  have here := (shownFirst_mirrors outlined first).bind fun _ _ mid midOutlined level =>
    (others mid midOutlined).mono fun _ _ last later => (level.trans later : Level s last)
  rw [checkShown, shown]
  split <;> rename_i isPlace
  · simpa only [if_pos isPlace, bind_assoc] using here
  · simpa only [if_neg isPlace, bind_assoc] using here

theorem macroCall_mirrors (loc : Option Position) (callee template : String) {args : List Expr}
    (inner : ShownMirror ctx args) : ExprMirrors ctx (.macroCall loc callee template args) := by
  intro s outlined
  rw [checkExpr, expr]
  refine ((checkTemplate_likewise loc callee template args.length).mirrors outlined).bind ?_
  rintro _ _ s _ ⟨rfl, -⟩
  refine (inner s outlined).bind ?_
  rintro _ _ mid midOutlined level
  exact .pure midOutlined ⟨rfl, level⟩

theorem call_mirrors (loc : Option Position) (func : String) {args : List Expr}
    (inner : ArgsMirror ctx args) : ExprMirrors ctx (.call loc func args) := by
  intro s outlined
  rw [checkExpr, expr]
  refine ((signatureOf_likewise loc func).mirrors outlined).bind ?_
  rintro _ signature s _ ⟨rfl, rfl⟩
  refine .unless Iff.rfl trivial fun _ => ?_
  refine (inner signature.params s outlined).bind ?_
  rintro loans _ mid midOutlined level
  refine .beside (.of_stays midOutlined (storeArguments_stays loans _)
    (storeArguments_level midOutlined.framed loans _)) fun last lastOutlined lastLevel => ?_
  exact .pure lastOutlined ⟨rfl, level.trans lastLevel⟩

/-! ### Conditions -/

/-- The condition of an `if` is checked before its arms. -/
theorem ifOnly_mirrors (loc : Option Position) {condition : Expr} {thenBlock : Block}
    (test : ExprMirrors ctx condition) (thenArm : BlockMirrors ctx thenBlock) :
    ExprMirrors ctx (.ifElse loc condition thenBlock none) := by
  intro s outlined
  rw [checkExpr, expr]
  refine (test s outlined).bind ?_
  rintro cond _ mid midOutlined ⟨rfl, level⟩
  refine (expect_mirrors midOutlined .bool cond condition.loc).bind ?_
  rintro _ _ mid _ rfl
  refine .get ?_
  have skipped : ∀ s : State, s.Outlined →
      Mirrors (pure ({ ty := .unit } : Operand)) (pure ({ ty := .unit } : Operand))
        (fun value bare after => bare = value.bare ∧ Level s after) s :=
    fun s outlined => .pure outlined ⟨rfl, .refl outlined.framed⟩
  have meets := fork_mirrors midOutlined (thenArm false) skipped
    (z := fun first _ => ifOnlyOperand ctx (tailLoc thenBlock loc) first)
    (w := fun ends => Bare.answer (ifOnlyOperand ctx (tailLoc thenBlock loc) ends.1))
    fun first _ after met metLevel =>
      ((ifOnlyOperand_likewise (tailLoc thenBlock loc) first).mirrors met).mono
        fun _ _ _ ⟨unchanged, same⟩ =>
          (⟨same, unchanged ▸ level.trans metLevel⟩ : _ ∧ Level s _)
  simpa only [pure_bind] using meets

theorem ifElse_mirrors (loc : Option Position) {condition : Expr} {thenBlock elseBlock : Block}
    (test : ExprMirrors ctx condition) (thenArm : BlockMirrors ctx thenBlock)
    (elseArm : BlockMirrors ctx elseBlock) :
    ExprMirrors ctx (.ifElse loc condition thenBlock (some elseBlock)) := by
  intro s outlined
  rw [checkExpr, expr]
  refine (test s outlined).bind ?_
  rintro cond _ mid midOutlined ⟨rfl, level⟩
  refine (expect_mirrors midOutlined .bool cond condition.loc).bind ?_
  rintro _ _ mid _ rfl
  refine .get (fork_mirrors midOutlined (thenArm false) (elseArm false) ?_)
  intro first other after met metLevel
  refine ((ifOperand_likewise loc first other).mirrors met).mono ?_
  rintro _ _ _ ⟨rfl, same⟩
  exact ⟨same, level.trans metLevel⟩

theorem block_mirrors (loc : Option Position) {body : Block} (inner : BlockMirrors ctx body) :
    ExprMirrors ctx (.block loc body) := by
  intro s outlined
  rw [checkExpr, expr]
  exact inner false s outlined

/-! ### Statements -/

/-- Names that are mentioned later are no part of what is known. -/
theorem names_beside (outlined : s.Outlined) (f : LiveNames → LiveNames) :
    Beside (modify fun s => { s with live := f s.live } : Check Unit) s := by
  refine .of_still outlined ?_
  rw [meets_modify]
  exact ⟨⟨⟨rfl, rfl⟩, rfl⟩, .of_same outlined.framed rfl rfl rfl⟩

theorem enterNames_beside (outlined : s.Outlined) (names : List String) :
    Beside (enterNames names) s :=
  names_beside outlined (·.enter names)

theorem exitNames_beside (outlined : s.Outlined) : Beside exitNames s :=
  names_beside outlined fun live => live.exit?.getD live

theorem checkLet_eq (loc : Option Position) (ident : String) (written : Option TypeExpr)
    (value : Option Expr) (isMut : Bool) :
    checkStmt ctx (.letVar loc ident written value isMut) = (do
      let declared ← declaredType ctx loc written
      match value with
      | none =>
          let _ ← bind ident declared isMut false false
      | some value =>
          let operand ← checkExpr ctx value
          if let some ty := declared then expect ctx ty operand value.loc
          let place ← bind ident (declared <|> some operand.ty) isMut false true
          if !operand.loans.isEmpty then storeLoans ctx place operand.loans
      return false) := by
  cases value <;> cases written <;>
    simp only [checkStmt, declaredType, bind_assoc, pure_bind]

theorem letUnset_mirrors (loc : Option Position) (ident : String) (written : Option TypeExpr)
    (isMut : Bool) : StmtMirrors ctx (.letVar loc ident written none isMut) := by
  intro s outlined
  rw [checkLet_eq, stmt]
  refine ((declaredType_likewise loc written).mirrors outlined).bind ?_
  rintro _ declared s _ ⟨rfl, rfl⟩
  refine (bind_mirrors outlined ident declared isMut false false).bind ?_
  rintro place _ mid midOutlined ⟨widened, -⟩
  exact .pure midOutlined ⟨rfl, widened⟩

theorem letVar_mirrors (loc : Option Position) (ident : String) (written : Option TypeExpr)
    {value : Expr} (isMut : Bool) (inner : ExprMirrors ctx value) :
    StmtMirrors ctx (.letVar loc ident written (some value) isMut) := by
  intro s outlined
  rw [checkLet_eq, stmt]
  refine ((declaredType_likewise loc written).mirrors outlined).bind ?_
  rintro _ declared s _ ⟨rfl, rfl⟩
  refine (inner s outlined).bind ?_
  rintro operand _ mid midOutlined ⟨rfl, level⟩
  have bound : Mirrors (do
      let place ← bind ident (declared <|> some operand.ty) isMut false true
      if !operand.loans.isEmpty then storeLoans ctx place operand.loans
      return false) (do
      declare ident (declared <|> some operand.ty) isMut true
      return false) (fun leaves bare after => bare = leaves ∧ Widened s after) mid := by
    refine (bind_mirrors midOutlined ident _ isMut false true).bind ?_
    rintro place _ last lastOutlined ⟨widened, opened⟩
    have whole := level.widened.trans widened
    split
    · refine .beside (.of_stays lastOutlined (storeLoans_stays place operand.loans)
        (storeLoans_level lastOutlined.framed opened operand.loans)) fun stored there since => ?_
      exact .pure there ⟨rfl, whole.trans since.widened⟩
    · exact .pure lastOutlined ⟨rfl, whole⟩
  cases declared with
  | none => exact bound
  | some ty =>
      refine (expect_mirrors midOutlined ty operand value.loc).bind ?_
      rintro _ _ mid _ rfl
      exact bound

theorem assign_mirrors (loc : Option Position) (target : Expr) {value : Expr} (op : Option BinaryOp)
    (inner : ExprMirrors ctx value) : StmtMirrors ctx (.assign loc target value op) := by
  intro s outlined
  rw [checkStmt, stmt]
  refine .unless (by simp) trivial fun _ => ?_
  refine (inner s outlined).bind ?_
  rintro operand _ mid midOutlined ⟨rfl, level⟩
  refine (placeOf_mirrors midOutlined target).bind ?_
  rintro place spot found foundOutlined ⟨foundLevel, stands⟩
  refine (assignType_mirrors foundOutlined stands loc value.loc target.loc operand op).bind ?_
  rintro _ _ typed typedOutlined typedLevel
  have there := stands.level foundOutlined typedLevel typedOutlined.built
  refine (assignPlace_mirrors typedOutlined there target.loc value.loc operand).bind ?_
  rintro _ _ last lastOutlined lastLevel
  have whole := ((level.trans foundLevel).trans typedLevel).trans lastLevel
  exact .pure lastOutlined ⟨rfl, whole.widened⟩

theorem checkEscape_beside (outlined : s.Outlined) (loans : List BorrowId) (loc : Option Position) :
    Beside (checkEscape ctx loans loc false) s := by
  refine .of_stays outlined (checkEscape_stays loans loc false) ?_
  refine (checkEscape_passes loans loc false).mono ?_
  rintro _ _ rfl
  exact .refl outlined.framed

theorem returnValue_mirrors (outlined : s.Outlined) (value : Operand) (loc : Option Position) :
    Mirrors (do
      returnValue ctx value loc
      return true) (do
      Bare.answer (expect ctx ctx.result value.bare loc)
      return true) (fun leaves bare after => bare = leaves ∧ Level s after) s := by
  rw [returnValue, bind_assoc]
  refine (expect_mirrors outlined ctx.result value loc).bind ?_
  rintro _ _ s _ rfl
  exact .beside (checkEscape_beside outlined value.loans loc)
    fun last lastOutlined lastLevel => .pure lastOutlined ⟨rfl, lastLevel⟩

theorem retUnit_mirrors (loc : Option Position) : StmtMirrors ctx (.ret loc none) := by
  intro s outlined
  rw [checkStmt, stmt]
  exact (returnValue_mirrors outlined { ty := .unit } loc).mono fun _ _ _ ⟨same, level⟩ =>
    ⟨same, level.widened⟩

theorem ret_mirrors (loc : Option Position) {value : Expr} (inner : ExprMirrors ctx value) :
    StmtMirrors ctx (.ret loc (some value)) := by
  intro s outlined
  rw [checkStmt, stmt]
  refine (inner s outlined).bind ?_
  rintro operand _ mid midOutlined ⟨rfl, level⟩
  exact (returnValue_mirrors midOutlined operand value.loc).mono fun _ _ _ ⟨same, later⟩ =>
    ⟨same, (level.trans later).widened⟩

/-- One pass over a loop is checked as the bare one is. -/
theorem turn_mirrors (outlined : s.Outlined) {condition : Expr} {body : Block}
    (test : ExprMirrors ctx condition) (inner : BlockMirrors ctx body)
    (conditionLoc bodyLoc : Option Position) :
    Mirrors
      (loopPass ctx conditionLoc bodyLoc (checkExpr ctx condition) (checkBlock ctx false body))
      (turn ctx conditionLoc (expr ctx condition) (block ctx body))
      (fun _ _ after => Level s after) s := by
  unfold loopPass turn
  refine (test s outlined).bind ?_
  rintro cond _ mid midOutlined ⟨rfl, level⟩
  refine (expect_mirrors midOutlined .bool cond conditionLoc).bind ?_
  rintro _ _ mid _ rfl
  refine .beside (.of_stays midOutlined (modifyTracker_stays rfl)
    (endTemporaries_level midOutlined.framed [])) fun begun begunOutlined begunLevel => ?_
  refine (inner false begun begunOutlined).bind ?_
  rintro value _ last lastOutlined ⟨rfl, lastLevel⟩
  rw [← bind_pure_unit (x := Bare.ensure _)]
  refine .unless ?_ trivial fun _ => ?_
  · change (!value.diverges && decide (value.ty ≠ .unit)) = true ↔
      ¬(value.diverges = true ∨ value.ty = .unit)
    rw [Bool.and_eq_true, Bool.not_eq_true', decide_eq_true_iff, not_or, Bool.not_eq_true]
  · exact .pure lastOutlined ((level.trans begunLevel).trans lastLevel)

theorem while_mirrors (loc : Option Position) {condition : Expr} {body : Block}
    (test : ExprMirrors ctx condition) (inner : BlockMirrors ctx body) :
    StmtMirrors ctx (.whileLoop loc condition body) := by
  intro s outlined
  rw [checkStmt, stmt]
  refine .get ?_
  have passes : Mirrors (do
      enterNames (condition.names ++ body.names)
      let pass :=
        loopPass ctx condition.loc (tailLoc body loc) (checkExpr ctx condition)
          (checkBlock ctx false body)
      pass
      pass
      exitNames) (do
      turn ctx condition.loc (expr ctx condition) (block ctx body)
      turn ctx condition.loc (expr ctx condition) (block ctx body))
      (fun _ _ after => True ∧ Level s after) s := by
    refine .beside (enterNames_beside outlined _) fun entered there level => ?_
    refine (turn_mirrors there test inner _ _).bind ?_
    rintro _ _ first firstOutlined firstLevel
    rw [← bind_pure (turn ctx condition.loc (expr ctx condition) (block ctx body))]
    refine (turn_mirrors firstOutlined test inner _ _).bind ?_
    rintro _ _ second secondOutlined secondLevel
    refine (exitNames_beside secondOutlined).mirrors.mono ?_
    rintro _ _ left ⟨-, leftLevel⟩
    exact ⟨trivial, ((level.trans firstLevel).trans secondLevel).trans leftLevel⟩
  have ends : ∀ after : State, after.Outlined → Level s after →
      Mirrors (pure false : Check Bool) (pure false : Bare Bool)
        (fun leaves bare after => bare = leaves ∧ Widened s after) after :=
    fun after joined level => .pure joined ⟨rfl, level.widened⟩
  have skips := orSkip_mirrors outlined passes fun _ _ after joined _ => ends after joined
  simpa only [bind_assoc] using skips

theorem exprStmt_mirrors (loc : Option Position) {value : Expr} (inner : ExprMirrors ctx value) :
    StmtMirrors ctx (.expr loc value) := by
  intro s outlined
  rw [checkStmt, stmt]
  refine (inner s outlined).bind ?_
  rintro operand _ mid midOutlined ⟨rfl, level⟩
  exact .pure midOutlined ⟨rfl, level.widened⟩

/-! ### Sequences and blocks -/

theorem noStmts_mirror : StmtsMirror ctx [] := by
  intro tailNames s outlined
  rw [checkStmts, stmts]
  exact .pure outlined ⟨rfl, (Level.refl outlined.framed).widened⟩

theorem moreStmts_mirror {statement : Stmt} {rest : List Stmt} (first : StmtMirrors ctx statement)
    (others : StmtsMirror ctx rest) : StmtsMirror ctx (statement :: rest) := by
  intro tailNames s outlined
  rw [checkStmts, stmts]
  refine .beside (enterNames_beside outlined _) fun entered there level => ?_
  refine (first entered there).bind ?_
  rintro leaves _ mid midOutlined ⟨rfl, widened⟩
  refine .beside (.of_stays midOutlined endStatement_stays (endStatement_level midOutlined.framed))
    fun ended endedOutlined endedLevel => ?_
  refine .beside (exitNames_beside endedOutlined) fun left leftOutlined leftLevel => ?_
  refine (others tailNames left leftOutlined).bind ?_
  rintro later _ last lastOutlined ⟨rfl, lastWidened⟩
  have before := (level.widened.trans widened).trans (endedLevel.trans leftLevel).widened
  exact .pure lastOutlined ⟨rfl, before.trans lastWidened⟩

theorem checkBlock_body (isBody : Bool) (statements : List Stmt) (loc : Option Position) :
    checkBlock ctx isBody (.mk statements none loc) = (do
      beginBlock
      let value : Operand ← (do return { ty := .unit, diverges := ← checkStmts ctx [] statements })
      endBlock ctx loc value.loans
      return value) := by
  simp only [checkBlock, bind_assoc, pure_bind]

theorem body_mirrors (loc : Option Position) {statements : List Stmt}
    (inner : StmtsMirror ctx statements) : BlockMirrors ctx (.mk statements none loc) := by
  intro isBody s outlined
  rw [checkBlock_body, block]
  refine inScope_mirrors outlined loc fun s outlined => ?_
  refine (inner [] s outlined).bind ?_
  rintro leaves _ mid midOutlined ⟨rfl, widened⟩
  exact .pure midOutlined ⟨rfl, widened⟩

/-- The value of a block with a last expression, before its scope is closed. -/
def tailedValue (ctx : Context) (isBody : Bool) (statements : List Stmt) (tail : Expr) :
    Check Operand := do
  let leaves ← checkStmts ctx tail.names statements
  let value ← checkExpr ctx tail
  if isBody then checkEscape ctx value.loans tail.loc false
  return { value with diverges := leaves || value.diverges }

theorem checkBlock_tailed (isBody : Bool) (statements : List Stmt) (tail : Expr)
    (loc : Option Position) :
    checkBlock ctx isBody (.mk statements (some tail) loc) = (do
      beginBlock
      let value ← tailedValue ctx isBody statements tail
      endBlock ctx loc value.loans
      return value) := by
  cases isBody <;>
    simp only [checkBlock, tailedValue, bind_assoc, pure_bind, if_true, Bool.false_eq_true,
      if_false]

theorem tailedValue_mirrors (outlined : s.Outlined) (isBody : Bool) {statements : List Stmt}
    {tail : Expr} (inner : StmtsMirror ctx statements) (last : ExprMirrors ctx tail) :
    Mirrors (tailedValue ctx isBody statements tail) (do
      let leaves ← stmts ctx statements
      let value ← expr ctx tail
      return { value with diverges := leaves || value.diverges })
      (fun value bare after => bare = value.bare ∧ Widened s after) s := by
  refine (inner tail.names s outlined).bind ?_
  rintro leaves _ mid midOutlined ⟨rfl, widened⟩
  refine (last mid midOutlined).bind ?_
  rintro value _ done doneOutlined ⟨rfl, level⟩
  have whole := widened.trans level.widened
  split
  · refine .beside (checkEscape_beside doneOutlined value.loans tail.loc)
      fun ended endedOutlined endedLevel => ?_
    exact .pure endedOutlined ⟨rfl, whole.trans endedLevel.widened⟩
  · exact .pure doneOutlined ⟨rfl, whole⟩

theorem tailed_mirrors (loc : Option Position) {statements : List Stmt} {tail : Expr}
    (inner : StmtsMirror ctx statements) (last : ExprMirrors ctx tail) :
    BlockMirrors ctx (.mk statements (some tail) loc) := by
  intro isBody s outlined
  rw [checkBlock_tailed, block]
  exact inScope_mirrors outlined loc fun s outlined =>
    tailedValue_mirrors outlined isBody inner last

/-! ### Whole bodies -/

mutual

theorem expr_mirrors : (e : Expr) → ExprMirrors ctx e
  | .literal loc value => literal_mirrors loc value
  | .name loc ident => name_mirrors loc ident
  | .deref loc operand => deref_mirrors loc (expr_mirrors operand)
  | .unary loc op operand => unary_mirrors loc op (expr_mirrors operand)
  | .binary loc op left right => binary_mirrors loc op (expr_mirrors left) (expr_mirrors right)
  | .borrow loc operand isMut => borrowed_mirrors loc isMut (expr_mirrors operand)
  | .call loc func args => call_mirrors loc func (args_mirror args)
  | .boxNew loc value => boxNew_mirrors loc (expr_mirrors value)
  | .macroCall loc callee template args =>
      macroCall_mirrors loc callee template (shown_mirror args)
  | .ifElse loc condition thenBlock none =>
      ifOnly_mirrors loc (expr_mirrors condition) (blocks_mirror thenBlock)
  | .ifElse loc condition thenBlock (some elseBlock) =>
      ifElse_mirrors loc (expr_mirrors condition) (blocks_mirror thenBlock)
        (blocks_mirror elseBlock)
  | .block loc body => block_mirrors loc (blocks_mirror body)
  | .ofStmt _ | .ofBlock _ => fun s outlined => by
      rw [checkExpr, expr]
      exact .of_refuses rfl trivial

theorem args_mirror : (args : List Expr) → ArgsMirror ctx args
  | [] => noArgs_mirror
  | arg :: args => moreArgs_mirror (expr_mirrors arg) (args_mirror args)

theorem shown_mirror : (args : List Expr) → ShownMirror ctx args
  | [] => noShown_mirror
  | arg :: args => moreShown_mirror (expr_mirrors arg) (shown_mirror args)

theorem stmt_mirrors : (statement : Stmt) → StmtMirrors ctx statement
  | .letVar loc ident written none isMut => letUnset_mirrors loc ident written isMut
  | .letVar loc ident written (some value) isMut =>
      letVar_mirrors loc ident written isMut (expr_mirrors value)
  | .assign loc target value op => assign_mirrors loc target op (expr_mirrors value)
  | .ret loc none => retUnit_mirrors loc
  | .ret loc (some value) => ret_mirrors loc (expr_mirrors value)
  | .whileLoop loc condition body => while_mirrors loc (expr_mirrors condition) (blocks_mirror body)
  | .expr loc value => exprStmt_mirrors loc (expr_mirrors value)
  | .ofExpr _ | .ofBlock _ => fun s outlined => by
      rw [checkStmt, stmt]
      exact .of_refuses rfl trivial

theorem stmts_mirror : (statements : List Stmt) → StmtsMirror ctx statements
  | [] => noStmts_mirror
  | statement :: rest => moreStmts_mirror (stmt_mirrors statement) (stmts_mirror rest)

theorem blocks_mirror : (body : Block) → BlockMirrors ctx body
  | .mk statements none loc => body_mirrors loc (stmts_mirror statements)
  | .mk statements (some tail) loc =>
      tailed_mirrors loc (stmts_mirror statements) (expr_mirrors tail)

end

end BorrowLang.Checker
