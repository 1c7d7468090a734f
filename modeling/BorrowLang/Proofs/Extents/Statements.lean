import BorrowLang.Proofs.Extents.Expressions

/-!
# Statements, blocks and arms keep their extents

At the end of a statement the temporaries end, but for those of the statements around it; at the end
of a block those end too.  No number of a borrow that has ended is given out again, and the names that
are mentioned later are the same after a statement as before it.
-/

set_option autoImplicit false

namespace BorrowLang.Checker

variable {ctx : Context} {s mid after : State}

/-- A statement gives out new numbers only, and leaves the names that are mentioned later alone. -/
def StmtSteady (ctx : Context) (stmt : Stmt) : Prop :=
  ∀ s : State, Passes (checkStmt ctx stmt) s fun _ after => Steady s after

def StmtsSteady (ctx : Context) (stmts : List Stmt) : Prop :=
  ∀ (tailNames : List String) (s : State),
    Passes (checkStmts ctx tailNames stmts) s fun _ after => Steady s after

/-! ### Statements -/

theorem letUnset_steady (loc : Option Position) (ident : String) (written : Option TypeExpr)
    (isMut : Bool) : StmtSteady ctx (.letVar loc ident written none isMut) := by
  intro s
  have bound : ∀ declared : Option Ty,
      Passes (bind ident declared isMut false false) s fun _ after => Steady s after :=
    fun declared => (bind_around ident declared isMut false false).mono
      fun _ _ around => around.toSteady
  cases written with
  | none =>
      simp only [checkStmt, meets_bind, meets_pure]
      exact bound none
  | some written =>
      simp only [checkStmt, meets_bind, meets_pure]
      refine (resolved_passes written loc).mono ?_
      rintro declared after rfl
      exact bound (some declared)

theorem letVar_steady (loc : Option Position) (ident : String) (written : Option TypeExpr)
    {value : Expr} (isMut : Bool) (inner : ExprAround ctx value) :
    StmtSteady ctx (.letVar loc ident written (some value) isMut) := by
  intro s
  have bound : ∀ (declared : Option Ty) (operand : Operand) (mid : State), Steady s mid →
      Apart s operand.loans → Passes (do
        let place ← bind ident (declared <|> some operand.ty) isMut false true
        if !operand.loans.isEmpty then storeLoans ctx place operand.loans
        return false) mid fun _ after => Steady s after := by
    intro declared operand mid steady apart
    simp only [meets_bind]
    refine (bind_around ident _ isMut false true).mono fun place last declares => ?_
    have whole := steady.trans declares.toSteady
    split
    · simp only [meets_bind, meets_pure]
      exact storeLoans_steady whole place apart
    · exact whole
  cases written with
  | none =>
      simp only [checkStmt, meets_bind, meets_pure]
      refine (inner s).mono ?_
      rintro operand mid ⟨around, apart⟩
      simpa only [Passes, meets_bind, meets_pure] using
        bound none operand mid around.toSteady apart
  | some written =>
      simp only [checkStmt, meets_bind, meets_pure]
      refine (resolved_passes written loc).mono ?_
      rintro ty _ rfl
      refine (inner _).mono ?_
      rintro operand mid ⟨around, apart⟩
      refine (expect_passes ty operand value.loc).mono ?_
      rintro _ _ ⟨rfl, -⟩
      simpa only [Passes, meets_bind, meets_pure] using
        bound (some ty) operand _ around.toSteady apart

/-- Fixing a type that was left open touches no borrow. -/
theorem assignType_around (loc valueLoc targetLoc : Option Position) (place : PlaceId)
    (value : Operand) (op : Option BinaryOp) :
    Passes (assignType ctx loc valueLoc targetLoc place value op) s fun _ after =>
      Around true s after := by
  simp only [assignType, meets_bind, meets_get]
  cases op with
  | some op =>
      simp only [meets_bind]
      refine (requireRead_passes targetLoc place).mono ?_
      rintro - after rfl
      split
      · trivial
      · exact .refl _
  | none =>
      cases s.arena.ty? place with
      | none =>
          simp only [meets_set]
          exact .of_same rfl (Nat.le_refl _) rfl
      | some ty =>
          refine (expect_passes ty value valueLoc).mono ?_
          rintro _ _ ⟨rfl, -⟩
          exact .refl _

theorem assignPlace_steady (steady : Steady s mid) (targetLoc valueLoc : Option Position)
    (place : PlaceId) {value : Operand} (apart : Apart s value.loans) :
    Passes (assignPlace ctx targetLoc valueLoc place value) mid fun _ after => Steady s after := by
  have stored : ∀ last, Steady s last → Passes (do
      modifyTracker (·.markLive mid.arena place)
      if !value.loans.isEmpty then
        if (mid.arena.innermostRef place).isNone then
          storeLoans ctx (mid.arena.root place) value.loans
        else if !(← storeInto ctx [place] value.loans valueLoc) then
          storeLoans ctx (mid.arena.root place) value.loans) last fun _ after => Steady s after := by
    intro last before
    simp only [modifyTracker, meets_bind, meets_modify]
    have marked : Steady s { last with tracker := last.tracker.markLive mid.arena place } :=
      before.trans (.of_subset rfl rfl fun _ member => member)
    split
    · split
      · exact storeLoans_steady marked _ apart
      · simp only [meets_bind]
        refine (storeInto_around [place] value.loans valueLoc).mono fun _ shared later => ?_
        have whole := marked.trans later.toSteady
        split
        · exact storeLoans_steady whole _ apart
        · exact whole
    · exact marked
  simp only [assignPlace]
  rw [Passes, meets_bind, meets_get, meets_bind]
  refine (guard_passes targetLoc _).mono ?_
  rintro - _ rfl
  split
  · rw [modifyTracker, meets_bind, meets_modify]
    exact stored _ (steady.trans (endHeldBy_steady _))
  · exact stored _ steady

theorem assign_steady (loc : Option Position) (target : Expr) {value : Expr}
    (op : Option BinaryOp) (inner : ExprAround ctx value) :
    StmtSteady ctx (.assign loc target value op) := by
  intro s
  simp only [checkStmt]
  split
  · trivial
  simp only [meets_bind, meets_pure]
  refine (inner s).mono ?_
  rintro operand mid ⟨around, apart⟩
  refine (placeOf_around target).mono fun place found named => ?_
  refine (assignType_around loc value.loc target.loc place operand op).mono fun _ fixed typed => ?_
  have whole := (around.toSteady.trans named.toSteady).trans typed.toSteady
  exact assignPlace_steady whole target.loc value.loc place apart

theorem ret_steady (loc : Option Position) {value : Expr} (inner : ExprAround ctx value) :
    StmtSteady ctx (.ret loc (some value)) := by
  intro s
  simp only [checkStmt, meets_bind, meets_pure]
  refine (inner s).mono ?_
  rintro operand mid ⟨around, -⟩
  refine (returnValue_passes operand value.loc).mono ?_
  rintro _ _ ⟨rfl, -⟩
  exact around.toSteady

theorem retUnit_steady (loc : Option Position) : StmtSteady ctx (.ret loc none) := by
  intro s
  simp only [checkStmt, meets_bind, meets_pure]
  refine (returnValue_passes { ty := .unit } loc).mono ?_
  rintro _ _ ⟨rfl, -⟩
  exact .refl _

/-- The condition of an `if` or of a loop has been checked. -/
theorem condition_around {condition : Expr} (test : ExprAround ctx condition)
    (loc : Option Position) : Passes (do
      let cond ← checkExpr ctx condition
      expect ctx .bool cond loc) s fun _ after => Around condition.spares s after := by
  simp only [meets_bind]
  refine (test s).mono ?_
  rintro cond mid ⟨around, -⟩
  refine (expect_passes .bool cond loc).mono ?_
  rintro _ _ ⟨rfl, -⟩
  exact around

/-- The condition of a loop has been checked, and its temporaries have ended. -/
theorem loopCondition_steady {condition : Expr} (test : ExprAround ctx condition)
    (loc : Option Position) : Passes (do
      let cond ← checkExpr ctx condition
      expect ctx .bool cond loc
      modifyTracker (·.endTemporaries [])) s fun _ after => Steady s after := by
  have tested := condition_around (s := s) test loc
  simp only [modifyTracker, meets_bind, meets_modify] at tested ⊢
  refine tested.onOk fun cond mid fits => fits.onOk fun _ last around => ?_
  exact around.toSteady.trans (endTemporaries_steady [])

theorem loopPass_steady {condition : Expr} {body : Block} (test : ExprAround ctx condition)
    (inner : BlockAround ctx body) (conditionLoc bodyLoc : Option Position) :
    Passes (loopPass ctx conditionLoc bodyLoc (checkExpr ctx condition) (checkBlock ctx false body))
      s fun _ after => Steady s after := by
  have tested := loopCondition_steady (s := s) test conditionLoc
  simp only [loopPass, meets_bind] at tested ⊢
  refine tested.onOk fun cond mid fits => fits.onOk fun _ mid ended => ended.onOk ?_
  intro _ begun steady
  refine (inner false begun).mono ?_
  rintro value after ⟨around, -⟩
  split
  · trivial
  · exact steady.trans around.toSteady

theorem while_steady (loc : Option Position) {condition : Expr} {body : Block}
    (test : ExprAround ctx condition) (inner : BlockAround ctx body) :
    StmtSteady ctx (.whileLoop loc condition body) := by
  intro s
  simp only [checkStmt, enterNames, exitNames, modifyTracker, meets_bind, meets_get, meets_modify,
    meets_pure]
  refine (loopPass_steady test inner _ _).mono fun _ first firstPass => ?_
  refine (loopPass_steady test inner _ _).mono fun _ second secondPass => ?_
  -- The path that never enters the loop comes back with the borrows it left with.
  exact ((firstPass.trans secondPass).exit).join.toSteady

theorem exprStmt_steady (loc : Option Position) {value : Expr} (inner : ExprAround ctx value) :
    StmtSteady ctx (.expr loc value) := by
  intro s
  simp only [checkStmt, meets_bind, meets_pure]
  exact (inner s).mono fun _ _ met => met.1.toSteady

/-! ### Sequences and blocks -/

theorem noStmts_steady : StmtsSteady ctx [] := by
  intro tailNames s
  simp only [checkStmts]
  exact .refl s

/-- The first of some statements, up to the end of what holds for it alone. -/
theorem stmtsFirst_steady {stmt : Stmt} (first : StmtSteady ctx stmt) (names : List String) :
    Passes (do
      enterNames names
      let _ ← checkStmt ctx stmt
      endStatement ctx
      exitNames) s fun _ after => Steady s after := by
  simp only [enterNames, exitNames, meets_bind, meets_modify]
  refine (first _).mono fun leaves mid steady => ?_
  exact endStatement_steady.mono fun _ ended later => (steady.trans later).exit

theorem moreStmts_steady {stmt : Stmt} {rest : List Stmt} (first : StmtSteady ctx stmt)
    (others : StmtsSteady ctx rest) : StmtsSteady ctx (stmt :: rest) := by
  intro tailNames s
  have here := stmtsFirst_steady (s := s) first (namesOfStmts rest ++ tailNames)
  simp only [checkStmts, enterNames, exitNames, meets_bind, meets_modify, meets_pure] at here ⊢
  refine here.onOk fun leaves mid stmtEnds => stmtEnds.onOk fun _ ended steady => ?_
  exact (others tailNames _).mono fun later after more => steady.trans more

theorem beginBlock_around :
    Around true s { s with tracker := s.tracker.pushFrame, scopes := [] :: s.scopes } :=
  .of_same rfl (Nat.le_refl _) rfl

theorem body_around (loc : Option Position) {stmts : List Stmt} (inner : StmtsSteady ctx stmts) :
    BlockAround ctx (.mk stmts none loc) := by
  intro isBody s
  simp only [checkBlock, beginBlock, meets_bind, meets_modify, meets_pure]
  refine (inner [] _).mono fun leaves mid steady => ?_
  refine (endBlock_around (beginBlock_around.toSteady.trans steady) loc (.nil s)).mono ?_
  exact fun _ after around => ⟨around, .nil s⟩

theorem tailed_around (loc : Option Position) {stmts : List Stmt} {tail : Expr}
    (inner : StmtsSteady ctx stmts) (last : ExprAround ctx tail) :
    BlockAround ctx (.mk stmts (some tail) loc) := by
  intro isBody s
  simp only [checkBlock, beginBlock]
  rw [Passes, meets_bind, meets_modify, meets_bind]
  refine (inner tail.names _).mono fun leaves mid steady => ?_
  rw [meets_bind]
  refine (last mid).mono ?_
  rintro value done ⟨around, apart⟩
  have before := beginBlock_around.toSteady.trans steady
  have outside := apart.since before
  have ended : Passes (do
      endBlock ctx loc value.loans
      return { value with diverges := leaves || value.diverges }) done
        fun value after => Around false s after ∧ Apart s value.loans := by
    simp only [meets_bind, meets_pure]
    exact (endBlock_around (before.trans around.toSteady) loc outside).mono
      fun _ _ around => ⟨around, outside⟩
  split
  · rw [meets_bind]
    refine (checkEscape_passes value.loans tail.loc false).mono ?_
    rintro - _ rfl
    exact ended
  · exact ended

/-! ### Arms -/

/-- An `if` carries at most the borrows that its arms carry. -/
theorem ifOperand_apart (loc : Option Position) {first other : Operand}
    (apart : Apart s first.loans) (otherApart : Apart s other.loans) :
    Passes (ifOperand ctx loc first other) mid fun value after =>
      after = mid ∧ Apart s value.loans := by
  unfold ifOperand
  split
  · exact ⟨rfl, .nil s⟩
  split
  · exact ⟨rfl, otherApart⟩
  split
  · exact ⟨rfl, apart⟩
  split
  · exact ⟨rfl, apart.union otherApart⟩
  · trivial

theorem ifOnlyOperand_loans (loc : Option Position) (first : Operand) :
    Passes (ifOnlyOperand ctx loc first) s fun value after => after = s ∧ value.loans = [] := by
  unfold ifOnlyOperand
  split
  · exact ⟨rfl, rfl⟩
  · trivial

theorem ifOnly_around (loc : Option Position) {condition : Expr} {thenBlock : Block}
    (test : ExprAround ctx condition) (thenArm : BlockAround ctx thenBlock) :
    ExprAround ctx (.ifElse loc condition thenBlock none) := by
  intro s
  have tested := condition_around (s := s) test condition.loc
  rw [Expr.spares]
  simp only [checkExpr, modifyTracker, meets_bind, meets_get, meets_modify] at tested ⊢
  refine tested.onOk fun cond mid fits => fits.onOk fun _ before around => ?_
  refine (thenArm false before).mono ?_
  rintro first thenEnd ⟨thenAround, -⟩
  refine (ifOnlyOperand_loans _ first).mono ?_
  rintro value _ ⟨rfl, none⟩
  rw [none]
  refine ⟨around.spare ?_, .nil s⟩
  -- The path around the arm brings back every borrow, whether or not the arm gets to the end.
  have steady := thenAround.toSteady
  unfold meet
  split
  · exact steady.swap
  · split
    · rename_i impossible
      simp at impossible
    · exact ⟨⟨steady.live, steady.next, steady.join.each⟩, steady.join.kept, steady.join.ended⟩

theorem ifElse_around (loc : Option Position) {condition : Expr} {thenBlock elseBlock : Block}
    (test : ExprAround ctx condition) (thenArm : BlockAround ctx thenBlock)
    (elseArm : BlockAround ctx elseBlock) :
    ExprAround ctx (.ifElse loc condition thenBlock (some elseBlock)) := by
  intro s
  have tested := condition_around (s := s) test condition.loc
  rw [Expr.spares]
  simp only [checkExpr, modifyTracker, meets_bind, meets_get, meets_modify] at tested ⊢
  refine tested.onOk fun cond mid fits => fits.onOk fun _ before around => ?_
  refine (thenArm false before).mono ?_
  rintro first thenEnd ⟨thenAround, apart⟩
  have swapped := thenAround.toSteady.swap
  refine (elseArm false _).mono ?_
  rintro other elseEnd ⟨elseAround, otherApart⟩
  have otherWay : Around false before elseEnd := swapped.trans elseAround
  have met := thenAround.meet otherWay elseAround.next first.diverges other.diverges
  have before := around.toSteady
  refine (ifOperand_apart loc (apart.since before)
    ((otherApart.since swapped.toSteady).since before)).mono ?_
  rintro value _ ⟨rfl, carried⟩
  refine ⟨?_, carried⟩
  have whole := around.trans met
  rwa [Bool.and_false] at whole

theorem block_around (loc : Option Position) {body : Block} (inner : BlockAround ctx body) :
    ExprAround ctx (.block loc body) := by
  intro s
  rw [Expr.spares]
  simp only [checkExpr]
  exact inner false s

/-! ### Whole bodies -/

mutual

theorem expr_around : (e : Expr) → ExprAround ctx e
  | .literal loc value => literal_around loc value
  | .name loc ident => name_around loc ident
  | .deref loc operand => deref_around loc (expr_around operand)
  | .unary loc op operand => unary_around loc op (expr_around operand)
  | .binary loc op left right => binary_around loc op (expr_around left) (expr_around right)
  | .borrow loc operand isMut => borrow_expr_around loc isMut (expr_around operand)
  | .call loc func args => call_around loc func (args_around args)
  | .boxNew loc value => boxNew_around loc (expr_around value)
  | .macroCall loc callee template args => macroCall_around loc callee template (shown_around args)
  | .ifElse loc condition thenBlock none =>
      ifOnly_around loc (expr_around condition) (blocks_around thenBlock)
  | .ifElse loc condition thenBlock (some elseBlock) =>
      ifElse_around loc (expr_around condition) (blocks_around thenBlock) (blocks_around elseBlock)
  | .block loc body => block_around loc (blocks_around body)
  | .ofStmt _ | .ofBlock _ => fun _ => by
      rw [checkExpr]
      trivial

theorem args_around : (args : List Expr) → ArgsAround ctx args
  | [] => noArgs_around
  | arg :: args => moreArgs_around (expr_around arg) (args_around args)

theorem shown_around : (args : List Expr) → ShownAround ctx args
  | [] => noShown_around
  | arg :: args => moreShown_around (expr_around arg) (shown_around args)

theorem stmt_steady : (stmt : Stmt) → StmtSteady ctx stmt
  | .letVar loc ident written none isMut => letUnset_steady loc ident written isMut
  | .letVar loc ident written (some value) isMut =>
      letVar_steady loc ident written isMut (expr_around value)
  | .assign loc target value op => assign_steady loc target op (expr_around value)
  | .ret loc none => retUnit_steady loc
  | .ret loc (some value) => ret_steady loc (expr_around value)
  | .whileLoop loc condition body => while_steady loc (expr_around condition) (blocks_around body)
  | .expr loc value => exprStmt_steady loc (expr_around value)
  | .ofExpr _ | .ofBlock _ => fun _ => by
      rw [checkStmt]
      trivial

theorem stmts_steady : (stmts : List Stmt) → StmtsSteady ctx stmts
  | [] => noStmts_steady
  | stmt :: rest => moreStmts_steady (stmt_steady stmt) (stmts_steady rest)

theorem blocks_around : (body : Block) → BlockAround ctx body
  | .mk stmts none loc => body_around loc (stmts_steady stmts)
  | .mk stmts (some tail) loc => tailed_around loc (stmts_steady stmts) (expr_around tail)

end

end BorrowLang.Checker
