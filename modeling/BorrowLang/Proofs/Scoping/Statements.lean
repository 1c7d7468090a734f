import BorrowLang.Proofs.Scoping.Expressions
import BorrowLang.Proofs.Typing.Bodies

/-!
# Statements and blocks keep to their scope

A statement that passes the check may declare a binding in the innermost scope and leaves the others as
they are; a block opens a scope and closes it again.
-/

set_option autoImplicit false

namespace BorrowLang.Checker

variable {ctx : Context} {s mid after : State}

/-- The same scopes and frames are open as before, but for what has been declared in the innermost. -/
structure Widened (s after : State) : Prop where
  framed : after.Framed
  ways : s.arena.SameWays after.arena
  frames : after.tracker.frames.drop 1 = s.tracker.frames.drop 1
  scopes : after.scopes.drop 1 = s.scopes.drop 1

theorem Level.widened (level : Level s after) : Widened s after where
  framed := level.framed
  ways := level.ways
  frames := by rw [level.frames]
  scopes := by rw [level.scopes]

theorem Widened.trans (first : Widened s mid) (second : Widened mid after) : Widened s after where
  framed := second.framed
  ways := first.ways.trans second.ways
  frames := second.frames.trans first.frames
  scopes := second.scopes.trans first.scopes

/-- As many scopes and frames are open as before. -/
theorem Widened.depth (widened : Widened s after) (framed : s.Framed) :
    after.tracker.frames.length = s.tracker.frames.length ∧
      after.scopes.length = s.scopes.length := by
  have scopes := congrArg List.length widened.scopes
  rw [List.length_drop, List.length_drop] at scopes
  have inside := List.length_pos_iff.mpr framed.inside
  have insideAfter := List.length_pos_iff.mpr widened.framed.inside
  rw [framed.length, widened.framed.length]
  omega

/-! ### Bindings -/

/-- A new binding is declared in the frame of the innermost scope. -/
theorem bind_widened (framed : s.Framed) (name : String) (ty : Option Ty)
    (isMut isParam initialized : Bool) :
    Passes (bind name ty isMut isParam initialized) s fun place after =>
      Widened s after ∧ place ∈ after.tracker.frames.flatten := by
  simp only [bind, meets_bind, meets_get, meets_set, meets_pure]
  obtain ⟨laid, ways, isLocal⟩ := Arena.addLocal_laid framed.laid name ty isMut isParam
  have sheltered := (framed.sheltered.grow ways).declare isLocal initialized
  obtain ⟨scope, outer, scopes⟩ := List.exists_cons_of_ne_nil framed.inside
  have bound := framed.bound
  rw [scopes, List.cons_append, List.forall₂_cons_left_iff] at bound
  obtain ⟨frame, rest, declares, others, frames⟩ := bound
  have declared : (s.tracker.declare s.arena.size initialized).frames =
      (frame ++ [s.arena.size]) :: rest := by
    rw [Tracker.declare, frames]
  refine ⟨⟨⟨laid, sheltered, ?_, ?_⟩, ways, ?_, ?_⟩, ?_⟩
  · simp [scopes]
  · simp only [scopes]
    change List.Forall₂ _ _ (s.tracker.declare s.arena.size initialized).frames
    rw [declared]
    refine .cons (fun binding inScope => ?_) others
    rcases List.mem_cons.mp inScope with rfl | old
    · exact List.mem_append_right _ (List.mem_singleton_self _)
    · exact List.mem_append_left _ (declares binding old)
  · change (s.tracker.declare s.arena.size initialized).frames.drop 1 = _
    rw [declared, frames]
    rfl
  · simp [scopes]
  · change s.arena.size ∈ (s.tracker.declare s.arena.size initialized).frames.flatten
    rw [declared, List.flatten_cons]
    exact List.mem_append_left _ (List.mem_append_right _ (List.mem_singleton_self _))

/-! ### Ends of statements and blocks -/

theorem endTemporaries_level (framed : s.Framed) (keep : List BorrowId) :
    Passes (modifyTracker (·.endTemporaries keep)) s fun _ after => Level s after :=
  modifyTracker_level framed rfl (.filter _ _)

theorem releaseDead_level (framed : s.Framed) :
    Level s { s with tracker := (s.tracker.releaseDead s.arena s.isLive).1 } :=
  .of_handedOn framed rfl rfl rfl (.filter _ _)

theorem endStatement_level (framed : s.Framed) :
    Passes (endStatement ctx) s fun _ after => Level s after := by
  simp only [endStatement, meets_bind]
  refine (endTemporaries_level framed []).mono fun _ mid level => ?_
  have released := level.trans (releaseDead_level level.framed)
  split
  · simp only [meets_bind, meets_get, meets_set]
    split
    · simp only [note, meets_modify]
      exact released.trans (.of_same released.framed rfl rfl rfl)
    · exact released
  · exact level

theorem beginBlock_framed (framed : s.Framed) :
    State.Framed { s with tracker := s.tracker.pushFrame, scopes := [] :: s.scopes } where
  laid := framed.laid
  sheltered := framed.sheltered.pushFrame
  inside := List.cons_ne_nil _ _
  bound := .cons (fun _ impossible => nomatch impossible) framed.bound

/-- The scope that a block has opened is closed again. -/
theorem endBlock_level (framed : s.Framed) (loc : Option Position) (keep : List BorrowId)
    (inner : Widened { s with tracker := s.tracker.pushFrame, scopes := [] :: s.scopes } mid) :
    Passes (endBlock ctx loc keep) mid fun _ after => Level s after := by
  have closed : ∀ last : State, Level mid last →
      Passes (closeScope ctx loc) last fun _ after => Level s after := by
    intro last level
    simp only [closeScope, meets_bind, meets_get, meets_set]
    split
    · rename_i ids answered
      have popped : last.tracker.popFrame last.arena =
        ((last.tracker.popFrame last.arena).1, .ok ids) := Prod.ext rfl answered
      obtain ⟨sheltered, frames⟩ := level.framed.sheltered.popFrame popped
      have outerFrames : (last.tracker.popFrame last.arena).1.frames = s.tracker.frames := by
        rw [frames, level.frames, inner.frames]
        rfl
      have outerScopes : last.scopes.drop 1 = s.scopes := by
        rw [level.scopes, inner.scopes]
        rfl
      refine ⟨⟨level.framed.laid, sheltered, ?_, ?_⟩, inner.ways.trans level.ways, outerFrames,
        outerScopes⟩
      · exact outerScopes ▸ framed.inside
      · change List.Forall₂ Declares (last.scopes.drop 1 ++ [[]]) _
        rw [outerScopes, outerFrames]
        exact framed.bound
    all_goals trivial
  rw [endBlock_eq, Passes, meets_bind]
  refine (endTemporaries_level inner.framed keep).mono fun _ ended level => ?_
  split
  · rw [meets_bind, meets_modify]
    exact closed _ (level.trans (releaseDead_level level.framed))
  · exact closed ended level

/-! ### Statements -/

/-- A statement that passes keeps to its scope. -/
def StmtKeeps (ctx : Context) (stmt : Stmt) : Prop :=
  ∀ s : State, s.Framed → Passes (checkStmt ctx stmt) s fun _ after => Widened s after

/-- Statements that pass keep to their scope. -/
def StmtsKeep (ctx : Context) (stmts : List Stmt) : Prop :=
  ∀ (tailNames : List String) (s : State), s.Framed →
    Passes (checkStmts ctx tailNames stmts) s fun _ after => Widened s after

theorem letUnset_keeps (loc : Option Position) (ident : String) (written : Option TypeExpr)
    (isMut : Bool) : StmtKeeps ctx (.letVar loc ident written none isMut) := by
  intro s framed
  have bound : ∀ declared : Option Ty,
      Passes (bind ident declared isMut false false) s fun _ after => Widened s after :=
    fun declared => (bind_widened framed ident declared isMut false false).mono fun _ _ met => met.1
  cases written with
  | none =>
      simp only [checkStmt, meets_bind, meets_pure]
      exact bound none
  | some written =>
      simp only [checkStmt, meets_bind, meets_pure]
      refine (resolved_passes written loc).mono ?_
      rintro declared after rfl
      exact bound (some declared)

theorem letVar_keeps (loc : Option Position) (ident : String) (written : Option TypeExpr)
    {value : Expr} (isMut : Bool) (inner : ExprKeeps ctx value) :
    StmtKeeps ctx (.letVar loc ident written (some value) isMut) := by
  intro s framed
  have bound : ∀ (declared : Option Ty) (operand : Operand) (mid : State), Level s mid →
      Passes (do
        let place ← bind ident (declared <|> some operand.ty) isMut false true
        if !operand.loans.isEmpty then storeLoans ctx place operand.loans
        return false) mid fun _ after => Widened s after := by
    intro declared operand mid level
    simp only [meets_bind]
    refine (bind_widened level.framed ident _ isMut false true).mono ?_
    intro place after met
    obtain ⟨widened, opened⟩ := met
    have whole := level.widened.trans widened
    split
    · simp only [meets_bind, meets_pure]
      refine (storeLoans_level widened.framed opened operand.loans).mono fun _ last stored => ?_
      exact whole.trans stored.widened
    · exact whole
  cases written with
  | none =>
      simp only [checkStmt, meets_bind, meets_pure]
      refine (inner s framed).mono fun operand mid level => ?_
      simpa only [Passes, meets_bind, meets_pure] using bound none operand mid level
  | some written =>
      simp only [checkStmt, meets_bind, meets_pure]
      refine (resolved_passes written loc).mono ?_
      rintro ty after rfl
      refine (inner _ framed).mono fun operand mid level => ?_
      refine (expect_passes ty operand value.loc).mono ?_
      rintro _ _ ⟨rfl, -⟩
      simpa only [Passes, meets_bind, meets_pure] using bound (some ty) operand _ level

theorem assignType_level (framed : s.Framed) (loc valueLoc targetLoc : Option Position)
    (place : PlaceId) (value : Operand) (op : Option BinaryOp) :
    Passes (assignType ctx loc valueLoc targetLoc place value op) s fun _ after =>
      Level s after := by
  simp only [assignType, meets_bind, meets_get]
  cases op with
  | some op =>
      simp only [meets_bind]
      refine (requireRead_passes targetLoc place).mono ?_
      rintro - after rfl
      split
      · trivial
      · exact .refl framed
  | none =>
      cases known : s.arena.ty? place with
      | none =>
          simp only [meets_set]
          obtain ⟨laid, ways⟩ := Arena.setTy_laid framed.laid known value.ty
          exact .of_arena framed laid ways rfl rfl
      | some ty =>
          refine (expect_passes ty value valueLoc).mono ?_
          rintro _ _ ⟨rfl, -⟩
          exact .refl framed

/-- The borrows of an assigned value go to the binding of the assigned place, or, behind a reference,
to those that it may point at. -/
theorem assignPlace_level (framed : s.Framed) (targetLoc valueLoc : Option Position)
    {place : PlaceId} (owns : s.Owns place) (value : Operand) :
    Passes (assignPlace ctx targetLoc valueLoc place value) s fun _ after => Level s after := by
  have adopted : ∀ mid, Level s mid →
      Passes (storeLoans ctx (s.arena.root place) value.loans) mid fun _ after => Level s after := by
    intro mid level
    have opened : s.arena.root place ∈ mid.tracker.frames.flatten := by
      rw [level.frames]
      exact owns.opened
    exact level.onward (storeLoans_level level.framed opened _)
  have stored : ∀ mid, Level s mid → Passes (do
      modifyTracker (·.markLive s.arena place)
      if !value.loans.isEmpty then
        if (s.arena.innermostRef place).isNone then
          storeLoans ctx (s.arena.root place) value.loans
        else if !(← storeInto ctx [place] value.loans valueLoc) then
          storeLoans ctx (s.arena.root place) value.loans) mid fun _ after => Level s after := by
    intro mid level
    simp only [meets_bind]
    refine (modifyTracker_level level.framed rfl (.refl _)).mono fun _ marked known => ?_
    have markedLevel := level.trans known
    split
    · split
      · exact adopted marked markedLevel
      · simp only [meets_bind]
        have roots : ∀ other ∈ [place], marked.Roots other := by
          intro other member _
          rw [List.mem_singleton.mp member]
          exact (markedLevel.owns owns).opened
        refine (storeInto_level known.framed roots value.loans valueLoc).mono ?_
        intro _ shared sharedLevel
        split
        · exact adopted shared (markedLevel.trans sharedLevel)
        · exact markedLevel.trans sharedLevel
    · exact markedLevel
  simp only [assignPlace]
  rw [Passes, meets_bind, meets_get, meets_bind]
  refine (guard_passes targetLoc _).mono ?_
  rintro - after rfl
  split
  · rw [meets_bind]
    exact (modifyTracker_level framed rfl (.filter _ _)).mono fun _ mid level => stored mid level
  · exact stored after (.refl framed)

theorem assign_keeps (loc : Option Position) (target : Expr) {value : Expr}
    (op : Option BinaryOp) (inner : ExprKeeps ctx value) :
    StmtKeeps ctx (.assign loc target value op) := by
  intro s framed
  simp only [checkStmt]
  split
  · trivial
  simp only [meets_bind, meets_pure]
  refine (inner s framed).mono fun operand mid level => ?_
  refine (placeOf_level level.framed target).mono ?_
  intro place found met
  obtain ⟨foundLevel, owns⟩ := met
  refine (assignType_level foundLevel.framed loc value.loc target.loc place operand op).mono ?_
  intro _ fixed fixedLevel
  refine (assignPlace_level fixedLevel.framed target.loc value.loc (fixedLevel.owns owns)
    operand).mono fun _ after later => ?_
  exact (((level.trans foundLevel).trans fixedLevel).trans later).widened

theorem ret_keeps (loc : Option Position) {value : Expr} (inner : ExprKeeps ctx value) :
    StmtKeeps ctx (.ret loc (some value)) := by
  intro s framed
  simp only [checkStmt, meets_bind, meets_pure]
  refine (inner s framed).mono fun operand mid level => ?_
  refine (returnValue_passes operand value.loc).mono ?_
  rintro _ _ ⟨rfl, -⟩
  exact level.widened

theorem retUnit_keeps (loc : Option Position) : StmtKeeps ctx (.ret loc none) := by
  intro s framed
  simp only [checkStmt, meets_bind, meets_pure]
  refine (returnValue_passes { ty := .unit } loc).mono ?_
  rintro _ _ ⟨rfl, -⟩
  exact (Level.refl framed).widened

/-- The condition of a loop has been checked, and its temporaries have ended. -/
theorem loopCondition_level (framed : s.Framed) {condition : Expr} (test : ExprKeeps ctx condition)
    (loc : Option Position) : Passes (do
      let cond ← checkExpr ctx condition
      expect ctx .bool cond loc
      modifyTracker (·.endTemporaries [])) s fun _ after => Level s after := by
  simp only [meets_bind]
  refine (test s framed).mono fun cond mid level => ?_
  refine (expect_passes .bool cond loc).mono ?_
  rintro _ _ ⟨rfl, -⟩
  exact level.onward (endTemporaries_level level.framed [])

theorem loopPass_level (framed : s.Framed) {condition : Expr} {body : Block}
    (test : ExprKeeps ctx condition) (inner : BlockKeeps ctx body)
    (conditionLoc bodyLoc : Option Position) :
    Passes (loopPass ctx conditionLoc bodyLoc (checkExpr ctx condition) (checkBlock ctx false body))
      s fun _ after => Level s after := by
  have tested := loopCondition_level framed test conditionLoc
  simp only [loopPass, meets_bind] at tested ⊢
  refine tested.onOk fun cond mid fits => fits.onOk fun _ mid ended => ended.onOk ?_
  intro _ begun level
  refine (inner false begun level.framed).mono fun value after later => ?_
  split
  · trivial
  · exact level.trans later

theorem enterNames_level (framed : s.Framed) (names : List String) :
    Level s { s with live := s.live.enter names } := .of_same framed rfl rfl rfl

theorem while_keeps (loc : Option Position) {condition : Expr} {body : Block}
    (test : ExprKeeps ctx condition) (inner : BlockKeeps ctx body) :
    StmtKeeps ctx (.whileLoop loc condition body) := by
  intro s framed
  simp only [checkStmt, enterNames, exitNames, meets_bind, meets_get, meets_modify, meets_pure]
  have entered := enterNames_level framed (condition.names ++ body.names)
  refine (loopPass_level entered.framed test inner _ _).mono fun _ first firstLevel => ?_
  refine (loopPass_level firstLevel.framed test inner _ _).mono fun _ second secondLevel => ?_
  have left : Level second { second with live := second.live.exit?.getD second.live } :=
    .of_same secondLevel.framed rfl rfl rfl
  have whole := ((entered.trans firstLevel).trans secondLevel).trans left
  -- The path that never enters the loop comes back with the frames it left with.
  have skipped := framed.sheltered.grow whole.ways
  refine (join_level left.framed skipped whole.frames.symm).mono fun _ after joined => ?_
  exact (whole.trans joined).widened

theorem exprStmt_keeps (loc : Option Position) {value : Expr} (inner : ExprKeeps ctx value) :
    StmtKeeps ctx (.expr loc value) := by
  intro s framed
  simp only [checkStmt, meets_bind, meets_pure]
  exact (inner s framed).mono fun operand after level => level.widened

/-! ### Sequences and blocks -/

theorem noStmts_keep : StmtsKeep ctx [] := by
  intro tailNames s framed
  simp only [checkStmts]
  exact (Level.refl framed).widened

/-- The first of some statements, up to the end of what holds for it alone. -/
theorem stmtsFirst_widened (framed : s.Framed) {stmt : Stmt} (first : StmtKeeps ctx stmt)
    (names : List String) : Passes (do
      enterNames names
      let _ ← checkStmt ctx stmt
      endStatement ctx
      exitNames) s fun _ after => Widened s after := by
  simp only [enterNames, exitNames, meets_bind, meets_modify]
  have entered := enterNames_level framed names
  refine (first _ entered.framed).mono fun leaves mid widened => ?_
  refine (endStatement_level widened.framed).mono fun _ ended level => ?_
  have left : Level ended { ended with live := ended.live.exit?.getD ended.live } :=
    .of_same level.framed rfl rfl rfl
  exact (entered.widened.trans widened).trans (level.trans left).widened

theorem moreStmts_keep {stmt : Stmt} {rest : List Stmt} (first : StmtKeeps ctx stmt)
    (others : StmtsKeep ctx rest) : StmtsKeep ctx (stmt :: rest) := by
  intro tailNames s framed
  have here := stmtsFirst_widened framed first (namesOfStmts rest ++ tailNames)
  simp only [checkStmts, enterNames, exitNames, meets_bind, meets_modify, meets_pure] at here ⊢
  refine here.onOk fun leaves mid stmtEnds => stmtEnds.onOk fun _ ended widened => ?_
  exact (others tailNames _ widened.framed).mono fun later after more => widened.trans more

theorem body_keeps (loc : Option Position) {stmts : List Stmt} (inner : StmtsKeep ctx stmts) :
    BlockKeeps ctx (.mk stmts none loc) := by
  intro isBody s framed
  simp only [checkBlock, beginBlock, meets_bind, meets_modify, meets_pure]
  refine (inner [] _ (beginBlock_framed framed)).mono fun leaves mid widened => ?_
  exact endBlock_level framed loc [] widened

theorem tailed_keeps (loc : Option Position) {stmts : List Stmt} {tail : Expr}
    (inner : StmtsKeep ctx stmts) (last : ExprKeeps ctx tail) :
    BlockKeeps ctx (.mk stmts (some tail) loc) := by
  intro isBody s framed
  simp only [checkBlock, beginBlock]
  rw [Passes, meets_bind, meets_modify, meets_bind]
  refine (inner tail.names _ (beginBlock_framed framed)).mono fun leaves mid widened => ?_
  rw [meets_bind]
  refine (last mid widened.framed).mono fun value done level => ?_
  have ended : Passes (do
      endBlock ctx loc value.loans
      return { value with diverges := leaves || value.diverges }) done
        fun _ after => Level s after := by
    simp only [meets_bind, meets_pure]
    exact endBlock_level framed loc value.loans (widened.trans level.widened)
  split
  · rw [meets_bind]
    refine (checkEscape_passes value.loans tail.loc false).mono ?_
    rintro - after rfl
    exact ended
  · exact ended

/-! ### Conditions -/

/-- The condition of an `if` has been checked. -/
theorem condition_level (framed : s.Framed) {condition : Expr} (test : ExprKeeps ctx condition) :
    Passes (do
      let cond ← checkExpr ctx condition
      expect ctx .bool cond condition.loc) s fun _ after => Level s after := by
  simp only [meets_bind]
  refine (test s framed).mono fun cond mid level => ?_
  refine (expect_passes .bool cond condition.loc).mono ?_
  rintro _ _ ⟨rfl, -⟩
  exact level

theorem ifOnly_keeps (loc : Option Position) {condition : Expr} {thenBlock : Block}
    (test : ExprKeeps ctx condition) (thenArm : BlockKeeps ctx thenBlock) :
    ExprKeeps ctx (.ifElse loc condition thenBlock none) := by
  intro s framed
  have tested := condition_level framed test
  simp only [checkExpr, meets_bind, meets_get] at tested ⊢
  refine tested.onOk fun cond mid fits => fits.onOk fun _ before level => ?_
  refine (thenArm false before level.framed).mono fun first thenEnd thenLevel => ?_
  rw [modifyTracker, meets_modify]
  have swapped := thenLevel.swap level.framed
  refine (meet_level swapped.framed thenLevel.framed.sheltered thenLevel.frames
    first.diverges false).mono fun _ met metLevel => ?_
  refine (ifOnlyOperand_passes _ first).mono ?_
  rintro _ _ ⟨rfl, -⟩
  exact (level.trans swapped).trans metLevel

theorem ifElse_keeps (loc : Option Position) {condition : Expr} {thenBlock elseBlock : Block}
    (test : ExprKeeps ctx condition) (thenArm : BlockKeeps ctx thenBlock)
    (elseArm : BlockKeeps ctx elseBlock) :
    ExprKeeps ctx (.ifElse loc condition thenBlock (some elseBlock)) := by
  intro s framed
  have tested := condition_level framed test
  simp only [checkExpr, meets_bind, meets_get] at tested ⊢
  refine tested.onOk fun cond mid fits => fits.onOk fun _ before level => ?_
  refine (thenArm false before level.framed).mono fun first thenEnd thenLevel => ?_
  rw [modifyTracker, meets_modify]
  have swapped := thenLevel.swap level.framed
  refine (elseArm false _ swapped.framed).mono fun other elseEnd elseLevel => ?_
  -- Both arms end with the frames that were open before them.
  have thenSheltered := thenLevel.framed.sheltered.grow elseLevel.ways
  have frames : thenEnd.tracker.frames = elseEnd.tracker.frames :=
    thenLevel.frames.trans elseLevel.frames.symm
  refine (meet_level elseLevel.framed thenSheltered frames first.diverges other.diverges).mono ?_
  intro _ met metLevel
  refine (ifOperand_passes loc first other).mono ?_
  rintro _ _ ⟨rfl, -⟩
  exact ((level.trans swapped).trans elseLevel).trans metLevel

theorem block_keeps (loc : Option Position) {body : Block} (inner : BlockKeeps ctx body) :
    ExprKeeps ctx (.block loc body) := by
  intro s framed
  simp only [checkExpr]
  exact inner false s framed

/-! ### Whole bodies -/

mutual

theorem expr_keeps : (e : Expr) → ExprKeeps ctx e
  | .literal loc value => literal_keeps loc value
  | .name loc ident => name_keeps loc ident
  | .deref loc operand => deref_keeps loc (expr_keeps operand)
  | .unary loc op operand => unary_keeps loc op (expr_keeps operand)
  | .binary loc op left right => binary_keeps loc op (expr_keeps left) (expr_keeps right)
  | .borrow loc operand isMut => borrow_keeps loc isMut (expr_keeps operand)
  | .call loc func args => call_keeps loc func (args_keep args)
  | .boxNew loc value => boxNew_keeps loc (expr_keeps value)
  | .macroCall loc callee template args => macroCall_keeps loc callee template (shown_keep args)
  | .ifElse loc condition thenBlock none =>
      ifOnly_keeps loc (expr_keeps condition) (blocks_keep thenBlock)
  | .ifElse loc condition thenBlock (some elseBlock) =>
      ifElse_keeps loc (expr_keeps condition) (blocks_keep thenBlock) (blocks_keep elseBlock)
  | .block loc body => block_keeps loc (blocks_keep body)
  | .ofStmt _ | .ofBlock _ => fun _ _ => by
      rw [checkExpr]
      trivial

theorem args_keep : (args : List Expr) → ArgsKeep ctx args
  | [] => noArgs_keep
  | arg :: args => moreArgs_keep (expr_keeps arg) (args_keep args)

theorem shown_keep : (args : List Expr) → ShownKeep ctx args
  | [] => noShown_keep
  | arg :: args => moreShown_keep (expr_keeps arg) (shown_keep args)

theorem stmt_keeps : (stmt : Stmt) → StmtKeeps ctx stmt
  | .letVar loc ident written none isMut => letUnset_keeps loc ident written isMut
  | .letVar loc ident written (some value) isMut =>
      letVar_keeps loc ident written isMut (expr_keeps value)
  | .assign loc target value op => assign_keeps loc target op (expr_keeps value)
  | .ret loc none => retUnit_keeps loc
  | .ret loc (some value) => ret_keeps loc (expr_keeps value)
  | .whileLoop loc condition body => while_keeps loc (expr_keeps condition) (blocks_keep body)
  | .expr loc value => exprStmt_keeps loc (expr_keeps value)
  | .ofExpr _ | .ofBlock _ => fun _ _ => by
      rw [checkStmt]
      trivial

theorem stmts_keep : (stmts : List Stmt) → StmtsKeep ctx stmts
  | [] => noStmts_keep
  | stmt :: rest => moreStmts_keep (stmt_keeps stmt) (stmts_keep rest)

theorem blocks_keep : (body : Block) → BlockKeeps ctx body
  | .mk stmts none loc => body_keeps loc (stmts_keep stmts)
  | .mk stmts (some tail) loc => tailed_keeps loc (stmts_keep stmts) (expr_keeps tail)

end

end BorrowLang.Checker
