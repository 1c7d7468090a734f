import BorrowLang.Proofs.Typing.Checked

/-!
# Checked bodies are typed

Blocks and statements that pass the check are typed, and with them all expressions.  A statement may
add a binding to the innermost scope; the other scopes are the same before and after it.
-/

set_option autoImplicit false

namespace BorrowLang.Checker

open Typing

attribute [local simp] checkExpr checkStmt checkBlock checkStmts

variable {ctx : Context} {s mid after : State}

/-! ### Outcomes -/

/-- The outcome of statements: what follows them is reached, or not. -/
def reach (leaves : Bool) : Outcome := if leaves then none else some .unit

/-! ### Conditions and blocks -/

/-- Both arms of an `if` may stand where its value does. -/
theorem ifOperand_passes (loc : Option Position) (first other : Operand) :
    Passes (ifOperand ctx loc first other) s fun value after =>
      after = s ∧ first.outcome.Suits value.outcome ∧ other.outcome.Suits value.outcome := by
  have never : ∀ {value : Operand}, value.diverges = true → value.outcome = none :=
    fun diverges => by simp [Operand.outcome, diverges]
  unfold ifOperand
  split
  · rename_i both
    obtain ⟨firstNever, otherNever⟩ := Bool.and_eq_true_iff.mp both
    rw [never firstNever, never otherNever]
    exact ⟨rfl, Outcome.suits_none _, Outcome.suits_none _⟩
  split
  · rename_i firstNever
    rw [never firstNever]
    exact ⟨rfl, Outcome.suits_none _, other.suits_ty⟩
  split
  · rename_i otherNever
    rw [never otherNever]
    exact ⟨rfl, first.suits_ty, Outcome.suits_none _⟩
  split
  · rename_i firstArrives otherArrives coerces
    rw [@Operand.outcome_of_arrives other (by simpa using otherArrives)]
    exact ⟨rfl, first.suits_ty, Outcome.suits_of_coercesTo coerces⟩
  · trivial

theorem ifOnlyOperand_passes (loc : Option Position) (first : Operand) :
    Passes (ifOnlyOperand ctx loc first) s fun value after =>
      after = s ∧ first.outcome.Suits (some .unit) ∧ value.outcome = some .unit := by
  unfold ifOnlyOperand
  split
  · rename_i unit
    exact ⟨rfl, Operand.suits_unit (by simpa using unit), rfl⟩
  · trivial

/-- The condition and the first arm of an `if`, before whatever is checked after them. -/
theorem thenArm_passes {α : Type} {condition : Expr} {thenBlock : Block} {ok : α → State → Prop}
    (test : ExprChecks ctx condition) (thenArm : BlockChecks ctx thenBlock)
    (testRegular : condition.Regular) (thenRegular : thenBlock.Regular) (sound : s.Sound)
    (rest : Operand → Tracker → Check α)
    (onward : ∀ (first : Operand) (tracker : Tracker) (mid : State), (Checked s mid fun env =>
        ∃ out, Typed ctx.callable? ctx.result env condition out ∧ out.Suits (some .bool) ∧
          BlockTyped ctx.callable? ctx.result env thenBlock first.outcome) →
      Passes (rest first tracker) mid ok) :
    Passes (do
      let cond ← checkExpr ctx condition
      expect ctx .bool cond condition.loc
      let before := (← get).tracker
      let first ← checkBlock ctx false thenBlock
      let thenTracker := (← get).tracker
      modifyTracker fun _ => before
      rest first thenTracker) s ok := by
  simp only [meets_bind, meets_get]
  refine (test testRegular s sound).mono fun testValue mid testChecked => ?_
  refine (expect_passes .bool testValue condition.loc).mono ?_
  intro _ mid met
  obtain ⟨rfl, testBool⟩ := met
  refine (thenArm thenRegular false _ testChecked.sound).mono fun first mid thenChecked => ?_
  refine (modifyTracker_passes _).mono fun _ before asideBefore => ?_
  refine onward first _ before (((testChecked.both thenChecked).aside asideBefore).imp ?_)
  exact fun env typed => ⟨_, typed.1, testBool, typed.2⟩

theorem ifOnly_checks (loc : Option Position) {condition : Expr} {thenBlock : Block}
    (test : ExprChecks ctx condition) (thenArm : BlockChecks ctx thenBlock) :
    ExprChecks ctx (.ifElse loc condition thenBlock none) := by
  intro regular s sound
  obtain ⟨testRegular, thenRegular⟩ : condition.Regular ∧ thenBlock.Regular := by
    simpa [Expr.Regular] using regular
  simp only [checkExpr]
  refine thenArm_passes test thenArm testRegular thenRegular sound
    (fun first tracker => do
      modifyTracker (meet first.diverges false tracker)
      ifOnlyOperand ctx (tailLoc thenBlock loc) first) fun first tracker mid known => ?_
  simp only [meets_bind]
  refine (modifyTracker_passes _).mono fun _ met aside => ?_
  refine (ifOnlyOperand_passes _ first).mono ?_
  intro value after met
  obtain ⟨rfl, suits, outcome⟩ := met
  refine (known.aside aside).imp fun env typed => ?_
  obtain ⟨out, testTyped, testBool, thenTyped⟩ := typed
  exact outcome ▸ .ifOnly testTyped testBool thenTyped suits

theorem ifElse_checks (loc : Option Position) {condition : Expr} {thenBlock elseBlock : Block}
    (test : ExprChecks ctx condition) (thenArm : BlockChecks ctx thenBlock)
    (elseArm : BlockChecks ctx elseBlock) :
    ExprChecks ctx (.ifElse loc condition thenBlock (some elseBlock)) := by
  intro regular s sound
  obtain ⟨testRegular, thenRegular, elseRegular⟩ :
      condition.Regular ∧ thenBlock.Regular ∧ elseBlock.Regular := by
    simpa [Expr.Regular] using regular
  simp only [checkExpr]
  refine thenArm_passes test thenArm testRegular thenRegular sound
    (fun first tracker => do
      let other ← checkBlock ctx false elseBlock
      modifyTracker (meet first.diverges other.diverges tracker)
      ifOperand ctx loc first other) fun first tracker mid known => ?_
  simp only [meets_bind]
  refine (elseArm elseRegular false _ known.sound).mono fun other both elseChecked => ?_
  refine (modifyTracker_passes _).mono fun _ met aside => ?_
  refine (ifOperand_passes loc first other).mono ?_
  intro value after met
  obtain ⟨rfl, thenSuits, elseSuits⟩ := met
  refine ((known.both elseChecked).aside aside).imp fun env typed => ?_
  obtain ⟨⟨out, testTyped, testBool, thenTyped⟩, elseTyped⟩ := typed
  exact .ifElse testTyped testBool thenTyped thenSuits elseTyped elseSuits

theorem block_checks (loc : Option Position) {body : Block} (inner : BlockChecks ctx body) :
    ExprChecks ctx (.block loc body) := by
  intro regular s sound
  simp only [checkExpr]
  refine (inner (by simpa [Expr.Regular] using regular) false s sound).mono ?_
  exact fun value after checked => checked.imp fun env typed => .block typed

/-! ### Statements -/

/-- Statements have been checked: more places are known, and the innermost scope may have more
bindings. -/
structure Advanced (s after : State) (holds : Env → Env → Prop) : Prop where
  sound : after.Sound
  known : s.arena.Extends after.arena
  outer : after.scopes.drop 1 = s.scopes.drop 1
  typed : ∀ arena, after.arena.Extends arena →
    holds (envOf arena s.scopes) (envOf arena after.scopes)

theorem Checked.advanced {holds : Env → Env → Prop}
    (checked : Checked s after fun env => holds env env) : Advanced s after holds where
  sound := checked.sound
  known := checked.known
  outer := by rw [checked.scopes]
  typed arena later := by
    rw [checked.scopes]
    exact checked.typed arena later

theorem Advanced.aside {holds : Env → Env → Prop} (advanced : Advanced s mid holds)
    (aside : Aside mid after) : Advanced s after holds where
  sound := (aside.grown advanced.sound).sound
  known := aside.arena ▸ advanced.known
  outer := aside.scopes ▸ advanced.outer
  typed arena later := by
    rw [aside.scopes]
    exact advanced.typed arena (aside.arena ▸ later)

/-- A statement that passes is typed. -/
def StmtChecks (ctx : Context) (stmt : Stmt) : Prop :=
  stmt.Regular → ∀ s : State, s.Sound → Passes (checkStmt ctx stmt) s fun leaves after =>
    Advanced s after fun env next =>
      StmtTyped ctx.callable? ctx.result env stmt next (reach leaves)

/-- Statements that pass are typed, before whatever is typed after them. -/
def StmtsCheck (ctx : Context) (stmts : List Stmt) : Prop :=
  Stmt.AllRegular stmts → ∀ (tailNames : List String) (s : State), s.Sound →
    Passes (checkStmts ctx tailNames stmts) s fun leaves after => Advanced s after fun env next =>
      ∀ tail out, RestTyped ctx.callable? ctx.result next [] tail out →
        RestTyped ctx.callable? ctx.result env stmts tail ((reach leaves).followedBy out)

theorem bind_passes (sound : s.Sound) (name : String) (ty : Option Ty)
    (isMut isParam initialized : Bool) :
    Passes (bind name ty isMut isParam initialized) s fun place after =>
      after.Sound ∧ s.arena.Extends after.arena ∧ after.scopes.drop 1 = s.scopes.drop 1 ∧
      after.arena.ty? place = ty ∧ ∀ arena, envOf arena after.scopes =
        (envOf arena s.scopes).bind name ((arena.ty? place).getD .unit) := by
  simp only [bind, meets_bind, meets_get, meets_set, meets_pure]
  obtain ⟨soundAfter, extended, here⟩ :=
    Arena.addLocal_keeps sound.arena name ty isMut isParam
  have isNew : s.arena.size < (s.arena.addLocal name ty isMut isParam).1.size := by
    simp [Arena.addLocal, Arena.size]
  have old : ∀ scope ∈ s.scopes, ∀ binding ∈ scope,
      binding.2 < (s.arena.addLocal name ty isMut isParam).1.size :=
    fun scope member binding inScope =>
      Nat.lt_of_lt_of_le (sound.bound scope member binding inScope) extended.size
  refine ⟨⟨soundAfter, ?_⟩, extended, by cases s.scopes <;> rfl, here, fun arena => ?_⟩
  · cases scopes : s.scopes with
    | nil =>
        intro scope member binding inScope
        obtain rfl := List.mem_singleton.mp member
        obtain rfl := List.mem_singleton.mp inScope
        exact isNew
    | cons scope rest =>
        rw [scopes] at old
        intro scope' member binding inScope
        rcases List.mem_cons.mp member with rfl | inRest
        · rcases List.mem_cons.mp inScope with rfl | inOld
          · exact isNew
          · exact old scope List.mem_cons_self binding inOld
        · exact old scope' (List.mem_cons_of_mem _ inRest) binding inScope
  · cases s.scopes <;> rfl

theorem resolved_passes (written : TypeExpr) (loc : Option Position) :
    Passes (ctx.resolve written loc : Except Fault Ty) s fun _ after => after = s := by
  change Meets (ExceptT.mk (pure (ctx.resolve written loc))) s _ _
  unfold Meets
  change (match (ctx.resolve written loc, s) with | _ => _)
  cases ctx.resolve written loc <;> trivial

theorem letUnset_checks (loc : Option Position) (ident : String) (written : Option TypeExpr)
    (isMut : Bool) : StmtChecks ctx (.letVar loc ident written none isMut) := by
  intro _ s sound
  have bound : ∀ declared, Passes (do
      let _ ← bind ident declared isMut false false
      return false) s fun leaves after => Advanced s after fun env next =>
        StmtTyped ctx.callable? ctx.result env (.letVar loc ident written none isMut) next
          (reach leaves) := by
    intro declared
    simp only [meets_bind, meets_pure]
    refine (bind_passes sound ident declared isMut false false).mono ?_
    intro place after met
    obtain ⟨soundAfter, known, outer, -, binding⟩ := met
    exact ⟨soundAfter, known, outer, fun arena _ => binding arena ▸ .letUnset⟩
  cases written with
  | none =>
      simp only [checkStmt, meets_bind, meets_pure]
      simpa only [Passes, meets_bind, meets_pure] using bound none
  | some written =>
      simp only [checkStmt, meets_bind, meets_pure]
      refine (resolved_passes written loc).mono ?_
      rintro declared after rfl
      simpa only [Passes, meets_bind, meets_pure] using bound (some declared)

theorem letVar_checks (loc : Option Position) (ident : String) (written : Option TypeExpr)
    {value : Expr} (isMut : Bool) (inner : ExprChecks ctx value) :
    StmtChecks ctx (.letVar loc ident written (some value) isMut) := by
  intro regular s sound
  have valueRegular : value.Regular := by simpa [Stmt.Regular] using regular
  have bound : ∀ (declared : Option Ty) (operand : Operand) (mid : State),
      (Checked s mid fun env => Typed ctx.callable? ctx.result env value operand.outcome) →
      operand.outcome.Suits (declared <|> some operand.ty) → Passes (do
      let place ← bind ident (declared <|> some operand.ty) isMut false true
      if !operand.loans.isEmpty then storeLoans ctx place operand.loans
      return false) mid fun leaves after => Advanced s after fun env next =>
        StmtTyped ctx.callable? ctx.result env (.letVar loc ident written (some value) isMut) next
          (reach leaves) := by
    intro declared operand mid checked suits
    obtain ⟨ty, here⟩ : ∃ ty, (declared <|> some operand.ty) = some ty := by
      cases declared <;> exact ⟨_, rfl⟩
    rw [here] at suits ⊢
    simp only [meets_bind]
    refine (bind_passes checked.sound ident (some ty) isMut false true).mono ?_
    intro place after met
    obtain ⟨soundAfter, known, outer, tyKnown, binding⟩ := met
    have done : Advanced s after fun env next => StmtTyped ctx.callable? ctx.result env
        (.letVar loc ident written (some value) isMut) next (reach false) := by
      refine ⟨soundAfter, checked.known.trans known, outer.trans (by rw [checked.scopes]), ?_⟩
      intro arena later
      rw [binding arena, checked.scopes, later.ty tyKnown, Option.getD_some]
      exact .letVar (checked.typed arena (known.trans later)) suits
    split
    · simp only [meets_bind, meets_pure]
      exact (storeLoans_passes place operand.loans).mono fun _ last aside => done.aside aside
    · exact done
  cases written with
  | none =>
      simp only [checkStmt, meets_bind, meets_pure]
      refine (inner valueRegular s sound).mono fun operand mid checked => ?_
      simpa only [Passes, meets_bind, meets_pure] using bound none operand mid checked operand.suits_ty
  | some written =>
      simp only [checkStmt, meets_bind, meets_pure]
      refine (resolved_passes written loc).mono ?_
      rintro ty after rfl
      refine (inner valueRegular _ sound).mono fun operand mid checked => ?_
      refine (expect_passes ty operand value.loc).mono ?_
      intro _ after met
      obtain ⟨rfl, suits⟩ := met
      simpa only [Passes, meets_bind, meets_pure] using bound (some ty) operand _ checked suits

/-- Places stay as they are in a sequence of checks that leave them so. -/
theorem Aside.bind {α β : Type} {x : Check α} {f : α → Check β}
    (first : ∀ s, Passes x s fun _ after => Aside s after)
    (rest : ∀ a s, Passes (f a) s fun _ after => Aside s after) :
    ∀ s, Passes (x >>= f) s fun _ after => Aside s after := by
  intro s
  rw [Passes, meets_bind]
  refine (first s).mono fun a mid aside => ?_
  exact (rest a mid).mono fun _ after later => aside.trans later

theorem assignPlace_passes (targetLoc valueLoc : Option Position) (place : PlaceId)
    (value : Operand) :
    ∀ s, Passes (assignPlace ctx targetLoc valueLoc place value) s fun _ after => Aside s after := by
  have guarded : ∀ (answer : Except Violation Unit) (s : State),
      Passes (guard ctx targetLoc answer) s fun _ after => Aside s after :=
    fun answer s => (guard_passes targetLoc answer).mono fun _ after same => same ▸ .refl s
  unfold assignPlace
  refine Aside.bind (fun s => .refl s) fun known => ?_
  refine Aside.bind (guarded _) fun _ => ?_
  have stored : ∀ s, Passes (do
      modifyTracker (·.markLive known.arena place)
      if !value.loans.isEmpty then
        if (known.arena.innermostRef place).isNone then
          storeLoans ctx (known.arena.root place) value.loans
        else if !(← storeInto ctx [place] value.loans valueLoc) then
          storeLoans ctx (known.arena.root place) value.loans) s fun _ after => Aside s after := by
    refine Aside.bind (fun s => modifyTracker_passes _) fun _ s => ?_
    split
    · split
      · exact storeLoans_passes _ _
      · refine Aside.bind (fun s => storeInto_passes _ _ _) (fun _ s => ?_) s
        split
        · exact storeLoans_passes _ _
        · exact .refl s
    · exact .refl s
  intro s
  simp only
  split
  · exact Aside.bind (fun s => modifyTracker_passes _) (fun _ => stored) s
  · exact stored s

/-- The assigned place is of a type that the value suits. -/
theorem assignType_passes (sound : s.Sound) {place : PlaceId} (isThere : place < s.arena.size)
    (loc valueLoc targetLoc : Option Position) (value : Operand) (op : Option BinaryOp) :
    Passes (assignType ctx loc valueLoc targetLoc place value op) s fun _ after =>
      Grown s after ∧ ∃ ty, after.arena.ty? place = some ty ∧ value.outcome.Suits (some ty) ∧
        (op.isSome → ty = .i32) := by
  simp only [assignType, meets_bind, meets_get]
  cases op with
  | some op =>
      simp only [meets_bind]
      refine (requireRead_passes targetLoc place).mono ?_
      rintro - after rfl
      split
      · trivial
      · rename_i both
        obtain ⟨placeInt, valueInt⟩ : after.arena.ty? place = some .i32 ∧ value.ty = .i32 := by
          simpa using both
        exact ⟨(Aside.refl _).grown sound, .i32, placeInt, valueInt ▸ value.suits_ty, fun _ => rfl⟩
  | none =>
      cases known : s.arena.ty? place with
      | none =>
          simp only [meets_set]
          obtain ⟨soundAfter, extended⟩ := Arena.setTy_keeps sound.arena known value.ty
          exact ⟨sound.grown soundAfter extended rfl, value.ty, Arena.ty?_setTy isThere value.ty,
            value.suits_ty, by simp⟩
      | some ty =>
          refine (expect_passes ty value valueLoc).mono ?_
          intro _ after met
          obtain ⟨rfl, suits⟩ := met
          exact ⟨(Aside.refl _).grown sound, ty, known, suits, by simp⟩

theorem assign_checks (loc : Option Position) (target : Expr) {value : Expr}
    (op : Option BinaryOp) (inner : ExprChecks ctx value) :
    StmtChecks ctx (.assign loc target value op) := by
  intro regular s sound
  obtain ⟨-, valueRegular, isArith⟩ : target.Regular ∧ value.Regular ∧
      ∀ known ∈ op, ∃ arith, known = .arith arith := by
    simpa [Stmt.Regular] using regular
  simp only [checkStmt]
  split
  · trivial
  simp only [meets_bind, meets_pure]
  refine (inner valueRegular s sound).mono fun operand mid checked => ?_
  refine (placeOf_passes checked.sound target).mono fun place found denotes => ?_
  refine (assignType_passes denotes.sound denotes.isThere loc value.loc target.loc operand op).mono ?_
  intro _ fixed met
  obtain ⟨grown, ty, known, suits, int⟩ := met
  refine (assignPlace_passes target.loc value.loc place operand fixed).mono fun _ after aside => ?_
  refine Checked.advanced ⟨checked.toGrown.trans (denotes.toGrown.trans (grown.aside aside)), ?_⟩
  intro arena later
  rw [aside.arena] at later
  have placeTyped : PlaceTyped (envOf arena s.scopes) target ty := by
    rw [← checked.scopes]
    exact denotes.typed (grown.known.trans later) (later.ty known)
  have typed := checked.typed arena (denotes.known.trans (grown.known.trans later))
  cases op with
  | none => exact .assign placeTyped typed suits
  | some op =>
      obtain ⟨arith, rfl⟩ := isArith op rfl
      obtain rfl := int rfl
      exact .combine placeTyped typed suits

/-- A value that leaves the function suits its result. -/
theorem returnValue_passes (value : Operand) (loc : Option Position) :
    Passes (returnValue ctx value loc) s fun _ after =>
      after = s ∧ value.outcome.Suits (some ctx.result) := by
  simp only [returnValue, meets_bind]
  refine (expect_passes ctx.result value loc).mono ?_
  intro _ after met
  obtain ⟨rfl, suits⟩ := met
  refine (checkEscape_passes value.loans loc false).mono ?_
  rintro - after rfl
  exact ⟨rfl, suits⟩

theorem ret_checks (loc : Option Position) {value : Expr} (inner : ExprChecks ctx value) :
    StmtChecks ctx (.ret loc (some value)) := by
  intro regular s sound
  simp only [checkStmt, meets_bind, meets_pure]
  refine (inner (by simpa [Stmt.Regular] using regular) s sound).mono fun operand mid checked => ?_
  refine (returnValue_passes operand value.loc).mono ?_
  intro _ after met
  obtain ⟨rfl, suits⟩ := met
  exact Checked.advanced (checked.imp fun env typed => .ret typed suits)

theorem retUnit_checks (loc : Option Position) : StmtChecks ctx (.ret loc none) := by
  intro _ s sound
  simp only [checkStmt, meets_bind, meets_pure]
  refine (returnValue_passes { ty := .unit } loc).mono ?_
  intro _ after met
  obtain ⟨rfl, suits⟩ := met
  exact Checked.advanced ⟨(Aside.refl _).grown sound, fun arena _ => .retUnit suits⟩

theorem loopPass_passes {condition : Expr} {body : Block} (test : ExprChecks ctx condition)
    (inner : BlockChecks ctx body) (testRegular : condition.Regular) (bodyRegular : body.Regular)
    (sound : s.Sound) (loc conditionLoc bodyLoc : Option Position) :
    Passes (loopPass ctx conditionLoc bodyLoc (checkExpr ctx condition) (checkBlock ctx false body))
      s fun _ after => Checked s after fun env => StmtTyped ctx.callable? ctx.result env
        (.whileLoop loc condition body) env (some .unit) := by
  simp only [loopPass, meets_bind]
  refine (test testRegular s sound).mono fun testValue mid testChecked => ?_
  refine (expect_passes .bool testValue conditionLoc).mono ?_
  intro _ mid met
  obtain ⟨rfl, testBool⟩ := met
  refine (modifyTracker_passes _).mono fun _ before aside => ?_
  have known := testChecked.aside aside
  refine (inner bodyRegular false before known.sound).mono fun value after checked => ?_
  split
  · trivial
  · rename_i unit
    have suits : value.outcome.Suits (some .unit) := by
      refine Operand.suits_unit ?_
      cases diverges : value.diverges <;> simp_all
    exact (known.both checked).imp fun env typed => .whileLoop typed.1 testBool typed.2 suits

theorem while_checks (loc : Option Position) {condition : Expr} {body : Block}
    (test : ExprChecks ctx condition) (inner : BlockChecks ctx body) :
    StmtChecks ctx (.whileLoop loc condition body) := by
  intro regular s sound
  obtain ⟨testRegular, bodyRegular⟩ : condition.Regular ∧ body.Regular := by
    simpa [Stmt.Regular] using regular
  simp only [checkStmt, enterNames, exitNames, meets_bind, meets_get, meets_modify, meets_pure]
  have entered : Aside s { s with live := s.live.enter (condition.names ++ body.names) } := ⟨rfl, rfl⟩
  refine (loopPass_passes test inner testRegular bodyRegular (entered.grown sound).sound loc _ _).mono
    fun _ first firstChecked => ?_
  refine (loopPass_passes test inner testRegular bodyRegular firstChecked.sound loc _ _).mono
    fun _ second secondChecked => ?_
  refine (modifyTracker_passes _).mono fun _ after aside => ?_
  have whole := (secondChecked.since firstChecked.toGrown).since (entered.grown sound)
  exact Checked.advanced (whole.aside ⟨aside.arena, aside.scopes⟩)

theorem expr_checks (loc : Option Position) {value : Expr} (inner : ExprChecks ctx value) :
    StmtChecks ctx (.expr loc value) := by
  intro regular s sound
  simp only [checkStmt, meets_bind, meets_pure]
  refine (inner (by simpa [Stmt.Regular] using regular) s sound).mono fun operand after checked => ?_
  have reached : reach operand.diverges = operand.outcome.followedBy (some .unit) := by
    unfold reach Operand.outcome
    split <;> rfl
  exact Checked.advanced (checked.imp fun env typed => reached ▸ .expr typed)

theorem noStmts_check : StmtsCheck ctx [] := by
  intro _ tailNames s sound
  exact Checked.advanced ⟨(Aside.refl s).grown sound, fun arena _ tail out typed => typed⟩

theorem moreStmts_check {stmt : Stmt} {rest : List Stmt} (first : StmtChecks ctx stmt)
    (others : StmtsCheck ctx rest) : StmtsCheck ctx (stmt :: rest) := by
  intro regular tailNames s sound
  obtain ⟨stmtRegular, restRegular⟩ : stmt.Regular ∧ Stmt.AllRegular rest := by
    simpa [Stmt.AllRegular] using regular
  simp only [checkStmts, enterNames, exitNames, meets_bind, meets_modify, meets_pure]
  have entered : Aside s { s with live := s.live.enter (namesOfStmts rest ++ tailNames) } :=
    ⟨rfl, rfl⟩
  refine (first stmtRegular _ (entered.grown sound).sound).mono fun leaves mid stmtChecked => ?_
  refine endStatement_passes.mono fun _ ended aside => ?_
  have left : Aside mid { ended with live := ended.live.exit?.getD ended.live } :=
    ⟨aside.arena, aside.scopes⟩
  have known := stmtChecked.aside left
  refine (others restRegular tailNames _ known.sound).mono fun later after restChecked => ?_
  refine ⟨restChecked.sound, known.known.trans restChecked.known,
    restChecked.outer.trans known.outer, fun arena extended tail out typed => ?_⟩
  have split : (reach (leaves || later)).followedBy out =
      (reach leaves).followedBy ((reach later).followedBy out) := by
    cases leaves <;> rfl
  rw [split]
  exact .cons (known.typed arena (restChecked.known.trans extended))
    (restChecked.typed arena extended tail out typed)

/-- The scope of a block that has been checked is left again. -/
theorem block_passes {holds : Env → Prop} {loc : Option Position} {keep : List BorrowId}
    (entered : mid.scopes.drop 1 = s.scopes) (known : s.arena.Extends mid.arena)
    (sound : s.Sound) (midSound : mid.Sound)
    (typed : ∀ arena, mid.arena.Extends arena → holds (envOf arena s.scopes)) :
    Passes (endBlock ctx loc keep) mid fun _ after => Checked s after holds := by
  refine (endBlock_passes loc keep).mono ?_
  intro _ after met
  obtain ⟨arena, scopes⟩ := met
  have grown : Grown s after := by
    refine sound.grown (arena ▸ midSound.arena) (arena ▸ known) (scopes.trans entered)
  exact ⟨grown, fun later extended => typed later (arena ▸ extended)⟩

theorem body_checks (loc : Option Position) {stmts : List Stmt} (inner : StmtsCheck ctx stmts) :
    BlockChecks ctx (.mk stmts none loc) := by
  intro regular isBody s sound
  simp only [checkBlock, beginBlock, meets_bind, meets_modify, meets_pure]
  have begun : State.Sound { s with tracker := s.tracker.pushFrame, scopes := [] :: s.scopes } :=
    ⟨sound.arena, by simpa using sound.bound⟩
  refine (inner (by simpa [Block.Regular] using regular) [] _ begun).mono fun leaves mid known => ?_
  refine block_passes known.outer known.known sound known.sound fun arena later => ?_
  have typed := known.typed arena later none (some .unit) .unit
  have reached : (reach leaves).followedBy (some .unit) =
      Operand.outcome { ty := .unit, diverges := leaves } := by
    cases leaves <;> rfl
  exact reached ▸ typed

theorem tailed_checks (loc : Option Position) {stmts : List Stmt} {tail : Expr}
    (inner : StmtsCheck ctx stmts) (last : ExprChecks ctx tail) :
    BlockChecks ctx (.mk stmts (some tail) loc) := by
  intro regular isBody s sound
  obtain ⟨stmtsRegular, tailRegular⟩ : Stmt.AllRegular stmts ∧ tail.Regular := by
    simpa [Block.Regular] using regular
  simp only [checkBlock, beginBlock]
  rw [Passes, meets_bind, meets_modify]
  have begun : State.Sound { s with tracker := s.tracker.pushFrame, scopes := [] :: s.scopes } :=
    ⟨sound.arena, by simpa using sound.bound⟩
  rw [meets_bind]
  refine (inner stmtsRegular tail.names _ begun).mono fun leaves mid known => ?_
  rw [meets_bind]
  refine (last tailRegular mid known.sound).mono fun value done checked => ?_
  have ended : Passes (do
      endBlock ctx loc value.loans
      return { value with diverges := leaves || value.diverges }) done fun value after =>
        Checked s after fun env => BlockTyped ctx.callable? ctx.result env (.mk stmts (some tail) loc)
          value.outcome := by
    simp only [meets_bind, meets_pure]
    refine block_passes ((congrArg (List.drop 1) checked.scopes).trans known.outer)
      (known.known.trans checked.known) sound checked.sound fun arena later => ?_
    have typed := known.typed arena (checked.known.trans later) (some tail) value.outcome
      (.tail (checked.typed arena later))
    have reached : (reach leaves).followedBy value.outcome =
        Operand.outcome { value with diverges := leaves || value.diverges } := by
      cases leaves <;> rfl
    exact reached ▸ typed
  split
  · rw [meets_bind]
    refine (checkEscape_passes value.loans tail.loc false).mono ?_
    rintro - after rfl
    exact ended
  · exact ended

mutual

theorem expr_typed : (e : Expr) → ExprChecks ctx e
  | .literal loc value => literal_checks loc value
  | .name loc ident => name_checks loc ident
  | .deref loc operand => deref_checks loc (expr_typed operand)
  | .unary loc _ operand => unary_checks loc (expr_typed operand)
  | .binary loc _ left right => binary_checks loc (expr_typed left) (expr_typed right)
  | .borrow loc operand isMut => borrow_checks loc isMut (expr_typed operand)
  | .call loc func args => call_checks loc func (args_typed args)
  | .boxNew loc value => boxNew_checks loc (expr_typed value)
  | .macroCall loc callee template args => macroCall_checks loc callee template (shown_typed args)
  | .ifElse loc condition thenBlock none =>
      ifOnly_checks loc (expr_typed condition) (block_typed thenBlock)
  | .ifElse loc condition thenBlock (some elseBlock) =>
      ifElse_checks loc (expr_typed condition) (block_typed thenBlock) (block_typed elseBlock)
  | .block loc body => block_checks loc (block_typed body)
  | .ofStmt _ | .ofBlock _ => fun _ _ _ => trivial

theorem args_typed : (args : List Expr) → ArgsCheck ctx args
  | [] => noArgs_check
  | arg :: args => moreArgs_check (expr_typed arg) (args_typed args)

theorem shown_typed : (args : List Expr) → ShownCheck ctx args
  | [] => noShown_check
  | arg :: args => moreShown_check (expr_typed arg) (shown_typed args)

theorem stmt_typed : (stmt : Stmt) → StmtChecks ctx stmt
  | .letVar loc ident written none isMut => letUnset_checks loc ident written isMut
  | .letVar loc ident written (some value) isMut =>
      letVar_checks loc ident written isMut (expr_typed value)
  | .assign loc target value op => assign_checks loc target op (expr_typed value)
  | .ret loc none => retUnit_checks loc
  | .ret loc (some value) => ret_checks loc (expr_typed value)
  | .whileLoop loc condition body => while_checks loc (expr_typed condition) (block_typed body)
  | .expr loc value => expr_checks loc (expr_typed value)
  | .ofExpr _ | .ofBlock _ => fun _ _ _ => trivial

theorem stmts_typed : (stmts : List Stmt) → StmtsCheck ctx stmts
  | [] => noStmts_check
  | stmt :: rest => moreStmts_check (stmt_typed stmt) (stmts_typed rest)

theorem block_typed : (body : Block) → BlockChecks ctx body
  | .mk stmts none loc => body_checks loc (stmts_typed stmts)
  | .mk stmts (some tail) loc => tailed_checks loc (stmts_typed stmts) (expr_typed tail)

end

end BorrowLang.Checker
