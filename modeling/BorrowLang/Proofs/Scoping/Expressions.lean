import BorrowLang.Proofs.Parts
import BorrowLang.Proofs.Scoping.Steps
import BorrowLang.Proofs.Typing.Checked

/-!
# Expressions leave open scopes as they are

Each form of expression that passes the check leaves scopes and frames exactly as they were, given that
the parts it consists of do so.  Paths that are checked on forks meet with the same frames open.
-/

set_option autoImplicit false

namespace BorrowLang.Checker

variable {ctx : Context} {s mid after : State}

/-- An expression that passes leaves open scopes as they are. -/
def ExprKeeps (ctx : Context) (e : Expr) : Prop :=
  ∀ s : State, s.Framed → Passes (checkExpr ctx e) s fun _ after => Level s after

/-- The arguments of a call that pass leave open scopes as they are. -/
def ArgsKeep (ctx : Context) (args : List Expr) : Prop :=
  ∀ (params : List Ty) (s : State), s.Framed →
    Passes (checkArgs ctx args params) s fun _ after => Level s after

/-- The arguments of a macro that pass leave open scopes as they are. -/
def ShownKeep (ctx : Context) (args : List Expr) : Prop :=
  ∀ s : State, s.Framed → Passes (checkShown ctx args) s fun _ after => Level s after

/-- A block that passes leaves open scopes as they are: its own is closed again. -/
def BlockKeeps (ctx : Context) (body : Block) : Prop :=
  ∀ (isBody : Bool) (s : State), s.Framed →
    Passes (checkBlock ctx isBody body) s fun _ after => Level s after

/-! ### Paths that meet -/

/-- A path is left and another one taken, with the tracker from before. -/
theorem Level.swap (framed : s.Framed) (level : Level s after) :
    Level s { after with tracker := s.tracker } where
  framed :=
    ⟨level.framed.laid, framed.sheltered.grow level.ways, level.framed.inside,
      level.frames ▸ level.framed.bound⟩
  ways := level.ways
  frames := rfl
  scopes := level.scopes

/-- Two paths meet, with the same frames open. -/
theorem join_level (framed : s.Framed) {other : Tracker} (sheltered : other.Sheltered s.arena)
    (frames : other.frames = s.tracker.frames) :
    Passes (modifyTracker (·.join other)) s fun _ after => Level s after := by
  simp only [modifyTracker, meets_modify]
  exact .of_sheltered framed rfl rfl rfl (framed.sheltered.join sheltered frames)

theorem meet_level (framed : s.Framed) {other : Tracker} (sheltered : other.Sheltered s.arena)
    (frames : other.frames = s.tracker.frames) (diverges otherDiverges : Bool) :
    Passes (modifyTracker (meet diverges otherDiverges other)) s fun _ after => Level s after := by
  simp only [modifyTracker, meets_modify, meet]
  split
  · exact .refl framed
  · split
    · exact .of_sheltered framed rfl rfl frames sheltered
    · exact .of_sheltered framed rfl rfl frames (sheltered.join framed.sheltered frames.symm)

/-! ### Values -/

theorem literal_keeps (loc : Option Position) (value : Literal) :
    ExprKeeps ctx (.literal loc value) := by
  intro s framed
  rw [checkExpr]
  exact .refl framed

theorem name_keeps (loc : Option Position) (ident : String) : ExprKeeps ctx (.name loc ident) := by
  intro s framed
  simp only [checkExpr, meets_bind]
  refine (lookup_owns framed loc ident).mono ?_
  intro place after met
  obtain ⟨rfl, -⟩ := met
  exact usePlace_level framed loc place

theorem derefValue_same (loc : Option Position) (inner : Operand) :
    Passes (derefValue ctx loc inner) s fun _ after => after = s := by
  unfold derefValue
  split
  · trivial
  · split
    · trivial
    · rfl

theorem deref_keeps (loc : Option Position) {operand : Expr} (inner : ExprKeeps ctx operand) :
    ExprKeeps ctx (.deref loc operand) := by
  intro s framed
  rw [checkExpr]
  split <;> simp only [meets_bind]
  · refine (placeOf_level framed _).mono ?_
    intro place mid met
    obtain ⟨level, -⟩ := met
    exact level.onward (usePlace_level level.framed loc place)
  · refine (inner s framed).mono fun value mid level => ?_
    refine (derefValue_same loc value).mono ?_
    rintro _ after rfl
    exact level

theorem unaryOperand_same (loc : Option Position) (op : UnaryOp) (operand : Operand) :
    Passes (unaryOperand ctx loc op operand) s fun _ after => after = s := by
  unfold unaryOperand
  by_cases fits : operand.ty = if op = .neg then .i32 else .bool
  · simp only [if_pos fits, meets_pure]
  · simp only [if_neg fits, meets_throw]

theorem unary_keeps (loc : Option Position) (op : UnaryOp) {operand : Expr}
    (inner : ExprKeeps ctx operand) : ExprKeeps ctx (.unary loc op operand) := by
  intro s framed
  simp only [checkExpr, meets_bind]
  refine (inner s framed).mono fun value mid level => ?_
  refine (unaryOperand_same loc op value).mono ?_
  rintro _ after rfl
  exact level

theorem binary_keeps (loc : Option Position) (op : BinaryOp) {left right : Expr}
    (first : ExprKeeps ctx left) (second : ExprKeeps ctx right) :
    ExprKeeps ctx (.binary loc op left right) := by
  intro s framed
  simp only [checkExpr, meets_bind]
  refine (first s framed).mono fun leftValue mid leftLevel => ?_
  split <;> simp only [meets_bind, meets_get, meets_pure]
  · refine (expect_passes .bool leftValue left.loc).mono ?_
    rintro _ _ ⟨rfl, -⟩
    refine (second _ leftLevel.framed).mono fun rightValue after rightLevel => ?_
    refine (expect_passes .bool rightValue right.loc).mono ?_
    rintro _ _ ⟨rfl, -⟩
    -- The path that skips the right operand comes back with the frames it left with.
    have skipped := leftLevel.framed.sheltered.grow rightLevel.ways
    refine (join_level rightLevel.framed skipped rightLevel.frames.symm).mono fun _ _ joined => ?_
    exact (leftLevel.trans rightLevel).trans joined
  · refine (second mid leftLevel.framed).mono fun rightValue after rightLevel => ?_
    refine (binaryOperand_passes loc op leftValue rightValue left.loc right.loc).mono ?_
    rintro _ _ ⟨rfl, -⟩
    exact leftLevel.trans rightLevel

theorem borrowPlace_level (framed : s.Framed) (loc : Option Position) {place : PlaceId}
    (owns : s.Owns place) (isMut : Bool) :
    Passes (borrowPlace ctx loc place isMut) s fun _ after => Level s after := by
  have borrowed : Passes (borrowChecked ctx s loc place isMut) s fun _ after => Level s after := by
    simp only [borrowChecked, meets_bind]
    refine (borrow_level framed loc owns _).mono fun loan after level => ?_
    split
    · trivial
    · exact level
  rw [borrowPlace_eq]
  simp only [meets_bind, meets_get]
  split
  · rw [meets_bind]
    refine (guard_passes loc _).mono ?_
    rintro - after rfl
    exact borrowed
  · exact borrowed

theorem borrow_keeps (loc : Option Position) {operand : Expr} (isMut : Bool)
    (inner : ExprKeeps ctx operand) : ExprKeeps ctx (.borrow loc operand isMut) := by
  intro s framed
  simp only [checkExpr]
  split <;> simp only [meets_bind, meets_pure]
  · refine (placeOf_level framed operand).mono ?_
    intro place mid met
    obtain ⟨level, owns⟩ := met
    exact level.onward (borrowPlace_level level.framed loc owns isMut)
  · exact inner s framed

theorem boxNew_keeps (loc : Option Position) {value : Expr} (inner : ExprKeeps ctx value) :
    ExprKeeps ctx (.boxNew loc value) := by
  intro s framed
  simp only [checkExpr, meets_bind, meets_pure]
  exact inner s framed

/-! ### Calls -/

theorem noArgs_keep : ArgsKeep ctx [] := by
  intro params s framed
  rw [checkArgs]
  · exact .refl framed
  · exact fun arg args param rest impossible => by simp at impossible

/-- One argument of a call is borrowed anew or checked, and is of the type of the parameter. -/
theorem argsFirst_level (framed : s.Framed) {arg : Expr} (inner : ExprKeeps ctx arg) (param : Ty) :
    Passes (do
      let value ←
        match ← reborrow? ctx arg param with
        | some value => pure value
        | none => checkExpr ctx arg
      expect ctx param value arg.loc) s fun _ after => Level s after := by
  have fits : ∀ value mid, Level s mid →
      Passes (expect ctx param value arg.loc) mid fun _ after => Level s after := by
    intro value mid level
    refine (expect_passes param value arg.loc).mono ?_
    rintro _ _ ⟨rfl, -⟩
    exact level
  rw [Passes, meets_bind]
  refine (reborrow?_level framed arg param).mono fun found mid level => ?_
  split
  · exact fits _ mid level
  · rw [meets_bind]
    refine (inner mid level.framed).mono fun value after later => ?_
    exact fits value after (level.trans later)

theorem moreArgs_keep {arg : Expr} {args : List Expr} (first : ExprKeeps ctx arg)
    (others : ArgsKeep ctx args) : ArgsKeep ctx (arg :: args) := by
  intro params s framed
  cases params with
  | nil =>
      rw [checkArgs]
      · exact .refl framed
      · exact fun arg args param rest _ impossible => by simp at impossible
  | cons param params =>
      have rest : ∀ mid, Level s mid →
          Passes (checkArgs ctx args params) mid fun _ after => Level s after :=
        fun mid level => level.onward (others params mid level.framed)
      have here := argsFirst_level framed first param
      simp only [checkArgs, meets_bind] at here ⊢
      refine here.onOk fun found mid known => ?_
      cases found with
      | some value =>
          simp only [meets_bind, meets_pure] at known ⊢
          exact known.onOk fun _ after level => rest after level
      | none =>
          simp only [meets_bind, meets_pure] at known ⊢
          exact known.onOk fun value after fits => fits.onOk fun _ last level => rest last level

theorem signatureOf_same (loc : Option Position) (func : String) :
    Passes (signatureOf ctx loc func) s fun signature after =>
      after = s ∧ ctx.callable? func = some signature := by
  unfold signatureOf
  split
  · rename_i signature known
    exact ⟨rfl, known⟩
  · trivial

theorem call_keeps (loc : Option Position) (func : String) {args : List Expr}
    (inner : ArgsKeep ctx args) : ExprKeeps ctx (.call loc func args) := by
  intro s framed
  simp only [checkExpr, meets_bind]
  refine (signatureOf_same loc func).mono ?_
  rintro signature _ ⟨rfl, -⟩
  split
  · trivial
  · simp only [meets_bind, meets_pure]
    refine (inner signature.params _ framed).mono fun loans mid level => ?_
    exact level.onward (storeArguments_level level.framed loans _)

theorem noShown_keep : ShownKeep ctx [] := by
  intro s framed
  rw [checkShown]
  exact .refl framed

theorem expectDisplayable_same (loc : Option Position) (ty : Option Ty) :
    Passes (expectDisplayable ctx loc ty) s fun _ after => after = s := by
  unfold expectDisplayable
  split
  · rfl
  · trivial

/-- One argument of a macro: a place is shown where it is, any other value is checked. -/
theorem shownFirst_level (framed : s.Framed) {arg : Expr} (inner : ExprKeeps ctx arg) :
    Passes (do
      if arg.isPlace then showPlace ctx arg.loc (← placeOf ctx arg)
      else expectDisplayable ctx arg.loc (some (← checkExpr ctx arg).ty)) s
        fun _ after => Level s after := by
  split <;> simp only [meets_bind]
  · refine (placeOf_level framed arg).mono ?_
    intro place mid met
    obtain ⟨level, -⟩ := met
    refine (showPlace_passes arg.loc place).mono ?_
    rintro _ _ ⟨rfl, -⟩
    exact level
  · refine (inner s framed).mono fun value mid level => ?_
    refine (expectDisplayable_same arg.loc _).mono ?_
    rintro _ after rfl
    exact level

theorem moreShown_keep {arg : Expr} {args : List Expr} (first : ExprKeeps ctx arg)
    (others : ShownKeep ctx args) : ShownKeep ctx (arg :: args) := by
  intro s framed
  have rest : ∀ mid, Level s mid →
      Passes (checkShown ctx args) mid fun _ after => Level s after :=
    fun mid level => level.onward (others mid level.framed)
  have here := shownFirst_level framed first
  simp only [checkShown]
  split <;> rename_i isPlace
  · simp only [isPlace, if_true, meets_bind] at here ⊢
    exact here.onOk fun place mid shown => shown.onOk fun _ after level => rest after level
  · rw [if_neg isPlace] at here
    simp only [meets_bind] at here ⊢
    exact here.onOk fun value mid shown => shown.onOk fun _ after level => rest after level

theorem macroCall_keeps (loc : Option Position) (callee template : String) {args : List Expr}
    (inner : ShownKeep ctx args) : ExprKeeps ctx (.macroCall loc callee template args) := by
  intro s framed
  simp only [checkExpr, meets_bind, meets_pure]
  refine (checkTemplate_passes loc callee template args.length).mono ?_
  rintro _ _ ⟨rfl, -⟩
  exact inner _ framed

end BorrowLang.Checker
