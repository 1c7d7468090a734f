import BorrowLang.Proofs.Extents.Steps
import BorrowLang.Proofs.Scoping.Expressions
import BorrowLang.Proofs.Typing.Bodies

/-!
# Which expressions spare borrows

An expression spares the borrows that were there before it, unless a block or an `if` with two arms
is always evaluated in it: at the end of a block all temporaries end, those of the expression around
it too.
-/

set_option autoImplicit false

namespace BorrowLang

mutual

/-- Is there no block that is always evaluated in an expression?  On the path around the right operand
of `&&` and `||`, and around an `if` without `else`, no borrow ends. -/
def Expr.spares : Expr → Bool
  | .literal _ _ | .name _ _ | .ofStmt _ | .ofBlock _ => true
  | .unary _ _ operand | .deref _ operand | .borrow _ operand _ | .boxNew _ operand => operand.spares
  | .binary _ op left right => left.spares && (op == .and || op == .or || right.spares)
  | .call _ _ args | .macroCall _ _ _ args => allSpare args
  | .ifElse _ condition _ none => condition.spares
  | .ifElse _ _ _ (some _) | .block _ _ => false

def allSpare : List Expr → Bool
  | [] => true
  | arg :: rest => arg.spares && allSpare rest

end

theorem allSpare_iff {args : List Expr} : allSpare args = true ↔ ∀ arg ∈ args, arg.spares = true := by
  induction args with
  | nil => simp [allSpare]
  | cons arg rest ih => simp [allSpare, ih]

example : allSpare [.name none "x", .block none (.mk [] none none)] = false := by cbv

theorem Expr.spares_of_isPlace {e : Expr} (isPlace : e.isPlace = true) : e.spares = true := by
  induction e using Expr.isPlace.induct with
  | case1 => rfl
  | case2 loc inner operand isMut ih =>
      rw [Expr.isPlace] at isPlace
      simp only [spares]
      exact ih isPlace
  | case3 loc operand notBorrow ih =>
      rw [Expr.isPlace] at isPlace
      · rw [spares]
        exact ih isPlace
      · exact notBorrow
  | case4 e notName notBorrow notDeref =>
      rw [Expr.isPlace] at isPlace
      · simp at isPlace
      · exact notName
      · exact notBorrow
      · exact notDeref

namespace Checker

variable {ctx : Context} {s mid after : State}

/-- The value of an expression carries no borrow of a temporary from before, and whether the borrows
from before are spared is seen from the expression. -/
def ExprAround (ctx : Context) (e : Expr) : Prop :=
  ∀ s : State, Passes (checkExpr ctx e) s fun value after =>
    Around e.spares s after ∧ Apart s value.loans

/-- The same of the arguments of a call, as many as there are parameters. -/
def ArgsAround (ctx : Context) (args : List Expr) : Prop :=
  ∀ (params : List Ty) (s : State), args.length = params.length →
    Passes (checkArgs ctx args params) s fun loans after =>
      Around (allSpare args) s after ∧ ∀ carried ∈ loans, Apart s carried

/-- The same of the arguments of a macro. -/
def ShownAround (ctx : Context) (args : List Expr) : Prop :=
  ∀ s : State, Passes (checkShown ctx args) s fun _ after => Around (allSpare args) s after

/-- A block ends the temporaries from before it. -/
def BlockAround (ctx : Context) (body : Block) : Prop :=
  ∀ (isBody : Bool) (s : State), Passes (checkBlock ctx isBody body) s fun value after =>
    Around false s after ∧ Apart s value.loans

/-! ### Values -/

theorem literal_around (loc : Option Position) (value : Literal) :
    ExprAround ctx (.literal loc value) := by
  intro s
  rw [checkExpr]
  refine ⟨.refl s, ?_⟩
  cases value <;> exact .nil s

theorem name_around (loc : Option Position) (ident : String) :
    ExprAround ctx (.name loc ident) := by
  intro s
  simp only [checkExpr, meets_bind]
  refine (lookup_around loc ident).mono fun place mid found => ?_
  refine (usePlace_around loc place).mono ?_
  rintro value after ⟨used, apart⟩
  exact ⟨found.spare used, apart.since found.toSteady⟩

/-- What is behind a reference carries at most the borrows of the reference. -/
theorem derefValue_loans (loc : Option Position) (inner : Operand) :
    Passes (derefValue ctx loc inner) s fun value after =>
      after = s ∧ ∀ id ∈ value.loans, id ∈ inner.loans := by
  unfold derefValue
  split
  · trivial
  · split
    · trivial
    · refine ⟨rfl, fun id member => ?_⟩
      simp only at member
      split at member
      · exact member
      · simp at member

theorem deref_around (loc : Option Position) {operand : Expr} (inner : ExprAround ctx operand) :
    ExprAround ctx (.deref loc operand) := by
  intro s
  rw [checkExpr]
  split <;> simp only [meets_bind]
  · rename_i isPlace
    refine (placeOf_around _).mono fun place mid named => ?_
    refine (usePlace_around loc place).mono ?_
    rintro value after ⟨used, apart⟩
    rw [Expr.spares_of_isPlace isPlace]
    exact ⟨named.spare used, apart.since named.toSteady⟩
  · refine (inner s).mono ?_
    rintro value mid ⟨around, apart⟩
    refine (derefValue_loans loc value).mono ?_
    rintro result _ ⟨rfl, part⟩
    rw [Expr.spares]
    exact ⟨around, apart.of_subset part⟩

theorem unaryOperand_loans (loc : Option Position) (op : UnaryOp) (operand : Operand) :
    Passes (unaryOperand ctx loc op operand) s fun value after =>
      after = s ∧ value.loans = [] := by
  unfold unaryOperand
  by_cases fits : operand.ty = if op = .neg then .i32 else .bool
  · simp only [if_pos fits, meets_pure, and_self]
  · simp only [if_neg fits, meets_throw]

theorem unary_around (loc : Option Position) (op : UnaryOp) {operand : Expr}
    (inner : ExprAround ctx operand) : ExprAround ctx (.unary loc op operand) := by
  intro s
  simp only [checkExpr, meets_bind]
  refine (inner s).mono ?_
  rintro value mid ⟨around, -⟩
  refine (unaryOperand_loans loc op value).mono ?_
  rintro result _ ⟨rfl, none⟩
  rw [Expr.spares, none]
  exact ⟨around, .nil s⟩

theorem expectInt_same (op : BinaryOp) (operand : Operand) (loc : Option Position) :
    Passes (expectInt ctx op operand loc) s fun _ after => after = s := by
  unfold expectInt
  split
  · rfl
  · trivial

theorem binaryOperand_loans (op : BinaryOp) (left right : Operand)
    (leftLoc rightLoc : Option Position) :
    Passes (binaryOperand ctx op left right leftLoc rightLoc) s fun value after =>
      after = s ∧ value.loans = [] := by
  have ints : ∀ result : Operand, result.loans = [] → Passes (do
      expectInt ctx op left leftLoc
      expectInt ctx op right rightLoc
      return result) s fun value after => after = s ∧ value.loans = [] := by
    intro result none
    simp only [meets_bind, meets_pure]
    refine (expectInt_same op left leftLoc).mono ?_
    rintro _ _ rfl
    refine (expectInt_same op right rightLoc).mono ?_
    rintro _ _ rfl
    exact ⟨rfl, none⟩
  cases op with
  | arith | order => exact ints _ rfl
  | eq | ne =>
      simp only [binaryOperand]
      split
      · simp only [meets_bind, meets_pure]
        refine (expect_passes left.ty right rightLoc).mono ?_
        rintro _ _ ⟨rfl, -⟩
        exact ⟨rfl, trivial⟩
      · trivial
  | and | or | unknown => trivial

theorem binary_around (loc : Option Position) (op : BinaryOp) {left right : Expr}
    (first : ExprAround ctx left) (second : ExprAround ctx right) :
    ExprAround ctx (.binary loc op left right) := by
  intro s
  simp only [checkExpr, meets_bind]
  refine (first s).mono ?_
  rintro leftValue mid ⟨leftAround, -⟩
  rw [Expr.spares]
  split <;> rename_i isLogical <;> simp only [meets_bind, meets_get, meets_pure]
  · refine (expect_passes .bool leftValue left.loc).mono ?_
    rintro _ _ ⟨rfl, -⟩
    refine (second _).mono ?_
    rintro rightValue after ⟨rightAround, -⟩
    refine (expect_passes .bool rightValue right.loc).mono ?_
    rintro _ _ ⟨rfl, -⟩
    have both := leftAround.spare rightAround.toSteady.join
    have logical : (op == .and || op == .or || right.spares) = true := by
      rcases isLogical with rfl | rfl <;> rfl
    rw [logical, Bool.and_true]
    exact ⟨both, .nil s⟩
  · refine (second mid).mono ?_
    rintro rightValue after ⟨rightAround, -⟩
    refine (binaryOperand_loans op leftValue rightValue left.loc right.loc).mono ?_
    rintro result _ ⟨rfl, none⟩
    have strict : (op == .and || op == .or || right.spares) = right.spares := by
      simp [not_or.mp isLogical]
    rw [strict, none]
    exact ⟨leftAround.trans rightAround, .nil s⟩

theorem borrow_expr_around (loc : Option Position) {operand : Expr} (isMut : Bool)
    (inner : ExprAround ctx operand) : ExprAround ctx (.borrow loc operand isMut) := by
  intro s
  simp only [checkExpr]
  rw [Expr.spares]
  split <;> simp only [meets_bind, meets_pure]
  · rename_i isPlace
    refine (placeOf_around operand).mono fun place mid named => ?_
    refine (borrowPlace_around loc place isMut).mono ?_
    rintro value after ⟨borrowed, apart⟩
    rw [Expr.spares_of_isPlace isPlace]
    exact ⟨named.spare borrowed, apart.since named.toSteady⟩
  · exact inner s

theorem boxNew_around (loc : Option Position) {value : Expr} (inner : ExprAround ctx value) :
    ExprAround ctx (.boxNew loc value) := by
  intro s
  simp only [checkExpr, meets_bind, meets_pure]
  rw [Expr.spares]
  exact inner s

/-! ### Calls -/

/-- One argument of a call is borrowed anew or checked, and is of the type of the parameter. -/
def checkArg (ctx : Context) (arg : Expr) (param : Ty) : Check Operand := do
  let value ←
    match ← reborrow? ctx arg param with
    | some value => pure value
    | none => checkExpr ctx arg
  expect ctx param value arg.loc
  return value

theorem checkArgs_cons (arg : Expr) (args : List Expr) (param : Ty) (params : List Ty) :
    checkArgs ctx (arg :: args) (param :: params) = (do
      let value ← checkArg ctx arg param
      let rest ← checkArgs ctx args params
      return value.loans :: rest) := by
  simp only [checkArgs, checkArg, bind_assoc, pure_bind]
  congr 1
  funext found
  cases found <;> simp only [bind_assoc, pure_bind]

theorem checkArgs_nil (params : List Ty) : checkArgs ctx [] params = pure [] := by
  rw [checkArgs]
  exact fun arg args param rest impossible => by simp at impossible

theorem checkArg_around {arg : Expr} (inner : ExprAround ctx arg) (param : Ty) :
    Passes (checkArg ctx arg param) s fun value after =>
      Around arg.spares s after ∧ Apart s value.loans := by
  simp only [checkArg]
  rw [Passes, meets_bind]
  refine (reborrow?_around arg param).mono ?_
  rintro found mid ⟨around, each⟩
  cases found with
  | some value =>
      simp only [meets_bind, meets_pure]
      refine (expect_passes param value arg.loc).mono ?_
      rintro _ _ ⟨rfl, -⟩
      obtain ⟨isPlace, apart⟩ := each value rfl
      rw [Expr.spares_of_isPlace isPlace]
      exact ⟨around, apart⟩
  | none =>
      simp only [meets_bind, meets_pure]
      refine (inner mid).mono ?_
      rintro value after ⟨checked, apart⟩
      refine (expect_passes param value arg.loc).mono ?_
      rintro _ _ ⟨rfl, -⟩
      have whole := around.trans checked
      rw [Bool.true_and] at whole
      exact ⟨whole, apart.since around.toSteady⟩

theorem noArgs_around : ArgsAround ctx [] := by
  intro params s _
  rw [checkArgs_nil]
  exact ⟨.refl s, fun _ impossible => by simp at impossible⟩

theorem moreArgs_around {arg : Expr} {args : List Expr} (first : ExprAround ctx arg)
    (others : ArgsAround ctx args) : ArgsAround ctx (arg :: args) := by
  intro params s arity
  cases params with
  | nil => simp at arity
  | cons param params =>
      rw [checkArgs_cons, allSpare]
      simp only [meets_bind, meets_pure]
      refine (checkArg_around first param).mono ?_
      rintro value mid ⟨around, apart⟩
      refine (others params mid (Nat.succ.inj arity)).mono ?_
      rintro loans after ⟨later, each⟩
      exact ⟨around.trans later, List.forall_mem_cons.mpr
        ⟨apart, fun carried member => (each carried member).since around.toSteady⟩⟩

theorem call_around (loc : Option Position) (func : String) {args : List Expr}
    (inner : ArgsAround ctx args) : ExprAround ctx (.call loc func args) := by
  intro s
  simp only [checkExpr, meets_bind]
  refine (signatureOf_same loc func).mono ?_
  rintro signature _ ⟨rfl, -⟩
  split
  · trivial
  · rename_i arity
    simp only [meets_bind, meets_pure]
    refine (inner signature.params _ (Decidable.not_not.mp arity)).mono ?_
    rintro loans mid ⟨around, each⟩
    refine (storeArguments_around loans _).mono fun _ after stored => ?_
    rw [Expr.spares]
    refine ⟨around.spare stored, ?_⟩
    unfold callOperand
    split
    · exact .unionAll each
    · exact .nil _

theorem noShown_around : ShownAround ctx [] := by
  intro s
  rw [checkShown]
  exact .refl s

theorem moreShown_around {arg : Expr} {args : List Expr} (first : ExprAround ctx arg)
    (others : ShownAround ctx args) : ShownAround ctx (arg :: args) := by
  intro s
  rw [allSpare]
  have rest : ∀ mid, Around arg.spares s mid → Passes (checkShown ctx args) mid fun _ after =>
      Around (arg.spares && allSpare args) s after :=
    fun mid around => (others mid).mono fun _ _ later => around.trans later
  simp only [checkShown]
  split <;> rename_i isPlace <;> simp only [meets_bind]
  · refine (placeOf_around arg).mono fun place mid named => ?_
    refine (showPlace_passes arg.loc place).mono ?_
    rintro _ _ ⟨rfl, -⟩
    exact rest _ (Expr.spares_of_isPlace isPlace ▸ named)
  · refine (first s).mono ?_
    rintro value mid ⟨around, -⟩
    refine (expectDisplayable_same arg.loc _).mono ?_
    rintro _ _ rfl
    exact rest _ around

theorem macroCall_around (loc : Option Position) (callee template : String) {args : List Expr}
    (inner : ShownAround ctx args) : ExprAround ctx (.macroCall loc callee template args) := by
  intro s
  simp only [checkExpr, meets_bind, meets_pure]
  refine (checkTemplate_passes loc callee template args.length).mono ?_
  rintro _ _ ⟨rfl, -⟩
  rw [Expr.spares]
  exact (inner _).mono fun _ _ around => ⟨around, .nil _⟩

end Checker

end BorrowLang
