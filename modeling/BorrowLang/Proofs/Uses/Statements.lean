import BorrowLang.Proofs.Uses.Bodies

/-!
# Statements without uses of what is gone

Bindings, assignments and returns are safe when their expressions are, and so are loops whose
conditions leave no more gone than before.
-/

set_option autoImplicit false

namespace BorrowLang.Evaluator

open Ownership Moves
open Checker (Operand)

variable {ctx : Context} {rules : Checker.Context} {n : Nat} {s : State} {types : CellTypes}
variable {callers : List Layer} {o mid after : Outline} {counts : List Nat} {value : Operand}

/-! ### Bindings and assignments -/

theorem declare_eq_some {ident : String} {ty : Option Ty} {isMut initialized : Bool} {u : Unit}
    (passed : Moves.declare ident ty isMut initialized o = some (u, after)) :
    after = o.declare ⟨ident, isMut, ty⟩ initialized :=
  (Prod.mk.inj (Option.some.inj passed)).2.symm

theorem letVar_none_safe (loc : Option Position) (ident : String) (written : Option TypeExpr)
    (isMut : Bool) : StmtSafe ctx rules n (.letVar loc ident written none isMut) := by
  intro o after leaves counts callers types s k passed tracked returns goesOn
  rw [Moves.stmt] at passed
  obtain ⟨declared, -, declares⟩ := answer_bind passed
  obtain ⟨_, mid, bound, ends⟩ := bind_eq_some.mp declares
  obtain rfl := declare_eq_some bound
  obtain ⟨rfl, rfl⟩ := pure_eq_some.mp ends
  refine .acts rfl rfl fun sound => ?_
  have owned : Owned s (boxes k.values) := by simpa [Control.values] using sound.owned
  obtain ⟨scope, scopes, frames, framesEq⟩ := sound.fits.1.frames
  simp only [bind, Evaluator.alloc, modifyScope, meets_bind, meets_get, meets_set, meets_pure,
    meets_modify, framesEq]
  -- A cell without a value has no type yet.
  refine goesOn rfl _ _ (tracked.extends_add .unit false) ?_
  exact tracked.declare owned framesEq (by rintro ⟨⟩) (by rintro ⟨⟩) (by rintro ⟨⟩) rfl rfl rfl

theorem letVar_some_safe (loc : Option Position) (ident : String) (written : Option TypeExpr)
    {init : Expr} (isMut : Bool) (inner : ExprSafe ctx rules n init) :
    StmtSafe ctx rules n (.letVar loc ident written (some init) isMut) := by
  intro o after leaves counts callers types s k passed tracked returns goesOn
  rw [Moves.stmt] at passed
  obtain ⟨declared, -, passed⟩ := answer_bind passed
  obtain ⟨operand, mid, begins, passed⟩ := bind_eq_some.mp passed
  obtain ⟨final, isFinal, coerces, bound⟩ : ∃ final, (declared <|> some operand.ty) = some final ∧
      (operand.diverges = false → operand.ty.coercesTo final = true) ∧
      (do
        Moves.declare ident (declared <|> some operand.ty) isMut true
        return false : Moves.Bare Bool) mid = some (leaves, after) := by
    cases declared with
    | none => exact ⟨operand.ty, rfl, fun _ => Ty.coercesTo_refl _, passed⟩
    | some final =>
        obtain ⟨_, expects, rest⟩ := answer_bind passed
        exact ⟨final, rfl, fun comes => (expect_eq_ok expects).resolve_left (by simp [comes]), rest⟩
  obtain ⟨_, last, declares, ends⟩ := bind_eq_some.mp bound
  obtain rfl := declare_eq_some declares
  obtain ⟨rfl, rfl⟩ := pure_eq_some.mp ends
  have values : (Stack.cons (.letVar ident) k).values = k.values := List.append_nil _
  refine .goes rfl rfl (inner begins (values ▸ tracked) (.push returns (fun _ => rfl) ?_))
  exact fun comes =>
    letVar_safe ⟨ident, isMut, declared <|> some operand.ty⟩ isFinal (coerces comes) (goesOn rfl)

theorem assign_safe (loc : Option Position) (target : Expr) {init : Expr} (op : Option BinaryOp)
    (inner : ExprSafe ctx rules n init) : StmtSafe ctx rules n (.assign loc target init op) := by
  intro o after leaves counts callers types s k passed tracked returns goesOn
  rw [Moves.stmt] at passed
  obtain ⟨-, passed⟩ := ensure_bind passed
  obtain ⟨operand, mid, begins, passed⟩ := bind_eq_some.mp passed
  obtain ⟨spot, found, passed⟩ := placeOf_bind passed
  obtain ⟨_, typedMid, typed, passed⟩ := bind_eq_some.mp passed
  obtain ⟨_, last, placed, ends⟩ := bind_eq_some.mp passed
  obtain ⟨rfl, rfl⟩ := pure_eq_some.mp ends
  have marks : typedMid.marks = mid.marks := by
    obtain ⟨-, -, ⟨rfl, -⟩ | ⟨-, -, rfl⟩⟩ := assignType_eq_some typed <;> rfl
  have kept : ∀ depth < spot.depth, ¬ mid.Gone spot.level depth := by
    intro depth before isGone
    refine (assignPlace_eq_some placed).1.held depth before ?_
    unfold Outline.Gone at isGone ⊢
    rwa [marks]
  have values : (Stack.cons (.assignValue loc target op) k).values = k.values := List.append_nil _
  refine .goes rfl rfl (inner begins (values ▸ tracked) (.push returns (fun _ => rfl) ?_))
  intro comes later v s extended shaped tracked
  rw [values] at tracked
  exact .goes rfl rfl (placeOf_safe target found (k := .cons (.assignPlace loc target op v) k) tracked
    kept (assignPlace_safe target typed placed shaped comes ((goesOn rfl).later extended)))

/-! ### Returns and statements of an expression -/

theorem ret_none_safe (loc : Option Position) : StmtSafe ctx rules n (.ret loc none) := by
  intro o after leaves counts callers types s k passed tracked returns goesOn
  rw [Moves.stmt] at passed
  obtain ⟨_, answers, -⟩ := answer_bind passed
  have coerces := (expect_eq_ok answers).resolve_left (by simp)
  refine (Safe.of_advance rfl rfl fun _ => ?_).mono (Nat.le_succ n)
  refine returns types ⟨o, counts⟩ .unit s (.refl types)
    ((Value.Shaped.plain rfl rfl : Value.Shaped types .unit .unit).coerce coerces) ?_
  rwa [boxes_append_plain _ rfl]

theorem ret_some_safe (loc : Option Position) {e : Expr} (inner : ExprSafe ctx rules n e) :
    StmtSafe ctx rules n (.ret loc (some e)) := by
  intro o after leaves counts callers types s k passed tracked returns goesOn
  rw [Moves.stmt] at passed
  obtain ⟨operand, mid, begins, passed⟩ := bind_eq_some.mp passed
  obtain ⟨_, answers, -⟩ := answer_bind passed
  have values : (Stack.cons .ret k).values = k.values := List.append_nil _
  refine .goes rfl rfl (inner begins (values ▸ tracked) (.push returns (fun _ => rfl) ?_))
  exact fun comes => ret_safe ((expect_eq_ok answers).resolve_left (by simp [comes])) returns

theorem expr_stmt_safe (loc : Option Position) {e : Expr} (inner : ExprSafe ctx rules n e) :
    StmtSafe ctx rules n (.expr loc e) := by
  intro o after leaves counts callers types s k passed tracked returns goesOn
  rw [Moves.stmt] at passed
  obtain ⟨operand, mid, begins, ends⟩ := bind_eq_some.mp passed
  obtain ⟨rfl, rfl⟩ := pure_eq_some.mp ends
  have values : (Stack.cons .exprStmt k).values = k.values := List.append_nil _
  exact .goes rfl rfl (inner begins (values ▸ tracked) (.push returns (fun _ => rfl) fun comes =>
    exprStmt_safe (goesOn comes)))

/-! ### Loops -/

/-- One round of a loop: it is left after the condition, or goes back after the body. -/
theorem round_safe {condition : Expr} {body : Block} {test operand : Operand} {last : Outline}
    {k : Stack .done} (tests : ExprSafe ctx rules n condition) (inner : BlockSafe ctx rules n body)
    (begins : Moves.expr rules condition o = some (test, mid))
    (passes : Moves.block rules body mid = some (operand, last))
    (tracked : s.Tracked types (⟨o, counts⟩ :: callers) (boxes k.values))
    (returns : OnReturn ctx n callers types rules.result k)
    (isLeft : test.diverges = false → OnDone ctx n (⟨mid, counts⟩ :: callers) types k)
    (again : ∀ (later : CellTypes) (s : State), types.Extends later →
      s.Tracked later (⟨last, counts⟩ :: callers) (boxes k.values) →
        Safe ctx n ⟨.loop condition body, k, s⟩) :
    Safe ctx (n + 1) ⟨.loop condition body, k, s⟩ := by
  have values : (Stack.cons (.loopCondition condition body) k).values = k.values :=
    List.append_nil _
  have valuesBody : (Stack.cons (.loopBody condition body) k).values = k.values :=
    List.append_nil _
  refine .of_advance rfl rfl fun _ => tests begins (values ▸ tracked)
    (.push returns (fun _ => rfl) fun comes => ?_)
  intro later v s extended _ tracked
  rw [values, boxes_append] at tracked
  have trackedHere := tracked.weaken fun box member => List.mem_append_left (boxes [v]) member
  by_cases goesRound : isTrue v = true
  · have resumed : resumeValue ctx v (.loopCondition condition body) k =
        goTo (.block body) (.cons (.loopBody condition body) k) := by
      simp only [resumeValue, goesRound, if_true]
    refine .goes (congrArg some resumed) rfl (inner passes (valuesBody ▸ trackedHere)
      (.push (returns.later extended) (fun _ => rfl) fun _ => ?_))
    intro last w s extendedLast _ tracked
    rw [valuesBody, boxes_append] at tracked
    exact .goes rfl rfl (again last s (extended.trans extendedLast)
      (tracked.weaken fun box member => List.mem_append_left _ member))
  · have resumed : resumeValue ctx v (.loopCondition condition body) k = goTo .finished k := by
      simp only [resumeValue, goesRound, if_false, Bool.false_eq_true]
    exact .goes (congrArg some resumed) rfl (isLeft comes later s extended trackedHere)

theorem turn_closes (loc : Option Position) (condition : Expr) (body : Block) :
    Closes (turn rules loc (Moves.expr rules condition) (Moves.block rules body)) :=
  (expr_closes rules condition).bind fun _ => (Closes.answer _).bind fun _ =>
    (block_closes rules body).bind fun _ => .of_reads (.ensure _)

/-- A loop whose condition conserves what is there: after one round, the check knows what it knows
after any number of them. -/
theorem whileLoop_safe (loc : Option Position) {condition : Expr} {body : Block}
    (tests : ∀ m ≤ n, ExprSafe ctx rules m condition)
    (inner : ∀ m ≤ n, BlockSafe ctx rules m body) (conserves : Conserves rules condition) :
    StmtSafe ctx rules n (.whileLoop loc condition body) := by
  intro o after leaves counts callers types s k passed tracked returns goesOn
  rw [Moves.stmt] at passed
  obtain ⟨_, joined, skips, ends⟩ := bind_eq_some.mp passed
  obtain ⟨rfl, rfl⟩ := pure_eq_some.mp ends
  obtain ⟨second, passes, rfl⟩ := orSkip_eq_some skips
  obtain ⟨_, first, once, twice⟩ := bind_eq_some.mp passes
  have regular := @turn_regular rules condition.loc _ _ (@expr_regular rules condition)
    (@block_regular rules body)
  have length := turn_closes condition.loc condition body _ _ _ once
  obtain rfl := regular.settled once length twice
  obtain ⟨test, mid, operand, begins, isBool, runs, -⟩ := turn_eq_some once
  obtain ⟨test', mid', operand', begins', isBool', runs', -⟩ := turn_eq_some twice
  have goesOnHere := goesOn rfl
  have grows := regular.grows once
  have skipped : Loosens o { second with marks := second.marks.join o.marks } :=
    .of_grows ⟨grows.binders, grows.ty⟩ length fun isGone =>
      (Loosens.join_right (o := o) second.marks).gone isGone
  have settled : Loosens second { second with marks := second.marks.join o.marks } := .join_left _
  -- A loop is left after its condition, where no more is gone than before it.
  have leavesAt : ∀ {known middle : Outline} {t b : Operand},
      Moves.expr rules condition known = some (t, middle) →
      (Checker.expect rules .bool t condition.loc default).1 = .ok () →
      Moves.block rules body middle = some (b, second) →
      Loosens known { second with marks := second.marks.join o.marks } → t.diverges = false →
      Loosens middle { second with marks := second.marks.join o.marks } := by
    intro known middle t b begins isBool runs loosens comes
    have growsBody := (block_regular body).grows runs
    have lengthBody := block_closes rules body _ _ _ runs
    refine .of_grows ⟨growsBody.binders, growsBody.ty⟩ lengthBody ?_
    intro level depth isGone
    have coerces := (expect_eq_ok isBool).resolve_left (by simp [comes])
    refine loosens.gone (conserves begins ?_ isGone)
    rcases Ty.coercesTo_iff.mp coerces with isBool | ⟨_, -, impossible⟩
    · exact isBool
    · cases impossible
  have again : ∀ m ≤ n, ∀ (later : CellTypes) (s : State), types.Extends later →
      s.Tracked later (⟨second, counts⟩ :: callers) (boxes k.values) →
        Safe ctx m ⟨.loop condition body, k, s⟩ := by
    intro m
    induction m with
    | zero => exact fun _ _ _ _ _ => .zero rfl
    | succ m ih =>
        intro atMost later s extended tracked
        have fewer := Nat.le_of_succ_le atMost
        refine round_safe (tests m fewer) (inner m fewer) begins' runs' tracked
          ((returns.later extended).mono fewer) (fun comes => ?_) fun last s extendedLast =>
            ih fewer last s (extended.trans extendedLast)
        exact ((goesOnHere.later extended).mono fewer).loosen
          (leavesAt begins' isBool' runs' settled comes)
  refine .goes rfl rfl (Safe.mono (round_safe (tests n (Nat.le_refl n)) (inner n (Nat.le_refl n))
    begins runs tracked returns (fun comes => ?_) (again n (Nat.le_refl n))) (Nat.le_succ n))
  exact goesOnHere.loosen (leavesAt begins isBool runs skipped comes)

end BorrowLang.Evaluator
