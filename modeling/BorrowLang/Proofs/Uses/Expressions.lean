import BorrowLang.Proofs.Uses.Values

/-!
# Expressions without uses of what is gone

An expression that the check accepts is safe: from what the check knows before it, to a value of its
type and what the check knows after it.  Each form is so when its parts are.
-/

set_option autoImplicit false

namespace BorrowLang.Evaluator

open Ownership Moves
open Checker (Operand)

section Definitions

variable (ctx : Context) (rules : Checker.Context) (n : Nat)

/-- It is safe to go on with any value that the check knows of, or to return from the function. -/
structure GoesOn (o : Outline) (counts : List Nat) (callers : List Layer) (types : CellTypes)
    (value : Operand) (k : Stack .value) : Prop where
  returns : OnReturn ctx n callers types rules.result k
  value : value.diverges = false → OnValue ctx n (⟨o, counts⟩ :: callers) types value.ty k

/-- An expression is safe where the check accepts it. -/
def ExprSafe (e : Expr) : Prop :=
  ∀ ⦃o after : Outline⦄ ⦃value : Operand⦄ ⦃counts : List Nat⦄ ⦃callers : List Layer⦄
    ⦃types : CellTypes⦄ ⦃s : State⦄ ⦃k : Stack .value⦄,
    Moves.expr rules e o = some (value, after) →
    s.Tracked types (⟨o, counts⟩ :: callers) (boxes k.values) →
    GoesOn ctx rules n after counts callers types value k → Safe ctx n ⟨.expr e, k, s⟩

/-- A block is safe where the check accepts it. -/
def BlockSafe (body : Block) : Prop :=
  ∀ ⦃o after : Outline⦄ ⦃value : Operand⦄ ⦃counts : List Nat⦄ ⦃callers : List Layer⦄
    ⦃types : CellTypes⦄ ⦃s : State⦄ ⦃k : Stack .value⦄,
    Moves.block rules body o = some (value, after) →
    s.Tracked types (⟨o, counts⟩ :: callers) (boxes k.values) →
    GoesOn ctx rules n after counts callers types value k → Safe ctx n ⟨.block body, k, s⟩

/-- A call is safe when its arguments are there, of the types of its parameters. -/
def CallsSafe : Prop :=
  ∀ m ≤ n, ∀ ⦃loc : Option Position⦄ ⦃func : String⦄ ⦃signature : Signature⦄
    ⦃values : List Value⦄ ⦃layers : List Layer⦄ ⦃types : CellTypes⦄ ⦃s : State⦄ ⦃k : Stack .value⦄,
    (Checker.signatureOf rules loc func default).1 = .ok signature →
    List.Forall₂ (Value.Shaped types) values signature.params →
    s.Tracked types layers (boxes (k.values ++ values)) →
    OnValue ctx m layers types signature.result k →
    Safe ctx m ⟨.args loc func values [], k, s⟩

end Definitions

variable {ctx : Context} {rules : Checker.Context} {n : Nat} {s : State} {types grown : CellTypes}
variable {callers : List Layer} {o after : Outline} {counts : List Nat} {value : Operand}
variable {k : Stack .value}

theorem CallsSafe.mono (calls : CallsSafe ctx rules n) {fewer : Nat} (atMost : fewer ≤ n) :
    CallsSafe ctx rules fewer := fun m bound => calls m (Nat.le_trans bound atMost)

theorem GoesOn.later (goesOn : GoesOn ctx rules n o counts callers types value k)
    (extended : types.Extends grown) : GoesOn ctx rules n o counts callers grown value k :=
  ⟨goesOn.returns.later extended, fun comes => (goesOn.value comes).later extended⟩

/-- What comes after an operand, by a frame that leaves neither a scope nor a call. -/
theorem GoesOn.push {next : Mode} {frame : Frame .value next} {rest : Stack next}
    {operand : Operand} (returns : OnReturn ctx n callers types rules.result rest)
    (plain : ∀ interrupt, unwind interrupt frame rest = goTo (.interrupted interrupt) rest)
    (goesOn : operand.diverges = false →
      OnValue ctx n (⟨o, counts⟩ :: callers) types operand.ty (.cons frame rest)) :
    GoesOn ctx rules n o counts callers types operand (.cons frame rest) :=
  ⟨returns.push plain, goesOn⟩

/-- It is safe to come to a value without any boxes. -/
theorem OnValue.plain {layers : List Layer} {ty : Ty}
    (goesOn : OnValue ctx n layers types ty k) (extended : types.Extends grown) {v : Value}
    (noAddr : v.addr? = none) (noPointer : ty.pointee? = none)
    (tracked : s.Tracked grown layers (boxes k.values)) : Safe ctx n ⟨.value v, k, s⟩ := by
  refine goesOn grown v s extended (.plain noAddr noPointer) ?_
  rwa [boxes_append_plain _ (box?_eq_none_of_addr? noAddr)]

/-! ### Values and places -/

theorem literal_safe (loc : Option Position) (v : Literal) :
    ExprSafe ctx rules n (.literal loc v) := by
  intro o after value counts callers types s k passed tracked goesOn
  rw [Moves.expr] at passed
  obtain ⟨rfl, rfl⟩ := pure_eq_some.mp passed
  refine .goes rfl rfl ?_
  cases v <;> exact (goesOn.value rfl).plain (.refl types) rfl rfl tracked

/-- A place that is used for its value. -/
theorem usedPlace_safe {e : Expr} (entered : ∀ k, enterExpr e k =
      goTo (.place e) (.cons (.readPlace e) k)) {spot : Spot}
    (found : placeOf e o = some (spot, o)) (passed : usePlace spot o = some (value, after))
    (tracked : s.Tracked types (⟨o, counts⟩ :: callers) (boxes k.values))
    (goesOn : OnValue ctx n (⟨after, counts⟩ :: callers) types value.ty k) :
    Safe ctx n ⟨.expr e, k, s⟩ := by
  obtain ⟨isTy, whole, use⟩ := usePlace_eq_some passed
  have values : (Stack.cons (.readPlace e) k).values = k.values := List.append_nil _
  exact .goes (congrArg some (entered k)) rfl (placeOf_safe e found (values ▸ tracked)
    (fun depth _ => whole.held depth) (readPlace_safe e isTy whole use goesOn))

theorem usePlace_comes {spot : Spot} (passed : usePlace spot o = some (value, after)) :
    value.diverges = false := by
  obtain ⟨ty, -, used⟩ := typeOf_bind passed
  split at used
  · have ends := (ensure_bind used).2
    obtain ⟨rfl, -⟩ := pure_eq_some.mp ends
    rfl
  · have ends := mark_bind (ensure_bind used).2
    obtain ⟨rfl, -⟩ := pure_eq_some.mp ends
    rfl

theorem name_safe (loc : Option Position) (ident : String) :
    ExprSafe ctx rules n (.name loc ident) := by
  intro o after value counts callers types s k passed tracked goesOn
  rw [Moves.expr] at passed
  obtain ⟨spot, found, used⟩ := placeOf_bind passed
  exact usedPlace_safe (fun _ => rfl) found used tracked (goesOn.value (usePlace_comes used))

theorem deref_safe (loc : Option Position) {operand : Expr}
    (inner : ExprSafe ctx rules n operand) : ExprSafe ctx rules n (.deref loc operand) := by
  intro o after value counts callers types s k passed tracked goesOn
  rw [Moves.expr] at passed
  split at passed
  · obtain ⟨spot, found, used⟩ := placeOf_bind passed
    exact usedPlace_safe (fun _ => rfl) found used tracked (goesOn.value (usePlace_comes used))
  · rename_i notPlace
    obtain ⟨first, mid, begins, ends⟩ := bind_eq_some.mp passed
    obtain ⟨answers, rfl⟩ := answer_eq_some ends
    have entered := enterPlace_temporary (Bool.eq_false_iff.mpr notPlace)
      (.cons (.readPlace (.deref loc operand)) k)
    have values : (Stack.cons (.derefValue operand)
        (.cons (.readPlace (.deref loc operand)) k)).values = k.values := by
      simp [Stack.values, Frame.values]
    refine .goes rfl rfl (.goes (congrArg some entered) rfl (inner begins (values ▸ tracked) ?_))
    · refine .push (goesOn.returns.push fun _ => rfl) (fun _ => rfl) fun _ => ?_
      obtain ⟨_, -, -, comes, -⟩ := derefValue_eq_ok answers
      exact derefValue_safe _ operand answers (goesOn.value comes)

theorem borrow_safe (loc : Option Position) {operand : Expr} (isMut : Bool)
    (inner : ExprSafe ctx rules n operand) : ExprSafe ctx rules n (.borrow loc operand isMut) := by
  intro o after value counts callers types s k passed tracked goesOn
  rw [Moves.expr] at passed
  split at passed
  · rename_i isPlace
    obtain ⟨spot, found, borrowed⟩ := placeOf_bind passed
    obtain ⟨whole, -, ty, -, rfl⟩ := borrowPlace_eq_some borrowed
    have entered : enterExpr (.borrow loc operand isMut) k =
        goTo (.place operand) (.cons (.borrowPlace operand isMut) k) := by
      simp only [enterExpr, isPlace, if_true]
    have values : (Stack.cons (.borrowPlace operand isMut) k).values = k.values :=
      List.append_nil _
    exact .goes (congrArg some entered) rfl (placeOf_safe operand found (values ▸ tracked)
      (fun depth _ => whole.held depth) (borrowPlace_safe operand borrowed
        (goesOn.value rfl)))
  · rename_i notPlace
    obtain ⟨first, mid, begins, ends⟩ := bind_eq_some.mp passed
    obtain ⟨rfl, rfl⟩ := pure_eq_some.mp ends
    have entered : enterExpr (.borrow loc operand isMut) k =
        goTo (.expr operand) (.cons (.borrowTemporary isMut) k) := by
      simp only [enterExpr, notPlace, if_false, Bool.false_eq_true]
    have values : (Stack.cons (.borrowTemporary isMut) k).values = k.values := List.append_nil _
    exact .goes (congrArg some entered) rfl (inner begins (values ▸ tracked)
      (.push goesOn.returns (fun _ => rfl) fun _ => borrowTemporary_safe (goesOn.value rfl)))

theorem boxNew_expr_safe (loc : Option Position) {operand : Expr}
    (inner : ExprSafe ctx rules n operand) : ExprSafe ctx rules n (.boxNew loc operand) := by
  intro o after value counts callers types s k passed tracked goesOn
  rw [Moves.expr] at passed
  obtain ⟨first, mid, begins, ends⟩ := bind_eq_some.mp passed
  obtain ⟨rfl, rfl⟩ := pure_eq_some.mp ends
  have values : (Stack.cons .boxNew k).values = k.values := List.append_nil _
  exact .goes rfl rfl (inner begins (values ▸ tracked)
    (.push goesOn.returns (fun _ => rfl) fun _ => boxNew_safe (goesOn.value rfl)))

/-! ### Operators -/

theorem unary_safe (loc : Option Position) (op : UnaryOp) {operand : Expr}
    (inner : ExprSafe ctx rules n operand) : ExprSafe ctx rules n (.unary loc op operand) := by
  intro o after value counts callers types s k passed tracked goesOn
  rw [Moves.expr] at passed
  obtain ⟨first, mid, begins, ends⟩ := bind_eq_some.mp passed
  obtain ⟨answers, rfl⟩ := answer_eq_some ends
  obtain ⟨noPointer, comes⟩ := unaryOperand_eq_ok answers
  have values : (Stack.cons (.unary loc op) k).values = k.values := List.append_nil _
  refine .goes rfl rfl (inner begins (values ▸ tracked) (.push goesOn.returns (fun _ => rfl) ?_))
  intro _ later v s extended _ tracked
  refine .acts rfl rfl fun _ => ?_
  rw [values, boxes_append] at tracked
  simp only [meets_bind, meets_pure]
  refine Meets.onOk (unary_uses loc op v s) ?_
  rintro result _ ⟨rfl, plain⟩
  exact (goesOn.value comes).plain extended plain noPointer
    (tracked.weaken fun box member => List.mem_append_left _ member)

/-- `&&` and `||`: what is known after the left operand holds whether the right one is run or not. -/
theorem logic_safe (loc : Option Position) {op : BinaryOp} (isLogic : op = .and ∨ op = .or)
    {left right : Expr} (first : ExprSafe ctx rules n left) (second : ExprSafe ctx rules n right) :
    ExprSafe ctx rules n (.binary loc op left right) := by
  intro o after value counts callers types s k passed tracked goesOn
  rw [Moves.expr] at passed
  obtain ⟨operand, mid, begins, rest⟩ := bind_eq_some.mp passed
  rw [if_pos isLogic] at rest
  obtain ⟨_, -, rest⟩ := answer_bind rest
  obtain ⟨_, joined, skips, ends⟩ := bind_eq_some.mp rest
  obtain ⟨inside, passes, rfl⟩ := orSkip_eq_some skips
  obtain ⟨other, last, beginsRight, answers⟩ := bind_eq_some.mp passes
  obtain ⟨-, rfl⟩ := answer_eq_some answers
  obtain ⟨rfl, rfl⟩ := pure_eq_some.mp ends
  have goesOnHere := goesOn.value rfl
  have grows := (expr_regular right).grows beginsRight
  have length := expr_closes rules right _ _ _ beginsRight
  have skipped : Loosens mid { inside with marks := inside.marks.join mid.marks } :=
    .of_grows ⟨grows.binders, grows.ty⟩ length fun isGone => by
      exact (Loosens.join_right inside.marks).gone isGone
  have taken : Loosens inside { inside with marks := inside.marks.join mid.marks } := .join_left _
  obtain ⟨isAnd, entered⟩ : ∃ isAnd, enterExpr (.binary loc op left right) k =
      goTo (.expr left) (.cons (.logic isAnd right) k) := by
    rcases isLogic with rfl | rfl
    · exact ⟨true, rfl⟩
    · exact ⟨false, rfl⟩
  have values : (Stack.cons (.logic isAnd right) k).values = k.values := List.append_nil _
  refine .goes (congrArg some entered) rfl (first begins (values ▸ tracked)
    (.push goesOn.returns (fun _ => rfl) ?_))
  intro _ later v s extended _ tracked
  rw [values, boxes_append] at tracked
  have trackedHere := tracked.weaken fun box member => List.mem_append_left (boxes [v]) member
  by_cases goesRight : isTrue v = isAnd
  · have resumed : resumeValue ctx v (.logic isAnd right) k =
        goTo (.expr right) (.cons .truth k) := by simp only [resumeValue, goesRight, if_true]
    have valuesTruth : (Stack.cons .truth k).values = k.values := List.append_nil _
    refine .goes (congrArg some resumed) rfl (second beginsRight (valuesTruth ▸ trackedHere)
      (.push (goesOn.returns.later extended) (fun _ => rfl) ?_))
    intro _ last w s extendedLast _ tracked
    rw [valuesTruth, boxes_append] at tracked
    refine .goes rfl rfl (goesOnHere.plain (extended.trans extendedLast) rfl rfl ?_)
    exact (tracked.weaken fun box member => List.mem_append_left _ member).loosen taken
  · have resumed : resumeValue ctx v (.logic isAnd right) k =
        goTo (.value (.bool (!isAnd))) k := by simp only [resumeValue, goesRight, if_false]
    exact .goes (congrArg some resumed) rfl (goesOnHere.plain extended rfl rfl
      (trackedHere.loosen skipped))

theorem operands_safe (loc : Option Position) {op : BinaryOp} (notLogic : ¬ (op = .and ∨ op = .or))
    {left right : Expr} (first : ExprSafe ctx rules n left) (second : ExprSafe ctx rules n right) :
    ExprSafe ctx rules n (.binary loc op left right) := by
  intro o after value counts callers types s k passed tracked goesOn
  rw [Moves.expr] at passed
  obtain ⟨operand, mid, begins, rest⟩ := bind_eq_some.mp passed
  rw [if_neg notLogic] at rest
  obtain ⟨other, last, beginsRight, ends⟩ := bind_eq_some.mp rest
  obtain ⟨answers, rfl⟩ := answer_eq_some ends
  obtain ⟨noPointer, comes⟩ := binaryOperand_eq_ok answers
  have entered : enterExpr (.binary loc op left right) k =
      goTo (.expr left) (.cons (.left loc op right) k) := by
    cases op <;> first | rfl | exact absurd (Or.inl rfl) notLogic | exact absurd (Or.inr rfl) notLogic
  have values : (Stack.cons (.left loc op right) k).values = k.values := List.append_nil _
  refine .goes (congrArg some entered) rfl (first begins (values ▸ tracked)
    (.push goesOn.returns (fun _ => rfl) ?_))
  intro _ later v s extended _ tracked
  rw [values] at tracked
  refine .goes rfl rfl (second beginsRight (k := .cons (.right loc op v) k) tracked
    (.push (goesOn.returns.later extended) (fun _ => rfl) ?_))
  intro _ last w s extendedLast _ tracked
  refine .acts rfl rfl fun _ => ?_
  simp only [meets_bind, meets_pure]
  refine Meets.onOk (binary_uses loc op v w s) ?_
  rintro result _ ⟨rfl, plain⟩
  refine (goesOn.value comes).plain (extended.trans extendedLast) plain noPointer
    (tracked.weaken fun box member => ?_)
  simp only [Stack.values, Frame.values, boxes_append, List.mem_append]
  exact Or.inl (Or.inl member)

end BorrowLang.Evaluator
