import BorrowLang.Proofs.Naming.Uses

/-!
# Expressions side by side

An expression and the same expression under other names are checked to the same value, in states
that are alike, or are both refused.
-/

set_option autoImplicit false

namespace BorrowLang.Checker

attribute [local simp] checkExpr checkArgs checkShown

variable {s t : State} {r : Renaming} {env out : Bindings} {ctx ctx' : Context}

/-! ### Parts that are checked alike -/

section Parts

variable (ctx ctx' : Context) (r : Renaming)

/-- Expressions that are checked alike. -/
def ExprsAgree (env : Bindings) (e e' : Expr) : Prop :=
  ∀ s t, Alike r env s t → Together (checkExpr ctx e) (checkExpr ctx' e') s t (Alike r env)

def ArgsAgree (env : Bindings) (es es' : List Expr) : Prop :=
  ∀ params s t, Alike r env s t →
    Together (checkArgs ctx es params) (checkArgs ctx' es' params) s t (Alike r env)

def ShownAgree (env : Bindings) (es es' : List Expr) : Prop :=
  ∀ s t, Alike r env s t → Together (checkShown ctx es) (checkShown ctx' es') s t (Alike r env)

def StmtsAgree (env out : Bindings) (stmt stmt' : Stmt) : Prop :=
  ∀ s t, Alike r env s t → Together (checkStmt ctx stmt) (checkStmt ctx' stmt') s t (Alike r out)

def ListsAgree (tail tail' : List String) (env out : Bindings) (ss ss' : List Stmt) : Prop :=
  ∀ s t, Alike r env s t →
    Together (checkStmts ctx tail ss) (checkStmts ctx' tail' ss') s t (Alike r out)

def BlocksAgree (env : Bindings) (b b' : Block) : Prop :=
  ∀ isBody s t, Alike r env s t →
    Together (checkBlock ctx isBody b) (checkBlock ctx' isBody b') s t (Alike r env)

end Parts

section Expressions

/-! ### Expressions -/

variable {e e' f f' : Expr} {es es' : List Expr} {b b' c c' : Block}

theorem name_agrees (loc : Option Position) {x y : String} (links : Links env.flatten x y) :
    ExprsAgree ctx ctx' r env (.name loc x) (.name loc y) := fun s t alike => by
  simp only [checkExpr]
  exact (lookup_together alike loc links).bind fun place _ _ alike =>
    usePlace_together alike loc place

theorem unary_agrees (loc : Option Position) (op : UnaryOp)
    (inner : ExprsAgree ctx ctx' r env e e') :
    ExprsAgree ctx ctx' r env (.unary loc op e) (.unary loc op e') := fun s t alike => by
  simp only [checkExpr]
  exact (inner s t alike).bind fun operand _ _ alike => unaryOperand_together alike loc op operand

theorem deref_agrees (loc : Option Position) (renamed : Expr.Renamed r env e e')
    (inner : ExprsAgree ctx ctx' r env e e') :
    ExprsAgree ctx ctx' r env (.deref loc e) (.deref loc e') := fun s t alike => by
  have whole : Expr.Renamed r env (.deref loc e) (.deref loc e') := .deref loc renamed
  simp only [checkExpr, whole.isPlace]
  split
  · exact (placeOf_together alike whole).bind fun place _ _ alike =>
      usePlace_together alike loc place
  · exact (inner s t alike).bind fun operand _ _ alike => derefValue_together alike loc operand

theorem borrow_agrees (loc : Option Position) (isMut : Bool) (renamed : Expr.Renamed r env e e')
    (inner : ExprsAgree ctx ctx' r env e e') :
    ExprsAgree ctx ctx' r env (.borrow loc e isMut) (.borrow loc e' isMut) := fun s t alike => by
  simp only [checkExpr, renamed.isPlace]
  split
  · exact (placeOf_together alike renamed).bind fun place _ _ alike =>
      borrowPlace_together alike loc place isMut
  · exact (inner s t alike).bind fun operand _ _ alike => together_pure _ alike

theorem binary_agrees (loc : Option Position) (op : BinaryOp)
    (renamedLeft : Expr.Renamed r env e e') (renamedRight : Expr.Renamed r env f f')
    (left : ExprsAgree ctx ctx' r env e e') (right : ExprsAgree ctx ctx' r env f f') :
    ExprsAgree ctx ctx' r env (.binary loc op e f) (.binary loc op e' f') := fun s t alike => by
  simp only [checkExpr, renamedLeft.loc, renamedRight.loc]
  refine (left s t alike).bind fun first _ _ alike => ?_
  split
  · refine (expect_together alike _ first _).bind fun _ s' t' alike => together_get ?_
    rw [alike.tracker]
    refine (right s' t' alike).bind fun second _ _ alike => ?_
    refine (expect_together alike _ second _).bind fun _ _ _ alike => ?_
    exact (modifyTracker_together alike _).bind fun _ _ _ alike => together_pure _ alike
  · refine (right _ _ alike).bind fun second _ _ alike => ?_
    exact binaryOperand_together alike op first second _ _

theorem boxNew_agrees (loc : Option Position) (inner : ExprsAgree ctx ctx' r env e e') :
    ExprsAgree ctx ctx' r env (.boxNew loc e) (.boxNew loc e') := fun s t alike => by
  simp only [checkExpr]
  exact (inner s t alike).bind fun operand _ _ alike => together_pure _ alike

theorem noArgs_agree : ArgsAgree ctx ctx' r env [] [] := fun params s t alike => by
  simp only [checkArgs]
  exact together_pure _ alike

theorem moreArgs_agree (renamed : Expr.Renamed r env e e') (first : ExprsAgree ctx ctx' r env e e')
    (rest : ArgsAgree ctx ctx' r env es es') :
    ArgsAgree ctx ctx' r env (e :: es) (e' :: es') := fun params s t alike => by
  cases params with
  | nil =>
      simp only [checkArgs]
      exact together_pure _ alike
  | cons param params =>
      simp only [checkArgs, renamed.loc]
      refine (reborrow?_together alike renamed param).bind fun taken s' t' alike => ?_
      cases taken with
      | some value =>
          refine (expect_together alike param value _).bind fun _ s' t' alike => ?_
          exact (rest params s' t' alike).bind fun loans _ _ alike => together_pure _ alike
      | none =>
          refine (first s' t' alike).bind fun value _ _ alike => ?_
          refine (expect_together alike param value _).bind fun _ s' t' alike => ?_
          exact (rest params s' t' alike).bind fun loans _ _ alike => together_pure _ alike

theorem noShown_agree : ShownAgree ctx ctx' r env [] [] := fun s t alike => by
  simp only [checkShown]
  exact together_pure _ alike

theorem moreShown_agree (renamed : Expr.Renamed r env e e')
    (first : ExprsAgree ctx ctx' r env e e') (rest : ShownAgree ctx ctx' r env es es') :
    ShownAgree ctx ctx' r env (e :: es) (e' :: es') := fun s t alike => by
  simp only [checkShown, renamed.isPlace, renamed.loc]
  split
  · refine (placeOf_together alike renamed).bind fun place _ _ alike => ?_
    exact (showPlace_together alike _ place).bind fun _ s' t' alike => rest s' t' alike
  · refine (first s t alike).bind fun value _ _ alike => ?_
    exact (expectDisplayable_together alike _ _).bind fun _ s' t' alike => rest s' t' alike

theorem call_agrees (like : Like r ctx ctx') (loc : Option Position) (func : String)
    (renamed : ArgsRenamed r env es es') (args : ArgsAgree ctx ctx' r env es es') :
    ExprsAgree ctx ctx' r env (.call loc func es) (.call loc func es') := fun s t alike => by
  simp only [checkExpr, renamed.length, renamed.locs]
  refine (signatureOf_together like alike loc func).bind fun signature s' t' alike => ?_
  split
  · exact together_throw _ _
  · refine (args _ s' t' alike).bind fun loans _ _ alike => ?_
    exact (storeArguments_together like alike loans _).bind fun _ _ _ alike =>
      together_pure _ alike

theorem macroCall_agrees (loc : Option Position) (callee template : String)
    (renamed : ArgsRenamed r env es es') (shown : ShownAgree ctx ctx' r env es es') :
    ExprsAgree ctx ctx' r env (.macroCall loc callee template es)
      (.macroCall loc callee template es') := fun s t alike => by
  simp only [checkExpr, renamed.length]
  refine (checkTemplate_together alike loc callee template _).bind fun _ s' t' alike => ?_
  exact (shown s' t' alike).bind fun _ _ _ alike => together_pure _ alike

theorem tailLoc_eq (renamed : Block.Renamed r env b b') (otherwise : Option Position) :
    tailLoc b' otherwise = tailLoc b otherwise := by
  have same := renamed.tail_loc
  unfold tailLoc
  cases mine : b.tail <;> cases theirs : b'.tail <;> simp_all

theorem ifOnly_agrees (loc : Option Position) (renamed : Expr.Renamed r env e e')
    (renamedThen : Block.Renamed r env b b') (condition : ExprsAgree ctx ctx' r env e e')
    (thenBlock : BlocksAgree ctx ctx' r env b b') :
    ExprsAgree ctx ctx' r env (.ifElse loc e b none) (.ifElse loc e' b' none) := fun s t alike => by
  simp only [checkExpr, renamed.loc, tailLoc_eq renamedThen]
  refine (condition s t alike).bind fun cond _ _ alike => ?_
  refine (expect_together alike _ cond _).bind fun _ s' t' alike => together_get ?_
  rw [alike.tracker]
  refine (thenBlock false s' t' alike).bind fun first _ _ alike => together_get ?_
  rw [alike.tracker]
  refine (modifyTracker_together alike _).bind fun _ _ _ alike => ?_
  refine (modifyTracker_together alike _).bind fun _ _ _ alike => ?_
  exact ifOnlyOperand_together alike _ first

theorem ifElse_agrees (loc : Option Position) (renamed : Expr.Renamed r env e e')
    (condition : ExprsAgree ctx ctx' r env e e') (thenBlock : BlocksAgree ctx ctx' r env b b')
    (elseBlock : BlocksAgree ctx ctx' r env c c') :
    ExprsAgree ctx ctx' r env (.ifElse loc e b (some c)) (.ifElse loc e' b' (some c')) :=
  fun s t alike => by
  simp only [checkExpr, renamed.loc]
  refine (condition s t alike).bind fun cond _ _ alike => ?_
  refine (expect_together alike _ cond _).bind fun _ s' t' alike => together_get ?_
  rw [alike.tracker]
  refine (thenBlock false s' t' alike).bind fun first _ _ alike => together_get ?_
  rw [alike.tracker]
  refine (modifyTracker_together alike _).bind fun _ s' t' alike => ?_
  refine (elseBlock false s' t' alike).bind fun other _ _ alike => ?_
  refine (modifyTracker_together alike _).bind fun _ _ _ alike => ?_
  exact ifOperand_together alike loc first other

end Expressions

end BorrowLang.Checker
