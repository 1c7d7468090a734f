import BorrowLang.Proofs.Naming.Expressions

/-!
# Bodies side by side

A body and the same body under other names are checked to the same value, in states that are alike,
or are both refused.
-/

set_option autoImplicit false

namespace BorrowLang.Checker

attribute [local simp] checkStmt checkStmts checkBlock

variable {s t : State} {r : Renaming} {env out : Bindings} {ctx ctx' : Context}

/-! ### Scopes and live names -/

theorem Like.counts (like : Like r ctx ctx') (eager : ctx.settings.lexical = false) :
    r.counts = true := by
  cases counts : r.counts with
  | true => rfl
  | false =>
      have lexical := like.lexical counts
      rw [eager] at lexical
      contradiction

theorem beginBlock_together (alike : Alike r env s t) :
    Together beginBlock beginBlock s t (Alike r ([] :: env)) := by
  refine together_modify ⟨?_, alike.next, alike.arena, alike.names, alike.live, ?_⟩
  · simp only [alike.tracker]
  · exact alike.scopes.enter

theorem enterNames_together (alike : Alike r env s t) {names others : List String}
    (agrees : r.Agrees names others) :
    Together (enterNames names) (enterNames others) s t (Alike r env) :=
  together_modify ⟨alike.tracker, alike.next, alike.arena, alike.names, .cons agrees alike.live,
    alike.scopes⟩

theorem exitNames_together (alike : Alike r env s t) :
    Together exitNames exitNames s t (Alike r env) := by
  refine together_modify ⟨alike.tracker, alike.next, alike.arena, alike.names, ?_, alike.scopes⟩
  have live := alike.live
  unfold LiveNames.exit?
  cases inner : s.live.scopes with
  | nil =>
      rw [inner] at live
      rw [List.forall₂_nil_left_iff.mp live]
      simp [inner, List.forall₂_nil_left_iff.mp live]
  | cons names outer =>
      rw [inner] at live
      obtain ⟨others, rest, -, later, same⟩ := List.forall₂_cons_left_iff.mp live
      simpa [same] using later

theorem endStatement_together (like : Like r ctx ctx') (alike : Alike r env s t) :
    Together (endStatement ctx) (endStatement ctx') s t (Alike r env) := by
  refine (modifyTracker_together alike _).bind fun _ s' t' alike => ?_
  rw [like.settings]
  cases eager : ctx.settings.lexical with
  | true => exact together_pure _ alike
  | false =>
      refine together_get ?_
      rw [alike.isLive (like.counts eager), alike.tracker, alike.blind (f := fun arena =>
        s'.tracker.releaseDead arena s'.isLive) (by simp)]
      refine (together_set (alike.track _)).bind fun _ _ _ alike => ?_
      split
      · exact together_modify ⟨alike.tracker, alike.next, alike.arena, alike.names, alike.live,
          alike.scopes⟩
      · exact together_pure _ alike

theorem leaveScope_together {scope : List (String × String)} (alike : Alike r (scope :: env) s t)
    (loc : Option Position) :
    Together
      (do
        let s ← get
        let (tracker, answer) := s.tracker.popFrame s.arena
        set { s with tracker, scopes := s.scopes.drop 1 }
        match answer with
        | .ok _ => pure ()
        | .error .outermost => throw .unreachable
        | .error (.dangling violation) =>
            let origin := violation.conflict.bind (·.origin)
            throw (.reported (violation.report s.arena (ctx.span (origin <|> loc)))))
      (do
        let s ← get
        let (tracker, answer) := s.tracker.popFrame s.arena
        set { s with tracker, scopes := s.scopes.drop 1 }
        match answer with
        | .ok _ => pure ()
        | .error .outermost => throw .unreachable
        | .error (.dangling violation) =>
            let origin := violation.conflict.bind (·.origin)
            throw (.reported (violation.report s.arena (ctx'.span (origin <|> loc)))))
      s t (Alike r env) := by
  refine together_get ?_
  rw [alike.tracker, alike.blind (f := fun arena => s.tracker.popFrame arena) (by simp)]
  have left : Alike r env
      { s with tracker := (s.tracker.popFrame s.arena).1, scopes := s.scopes.drop 1 }
      { t with tracker := (s.tracker.popFrame s.arena).1, scopes := t.scopes.drop 1 } :=
    ⟨rfl, alike.next, alike.arena, alike.names, alike.live, alike.scopes.leave⟩
  refine (together_set left).bind fun _ _ _ alike => ?_
  split
  · exact together_pure _ alike
  · exact together_throw _ _
  · exact together_throw _ _

theorem endBlock_together (like : Like r ctx ctx') {scope : List (String × String)}
    (alike : Alike r (scope :: env) s t) (loc : Option Position) (keep : List BorrowId) :
    Together (endBlock ctx loc keep) (endBlock ctx' loc keep) s t (Alike r env) := by
  refine (modifyTracker_together alike _).bind fun _ s' t' alike => ?_
  rw [like.settings]
  cases eager : ctx.settings.lexical with
  | true => exact leaveScope_together alike loc
  | false =>
      have released : Together
          (modify fun s : State => { s with tracker := (s.tracker.releaseDead s.arena s.isLive).1 })
          (modify fun s : State => { s with tracker := (s.tracker.releaseDead s.arena s.isLive).1 })
          s' t' (Alike r (scope :: env)) := by
        refine together_modify ?_
        rw [alike.isLive (like.counts eager), alike.tracker, alike.blind (f := fun arena =>
          s'.tracker.releaseDead arena s'.isLive) (by simp)]
        exact alike.track _
      exact released.bind fun _ _ _ alike => leaveScope_together alike loc

/-! ### Statements -/

section Statements

variable {e e' f f' : Expr} {ss ss' : List Stmt} {b b' : Block}

theorem resolve_together (alike : Alike r env s t) (written : TypeExpr) (loc : Option Position) :
    Together (ctx.resolve written loc : Except Fault Ty)
      (ctx'.resolve written loc : Except Fault Ty) s t (Alike r env) := by
  unfold Context.resolve
  split
  · exact together_pure _ alike
  · exact together_throw _ _
  · exact together_throw _ _
  · exact together_throw _ _

theorem letVar_agrees (loc : Option Position) {x y : String} (written : Option TypeExpr)
    (isMut : Bool) (paired : r.pairs x y) :
    StmtsAgree ctx ctx' r env (env.bind x y) (.letVar loc x written none isMut)
      (.letVar loc y written none isMut) := fun s t alike => by
  simp only [checkStmt]
  cases written with
  | none =>
      exact (bind_together alike paired none isMut false false).bind fun _ _ _ alike =>
        together_pure _ alike
  | some written =>
      refine (resolve_together alike written loc).bind fun ty _ _ alike => ?_
      exact (bind_together alike paired (some ty) isMut false false).bind fun _ _ _ alike =>
        together_pure _ alike

/-- A binding stores the borrows of its first value. -/
theorem bindValue_together (like : Like r ctx ctx') (alike : Alike r env s t) {x y : String}
    (paired : r.pairs x y) (ty : Option Ty) (isMut : Bool) (loans : List BorrowId) :
    Together
      (do
        let place ← bind x ty isMut false true
        if !loans.isEmpty then storeLoans ctx place loans
        return false)
      (do
        let place ← bind y ty isMut false true
        if !loans.isEmpty then storeLoans ctx' place loans
        return false)
      s t (Alike r (env.bind x y)) := by
  refine (bind_together alike paired ty isMut false true).bind fun place _ _ alike => ?_
  split
  · exact (storeLoans_together like alike place loans).bind fun _ _ _ alike =>
      together_pure _ alike
  · exact together_pure _ alike

theorem letValue_agrees (like : Like r ctx ctx') (loc : Option Position) {x y : String}
    (written : Option TypeExpr) (isMut : Bool) (paired : r.pairs x y)
    (renamed : Expr.Renamed r env e e') (value : ExprsAgree ctx ctx' r env e e') :
    StmtsAgree ctx ctx' r env (env.bind x y) (.letVar loc x written (some e) isMut)
      (.letVar loc y written (some e') isMut) := fun s t alike => by
  simp only [checkStmt, renamed.loc]
  cases written with
  | none =>
      refine (value s t alike).bind fun operand _ _ alike => ?_
      exact bindValue_together like alike paired _ isMut operand.loans
  | some written =>
      refine (resolve_together alike written loc).bind fun ty s' t' alike => ?_
      refine (value s' t' alike).bind fun operand _ _ alike => ?_
      refine (expect_together alike ty operand _).bind fun _ _ _ alike => ?_
      exact bindValue_together like alike paired _ isMut operand.loans

theorem assign_agrees (like : Like r ctx ctx') (loc : Option Position) (op : Option BinaryOp)
    (renamedTarget : Expr.Renamed r env e e') (renamedValue : Expr.Renamed r env f f')
    (value : ExprsAgree ctx ctx' r env f f') :
    StmtsAgree ctx ctx' r env env (.assign loc e f op) (.assign loc e' f' op) := fun s t alike => by
  simp only [checkStmt, renamedTarget.isPlace, renamedTarget.loc, renamedValue.loc]
  split
  · exact together_throw _ _
  · refine (value s t alike).bind fun operand _ _ alike => ?_
    refine (placeOf_together alike renamedTarget).bind fun place _ _ alike => ?_
    refine (assignType_together alike loc _ _ place operand op).bind fun _ _ _ alike => ?_
    exact (assignPlace_together like alike _ _ place operand).bind fun _ _ _ alike =>
      together_pure _ alike

theorem ret_agrees (like : Like r ctx ctx') (loc : Option Position) :
    StmtsAgree ctx ctx' r env env (.ret loc none) (.ret loc none) := fun s t alike => by
  simp only [checkStmt]
  exact (returnValue_together like alike _ loc).bind fun _ _ _ alike => together_pure _ alike

theorem retValue_agrees (like : Like r ctx ctx') (loc : Option Position)
    (renamed : Expr.Renamed r env e e') (value : ExprsAgree ctx ctx' r env e e') :
    StmtsAgree ctx ctx' r env env (.ret loc (some e)) (.ret loc (some e')) := fun s t alike => by
  simp only [checkStmt, renamed.loc]
  refine (value s t alike).bind fun operand _ _ alike => ?_
  exact (returnValue_together like alike operand _).bind fun _ _ _ alike => together_pure _ alike

theorem loopPass_together {env : Bindings} (condition : ExprsAgree ctx ctx' r env e e')
    (body : BlocksAgree ctx ctx' r env b b') (alike : Alike r env s t)
    (conditionLoc bodyLoc : Option Position) :
    Together (loopPass ctx conditionLoc bodyLoc (checkExpr ctx e) (checkBlock ctx false b))
      (loopPass ctx' conditionLoc bodyLoc (checkExpr ctx' e') (checkBlock ctx' false b')) s t
      (Alike r env) := by
  refine (condition s t alike).bind fun cond _ _ alike => ?_
  refine (expect_together alike _ cond conditionLoc).bind fun _ _ _ alike => ?_
  refine (modifyTracker_together alike _).bind fun _ s' t' alike => ?_
  refine (body false s' t' alike).bind fun value _ _ alike => ?_
  split
  · exact together_throw _ _
  · exact together_pure _ alike

theorem whileLoop_agrees (loc : Option Position) (renamed : Expr.Renamed r env e e')
    (renamedBody : Block.Renamed r env b b')
    (agrees : r.Agrees (e.names ++ b.names) (e'.names ++ b'.names))
    (condition : ExprsAgree ctx ctx' r env e e') (body : BlocksAgree ctx ctx' r env b b') :
    StmtsAgree ctx ctx' r env env (.whileLoop loc e b) (.whileLoop loc e' b') :=
  fun s t alike => by
  simp only [checkStmt, renamed.loc, tailLoc_eq renamedBody]
  refine together_get ?_
  rw [alike.tracker]
  refine (enterNames_together alike agrees).bind fun _ _ _ alike => ?_
  refine (loopPass_together condition body alike _ _).bind fun _ _ _ alike => ?_
  refine (loopPass_together condition body alike _ _).bind fun _ _ _ alike => ?_
  refine (exitNames_together alike).bind fun _ _ _ alike => ?_
  exact (modifyTracker_together alike _).bind fun _ _ _ alike => together_pure _ alike

theorem expr_agrees (loc : Option Position) (value : ExprsAgree ctx ctx' r env e e') :
    StmtsAgree ctx ctx' r env env (.expr loc e) (.expr loc e') := fun s t alike => by
  simp only [checkStmt]
  exact (value s t alike).bind fun operand _ _ alike => together_pure _ alike

theorem noStmts_agree (tail tail' : List String) :
    ListsAgree ctx ctx' r tail tail' env env [] [] := fun s t alike => by
  simp only [checkStmts]
  exact together_pure _ alike

theorem moreStmts_agree (like : Like r ctx ctx') {tail tail' : List String} {mid : Bindings}
    {stmt stmt' : Stmt} (agrees : r.Agrees (namesOfStmts ss ++ tail) (namesOfStmts ss' ++ tail'))
    (first : StmtsAgree ctx ctx' r env mid stmt stmt')
    (rest : ListsAgree ctx ctx' r tail tail' mid out ss ss') :
    ListsAgree ctx ctx' r tail tail' env out (stmt :: ss) (stmt' :: ss') := fun s t alike => by
  simp only [checkStmts]
  refine (enterNames_together alike agrees).bind fun _ s' t' alike => ?_
  refine (first s' t' alike).bind fun leaves _ _ alike => ?_
  refine (endStatement_together like alike).bind fun _ _ _ alike => ?_
  refine (exitNames_together alike).bind fun _ s' t' alike => ?_
  exact (rest s' t' alike).bind fun later _ _ alike => together_pure _ alike

theorem plain_agrees (like : Like r ctx ctx') (loc : Option Position)
    (outer : ∃ scope, out = scope :: env)
    (statements : ListsAgree ctx ctx' r [] [] ([] :: env) out ss ss') :
    BlocksAgree ctx ctx' r env (.mk ss none loc) (.mk ss' none loc) := fun isBody s t alike => by
  obtain ⟨scope, rfl⟩ := outer
  simp only [checkBlock]
  refine (beginBlock_together alike).bind fun _ s' t' alike => ?_
  refine (statements s' t' alike).bind fun leaves _ _ alike => ?_
  exact (endBlock_together like alike loc []).bind fun _ _ _ alike => together_pure _ alike

theorem valued_agrees (like : Like r ctx ctx') (loc : Option Position)
    (outer : ∃ scope, out = scope :: env) (renamed : Expr.Renamed r out e e')
    (statements : ListsAgree ctx ctx' r e.names e'.names ([] :: env) out ss ss')
    (tail : ExprsAgree ctx ctx' r out e e') :
    BlocksAgree ctx ctx' r env (.mk ss (some e) loc) (.mk ss' (some e') loc) :=
  fun isBody s t alike => by
  obtain ⟨scope, rfl⟩ := outer
  simp only [checkBlock, renamed.loc]
  refine (beginBlock_together alike).bind fun _ s' t' alike => ?_
  refine (statements s' t' alike).bind fun leaves s' t' alike => ?_
  refine (tail s' t' alike).bind fun value _ _ alike => ?_
  split
  · refine (checkEscape_together alike value.loans _ false).bind fun _ _ _ alike => ?_
    exact (endBlock_together like alike loc value.loans).bind fun _ _ _ alike =>
      together_pure _ alike
  · exact (endBlock_together like alike loc value.loans).bind fun _ _ _ alike =>
      together_pure _ alike

end Statements

/-! ### All bodies -/

mutual

theorem expr_together (like : Like r ctx ctx') {env : Bindings} {e e' : Expr} :
    Expr.Renamed r env e e' → ExprsAgree ctx ctx' r env e e'
  | .literal _ loc value => fun _ _ alike => literal_together alike loc value
  | .name loc links => name_agrees loc links
  | .unary loc op operand => unary_agrees loc op (expr_together like operand)
  | .deref loc operand => deref_agrees loc operand (expr_together like operand)
  | .borrow loc isMut operand => borrow_agrees loc isMut operand (expr_together like operand)
  | .binary loc op left right =>
      binary_agrees loc op left right (expr_together like left) (expr_together like right)
  | .call loc func args => call_agrees like loc func args (args_together like args)
  | .boxNew loc value => boxNew_agrees loc (expr_together like value)
  | .macroCall loc callee template args =>
      macroCall_agrees loc callee template args (shown_together like args)
  | .ifOnly loc condition thenBlock =>
      ifOnly_agrees loc condition thenBlock (expr_together like condition)
        (block_together like thenBlock)
  | .ifElse loc condition thenBlock elseBlock =>
      ifElse_agrees loc condition (expr_together like condition) (block_together like thenBlock)
        (block_together like elseBlock)
  | .block _ body => fun s t alike => by
      simp only [checkExpr]
      exact block_together like body false s t alike
  | .ofStmt _ stmt => fun _ _ _ => ofStmt_together stmt
  | .ofBlock _ body => fun _ _ _ => ofBlock_together body

theorem args_together (like : Like r ctx ctx') {env : Bindings} {es es' : List Expr} :
    ArgsRenamed r env es es' → ArgsAgree ctx ctx' r env es es'
  | .nil _ => noArgs_agree
  | .cons first rest => moreArgs_agree first (expr_together like first) (args_together like rest)

theorem shown_together (like : Like r ctx ctx') {env : Bindings} {es es' : List Expr} :
    ArgsRenamed r env es es' → ShownAgree ctx ctx' r env es es'
  | .nil _ => noShown_agree
  | .cons first rest => moreShown_agree first (expr_together like first) (shown_together like rest)

theorem stmt_together (like : Like r ctx ctx') {env out : Bindings} {stmt stmt' : Stmt} :
    Stmt.Renamed r env out stmt stmt' → StmtsAgree ctx ctx' r env out stmt stmt'
  | .letVar loc written isMut paired => letVar_agrees loc written isMut paired
  | .letValue loc written isMut paired value =>
      letValue_agrees like loc written isMut paired value (expr_together like value)
  | .assign loc op target value => assign_agrees like loc op target value (expr_together like value)
  | .ret _ loc => ret_agrees like loc
  | .retValue loc value => retValue_agrees like loc value (expr_together like value)
  | .whileLoop loc condition body agrees =>
      whileLoop_agrees loc condition body agrees (expr_together like condition)
        (block_together like body)
  | .expr loc value => expr_agrees loc (expr_together like value)
  | .ofExpr _ _ | .ofBlock _ _ => fun _ _ _ => by
      simp only [checkStmt]
      exact together_throw _ _

theorem stmts_together (like : Like r ctx ctx') {tail tail' : List String} {env out : Bindings}
    {ss ss' : List Stmt} :
    StmtsRenamed r tail tail' env out ss ss' → ListsAgree ctx ctx' r tail tail' env out ss ss'
  | .nil tail tail' _ => noStmts_agree tail tail'
  | .cons first agrees more =>
      moreStmts_agree like agrees (stmt_together like first) (stmts_together like more)

theorem block_together (like : Like r ctx ctx') {env : Bindings} {b b' : Block} :
    Block.Renamed r env b b' → BlocksAgree ctx ctx' r env b b'
  | .plain loc statements =>
      plain_agrees like loc (statements.outer rfl) (stmts_together like statements)
  | .valued loc statements tail =>
      valued_agrees like loc (statements.outer rfl) tail (stmts_together like statements)
        (expr_together like tail)

end

end BorrowLang.Checker
