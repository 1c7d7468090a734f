import BorrowLang.Proofs.Moves.Bodies
import BorrowLang.Proofs.Scoping.Points

/-!
# Passes over a loop

The check goes over a loop twice.  Types and move states are settled by then: however many more
passes were made, they would stay as they are, and nothing but borrows could be at fault.  Borrows
need not be settled: one may travel from binding to binding with each pass.
-/

set_option autoImplicit false

namespace BorrowLang.Checker

open Moves

variable {α β : Type} {ctx : Context} {s mid after : State}

/-! ### What is known at every point of a function -/

theorem Mirrors.passes_known {x : Check α} {y : Bare β} {same : α → β → State → Prop}
    {ok : α → State → Prop} (mirrors : Mirrors x y same s)
    (known : ∀ a b after, y s.outline = some (b, after.outline) → after.Outlined →
      same a b after → ok a after) : Passes x s ok :=
  Meets.mono mirrors (fun a after ⟨b, passes, isSame, outlined⟩ =>
    known a b after passes outlined isSame) fun _ _ _ => trivial

theorem Mirrors.passes {x : Check α} {y : Bare β} {same : α → β → State → Prop}
    {ok : α → State → Prop} (mirrors : Mirrors x y same s)
    (known : ∀ a b after, after.Outlined → same a b after → ok a after) : Passes x s ok :=
  mirrors.passes_known fun a b after _ => known a b after

theorem Mirrors.outlined {x : Check α} {y : Bare β} {same : α → β → State → Prop}
    (mirrors : Mirrors x y same s) : Passes x s fun _ after => after.Outlined :=
  mirrors.passes fun _ _ _ outlined _ => outlined

theorem Beside.outlined {x : Check α} (beside : Beside x s) :
    Passes x s fun _ after => after.Outlined :=
  Meets.mono beside (fun _ _ ⟨_, outlined, _⟩ => outlined) fun _ _ _ => trivial

/-- The condition of an `if` is checked as the bare check does. -/
theorem condition_mirrors (outlined : s.Outlined) (condition : Expr) :
    Mirrors (do
      let cond ← checkExpr ctx condition
      expect ctx .bool cond condition.loc) (do
      Bare.answer (expect ctx .bool (← expr ctx condition) condition.loc))
      (fun _ _ after => Level s after) s := by
  refine (expr_mirrors condition s outlined).bind ?_
  rintro cond _ mid midOutlined ⟨rfl, level⟩
  refine (expect_mirrors midOutlined .bool cond condition.loc).mono ?_
  rintro _ _ _ rfl
  exact level

theorem reborrow?_outlined (outlined : s.Outlined) (arg : Expr) (param : Ty) :
    Passes (reborrow? ctx arg param) s fun _ after => after.Outlined := by
  unfold reborrow?
  split
  · split
    · rw [Passes, meets_bind]
      refine (placeOf_mirrors outlined arg).passes ?_
      rintro place spot mid midOutlined ⟨level, stands⟩
      rw [meets_bind, meets_get]
      split
      · rename_i inner known
        rw [meets_bind]
        refine (requireRead_mirrors midOutlined stands arg.loc).passes ?_
        rintro _ _ mid _ rfl
        rw [meets_bind]
        have points : (Ty.ref true inner).pointee? = some inner := rfl
        refine (target_mirrors midOutlined stands known points).passes ?_
        rintro id behind named namedOutlined ⟨-, there⟩
        rw [meets_bind]
        exact (borrow_mirrors namedOutlined there arg.loc .exclusive).outlined
      · exact midOutlined
    · exact outlined
  · exact outlined

/-- One argument of a call has been checked, and is of the type of the parameter. -/
theorem argsFirst_outlined (outlined : s.Outlined) (arg : Expr) (param : Ty) :
    Passes (do
      let value ← checkArgument ctx arg param
      expect ctx param value arg.loc) s fun _ after => after.Outlined := by
  rw [Passes, meets_bind]
  refine (argument_mirrors outlined (expr_mirrors arg) param).passes ?_
  rintro value _ mid midOutlined -
  exact (expect_mirrors midOutlined param value arg.loc).outlined

namespace Part

theorem check_outlined (outlined : s.Outlined) (part : Part) :
    Passes (part.check ctx) s fun _ after => after.Outlined := by
  cases part with
  | expr e =>
      simp only [check, meets_bind, meets_pure]
      exact (expr_mirrors e s outlined).outlined
  | place e =>
      simp only [check, meets_bind, meets_pure]
      exact (placeOf_mirrors outlined e).outlined
  | args values params =>
      simp only [check, meets_bind, meets_pure]
      exact (args_mirror values params s outlined).outlined
  | shown values => exact (shown_mirror values s outlined).outlined
  | stmt statement =>
      simp only [check, meets_bind, meets_pure]
      exact (stmt_mirrors statement s outlined).outlined
  | stmts tailNames statements =>
      simp only [check, meets_bind, meets_pure]
      exact (stmts_mirror statements tailNames s outlined).outlined
  | pass loc condition body =>
      exact (turn_mirrors outlined (expr_mirrors condition) (blocks_mirror body) _ _).outlined
  | block isBody body =>
      simp only [check, meets_bind, meets_pure]
      exact (blocks_mirror body isBody s outlined).outlined

theorem Leads.outlined {outer inner : Part} {before : Check Unit}
    (leads : outer.Leads ctx before inner) (outlined : s.Outlined) :
    Passes before s fun _ after => after.Outlined := by
  cases leads with
  | start => exact outlined
  | @right loc op left right => exact check_outlined outlined (.expr left)
  | @thenArm loc condition => exact (condition_mirrors outlined condition).outlined
  | @elseArm loc condition thenBlock elseBlock =>
      have tested := (@condition_mirrors ctx s outlined condition).outlined
      simp only [meets_bind, meets_get] at tested ⊢
      refine tested.onOk fun cond mid fits => fits.onOk fun _ before beforeOutlined => ?_
      refine (blocks_mirror thenBlock false before beforeOutlined).passes ?_
      rintro first _ thenEnd thenOutlined ⟨-, level⟩
      exact (swap_outlined beforeOutlined thenOutlined level).1
  | @arg arg args param =>
      simp only [meets_bind, meets_pure]
      exact reborrow?_outlined outlined arg param
  | @moreArgs arg args param =>
      have first := @argsFirst_outlined ctx s outlined arg param
      simp only [checkArgument, meets_bind] at first ⊢
      refine first.onOk fun found mid known => ?_
      cases found <;> simpa only [meets_bind, meets_pure] using known
  | @moreShown arg => exact (shownFirst_mirrors outlined (expr_mirrors arg)).outlined
  | @assigned loc target value => exact check_outlined outlined (.expr value)
  | firstPass => exact (enterNames_beside outlined _).outlined
  | @secondPass loc condition body =>
      rw [Passes, meets_bind]
      refine (enterNames_beside outlined _).outlined.mono fun _ entered there => ?_
      exact check_outlined there (.pass loc condition body)
  | @loopBody loc condition =>
      have tested := (@condition_mirrors ctx s outlined condition).outlined
      simp only [meets_bind] at tested ⊢
      refine tested.onOk fun cond mid fits => fits.onOk fun _ ended endedOutlined => ?_
      exact (Beside.of_stays endedOutlined (modifyTracker_stays rfl)
        (endTemporaries_level endedOutlined.framed [])).outlined
  | stmt => exact (enterNames_beside outlined _).outlined
  | @moreStmts tailNames stmt rest =>
      rw [Passes, meets_bind]
      refine (enterNames_beside outlined _).outlined.mono fun _ entered there => ?_
      rw [meets_bind]
      refine (stmt_mirrors stmt entered there).outlined.mono fun _ done doneOutlined => ?_
      rw [meets_bind]
      refine (Beside.of_stays doneOutlined endStatement_stays
        (endStatement_level doneOutlined.framed)).outlined.mono fun _ ended endedOutlined => ?_
      exact (exitNames_beside endedOutlined).outlined
  | statements => exact (beginBlock_outlined outlined).1
  | @tail isBody stmts tail =>
      simp only [meets_bind, meets_pure]
      exact (stmts_mirror stmts tail.names _ (beginBlock_outlined outlined).1).outlined

end Part

theorem outlined_start (log : List LogEvent) :
    State.Outlined { log, tracker := Tracker.pushFrame {} } where
  framed := framed_start log
  built := .empty
  known _ _ isState := by simp [Tracker.pushFrame] at isState
  frames := rfl
  distinct := .nil

theorem bindParams_outlined (outlined : s.Outlined) (params : List (Param × Ty)) :
    Passes (bindParams ctx params) s fun _ after => after.Outlined := by
  induction params generalizing s with
  | nil => exact outlined
  | cons slot rest ih =>
      obtain ⟨param, ty⟩ := slot
      simp only [bindParams, meets_bind, meets_get]
      split
      · trivial
      · rw [meets_bind]
        refine (bind_mirrors outlined param.name (some ty) param.isMut true true).outlined.mono ?_
        exact fun place mid bound => ih bound

theorem enterBody_outlined (f : FunctionDef) :
    Passes (enterBody ctx f) s fun _ after => after.Outlined := by
  simp only [enterBody, note, meets_bind, meets_modify]
  exact bindParams_outlined (outlined_start _) _

theorem Visited.outlined {f : FunctionDef} {start : State} {part : Part}
    (visited : Visited ctx f start part s) : s.Outlined := by
  induction visited with
  | body entered => exact (enterBody_outlined f).of_ok entered
  | within visited leads passed ih => exact (leads.outlined ih).of_ok passed

/-! ### More passes -/

/-- A part is checked that many times in a row, each time from the state that the last time has
left. -/
def Part.rounds (ctx : Context) (part : Part) : Nat → Check Unit
  | 0 => pure ()
  | more + 1 => do
      part.check ctx
      part.rounds ctx more

section Loops

variable {loc : Option Position} {condition : Expr} {body : Block}

/-- Where as many bindings are in scope as before, the outline has as many declarations. -/
theorem Level.outline_length (level : Level s after) :
    after.outline.decls.length = s.outline.decls.length := by
  simp only [State.outline, State.bindings, level.scopes, List.length_map]

/-- After two passes, another pass of the bare check changes nothing. -/
theorem twoPasses_settled (outlined : s.Outlined) :
    Passes ((Part.pass loc condition body).rounds ctx 2) s fun _ after =>
      after.Outlined ∧ turn ctx condition.loc (expr ctx condition) (block ctx body) after.outline =
        some ((), after.outline) := by
  have regular : Regular (turn ctx condition.loc (expr ctx condition) (block ctx body)) :=
    turn_regular condition.loc (expr_regular condition) (block_regular body)
  have each : ∀ s : State, s.Outlined → Mirrors ((Part.pass loc condition body).check ctx) _ _ s :=
    fun s outlined => turn_mirrors outlined (expr_mirrors condition) (blocks_mirror body) _ _
  simp only [Part.rounds]
  rw [Passes, meets_bind]
  refine (each s outlined).passes_known fun _ _ first once firstOutlined level => ?_
  rw [meets_bind]
  refine (each first firstOutlined).passes_known fun _ _ second twice secondOutlined _ => ?_
  have same := regular.settled once level.outline_length twice
  rw [← same] at twice
  exact ⟨secondOutlined, twice⟩

/-- A pass that changes nothing but borrows may be repeated: it still changes nothing else, and only
borrows are at fault. -/
theorem rounds_settled (outlined : s.Outlined)
    (settled : turn ctx condition.loc (expr ctx condition) (block ctx body) s.outline =
      some ((), s.outline)) (more : Nat) :
    Meets ((Part.pass loc condition body).rounds ctx more) s
      (fun _ after => after.outline = s.outline) fun fault _ => fault.OfBorrow := by
  induction more generalizing s with
  | zero => rfl
  | succ more ih =>
      rw [Part.rounds, meets_bind]
      refine Meets.mono (turn_mirrors outlined (expr_mirrors condition) (blocks_mirror body) _ _)
        ?_ ?_
      · rintro _ mid ⟨_, passes, -, midOutlined⟩
        obtain ⟨-, same⟩ := Prod.mk.inj (Option.some.inj (passes.symm.trans settled))
        rw [← same] at settled ⊢
        exact ih midOutlined settled
      · rintro fault _ (ofBorrow | refuses)
        · exact ofBorrow
        · cases refuses.symm.trans settled

/-- When the two passes over a loop have passed, wherever in a function and under whatever settings,
any number of further passes leaves types and move states as the second one has left them, and ends
early for borrows only. -/
theorem morePasses_settled {f : FunctionDef} {start : State}
    (visited : Visited ctx f start (.stmt (.whileLoop loc condition body)) s)
    (passed : (do
      enterNames (condition.names ++ body.names)
      (Part.pass loc condition body).rounds (ctx.within f) 2) s = (.ok (), after)) (more : Nat) :
    Meets ((Part.pass loc condition body).rounds (ctx.within f) more) after
      (fun _ last => last.outline = after.outline) fun fault _ => fault.OfBorrow := by
  have twice : Passes (do
      enterNames (condition.names ++ body.names)
      (Part.pass loc condition body).rounds (ctx.within f) 2) s fun _ after =>
        after.Outlined ∧ turn (ctx.within f) condition.loc (expr (ctx.within f) condition)
          (block (ctx.within f) body) after.outline = some ((), after.outline) := by
    rw [Passes, meets_bind]
    exact (enterNames_beside visited.outlined _).outlined.mono fun _ _ there =>
      twoPasses_settled there
  obtain ⟨outlined, settled⟩ := twice.of_ok passed
  exact rounds_settled outlined settled more

end Loops

/-- The body of a loop that moves a box out of its binding and puts another one there. -/
def moveAndRefill : Block :=
  .mk [.letVar none "c" none (some (.name none "b")) false,
    .assign none (.name none "b") (.boxNew none (.literal none (.int 2))) none] none none

/-- A function with this loop. -/
def movesInLoop : FunctionDef :=
  { name := "main", params := [], returnType := none, loc := none
    body := .mk [.letVar none "b" none (some (.boxNew none (.literal none (.int 1)))) true,
      .whileLoop none (.literal none (.bool true)) moveAndRefill] none none }

theorem movesInLoop_passes :
    let condition : Expr := .literal none (.bool true)
    ∃ s after, Visited {} movesInLoop {} (.stmt (.whileLoop none condition moveAndRefill)) s ∧
      (do
        enterNames (condition.names ++ moveAndRefill.names)
        (Part.pass none condition moveAndRefill).rounds (Context.within {} movesInLoop) 2) s =
          (.ok (), after) := by
  have body : Visited {} movesInLoop {} _ _ := .body (eq_ok_of_toBool (by decide +kernel))
  have stmts := body.within .statements (eq_ok_of_toBool (by decide +kernel))
  have second := stmts.within .moreStmts (eq_ok_of_toBool (by decide +kernel))
  have here := second.within .stmt (eq_ok_of_toBool (by decide +kernel))
  exact ⟨_, _, here, eq_ok_of_toBool (by decide +kernel)⟩

theorem morePasses_settled_moveInLoop :
    let condition : Expr := .literal none (.bool true)
    let part : Part := .pass none condition moveAndRefill
    ∃ s after, Visited {} movesInLoop {} (.stmt (.whileLoop none condition moveAndRefill)) s ∧
      (do
        enterNames (condition.names ++ moveAndRefill.names)
        part.rounds (Context.within {} movesInLoop) 2) s = (.ok (), after) ∧
      Meets (part.rounds (Context.within {} movesInLoop) 3) after
        (fun _ last => last.outline = after.outline) fun fault _ => fault.OfBorrow := by
  obtain ⟨s, after, visited, passed⟩ := movesInLoop_passes
  exact ⟨s, after, visited, passed, morePasses_settled visited passed 3⟩

/-- The body of a loop that returns what one binding holds, gives it what another one holds, and
lets that borrow a binding of the function. -/
def returnAndHandOn : Block :=
  .mk [.expr none (.ifElse none (.literal none (.bool true))
      (.mk [.ret none (some (.name none "last"))] none none) none),
    .assign none (.name none "last") (.name none "next") none,
    .assign none (.name none "next") (.borrow none (.name none "local") false) none] none none

/-- A function with this loop, where both bindings start with the parameter. -/
def handsOnInLoop : FunctionDef :=
  { name := "pick"
    params := [⟨"given", .mk "&" [.mk "i32" []], none, false⟩]
    returnType := some (.mk "&" [.mk "i32" []])
    loc := none
    body := .mk [.letVar none "local" none (some (.literal none (.int 1))) false,
      .letVar none "next" none (some (.name none "given")) true,
      .letVar none "last" none (some (.name none "given")) true,
      .whileLoop none (.literal none (.bool true)) returnAndHandOn]
      (some (.name none "given")) none }

/-- Borrows are not settled after two passes: it is the third one that returns the borrow of a
binding of the function. -/
theorem thirdPass_dangling :
    let condition : Expr := .literal none (.bool true)
    let part : Part := .pass none condition returnAndHandOn
    let ctx : Context := { functions := [("pick", ⟨[.ref false .i32], .ref false .i32⟩)] }
    ∃ s after, Visited ctx handsOnInLoop {} (.stmt (.whileLoop none condition returnAndHandOn)) s ∧
      (do
        enterNames (condition.names ++ returnAndHandOn.names)
        part.rounds (ctx.within handsOnInLoop) 2) s = (.ok (), after) ∧
      refusal? (part.rounds (ctx.within handsOnInLoop) 1 after).1 = some .danglingBorrow := by
  have body : Visited { functions := [("pick", ⟨[.ref false .i32], .ref false .i32⟩)] }
      handsOnInLoop {} _ _ := .body (eq_ok_of_toBool (by decide +kernel))
  have stmts := body.within .statements (eq_ok_of_toBool (by decide +kernel))
  have second := stmts.within .moreStmts (eq_ok_of_toBool (by decide +kernel))
  have third := second.within .moreStmts (eq_ok_of_toBool (by decide +kernel))
  have fourth := third.within .moreStmts (eq_ok_of_toBool (by decide +kernel))
  have here := fourth.within .stmt (eq_ok_of_toBool (by decide +kernel))
  exact ⟨_, _, here, eq_ok_of_toBool (by decide +kernel), by decide +kernel⟩

end BorrowLang.Checker
