import BorrowLang.Checker.Program
import BorrowLang.Proofs.Scoping.Statements

/-!
# Every point of a function

A function is checked part by part: an expression, a statement or a block is checked in the state that
the parts before it have left.  Whatever part that is, and however deep inside loops, arms and blocks,
when it has passed the scopes and frames are as deep as before and no borrow has outlived what it is
held by or what it borrows.
-/

set_option autoImplicit false

namespace BorrowLang.Checker

variable {ctx : Context} {s after : State}

/-- What is checked at a time. -/
inductive Part
  | expr (e : Expr)
  | place (e : Expr)
  | args (args : List Expr) (params : List Ty)
  | shown (args : List Expr)
  | stmt (stmt : Stmt)
  | stmts (tailNames : List String) (stmts : List Stmt)
  | pass (loc : Option Position) (condition : Expr) (body : Block)
  | block (isBody : Bool) (body : Block)

namespace Part

def check (ctx : Context) : Part → Check Unit
  | .expr e => do let _ ← checkExpr ctx e
  | .place e => do let _ ← placeOf ctx e
  | .args values params => do let _ ← checkArgs ctx values params
  | .shown values => checkShown ctx values
  | .stmt statement => do let _ ← checkStmt ctx statement
  | .stmts tailNames statements => do let _ ← checkStmts ctx tailNames statements
  | .pass loc condition body =>
      loopPass ctx condition.loc (tailLoc body loc) (checkExpr ctx condition)
        (checkBlock ctx false body)
  | .block isBody body => do let _ ← checkBlock ctx isBody body

/-- The parts that the check of a part may begin with. -/
def starts (ctx : Context) : Part → List Part
  | .expr (.deref loc operand) =>
      if (Expr.deref loc operand).isPlace then [.place (.deref loc operand)] else [.expr operand]
  | .expr (.unary _ _ operand) => [.expr operand]
  | .expr (.binary _ _ left _) => [.expr left]
  | .expr (.borrow _ operand _) => if operand.isPlace then [.place operand] else [.expr operand]
  | .expr (.call _ func values) =>
      match ctx.callable? func with
      | some signature => [.args values signature.params]
      | none => []
  | .expr (.boxNew _ value) => [.expr value]
  | .expr (.macroCall _ _ _ values) => [.shown values]
  | .expr (.ifElse _ condition _ _) => [.expr condition]
  | .expr (.block _ body) => [.block false body]
  | .place (.deref _ (.borrow _ operand _)) => [.place operand]
  | .place (.deref _ operand) => [.place operand]
  | .args (arg :: _) (.ref true _ :: _) => if arg.isPlace then [.place arg] else []
  | .shown (arg :: _) => if arg.isPlace then [.place arg] else [.expr arg]
  | .stmt (.letVar _ _ _ (some value) _) => [.expr value]
  | .stmt (.assign _ _ value _) => [.expr value]
  | .stmt (.ret _ (some value)) => [.expr value]
  | .stmt (.expr _ value) => [.expr value]
  | .pass _ condition _ => [.expr condition]
  | _ => []

/-- While the first part is checked, the second one is checked next after some checks have passed. -/
inductive Leads (ctx : Context) : Part → Check Unit → Part → Prop
  | start {outer inner : Part} (member : inner ∈ outer.starts ctx) : Leads ctx outer (pure ()) inner
  | right {loc : Option Position} {op : BinaryOp} {left right : Expr} :
      Leads ctx (.expr (.binary loc op left right)) (do let _ ← checkExpr ctx left) (.expr right)
  | thenArm {loc : Option Position} {condition : Expr} {thenBlock : Block}
      {elseBlock : Option Block} :
      Leads ctx (.expr (.ifElse loc condition thenBlock elseBlock)) (do
        let cond ← checkExpr ctx condition
        expect ctx .bool cond condition.loc) (.block false thenBlock)
  | elseArm {loc : Option Position} {condition : Expr} {thenBlock elseBlock : Block} :
      Leads ctx (.expr (.ifElse loc condition thenBlock (some elseBlock))) (do
        let cond ← checkExpr ctx condition
        expect ctx .bool cond condition.loc
        let before := (← get).tracker
        let _ ← checkBlock ctx false thenBlock
        modifyTracker fun _ => before) (.block false elseBlock)
  | arg {arg : Expr} {args : List Expr} {param : Ty} {params : List Ty} :
      Leads ctx (.args (arg :: args) (param :: params)) (do let _ ← reborrow? ctx arg param)
        (.expr arg)
  | moreArgs {arg : Expr} {args : List Expr} {param : Ty} {params : List Ty} :
      Leads ctx (.args (arg :: args) (param :: params)) (do
        let value ←
          match ← reborrow? ctx arg param with
          | some value => pure value
          | none => checkExpr ctx arg
        expect ctx param value arg.loc) (.args args params)
  | moreShown {arg : Expr} {args : List Expr} :
      Leads ctx (.shown (arg :: args)) (do
        if arg.isPlace then showPlace ctx arg.loc (← placeOf ctx arg)
        else expectDisplayable ctx arg.loc (some (← checkExpr ctx arg).ty)) (.shown args)
  | assigned {loc : Option Position} {target value : Expr} {op : Option BinaryOp} :
      Leads ctx (.stmt (.assign loc target value op)) (do let _ ← checkExpr ctx value)
        (.place target)
  | firstPass {loc : Option Position} {condition : Expr} {body : Block} :
      Leads ctx (.stmt (.whileLoop loc condition body))
        (enterNames (condition.names ++ body.names)) (.pass loc condition body)
  | secondPass {loc : Option Position} {condition : Expr} {body : Block} :
      Leads ctx (.stmt (.whileLoop loc condition body)) (do
        enterNames (condition.names ++ body.names)
        loopPass ctx condition.loc (tailLoc body loc) (checkExpr ctx condition)
          (checkBlock ctx false body)) (.pass loc condition body)
  | loopBody {loc : Option Position} {condition : Expr} {body : Block} :
      Leads ctx (.pass loc condition body) (do
        let cond ← checkExpr ctx condition
        expect ctx .bool cond condition.loc
        modifyTracker (·.endTemporaries [])) (.block false body)
  | stmt {tailNames : List String} {stmt : Stmt} {rest : List Stmt} :
      Leads ctx (.stmts tailNames (stmt :: rest)) (enterNames (namesOfStmts rest ++ tailNames))
        (.stmt stmt)
  | moreStmts {tailNames : List String} {stmt : Stmt} {rest : List Stmt} :
      Leads ctx (.stmts tailNames (stmt :: rest)) (do
        enterNames (namesOfStmts rest ++ tailNames)
        let _ ← checkStmt ctx stmt
        endStatement ctx
        exitNames) (.stmts tailNames rest)
  | statements {isBody : Bool} {stmts : List Stmt} {tail : Option Expr} {loc : Option Position} :
      Leads ctx (.block isBody (.mk stmts tail loc)) beginBlock
        (.stmts (tail.elim [] Expr.names) stmts)
  | tail {isBody : Bool} {stmts : List Stmt} {tail : Expr} {loc : Option Position} :
      Leads ctx (.block isBody (.mk stmts (some tail) loc)) (do
        beginBlock
        let _ ← checkStmts ctx tail.names stmts) (.expr tail)

/-- Every part that passes keeps to its scope. -/
theorem check_widened (framed : s.Framed) (part : Part) :
    Passes (part.check ctx) s fun _ after => Widened s after := by
  cases part with
  | expr e =>
      simp only [check, meets_bind, meets_pure]
      exact (expr_keeps e s framed).mono fun _ _ level => level.widened
  | place e =>
      simp only [check, meets_bind, meets_pure]
      exact (placeOf_level framed e).mono fun _ _ met => met.1.widened
  | args values params =>
      simp only [check, meets_bind, meets_pure]
      exact (args_keep values params s framed).mono fun _ _ level => level.widened
  | shown values => exact (shown_keep values s framed).mono fun _ _ level => level.widened
  | stmt statement =>
      simp only [check, meets_bind, meets_pure]
      exact stmt_keeps statement s framed
  | stmts tailNames statements =>
      simp only [check, meets_bind, meets_pure]
      exact stmts_keep statements tailNames s framed
  | pass loc condition body =>
      exact (loopPass_level framed (expr_keeps condition) (blocks_keep body) _ _).mono
        fun _ _ level => level.widened
  | block isBody body =>
      simp only [check, meets_bind, meets_pure]
      exact (blocks_keep body isBody s framed).mono fun _ _ level => level.widened

/-- What is checked before a part leaves a state in which the part can be checked. -/
theorem Leads.framed {outer inner : Part} {before : Check Unit}
    (leads : outer.Leads ctx before inner) (framed : s.Framed) :
    Passes before s fun _ after => after.Framed := by
  cases leads with
  | start => exact framed
  | @right loc op left right => exact (check_widened framed (.expr left)).mono fun _ _ w => w.framed
  | @thenArm loc condition =>
      exact (condition_level framed (expr_keeps condition)).mono fun _ _ level => level.framed
  | @elseArm loc condition thenBlock elseBlock =>
      have tested := condition_level framed (@expr_keeps ctx condition)
      simp only [meets_bind, meets_get] at tested ⊢
      refine tested.onOk fun cond mid fits => fits.onOk fun _ before level => ?_
      refine (blocks_keep thenBlock false before level.framed).mono fun _ thenEnd thenLevel => ?_
      exact (thenLevel.swap level.framed).framed
  | @arg arg args param =>
      simp only [meets_bind, meets_pure]
      exact (reborrow?_level framed arg param).mono fun _ _ level => level.framed
  | @moreArgs arg args param =>
      exact (argsFirst_level framed (expr_keeps arg) param).mono fun _ _ level => level.framed
  | @moreShown arg =>
      exact (shownFirst_level framed (expr_keeps arg)).mono fun _ _ level => level.framed
  | @assigned loc target value =>
      exact (check_widened framed (.expr value)).mono fun _ _ w => w.framed
  | firstPass => exact (enterNames_level framed _).framed
  | @secondPass loc condition body =>
      have entered := enterNames_level framed (condition.names ++ body.names)
      simp only [enterNames, meets_bind, meets_modify]
      exact (check_widened entered.framed (.pass loc condition body)).mono fun _ _ w => w.framed
  | @loopBody loc condition =>
      exact (loopCondition_level framed (expr_keeps condition) condition.loc).mono
        fun _ _ level => level.framed
  | stmt => exact (enterNames_level framed _).framed
  | @moreStmts tailNames stmt rest =>
      exact (stmtsFirst_widened framed (stmt_keeps stmt) _).mono fun _ _ w => w.framed
  | statements => exact beginBlock_framed framed
  | @tail isBody stmts tail =>
      simp only [beginBlock, meets_bind, meets_modify, meets_pure]
      exact (stmts_keep stmts tail.names _ (beginBlock_framed framed)).mono fun _ _ w => w.framed

end Part

/-! ### Functions -/

/-- The context in which the body of a function is checked. -/
def Context.within (ctx : Context) (f : FunctionDef) : Context :=
  { ctx with result := ((ctx.signature? f.name).getD default).result }

/-- What is checked of a function before its body. -/
def enterBody (ctx : Context) (f : FunctionDef) : Check Unit := do
  note (.checking f.name ctx.settings.lifetimes)
  modify fun s => { log := s.log, tracker := Tracker.pushFrame {} }
  bindParams (ctx.within f) (f.params.zip ((ctx.signature? f.name).getD default).params)

/-- The check of a function goes on with its body in the state that `enterBody` leaves. -/
theorem checkFunction_enters (ctx : Context) (f : FunctionDef) : ∃ leave : Operand → Check Unit,
    checkFunction ctx f = (do
      enterBody ctx f
      leave (← checkBlock (ctx.within f) true f.body)) := by
  simp only [checkFunction, enterBody, bind_assoc]
  exact ⟨_, rfl⟩

/-- While a function is checked, a part of it is checked from a state. -/
inductive Visited (ctx : Context) (f : FunctionDef) (start : State) : Part → State → Prop
  | body {s : State} (entered : enterBody ctx f start = (.ok (), s)) :
      Visited ctx f start (.block true f.body) s
  | within {outer inner : Part} {before : Check Unit} {s next : State}
      (visited : Visited ctx f start outer s) (leads : outer.Leads (ctx.within f) before inner)
      (passed : before s = (.ok (), next)) : Visited ctx f start inner next

theorem framed_start (log : List LogEvent) :
    State.Framed { log, tracker := Tracker.pushFrame {} } where
  laid := Arena.laid_empty
  sheltered := ⟨fun _ impossible => by simp [Tracker.pushFrame] at impossible,
    fun _ impossible => by simp [Tracker.pushFrame] at impossible⟩
  inside := List.cons_ne_nil _ _
  bound := .cons (fun _ impossible => nomatch impossible)
    (.cons (fun _ impossible => nomatch impossible) .nil)

theorem bindParams_framed (framed : s.Framed) (params : List (Param × Ty)) :
    Passes (bindParams ctx params) s fun _ after => after.Framed := by
  induction params generalizing s with
  | nil => exact framed
  | cons slot rest ih =>
      obtain ⟨param, ty⟩ := slot
      simp only [bindParams, meets_bind, meets_get]
      split
      · trivial
      simp only [meets_bind]
      refine (bind_widened framed param.name (some ty) param.isMut true true).mono ?_
      exact fun place mid met => ih met.1.framed

theorem enterBody_framed (f : FunctionDef) :
    Passes (enterBody ctx f) s fun _ after => after.Framed := by
  simp only [enterBody, note, meets_bind, meets_modify]
  exact bindParams_framed (framed_start _) _

theorem Passes.of_ok {α : Type} {x : Check α} {ok : α → State → Prop} (passes : Passes x s ok)
    {a : α} (passed : x s = (.ok a, after)) : ok a after := by
  unfold Passes Meets at passes
  rwa [passed] at passes

theorem Visited.framed {f : FunctionDef} {start : State} {part : Part}
    (visited : Visited ctx f start part s) : s.Framed := by
  induction visited with
  | body entered => exact (enterBody_framed f).of_ok entered
  | within visited leads passed ih => exact (leads.framed ih).of_ok passed

/-- The place is the slot of a binding that is declared in an open frame. -/
def State.IsOpen (s : State) (place : PlaceId) : Prop :=
  s.arena.IsLocal place ∧ ∃ frame ∈ s.tracker.frames, place ∈ frame

/-- As many frames and scopes are open as before, each borrow is held by no binding or by one of an
open frame, and what it borrows belongs to such a binding unless it lies behind a reference. -/
structure KeepsFrames (s after : State) : Prop where
  frames : after.tracker.frames.length = s.tracker.frames.length
  scopes : after.scopes.length = s.scopes.length
  held : ∀ record ∈ after.tracker.borrows, ∀ holder,
    record.holder = some holder → after.IsOpen holder
  rooted : ∀ record ∈ after.tracker.borrows,
    after.arena.innermostRef record.place = none → after.IsOpen (after.arena.root record.place)

/-- Whatever part of a function is checked without a fault, in whatever program and settings, keeps to
the discipline of frames. -/
theorem visited_keepsFrames {f : FunctionDef} {start : State} {part : Part}
    (visited : Visited ctx f start part s)
    (passed : part.check (ctx.within f) s = (.ok (), after)) : KeepsFrames s after := by
  have widened := (Part.check_widened visited.framed part).of_ok passed
  obtain ⟨frames, scopes⟩ := widened.depth visited.framed
  have sheltered := widened.framed.sheltered
  have opened : ∀ place ∈ after.tracker.frames.flatten, after.IsOpen place := by
    intro place member
    obtain ⟨frame, inFrames, inFrame⟩ := List.mem_flatten.mp member
    exact ⟨sheltered.locals place member, frame, inFrames, inFrame⟩
  refine ⟨frames, scopes, fun record member holder held => ?_, fun record member owned => ?_⟩
  · exact opened holder ((sheltered.records record member).holder holder held)
  · exact opened _ ((sheltered.records record member).root owned)

theorem eq_ok_of_toBool {x : Check Unit} (passed : (x s).1.toBool = true) :
    x s = (.ok (), (x s).2) := by
  cases ended : x s with
  | mk result after =>
      rw [ended] at passed
      cases result with
      | ok => rfl
      | error fault => simp [Except.toBool] at passed

/-- A statement that borrows one binding in another, in one arm only. -/
def storeInArm : Stmt :=
  .expr none (.ifElse none (.literal none (.bool true))
    (.mk [.assign none (.name none "p") (.borrow none (.name none "x") false) none] none none) none)

/-- A function with this statement after the two bindings. -/
def storesInArm : FunctionDef :=
  { name := "main", params := [], returnType := none, loc := none
    body := .mk [.letVar none "x" none (some (.literal none (.int 1))) false,
      .letVar none "p" none none false, storeInArm] none none }

theorem storeInArm_visited :
    let ctx : Context := { settings := { lifetimes := .lexical } }
    ∃ s after, Visited ctx storesInArm {} (.stmt storeInArm) s ∧
      (Part.stmt storeInArm).check (ctx.within storesInArm) s = (.ok (), after) ∧
      after.tracker.borrows.map (fun record => (record.place, record.holder)) = [(0, some 1)] ∧
      after.tracker.frames = [[0, 1], [], []] := by
  have body : Visited { settings := { lifetimes := .lexical } } storesInArm {} _ _ :=
    .body (eq_ok_of_toBool (by decide +kernel))
  have stmts := body.within .statements (eq_ok_of_toBool (by decide +kernel))
  have second := stmts.within .moreStmts (eq_ok_of_toBool (by decide +kernel))
  have third := second.within .moreStmts (eq_ok_of_toBool (by decide +kernel))
  have here := third.within .stmt (eq_ok_of_toBool (by decide +kernel))
  exact ⟨_, _, here, eq_ok_of_toBool (by decide +kernel), by decide +kernel, by decide +kernel⟩

/-- Where the arms have met, the borrow is held by the binding in the frame of the function's body. -/
theorem visited_keepsFrames_storeInArm :
    let ctx : Context := { settings := { lifetimes := .lexical } }
    ∃ s after, Visited ctx storesInArm {} (.stmt storeInArm) s ∧
      (Part.stmt storeInArm).check (ctx.within storesInArm) s = (.ok (), after) ∧
      after.tracker.borrows.map (fun record => (record.place, record.holder)) = [(0, some 1)] ∧
      after.tracker.frames = [[0, 1], [], []] ∧ KeepsFrames s after := by
  obtain ⟨s, after, visited, passed, borrows, frames⟩ := storeInArm_visited
  exact ⟨s, after, visited, passed, borrows, frames, visited_keepsFrames visited passed⟩

end BorrowLang.Checker
