import BorrowLang.Proofs.Ownership.Machine
import BorrowLang.Proofs.Typing.Frames

/-!
# Every step keeps the types

A machine is typed when its control comes to an outcome that the frames take, and its cells hold
values of their types.  A step of a machine that is typed, and in order, leads to another; so no step
fails because a value is of the wrong type, or a name is not bound.
-/

set_option autoImplicit false

namespace BorrowLang.Evaluator

open Typing

/-! ### Typed machines -/

section Judgments

variable (types : CellTypes) (signature? : String → Option Signature) (result : Ty)

/-- What a control comes to among some bindings: the bindings after it, and its outcome. -/
inductive ComesTo (env : Env) : {mode : Mode} → Control mode → Env → Outcome → Prop
  | expr {e : Expr} {out : Outcome} (typed : Typed signature? result env e out) :
      ComesTo env (.expr e) env out
  | block {body : Block} {out : Outcome} (typed : BlockTyped signature? result env body out) :
      ComesTo env (.block body) env out
  | args {loc : Option Position} {func : String} {values : List Value} {rest : List Expr}
      {done later : List Ty} {returned : Ty}
      (found : signature? func = some ⟨done ++ later, returned⟩)
      (ofTypes : List.Forall₂ (Value.HasType types) values done)
      (typed : ArgsTyped signature? result env rest later) :
      ComesTo env (.args loc func values rest) env (some returned)
  | shown {template : String} {values : List Shown} {rest : List Expr} {pieces : List String}
      (split : Template.split template = .ok pieces) (typed : ShownTyped signature? result env rest) :
      ComesTo env (.shown template values rest) env (some .unit)
  | follow {template : String} {owned : List Value} {texts : List String}
      {rest : List (Expr × Value)} {pieces : List String}
      (split : Template.split template = .ok pieces) :
      ComesTo env (.follow template owned texts rest) env (some .unit)
  | display {value : Value} (ofType : value.HasType types .i32) :
      ComesTo env (.display value) env (some .unit)
  | place {e : Expr} {ty : Ty} (located : Located signature? result env e ty) :
      ComesTo env (.place e) env (some ty)
  | found {l : Location} {ty : Ty} (points : types l.addr = some ty) :
      ComesTo env (.found l) env (some ty)
  | stmt {stmt : Stmt} {next : Env} {out : Outcome}
      (typed : StmtTyped signature? result env stmt next out) : ComesTo env (.stmt stmt) next out
  | loop {condition : Expr} {body : Block}
      (loop : LoopTyped signature? result env condition body) :
      ComesTo env (.loop condition body) env (some .unit)
  | finished : ComesTo env .finished env (some .unit)

end Judgments

/-- A function returns a value of its result; a fault is one that types do not rule out. -/
def Interrupt.Holds (types : CellTypes) (envs : List Env) (result : Ty) : Interrupt → Prop
  | .returned value => envs ≠ [] ∧ value.HasType types result
  | .failed fault => fault.BeyondTypes

/-- A machine that is typed. -/
inductive Standing (signature? : String → Option Signature) (types : CellTypes) (s : State) :
    {mode : Mode} → Control mode → Stack mode → Prop
  | inside {env next : Env} {callers : List Env} {result : Ty} {out wanted : Outcome} {mode : Mode}
      {control : Control mode} {k : Stack mode}
      (comes : ComesTo types signature? result env control next out)
      (suits : mode.Suits out wanted) (fit : Fit types signature? (next :: callers) result wanted k)
      (held : s.Typed types (env :: callers)) : Standing signature? types s control k
  | stmts {env : Env} {callers : List Env} {result : Ty} {stmts : List Stmt} {tail : Option Expr}
      {out wanted : Outcome} {k : Stack .value}
      (typed : RestTyped signature? result env stmts tail out) (suits : out.Suits wanted)
      (fit : Fit types signature? (env.tail :: callers) result wanted k)
      (held : s.Typed types (env :: callers)) :
      Standing signature? types s (.stmts stmts tail) (.cons .leaveScope k)
  | value {envs : List Env} {result ty : Ty} {value : Value} {k : Stack .value}
      (ofType : value.HasType types ty) (fit : Fit types signature? envs result (some ty) k)
      (held : s.Typed types envs) : Standing signature? types s (.value value) k
  | call {envs : List Env} {result : Ty} {wanted : Outcome} {f : FunctionDef} {signature : Signature}
      {values : List Value} {loc : Option Position} {k : Stack .value}
      (function : FunctionTyped signature? f signature)
      (ofTypes : List.Forall₂ (Value.HasType types) values signature.params)
      (suits : Outcome.Suits (some signature.result) wanted)
      (fit : Fit types signature? envs result wanted k) (held : s.Typed types envs) :
      Standing signature? types s (.call f values loc) k
  | enter {envs : List Env} {result : Ty} {wanted : Outcome} {f : FunctionDef}
      {signature : Signature} {values : List Value} {k : Stack .value}
      (function : FunctionTyped signature? f signature)
      (ofTypes : List.Forall₂ (Value.HasType types) values signature.params)
      (suits : Outcome.Suits (some signature.result) wanted)
      (fit : Fit types signature? envs result wanted k) (held : s.Typed types ([[]] :: envs)) :
      Standing signature? types s (.enter f values) k
  | interrupted {envs : List Env} {result : Ty} {interrupt : Interrupt} {mode : Mode}
      {k : Stack mode} (holds : interrupt.Holds types envs result)
      (fit : Fit types signature? envs result none k) (held : s.Typed types envs) :
      Standing signature? types s (.interrupted interrupt) k

/-- A transition leads to a machine that is typed. -/
def Transition.Leads (signature? : String → Option Signature) (t : Transition) (s : State) : Prop :=
  Meets t.action s (fun control after => ∃ types, Standing signature? types after control t.stack)
    (fun interrupt after =>
      ∃ types, Standing signature? types after (.interrupted interrupt : Control t.mode) t.stack)

section Steps

variable {types : CellTypes} {signature? : String → Option Signature} {result : Ty}
variable {env next : Env} {callers envs : List Env} {out wanted : Outcome} {mode : Mode}
variable {s after : State}

theorem goTo_leads {control : Control mode} {k : Stack mode}
    (standing : Standing signature? types s control k) : (goTo control k).Leads signature? s :=
  ⟨types, standing⟩

theorem Failed.standing {k : Stack mode} {interrupt : Interrupt}
    (failed : Failed types envs interrupt after) (fit : Fit types signature? envs result none k) :
    ∃ types, Standing signature? types after (.interrupted interrupt) k := by
  obtain ⟨⟨fault, rfl, beyond⟩, held⟩ := failed
  exact ⟨types, .interrupted beyond fit held⟩

theorem standing_value {k : Stack .value} {value : Value} {ty : Ty}
    (ofType : value.HasType types ty) (suits : Outcome.Suits (some ty) wanted)
    (fit : Fit types signature? envs result wanted k) (held : s.Typed types envs) :
    Standing signature? types s (.value value) k := by
  obtain ⟨expected, rfl, ofExpected⟩ := ofType.suits rfl suits
  exact .value ofExpected fit held

theorem State.Typed.inner (held : s.Typed types (env :: callers)) (isOpen : Open s.shape) :
    env ≠ [] := by
  rintro rfl
  obtain ⟨scopes, rest, frames, same, -⟩ := held.head
  obtain ⟨scope, others, below, framesEq⟩ := isOpen.frames
  cases same
  simp [frames] at framesEq

/-! ### The first steps into expressions, places and statements -/

theorem isPlace_of_typed {expr : Expr} {ty : Ty} (place : PlaceTyped env expr ty) :
    expr.isPlace = true := by
  induction place with
  | name => rfl
  | ofBorrow _ ih => exact ih
  | deref place _ ih => cases place <;> exact ih

theorem enterExpr_leads {expr : Expr} {k : Stack .value}
    (typed : Typed signature? result env expr out) (suits : out.Suits wanted)
    (fit : Fit types signature? (env :: callers) result wanted k)
    (held : s.Typed types (env :: callers)) : (enterExpr expr k).Leads signature? s := by
  cases typed with
  | literal => exact ⟨types, standing_value (literalValue_typed _) suits fit held⟩
  | place place =>
      have standing : Standing signature? types s (.place expr) (.cons (.readPlace expr) k) :=
        .inside (.place (.place place)) rfl (.frame .readPlace suits fit) held
      cases place <;> exact goTo_leads standing
  | derefValue isValue typed inner points =>
      exact goTo_leads (.inside (.place (.derefValue isValue typed inner points)) rfl
        (.frame .readPlace suits fit) held)
  | unary known typed inner =>
      exact goTo_leads (.inside (.expr typed) inner (.frame (.unary known) suits fit) held)
  | arith left leftSuits right rightSuits =>
      exact goTo_leads (.inside (.expr left) leftSuits
        (.frame (.left (.arith _) right rightSuits) suits fit) held)
  | order left leftSuits right rightSuits =>
      exact goTo_leads (.inside (.expr left) leftSuits
        (.frame (.left (.order _) right rightSuits) suits fit) held)
  | equality isEquality plain left leftSuits right rightSuits =>
      rcases isEquality with rfl | rfl
      · exact goTo_leads (.inside (.expr left) leftSuits
          (.frame (.left (.eq plain) right rightSuits) suits fit) held)
      · exact goTo_leads (.inside (.expr left) leftSuits
          (.frame (.left (.ne plain) right rightSuits) suits fit) held)
  | logic isLogic left leftSuits right rightSuits =>
      rcases isLogic with rfl | rfl
      · exact goTo_leads (.inside (.expr left) leftSuits
          (.frame (.logic right rightSuits) suits fit) held)
      · exact goTo_leads (.inside (.expr left) leftSuits
          (.frame (.logic right rightSuits) suits fit) held)
  | borrowPlace place =>
      simp only [enterExpr, isPlace_of_typed place, if_true]
      exact goTo_leads (.inside (.place (.place place)) rfl (.frame .borrowPlace suits fit) held)
  | borrowValue isValue typed inner =>
      simp only [enterExpr, isValue, Bool.false_eq_true, if_false]
      exact goTo_leads (.inside (.expr typed) inner (.frame .borrowTemporary suits fit) held)
  | boxNew typed inner =>
      exact goTo_leads (.inside (.expr typed) inner (.frame .boxNew suits fit) held)
  | @call _ _ func args signature found typed =>
      have none : signature? func = some ⟨[] ++ signature.params, signature.result⟩ := found
      exact goTo_leads (.inside (.args none .nil typed) suits fit held)
  | macroCall split typed => exact goTo_leads (.inside (.shown split typed) suits fit held)
  | ifElse test testSuits thenTyped thenSuits elseTyped elseSuits =>
      exact goTo_leads (.inside (.expr test) testSuits
        (.frame (.branch thenTyped thenSuits elseTyped elseSuits) suits fit) held)
  | ifOnly test testSuits thenTyped thenSuits =>
      exact goTo_leads (.inside (.expr test) testSuits
        (.frame (.branchOnly thenTyped thenSuits) suits fit) held)
  | block typed => exact goTo_leads (.inside (.block typed) suits fit held)

theorem enterPlace_value {loc : Option Position} {operand : Expr}
    (isValue : (Expr.deref loc operand).isPlace = false) (k : Stack .place) :
    enterPlace (.deref loc operand) k = goTo (.expr operand) (.cons (.derefValue operand) k) := by
  cases operand <;> simp_all [enterPlace, Expr.isPlace]

theorem enterPlace_place {operand : Expr} {pointer : Ty} (place : PlaceTyped env operand pointer)
    (loc : Option Position) (k : Stack .place) :
    enterPlace (.deref loc operand) k = goTo (.place operand) (.cons (.derefPlace operand) k) := by
  have isPlace := isPlace_of_typed place
  cases place <;> simp only [enterPlace, isPlace, if_true]

theorem enterPlace_leads {expr : Expr} {ty : Ty} {k : Stack .place}
    (located : Located signature? result env expr ty)
    (fit : Fit types signature? (env :: callers) result (some ty) k)
    (held : s.Typed types (env :: callers)) : (enterPlace expr k).Leads signature? s := by
  cases located with
  | place place =>
      cases place with
      | name bound =>
          simp only [Transition.Leads, enterPlace, meets_bind, meets_pure]
          apply Meets.uncut (lookup_typed held bound)
          intro addr _ met
          obtain ⟨rfl, points⟩ := met
          exact ⟨types, .inside (.found points) rfl fit held⟩
      | ofBorrow place =>
          simp only [enterPlace, isPlace_of_typed place, if_true]
          exact goTo_leads (.inside (.place (.place place)) rfl fit held)
      | deref place points =>
          rw [enterPlace_place place]
          exact goTo_leads (.inside (.place (.place place)) rfl
            (.frame (.derefPlace points) rfl fit) held)
  | derefValue isValue typed suits points =>
      rw [enterPlace_value isValue]
      exact goTo_leads (.inside (.expr typed) suits (.frame (.derefValue points) rfl fit) held)

theorem enterStmt_leads {stmt : Stmt} {k : Stack .done}
    (typed : StmtTyped signature? result env stmt next out) (suits : out.Suits wanted)
    (fit : Fit types signature? (next :: callers) result wanted k)
    (held : s.Typed types (env :: callers)) (isOpen : Open s.shape) :
    (enterStmt stmt k).Leads signature? s := by
  cases typed with
  | @letUnset _ _ ident _ _ ty =>
      simp only [Transition.Leads, enterStmt, meets_bind, meets_pure]
      have unset : false = true → Value.HasType types .unit ty := by simp
      apply Meets.uncut (bind_typed ident held (held.inner isOpen) unset)
      intro _ after met
      obtain ⟨later, extended, heldAfter⟩ := met
      exact ⟨later, .inside .finished suits (fit.mono extended) heldAfter⟩
  | letVar typed inner =>
      exact goTo_leads (.inside (.expr typed) inner (.frame .letVar suits fit) held)
  | assign place typed inner =>
      exact goTo_leads (.inside (.expr typed) inner (.frame (.assignValue place) suits fit) held)
  | combine place typed inner =>
      exact goTo_leads (.inside (.expr typed) inner (.frame (.combineValue place) suits fit) held)
  | retUnit unit =>
      have ofUnit : Value.HasType types .unit .unit := .unit
      obtain ⟨_, same, ofType⟩ := ofUnit.suits rfl unit
      obtain rfl := Option.some.inj same
      exact ⟨types, .interrupted ⟨List.cons_ne_nil _ _, ofType⟩ fit.leaves held⟩
  | ret typed inner =>
      exact goTo_leads (.inside (.expr typed) inner (.frame .ret (Outcome.suits_none _) fit) held)
  | whileLoop test testSuits body bodySuits =>
      exact goTo_leads (.inside (.loop ⟨⟨_, test, testSuits⟩, ⟨_, body, bodySuits⟩⟩) suits fit held)
  | expr typed =>
      refine goTo_leads (.inside (.expr typed) (Outcome.Suits.refl _) ?_ held)
      refine fit.ofAny (fun _ => .exprStmt) ?_
      rintro ty rfl
      exact suits

/-! ### Steps of calls and macros -/

theorem applyCall_leads {ctx : Context} (program : ProgramTyped ctx signature?)
    (loc : Option Position) {func : String} {values : List Value} {signature : Signature}
    {k : Stack .value} (found : signature? func = some signature)
    (ofTypes : List.Forall₂ (Value.HasType types) values signature.params)
    (suits : Outcome.Suits (some signature.result) wanted)
    (fit : Fit types signature? (env :: callers) result wanted k)
    (held : s.Typed types (env :: callers)) :
    (applyCall ctx loc func values k).Leads signature? s := by
  rcases program.function func signature found with ⟨f, known, function⟩ | ⟨known, rfl, rfl⟩
  · simp only [applyCall, known]
    exact goTo_leads (.call function ofTypes suits fit held)
  · cases ofTypes with
    | cons first rest =>
        simp only [applyCall, known, if_true]
        exact goTo_leads (.inside (.display first) suits fit held)

theorem call_leads {ctx : Context} {f : FunctionDef} {signature : Signature} {values : List Value}
    {loc : Option Position} {k : Stack .value} (function : FunctionTyped signature? f signature)
    (ofTypes : List.Forall₂ (Value.HasType types) values signature.params)
    (suits : Outcome.Suits (some signature.result) wanted)
    (fit : Fit types signature? envs result wanted k) (held : s.Typed types envs) :
    Transition.Leads signature? ⟨k, do
      pushFrame ctx f loc
      return .enter f values⟩ s := by
  simp only [Transition.Leads, meets_bind, meets_pure]
  refine (pushFrame_typed ctx f loc held).mono ?_ (fun _ _ failed => failed.standing fit.leaves)
  intro _ after heldAfter
  exact ⟨types, .enter function ofTypes suits fit heldAfter⟩

/-- The step into a function after its activation is there. -/
theorem enter_leads {f : FunctionDef} {signature : Signature} {values : List Value}
    {k : Stack .value} (function : FunctionTyped signature? f signature)
    (ofTypes : List.Forall₂ (Value.HasType types) values signature.params)
    (suits : Outcome.Suits (some signature.result) wanted)
    (fit : Fit types signature? envs result wanted k) (held : s.Typed types ([[]] :: envs)) :
    Transition.Leads signature? ⟨.cons (.leaveCall f) k, do
      bindArgs (f.params.zip values)
      return .block f.body⟩ s := by
  simp only [Transition.Leads, meets_bind, meets_pure]
  apply Meets.uncut (bindArgs_typed function.arity held (by simp) ofTypes)
  intro _ after met
  obtain ⟨later, extended, heldAfter⟩ := met
  obtain ⟨out, body, bodySuits⟩ := function.body
  exact ⟨later, .inside (.block body) bodySuits
    (.leaveCall function.result (Or.inr rfl) suits (fit.mono extended)) heldAfter⟩

theorem shown_leads {ctx : Context} {template : String} {values : List Shown} {rest : List Expr}
    {pieces : List String} {k : Stack .value} {t : Transition}
    (split : Template.split template = .ok pieces) (typed : ShownTyped signature? result env rest)
    (suits : Outcome.Suits (some .unit) wanted)
    (fit : Fit types signature? (env :: callers) result wanted k)
    (held : s.Typed types (env :: callers))
    (advanced : advance ctx (.shown template values rest) k = some t) :
    t.Leads signature? s := by
  cases typed with
  | nil =>
      obtain rfl := Option.some.inj advanced
      exact goTo_leads (.inside (.follow split) suits fit held)
  | cons argTyped others =>
      obtain rfl := Option.some.inj advanced
      split
      · rename_i isPlace
        cases argTyped with
        | place place =>
            exact goTo_leads (.inside (.place (.place place)) rfl
              (.frame (.shownPlace split others) suits fit) held)
        | derefValue isValue => simp [isValue] at isPlace
        | _ => simp [Expr.isPlace] at isPlace
      · exact goTo_leads (.inside (.expr argTyped) (Outcome.Suits.refl _)
          (fit.ofAny (fun _ => .shownValue split others) fun _ _ => suits) held)

/-- The last step of a macro drops what belongs to it. -/
theorem print_leads {template : String} {owned : List Value} {texts : List String}
    {pieces : List String} {k : Stack .value} (sound : Sound (.follow template owned texts []) k s)
    (split : Template.split template = .ok pieces) (suits : Outcome.Suits (some .unit) wanted)
    (fit : Fit types signature? (env :: callers) result wanted k)
    (held : s.Typed types (env :: callers)) :
    Transition.Leads signature? ⟨k, print template owned texts⟩ s := by
  simp only [Transition.Leads, print, meets_bind, meets_pure, format, split, emit, meets_modify]
  let shown : State := { s with outputs := Template.fill pieces texts :: s.outputs }
  have ownedShown : Owned shown (boxes k.values ++ boxes owned) := by
    rw [← boxes_append]
    exact sound.owned.reframe rfl rfl rfl
  have heldShown : shown.Typed types (env :: callers) := ⟨held.heap, held.frames⟩
  apply Meets.uncut (dropValues_typed ownedShown heldShown)
  intro _ after heldAfter
  exact ⟨types, standing_value .unit suits fit heldAfter⟩

theorem followFirst_leads {ctx : Context} {template : String} {owned : List Value}
    {texts : List String} {arg : Expr} {value : Value} {rest : List (Expr × Value)}
    {pieces : List String} {k : Stack .value} (split : Template.split template = .ok pieces)
    (suits : Outcome.Suits (some .unit) wanted)
    (fit : Fit types signature? (env :: callers) result wanted k)
    (held : s.Typed types (env :: callers)) :
    Transition.Leads signature? ⟨k, followFirst ctx template owned texts arg value rest⟩ s := by
  simp only [Transition.Leads, followFirst, meets_bind]
  refine (follow_typed ctx arg value held).mono ?_
    (fun _ _ failed => failed.standing (fit.leaves))
  intro inner after heldAfter
  cases inner with
  | none => exact ⟨types, .inside (.follow split) suits fit heldAfter⟩
  | some inner => exact ⟨types, .inside (.follow split) suits fit heldAfter⟩

theorem display_leads {value : Value} {k : Stack .value} (ofType : value.HasType types .i32)
    (suits : Outcome.Suits (some .unit) wanted)
    (fit : Fit types signature? (env :: callers) result wanted k)
    (held : s.Typed types (env :: callers)) :
    Transition.Leads signature? ⟨k, displayStep value⟩ s := by
  cases ofType with
  | int => exact ⟨types, standing_value .unit suits fit ⟨held.heap, held.frames⟩⟩

/-! ### Steps after an outcome -/

theorem args_leads {loc : Option Position} {func : String} {values : List Value} {value : Value}
    {rest : List Expr} {done later : List Ty} {ty returned : Ty} {k : Stack .value}
    (found : signature? func = some ⟨done ++ ty :: later, returned⟩)
    (ofTypes : List.Forall₂ (Value.HasType types) values done) (ofType : value.HasType types ty)
    (typed : ArgsTyped signature? result env rest later)
    (suits : Outcome.Suits (some returned) wanted)
    (fit : Fit types signature? (env :: callers) result wanted k)
    (held : s.Typed types (env :: callers)) :
    (goTo (.args loc func (values ++ [value]) rest) k).Leads signature? s := by
  have more : signature? func = some ⟨(done ++ [ty]) ++ later, returned⟩ := by
    simpa using found
  have ofMore : List.Forall₂ (Value.HasType types) (values ++ [value]) (done ++ [ty]) :=
    List.rel_append ofTypes (.cons ofType .nil)
  exact goTo_leads (.inside (.args more ofMore typed) suits fit held)

/-- A pointer that is a value gets a cell if it is a box, and leads to its target. -/
theorem derefValue_leads {operand : Expr} {pointer : Value} {pointerTy ty : Ty}
    {k : Stack .place} (ofType : pointer.HasType types pointerTy)
    (points : pointerTy.pointee? = some ty)
    (fit : Fit types signature? (env :: callers) result (some ty) k)
    (held : s.Typed types (env :: callers)) :
    Transition.Leads signature? ⟨k, do
      if let .box _ := pointer then
        let _ ← materialize pointer
      return .found (← pointee none pointer operand)⟩ s := by
  have pointed : ∀ {types later : CellTypes} {after : State}, types.Extends later →
      pointer.HasType types pointerTy →
      Fit types signature? (env :: callers) result (some ty) k → after.Typed later (env :: callers) →
      Meets (pointee none pointer operand) after
        (fun l end' => ∃ types, Standing signature? types end' (.found l) k)
        (fun interrupt end' => ∃ types,
          Standing signature? types end' (.interrupted interrupt : Control .place) k) := by
    intro types later after extended ofType fit heldAfter
    apply Meets.uncut (pointee_typed none operand (ofType.mono extended) points)
    intro l _ met
    obtain ⟨rfl, target⟩ := met
    exact ⟨later, .inside (.found target) rfl (fit.mono extended) heldAfter⟩
  cases pointer with
  | box addr =>
      simp only [Transition.Leads, meets_bind, meets_pure]
      apply Meets.uncut (materialize_typed held ofType)
      intro _ mid met
      obtain ⟨later, extended, heldMid, -⟩ := met
      exact pointed extended ofType fit heldMid
  | _ =>
      simp only [Transition.Leads, meets_bind, meets_pure]
      exact pointed (.refl types) ofType fit held

/-- Leaving a call: what it returns is of the type that it declares. -/
theorem leaveCall_leads {f : FunctionDef} {value : Value} {outer : Ty} {k : Stack .value}
    (sound : Sound (.value value) (.cons (.leaveCall f) k) s)
    (ofType : value.HasType types result) (suits : Outcome.Suits (some result) wanted)
    (fit : Fit types signature? callers outer wanted k) (held : s.Typed types (env :: callers)) :
    Transition.Leads signature? ⟨k, do
      popFrame
      return .value value⟩ s := by
  obtain ⟨below, shape, -⟩ := sound.fits
  simp only [Transition.Leads, meets_bind, meets_pure]
  apply Meets.uncut (popFrame_typed sound.owned shape held)
  intro _ after heldAfter
  exact ⟨types, standing_value ofType suits fit heldAfter⟩

theorem resumeValue_leads {ctx : Context} {v : Value} {frame : Frame .value mode} {k : Stack mode}
    {ty : Ty} (sound : Sound (.value v) (.cons frame k) s) (ofType : v.HasType types ty)
    (fit : Fit types signature? envs result (some ty) (.cons frame k))
    (held : s.Typed types envs) : (resumeValue ctx v frame k).Leads signature? s := by
  obtain ⟨below, enclosing, -⟩ := sound.fits
  cases fit with
  | leaveCall declared returns suits rest =>
      obtain rfl := Option.some.inj (returns.resolve_left nofun)
      exact leaveCall_leads sound ofType suits rest held
  | frame takes suits rest =>
      cases takes with
      | unary known =>
          simp only [Transition.Leads, resumeValue, meets_bind, meets_pure]
          refine (unary_typed ctx _ known held ofType).mono ?_
            (fun _ _ failed => failed.standing rest.leaves)
          intro value after met
          obtain ⟨heldAfter, ofResult⟩ := met
          exact ⟨types, standing_value ofResult suits rest heldAfter⟩
      | logic typed inner =>
          simp only [resumeValue]
          split
          · exact goTo_leads (.inside (.expr typed) inner (.frame .truth suits rest) held)
          · exact goTo_leads (standing_value .bool suits rest held)
      | truth => exact goTo_leads (standing_value .bool suits rest held)
      | left known typed inner =>
          exact goTo_leads (.inside (.expr typed) inner (.frame (.right known ofType) suits rest) held)
      | right known ofFirst =>
          simp only [Transition.Leads, resumeValue, meets_bind, meets_pure]
          refine (binary_typed ctx _ known held ofFirst ofType).mono ?_
            (fun _ _ failed => failed.standing rest.leaves)
          intro value after met
          obtain ⟨heldAfter, ofResult⟩ := met
          exact ⟨types, standing_value ofResult suits rest heldAfter⟩
      | @borrowTemporary isMut =>
          simp only [Transition.Leads, resumeValue, meets_bind, meets_pure]
          apply Meets.uncut (materialize_typed held ofType)
          intro addr mid met
          obtain ⟨later, extended, heldMid, points⟩ := met
          apply Meets.uncut (pushTag_typed isMut heldMid points)
          intro value after met
          obtain ⟨heldAfter, ofRef⟩ := met
          exact ⟨later, standing_value ofRef suits (rest.mono extended) heldAfter⟩
      | boxNew =>
          simp only [Transition.Leads, resumeValue, meets_bind, meets_pure]
          apply Meets.uncut (alloc_typed held fun _ => ofType)
          intro addr after met
          obtain ⟨later, extended, heldAfter, points⟩ := met
          exact ⟨later, standing_value (.box points) suits (rest.mono extended) heldAfter⟩
      | arg found ofTypes typed => exact args_leads found ofTypes ofType typed suits rest held
      | shownValue split typed => exact goTo_leads (.inside (.shown split typed) suits rest held)
      | branch thenTyped thenSuits elseTyped elseSuits =>
          simp only [resumeValue]
          split
          · exact goTo_leads (.inside (.block thenTyped) (thenSuits.trans suits) rest held)
          · exact goTo_leads (.inside (.block elseTyped) (elseSuits.trans suits) rest held)
      | branchOnly thenTyped thenSuits =>
          simp only [resumeValue]
          split
          · exact goTo_leads (.inside (.block thenTyped) (thenSuits.trans suits) rest held)
          · exact goTo_leads (standing_value .unit suits rest held)
      | leaveScope =>
          obtain ⟨count, others, shape, -⟩ := enclosing
          simp only [Transition.Leads, resumeValue, meets_bind, meets_pure]
          apply Meets.uncut (popScope_typed sound.owned ⟨count, others, shape⟩ held)
          intro _ after heldAfter
          exact ⟨types, standing_value ofType suits rest heldAfter⟩
      | derefValue points =>
          obtain rfl : some _ = _ := suits
          exact derefValue_leads ofType points rest held
      | letVar =>
          simp only [Transition.Leads, resumeValue, meets_bind, meets_pure]
          apply Meets.uncut (bind_typed _ held (held.inner enclosing.1) fun _ => ofType)
          intro _ after met
          obtain ⟨later, extended, heldAfter⟩ := met
          exact ⟨later, .inside .finished suits (rest.mono extended) heldAfter⟩
      | assignValue place =>
          exact goTo_leads (.inside (.place (.place place)) rfl
            (.frame (.assignPlace ofType) suits rest) held)
      | combineValue place =>
          exact goTo_leads (.inside (.place (.place place)) rfl
            (.frame (.combinePlace ofType) suits rest) held)
      | ret => exact ⟨types, .interrupted ⟨List.cons_ne_nil _ _, ofType⟩ rest.leaves held⟩
      | exprStmt =>
          simp only [Transition.Leads, resumeValue, meets_bind, meets_pure]
          have owned : Owned s (boxes k.values ++ boxes [v]) := by
            simpa [Stack.values, Frame.values, Control.values] using sound.owned
          apply Meets.uncut (dropValue_typed owned held)
          intro _ after heldAfter
          exact ⟨types, .inside .finished suits rest heldAfter⟩
      | loopCondition loop =>
          simp only [resumeValue]
          split
          · obtain ⟨out, body, bodySuits⟩ := loop.body
            exact goTo_leads (.inside (.block body) bodySuits
              (.frame (.loopBody loop) suits rest) held)
          · exact goTo_leads (.inside .finished suits rest held)
      | loopBody loop => exact goTo_leads (.inside (.loop loop) suits rest held)

theorem resumePlace_leads {ctx : Context} {l : Location} {frame : Frame .place mode}
    {k : Stack mode} {ty : Ty} (sound : Sound (.found l) (.cons frame k) s)
    (points : types l.addr = some ty)
    (fit : Fit types signature? (env :: callers) result (some ty) (.cons frame k))
    (held : s.Typed types (env :: callers)) : (resumePlace ctx l frame k).Leads signature? s := by
  cases fit with
  | frame takes suits rest =>
      cases takes with
      | readPlace =>
          simp only [Transition.Leads, resumePlace, meets_bind, meets_pure]
          refine (read_typed ctx _ held points).mono ?_
            (fun _ _ failed => failed.standing rest.leaves)
          intro value after met
          obtain ⟨heldAfter, ofType⟩ := met
          exact ⟨types, standing_value ofType suits rest heldAfter⟩
      | @borrowPlace operand isMut =>
          simp only [Transition.Leads, resumePlace, meets_bind, meets_pure]
          refine (access_typed ctx l operand _ _ held).mono ?_
            (fun _ _ failed => failed.standing rest.leaves)
          intro _ mid ended
          apply Meets.uncut (pushTag_typed isMut (held.ended ended) points)
          intro value after met
          obtain ⟨heldAfter, ofRef⟩ := met
          exact ⟨types, standing_value ofRef suits rest heldAfter⟩
      | shownPlace split typed =>
          simp only [Transition.Leads, resumePlace, meets_bind, meets_pure]
          refine (load_typed ctx _ held points).mono ?_
            (fun _ _ failed => failed.standing rest.leaves)
          intro value after met
          obtain ⟨heldAfter, -⟩ := met
          exact ⟨types, .inside (.shown split typed) suits rest heldAfter⟩
      | derefPlace leads =>
          obtain rfl : some _ = _ := suits
          simp only [Transition.Leads, resumePlace, meets_bind, meets_pure]
          refine (load_typed ctx _ held points).mono ?_
            (fun _ _ failed => failed.standing rest.leaves)
          intro pointer mid met
          obtain ⟨heldMid, ofPointer⟩ := met
          apply Meets.uncut (pointee_typed (some l) _ ofPointer leads)
          intro target _ met
          obtain ⟨rfl, pointsNext⟩ := met
          exact ⟨types, .inside (.found pointsNext) rfl rest heldMid⟩
      | assignPlace ofType =>
          simp only [Transition.Leads, resumePlace, meets_bind, meets_pure]
          refine (assign_typed ctx _ sound.owned held points ofType).mono ?_
            (fun _ _ failed => failed.standing rest.leaves)
          intro _ after heldAfter
          exact ⟨types, .inside .finished suits rest heldAfter⟩
      | combinePlace ofType =>
          simp only [Transition.Leads, resumePlace, meets_bind, meets_pure]
          refine (combine_typed ctx _ _ _ held points ofType).mono ?_
            (fun _ _ failed => failed.standing rest.leaves)
          intro _ after heldAfter
          exact ⟨types, .inside .finished suits rest heldAfter⟩

theorem resumeDone_leads {frame : Frame .done mode} {k : Stack mode}
    (suits : Outcome.Suits (some .unit) wanted)
    (fit : Fit types signature? (env :: callers) result wanted (.cons frame k))
    (held : s.Typed types (env :: callers)) : (resumeDone frame k).Leads signature? s := by
  obtain ⟨expected, rfl, -⟩ := suits .unit rfl
  cases fit with
  | frame takes => cases takes
  | stmts typed inner outer => exact goTo_leads (.stmts typed inner outer held)

theorem unwind_leads {interrupt : Interrupt} {first : Mode} {frame : Frame first mode}
    {k : Stack mode} (sound : Sound (.interrupted interrupt) (.cons frame k) s)
    (holds : interrupt.Holds types envs result)
    (fit : Fit types signature? envs result none (.cons frame k)) (held : s.Typed types envs) :
    (unwind interrupt frame k).Leads signature? s := by
  obtain ⟨below, enclosing, -⟩ := sound.fits
  cases fit with
  | @passed env _ callers _ _ _ _ _ inside rest =>
      have holdsIn : ∀ other : Env, interrupt.Holds types (other :: callers) result := by
        intro other
        cases interrupt with
        | returned value => exact ⟨List.cons_ne_nil _ _, holds.2⟩
        | failed fault => exact holds
      cases frame with
      | leaveCall => simp [Frame.isCall] at inside
      | leaveScope =>
          obtain ⟨count, others, shape, -⟩ := enclosing
          simp only [Transition.Leads, unwind, meets_bind, meets_pure]
          apply Meets.uncut (popScope_typed sound.owned ⟨count, others, shape⟩ held)
          intro _ after heldAfter
          exact ⟨types, .interrupted (holdsIn _) (rest.anywhere _) heldAfter⟩
      | _ => exact goTo_leads (.interrupted (holdsIn env) (rest.anywhere env) held)
  | @leaveCall _ callers _ outer _ _ f _ declared returns suits rest =>
      simp only [Transition.Leads, unwind, meets_bind]
      apply Meets.uncut (popFrame_typed sound.owned enclosing held)
      intro _ after heldAfter
      cases interrupt with
      | returned value => exact ⟨types, standing_value holds.2 suits rest heldAfter⟩
      | failed fault =>
          have beyond : Interrupt.Holds types callers outer (.failed fault) := holds
          exact ⟨types, .interrupted beyond rest.leaves heldAfter⟩

/-! ### All steps -/

/-- The outcome of a statement is the unit value, or none. -/
theorem outcome_of_stmt {stmt : Stmt} (typed : StmtTyped signature? result env stmt next out) :
    ∀ ty, out = some ty → ty = .unit := by
  cases typed with
  | @expr _ _ _ out =>
      cases out with
      | none => nofun
      | some ty => exact fun ty same => (Option.some.inj same).symm
  | retUnit => nofun
  | ret => nofun
  | _ => exact fun ty same => (Option.some.inj same).symm

/-- A statement adds bindings to the innermost scope only. -/
theorem tail_of_stmt {stmt : Stmt} (typed : StmtTyped signature? result env stmt next out) :
    next.tail = env.tail := by
  cases typed with
  | letUnset | letVar => cases env <;> rfl
  | _ => rfl

theorem stmts_leads {stmts : List Stmt} {tail : Option Expr} {k : Stack .value} {ctx : Context}
    {t : Transition} (typed : RestTyped signature? result env stmts tail out)
    (suits : out.Suits wanted)
    (fit : Fit types signature? (env.tail :: callers) result wanted k)
    (held : s.Typed types (env :: callers))
    (advanced : advance ctx (.stmts stmts tail) (.cons .leaveScope k) = some t) :
    t.Leads signature? s := by
  cases typed with
  | unit =>
      obtain rfl := Option.some.inj advanced
      exact goTo_leads (.value .unit (.frame .leaveScope suits fit) held)
  | tail typed =>
      obtain rfl := Option.some.inj advanced
      exact goTo_leads (.inside (.expr typed) (.refl _) (fit.leaveScope suits) held)
  | @cons _ next stmt rest _ first second typed restTyped =>
      obtain rfl := Option.some.inj advanced
      have outer : Fit types signature? (next.tail :: callers) result wanted k :=
        tail_of_stmt typed ▸ fit
      have block : Fit types signature? (next :: callers) result first
          (.cons (.stmts rest tail) (.cons .leaveScope k)) := by
        cases first with
        | none => exact .passed rfl (outer.leaveScope suits).leaves
        | some ty =>
            obtain rfl := outcome_of_stmt typed ty rfl
            exact .stmts restTyped suits outer
      exact goTo_leads (.inside (.stmt typed) (.refl _) block held)

/-- A step of a machine that is typed leads to another. -/
theorem advance_leads {ctx : Context} (program : ProgramTyped ctx signature?)
    {control : Control mode} {k : Stack mode} (sound : Sound control k s)
    (standing : Standing signature? types s control k) {t : Transition}
    (advanced : advance ctx control k = some t) : t.Leads signature? s := by
  cases standing with
  | inside comes suits fit held =>
      cases comes with
      | expr typed =>
          obtain rfl := Option.some.inj advanced
          exact enterExpr_leads typed suits fit held
      | block typed =>
          obtain rfl := Option.some.inj advanced
          simp only [Transition.Leads, meets_bind, meets_pure]
          apply Meets.uncut (pushScope_typed held)
          intro _ after heldAfter
          exact ⟨types, .stmts typed suits fit heldAfter⟩
      | args found ofTypes typed =>
          cases typed with
          | nil =>
              obtain rfl := Option.some.inj advanced
              rw [List.append_nil] at found
              exact applyCall_leads program _ found ofTypes suits fit held
          | cons first inner rest =>
              obtain rfl := Option.some.inj advanced
              exact goTo_leads (.inside (.expr first) inner
                (.frame (.arg found ofTypes rest) suits fit) held)
      | shown split typed => exact shown_leads split typed suits fit held advanced
      | @follow _ owned texts rest _ split =>
          cases rest with
          | nil =>
              obtain rfl := Option.some.inj advanced
              exact print_leads sound split suits fit held
          | cons first rest =>
              obtain rfl := Option.some.inj advanced
              exact followFirst_leads split suits fit held
      | display ofType =>
          obtain rfl := Option.some.inj advanced
          exact display_leads ofType suits fit held
      | place located =>
          obtain rfl := Option.some.inj advanced
          obtain rfl : some _ = _ := suits
          exact enterPlace_leads located fit held
      | found points =>
          obtain rfl : some _ = _ := suits
          cases k with
          | cons frame k =>
              obtain rfl := Option.some.inj advanced
              exact resumePlace_leads sound points fit held
      | stmt typed =>
          obtain rfl := Option.some.inj advanced
          exact enterStmt_leads typed suits fit held sound.fits.1
      | loop loop =>
          obtain rfl := Option.some.inj advanced
          obtain ⟨out, test, testSuits⟩ := loop.test
          exact goTo_leads (.inside (.expr test) testSuits
            (.frame (.loopCondition loop) suits fit) held)
      | finished =>
          cases k with
          | cons frame k =>
              obtain rfl := Option.some.inj advanced
              exact resumeDone_leads suits fit held
  | stmts typed suits fit held => exact stmts_leads typed suits fit held advanced
  | @value _ _ _ _ k ofType fit held =>
      cases k with
      | nil => simp [advance] at advanced
      | cons frame k =>
          obtain rfl := Option.some.inj advanced
          exact resumeValue_leads sound ofType fit held
  | call function ofTypes suits fit held =>
      obtain rfl := Option.some.inj advanced
      exact call_leads function ofTypes suits fit held
  | enter function ofTypes suits fit held =>
      obtain rfl := Option.some.inj advanced
      exact enter_leads function ofTypes suits fit held
  | @interrupted _ _ _ _ k holds fit held =>
      cases k with
      | nil => simp [advance] at advanced
      | cons frame k =>
          obtain rfl := Option.some.inj advanced
          exact unwind_leads sound holds fit held

end Steps

end BorrowLang.Evaluator
