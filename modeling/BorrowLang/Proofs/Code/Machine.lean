import BorrowLang.Proofs.Code.Rules
import BorrowLang.Proofs.Ownership.Effects
import BorrowLang.Proofs.Ownership.Machine
import BorrowLang.Proofs.Typing.Frames

/-!
# The code of a machine

What a step leaves of the code of a machine obeys the rules that it obeyed before.  A guard is a rule
that code has to obey while frames further out ask for it, and nothing inside of such a frame ever
breaks it.
-/

set_option autoImplicit false

namespace BorrowLang.Evaluator

/-! ### What is left of the code -/

/-- What a control still has to run obeys a rule.  The body of a function that is called need not; it
meets a condition of its own. -/
def Control.Obeys (rule : CodeRule) (callee : FunctionDef → Prop) {mode : Mode} :
    Control mode → Prop
  | .expr e | .place e => e.obeys rule = true
  | .block body => body.obeys rule = true
  | .stmts rest tail =>
      rule.blocks = true ∧ (∀ one ∈ rest, one.obeys rule = true) ∧
        ∀ one ∈ tail, one.obeys rule = true
  | .args _ _ values rest =>
      rule.calls = true ∧
        (∃ before, before.length = values.length ∧ argsAllowed rule.callArg before rest = true) ∧
        ∀ one ∈ rest, one.obeys rule = true
  | .call f _ _ | .enter f _ => rule.calls = true ∧ callee f
  | .display _ => rule.calls = true
  | .shown _ values rest =>
      rule.macros = true ∧ (∀ one ∈ values, one.owned = !one.arg.isPlace) ∧
        argsAllowed rule.macroArg (values.map (·.arg)) rest = true ∧
        ∀ one ∈ rest, one.obeys rule = true
  | .follow _ _ _ _ => rule.macros = true
  | .stmt code => rule.blocks = true ∧ code.obeys rule = true
  | .loop condition body => condition.obeys rule = true ∧ body.obeys rule = true
  | .interrupted (.returned _) => rule.returns = true
  | .value _ | .found _ | .finished | .interrupted (.failed _) => True

/-- What a frame still has to run obeys a rule. -/
def Frame.Obeys (rule : CodeRule) {first next : Mode} : Frame first next → Prop
  | .logic _ operand | .left _ _ operand => operand.obeys rule = true
  | .arg _ _ values rest =>
      rule.calls = true ∧
        (∃ before, before.length = values.length + 1 ∧
          argsAllowed rule.callArg before rest = true) ∧
        ∀ one ∈ rest, one.obeys rule = true
  | .shownValue _ values last rest =>
      rule.macros = true ∧ last.isPlace = false ∧
        (∀ one ∈ values, one.owned = !one.arg.isPlace) ∧
        argsAllowed rule.macroArg (values.map (·.arg) ++ [last]) rest = true ∧
        ∀ one ∈ rest, one.obeys rule = true
  | .shownPlace _ values last rest =>
      rule.macros = true ∧ last.isPlace = true ∧
        (∀ one ∈ values, one.owned = !one.arg.isPlace) ∧
        argsAllowed rule.macroArg (values.map (·.arg) ++ [last]) rest = true ∧
        ∀ one ∈ rest, one.obeys rule = true
  | .branch thenBlock elseBlock =>
      thenBlock.obeys rule = true ∧ ∀ one ∈ elseBlock, one.obeys rule = true
  | .leaveScope | .letVar _ | .exprStmt | .assignPlace _ _ _ _ => rule.blocks = true
  | .leaveCall _ => rule.calls = true
  | .assignValue _ target _ => rule.blocks = true ∧ target.obeys rule = true
  | .ret => rule.blocks = true ∧ rule.returns = true
  | .loopCondition condition body | .loopBody condition body =>
      condition.obeys rule = true ∧ body.obeys rule = true
  | .stmts rest tail =>
      rule.blocks = true ∧ (∀ one ∈ rest, one.obeys rule = true) ∧
        ∀ one ∈ tail, one.obeys rule = true
  | .unary _ _ | .truth | .right _ _ _ | .borrowTemporary _ | .boxNew | .derefValue _
  | .readPlace _ | .borrowPlace _ _ | .derefPlace _ => True

/-- Each frame is in order, given the frames below it. -/
def Stack.Each (ok : ∀ {first next : Mode}, Frame first next → Stack next → Prop) :
    {mode : Mode} → Stack mode → Prop
  | _, .nil => True
  | _, .cons frame rest => ok frame rest ∧ rest.Each ok

/-! ### Guards -/

/-- The frames that hold values while a part inside of them is evaluated. -/
def Frame.holdsValues {first next : Mode} : Frame first next → Bool
  | .right _ _ _ | .arg _ _ _ _ | .shownValue _ _ _ _ | .shownPlace _ _ _ _
  | .assignPlace _ _ _ _ => true
  | _ => false

/-- A rule that some frames ask the code inside of them to obey.  Frames are quiet when none of them
asks. -/
structure Guard (rule : CodeRule) where
  /-- What is known of the functions that are called. -/
  callee : FunctionDef → Prop := fun _ => True
  quiet : {mode : Mode} → Stack mode → Prop
  asks : {first next : Mode} → Frame first next → Prop
  holds : ∀ {first next : Mode} {frame : Frame first next}, asks frame → frame.holdsValues = true
  push : ∀ {first next : Mode} {frame : Frame first next} {k : Stack next},
    quiet k → ¬ asks frame → quiet (.cons frame k)
  pop : ∀ {first next : Mode} {frame : Frame first next} {k : Stack next},
    frame.isCall = false → quiet (.cons frame k) → quiet k

namespace Guard

variable {rule : CodeRule} {guard : Guard rule}

/-- Code either obeys the rule, or nothing asks it to. -/
structure Holds (guard : Guard rule) {mode : Mode} (control : Control mode) (k : Stack mode) :
    Prop where
  control : control.Obeys rule guard.callee ∨ guard.quiet k
  frames : k.Each fun frame rest => frame.Obeys rule ∨ guard.quiet rest

/-- The next step does not lead to code that breaks the rule inside of a frame that asks for it. -/
def Heeds (guard : Guard rule) (ctx : Context) {mode : Mode} (control : Control mode)
    (k : Stack mode) : Prop :=
  match control, k with
  | .args _ func _ [], _ => ∀ f, ctx.function? func = some f → guard.callee f
  | .args loc func values (arg :: rest), _ =>
      guard.asks (.arg loc func values rest : Frame .value .value) → arg.obeys rule = true
  | .shown template values (arg :: rest), _ =>
      guard.asks (.shownValue template values arg rest : Frame .value .value) ∨
        guard.asks (.shownPlace template values arg rest : Frame .place .value) →
      arg.obeys rule = true
  | .enter f _, k => f.body.obeys rule = true ∨ guard.quiet (.cons (.leaveCall f) k)
  | .value v, .cons (.left loc op right) _ =>
      guard.asks (.right loc op v : Frame .value .value) → right.obeys rule = true
  | .value v, .cons (.assignValue loc target op) _ =>
      guard.asks (.assignPlace loc target op v : Frame .place .done) → target.obeys rule = true
  | _, _ => True

namespace Holds

variable {mode next last : Mode} {control : Control mode} {k : Stack mode}

theorem stay {target : Control mode} (holds : guard.Holds control k)
    (flows : control.Obeys rule guard.callee → target.Obeys rule guard.callee) : guard.Holds target k :=
  ⟨holds.control.imp_left flows, holds.frames⟩

theorem push {frame : Frame next mode} {target : Control next} (holds : guard.Holds control k)
    (flows : control.Obeys rule guard.callee → target.Obeys rule guard.callee ∧ frame.Obeys rule)
    (heeds : guard.asks frame → target.Obeys rule guard.callee) : guard.Holds target (.cons frame k) := by
  refine ⟨?_, holds.control.imp_left fun obeys => (flows obeys).2, holds.frames⟩
  rcases holds.control with obeys | quiet
  · exact Or.inl (flows obeys).1
  · by_cases asks : guard.asks frame
    · exact Or.inl (heeds asks)
    · exact Or.inr (guard.push quiet asks)

theorem pop {frame : Frame mode next} {rest : Stack next} {target : Control next}
    (holds : guard.Holds control (.cons frame rest))
    (flows : frame.Obeys rule → target.Obeys rule guard.callee) : guard.Holds target rest :=
  ⟨holds.frames.1.imp_left flows, holds.frames.2⟩

theorem swap {frame : Frame mode next} {rest : Stack next} {other : Frame last next}
    {target : Control last} (holds : guard.Holds control (.cons frame rest))
    (flows : frame.Obeys rule → target.Obeys rule guard.callee ∧ other.Obeys rule)
    (heeds : guard.asks other → target.Obeys rule guard.callee) : guard.Holds target (.cons other rest) := by
  refine ⟨?_, holds.frames.1.imp_left fun obeys => (flows obeys).2, holds.frames.2⟩
  rcases holds.frames.1 with obeys | quiet
  · exact Or.inl (flows obeys).1
  · by_cases asks : guard.asks other
    · exact Or.inl (heeds asks)
    · exact Or.inr (guard.push quiet asks)

end Holds

end Guard

/-- A transition leads to a machine that is guarded. -/
def Transition.Guards {rule : CodeRule} (guard : Guard rule) (t : Transition) (s : State) : Prop :=
  Meets t.action s (fun control _ => guard.Holds control t.stack)
    (fun interrupt _ => guard.Holds (.interrupted interrupt : Control t.mode) t.stack)

section Steps

open Ownership

variable {rule : CodeRule} {guard : Guard rule} {mode next : Mode} {s after : State}
variable {ctx : Context}

theorem Frame.asks_elim {first next : Mode} {frame : Frame first next} {P : Prop}
    (plain : frame.holdsValues = false) (asks : guard.asks frame) : P := by
  rw [guard.holds asks] at plain
  contradiction

/-! ### The first steps into expressions, places and statements -/

theorem enterExpr_guards {expr : Expr} {k : Stack .value}
    (holds : guard.Holds (.expr expr) k) : (enterExpr expr k).Guards guard s := by
  cases expr with
  | literal | ofStmt | ofBlock => exact holds.stay fun _ => trivial
  | call loc func args =>
      refine holds.stay fun obeys => ?_
      simp only [Control.Obeys, Expr.obeys, Bool.and_eq_true, Expr.allObey_iff] at obeys
      exact ⟨obeys.1.1, ⟨[], rfl, obeys.1.2⟩, obeys.2⟩
  | macroCall loc callee template args =>
      refine holds.stay fun obeys => ?_
      simp only [Control.Obeys, Expr.obeys, Bool.and_eq_true, Expr.allObey_iff] at obeys
      exact ⟨obeys.1.1, by simp, obeys.1.2, obeys.2⟩
  | block loc body => exact holds.stay fun obeys => obeys
  | ifElse loc condition thenBlock elseBlock =>
      refine holds.push (fun obeys => ?_) (Frame.asks_elim rfl)
      simp only [Control.Obeys, Expr.obeys, Bool.and_eq_true, Block.ifAnyObeys_iff] at obeys
      exact ⟨obeys.1.1, obeys.1.2, obeys.2⟩
  | binary loc op left right =>
      have parts : Control.Obeys rule guard.callee (.expr (.binary loc op left right)) →
          left.obeys rule = true ∧ right.obeys rule = true := by
        simp [Control.Obeys, Expr.obeys]
      cases op with
      | _ => exact holds.push parts (Frame.asks_elim rfl)
  | borrow loc operand isMut =>
      have part : Control.Obeys rule guard.callee (.expr (.borrow loc operand isMut)) →
          operand.obeys rule = true := by
        simp [Control.Obeys, Expr.obeys]
      simp only [enterExpr]
      split
      · exact holds.push (fun obeys => ⟨part obeys, trivial⟩) (Frame.asks_elim rfl)
      · exact holds.push (fun obeys => ⟨part obeys, trivial⟩) (Frame.asks_elim rfl)
  | name => exact holds.push (fun obeys => ⟨obeys, trivial⟩) (Frame.asks_elim rfl)
  | deref => exact holds.push (fun obeys => ⟨obeys, trivial⟩) (Frame.asks_elim rfl)
  | unary | boxNew =>
      refine holds.push (fun obeys => ⟨?_, trivial⟩) (Frame.asks_elim rfl)
      simpa [Control.Obeys, Expr.obeys] using obeys

theorem enterPlace_guards {expr : Expr} {k : Stack .place}
    (holds : guard.Holds (.place expr) k) : (enterPlace expr k).Guards guard s := by
  fun_cases enterPlace expr k with
  | case1 loc ident =>
      simp only [Transition.Guards, lookup, meets_bind, meets_get]
      split
      · exact holds.stay fun _ => trivial
      · exact holds.stay fun _ => trivial
  | case2 => exact holds.stay fun obeys => by simpa [Control.Obeys, Expr.obeys] using obeys
  | case6 => exact holds.stay fun _ => trivial
  | _ =>
      refine holds.push (fun obeys => ?_) (Frame.asks_elim rfl)
      simpa [Control.Obeys, Frame.Obeys, Expr.obeys] using obeys

theorem enterStmt_guards {stmt : Stmt} {k : Stack .done} (isOpen : Open s.shape)
    (holds : guard.Holds (.stmt stmt) k) : (enterStmt stmt k).Guards guard s := by
  fun_cases enterStmt stmt k with
  | case1 loc ident =>
      simp only [Transition.Guards, meets_bind, meets_pure]
      apply Meets.uncut (bind_effect ident .unit false isOpen)
      exact fun _ _ _ => holds.stay fun _ => trivial
  | case4 =>
      refine holds.stay fun obeys => ?_
      simp only [Control.Obeys, Stmt.obeys, Bool.and_eq_true] at obeys
      exact obeys.2.1
  | case6 =>
      refine holds.stay fun obeys => ?_
      simpa [Control.Obeys, Stmt.obeys] using obeys.2
  | case8 | case9 => exact holds.stay fun _ => trivial
  | _ =>
      refine holds.push (fun obeys => ?_) (Frame.asks_elim rfl)
      simp only [Control.Obeys, Stmt.obeys, Bool.and_eq_true, Expr.ifAnyObeys_iff] at obeys
      simp_all [Control.Obeys, Frame.Obeys]

/-! ### Steps of calls and macros -/

theorem applyCall_guards {loc : Option Position} {func : String} {values : List Value}
    {k : Stack .value} (holds : guard.Holds (.args loc func values []) k)
    (heeds : guard.Heeds ctx (.args loc func values []) k) :
    (applyCall ctx loc func values k).Guards guard s := by
  fun_cases applyCall ctx loc func values k with
  | case1 =>
      rename_i f known
      exact holds.stay fun obeys => ⟨obeys.1, heeds f known⟩
  | case3 => exact holds.stay fun obeys => obeys.1
  | case2 | case4 => exact holds.stay fun _ => trivial

theorem enter_guards {f : FunctionDef} {values : List Value} {k : Stack .value}
    (sound : Sound (.enter f values) k s) (holds : guard.Holds (.enter f values) k)
    (heeds : guard.Heeds ctx (.enter f values) k) :
    Transition.Guards guard ⟨.cons (.leaveCall f) k, do
      bindArgs (f.params.zip values)
      return .block f.body⟩ s := by
  obtain ⟨rest, shape, -⟩ := sound.fits
  have owned : Owned s (boxes k.values ++ boxes ((f.params.zip values).map (·.2))) := by
    refine sound.owned.weaken (List.Sublist.subperm ?_)
    rw [boxes_append]
    exact ((bound_sublist f.params values).filterMap Value.box?).append_left (boxes k.values)
  simp only [Transition.Guards, meets_bind, meets_pure]
  apply Meets.uncut (bindArgs_meets owned ⟨0, rest, shape⟩)
  exact fun _ _ _ => ⟨heeds, holds.control.imp_left fun obeys => obeys.1, holds.frames⟩

theorem print_guards {template : String} {flight : List Value} {texts : List String}
    {k : Stack .value} (sound : Sound (.follow template flight texts []) k s)
    (holds : guard.Holds (.follow template flight texts []) k) :
    Transition.Guards guard ⟨k, print template flight texts⟩ s := by
  simp only [Transition.Guards, print, meets_bind, format]
  split
  · exact holds.stay fun _ => trivial
  · rename_i pieces split
    simp only [meets_pure, emit, meets_modify]
    let shown : State := { s with outputs := Template.fill pieces texts :: s.outputs }
    have forest : Forest shown.heap.lookup (boxes flight ++ []) := by
      refine sound.owned.forest.weaken (List.Sublist.subperm ?_)
      rw [boxes_append, List.append_nil]
      exact (List.sublist_append_right _ _).trans (List.sublist_append_right _ _)
    exact Meets.uncut (dropValues_meets forest) fun _ _ _ => holds.stay fun _ => trivial

theorem followFirst_guards {template : String} {owned : List Value} {texts : List String}
    {arg : Expr} {value : Value} {rest : List (Expr × Value)} {k : Stack .value}
    (sound : Sound (.follow template owned texts ((arg, value) :: rest)) k s)
    (holds : guard.Holds (.follow template owned texts ((arg, value) :: rest)) k) :
    Transition.Guards guard ⟨k, followFirst ctx template owned texts arg value rest⟩ s := by
  simp only [Transition.Guards, followFirst, meets_bind]
  refine (follow_meets ctx arg value sound.owned).mono ?_ ?_
  · intro inner _ _
    cases inner with
    | none => exact holds.stay fun obeys => obeys
    | some inner => exact holds.stay fun obeys => obeys
  · intro interrupt _ broken
    obtain ⟨fault, rfl, -⟩ := broken.fault
    exact holds.stay fun _ => trivial

theorem displayStep_guards {value : Value} {k : Stack .value}
    (holds : guard.Holds (.display value) k) :
    Transition.Guards guard ⟨k, displayStep value⟩ s := by
  unfold Transition.Guards displayStep
  split
  · simp only [meets_bind, meets_get]
    cases s.heap.load _ with
    | error fault => exact holds.stay fun _ => trivial
    | ok inner => exact holds.stay fun obeys => obeys
  · exact holds.stay fun _ => trivial

/-! ### Steps after an outcome -/

theorem resumeValue_guards {v : Value} {frame : Frame .value next} {k : Stack next}
    (sound : Sound (.value v) (.cons frame k) s) (holds : guard.Holds (.value v) (.cons frame k))
    (heeds : guard.Heeds ctx (.value v) (.cons frame k)) :
    (resumeValue ctx v frame k).Guards guard s := by
  have leads : ∀ {target : Control next}, target.Obeys rule guard.callee → guard.Holds target k :=
    fun obeys => holds.pop fun _ => obeys
  have failed : ∀ {mid : State} {interrupt : Interrupt} {after : State},
      Declined mid interrupt after → guard.Holds (.interrupted interrupt) k := by
    intro mid interrupt after declined
    obtain ⟨⟨fault, rfl, -⟩, -⟩ := declined
    exact leads trivial
  obtain ⟨below, under, -⟩ := sound.fits
  cases frame with
  | unary loc op =>
      simp only [Transition.Guards, resumeValue, meets_bind, meets_pure]
      refine (unary_effect ctx loc op v s).mono ?_ fun _ _ declined => failed declined
      exact fun _ _ _ => leads trivial
  | right loc op first =>
      simp only [Transition.Guards, resumeValue, meets_bind, meets_pure]
      refine (binary_effect ctx loc op first v s).mono ?_ fun _ _ declined => failed declined
      exact fun _ _ _ => leads trivial
  | logic isAnd operand =>
      simp only [resumeValue]
      split
      · exact holds.swap (fun obeys => ⟨obeys, trivial⟩) (Frame.asks_elim rfl)
      · exact leads trivial
  | truth => exact leads trivial
  | left loc op operand => exact holds.swap (fun obeys => ⟨obeys, trivial⟩) heeds
  | borrowTemporary isMut =>
      simp only [Transition.Guards, resumeValue, meets_bind, meets_pure]
      apply Meets.uncut (materialize_effect v under.1)
      intro addr mid _
      exact Meets.uncut (pushTag_effect addr isMut mid) fun _ _ _ => leads trivial
  | boxNew => exact leads trivial
  | arg loc func values rest =>
      refine holds.pop fun obeys => ?_
      obtain ⟨calls, before, restObeys⟩ := obeys
      exact ⟨calls, by simpa using before, restObeys⟩
  | shownValue template values last rest =>
      refine holds.pop fun obeys => ?_
      obtain ⟨macros, isValue, before, allowed, restObeys⟩ := obeys
      refine ⟨macros, ?_, by simpa using allowed, restObeys⟩
      simpa [or_imp, forall_and, isValue] using before
  | branch thenBlock elseBlock =>
      simp only [resumeValue]
      split
      · exact holds.pop fun obeys => obeys.1
      · cases elseBlock with
        | none => exact leads trivial
        | some body => exact holds.pop fun obeys => obeys.2 body rfl
  | leaveScope =>
      obtain ⟨count, rest, shape, -⟩ := under
      simp only [Transition.Guards, resumeValue, meets_bind, meets_pure]
      exact Meets.uncut (popScope_meets sound.owned shape) fun _ _ _ => leads trivial
  | leaveCall f =>
      simp only [Transition.Guards, resumeValue, meets_bind, meets_pure]
      exact Meets.uncut (popFrame_meets sound.owned under) fun _ _ _ => leads trivial
  | derefValue operand =>
      have finish : ∀ mid, Meets (do return Control.found (← pointee none v operand)) mid
          (fun control _ => guard.Holds control k)
          (fun interrupt _ => guard.Holds (.interrupted interrupt : Control .place) k) := by
        intro mid
        simp only [meets_bind, meets_pure]
        refine (pointee_effect none v operand mid).mono ?_ fun _ _ declined => failed declined
        exact fun _ _ _ => leads trivial
      cases v with
      | box b =>
          simp only [Transition.Guards, resumeValue]
          rw [meets_bind]
          exact Meets.uncut (materialize_effect _ under.1) fun _ mid _ => finish mid
      | _ => exact finish s
  | letVar ident =>
      simp only [Transition.Guards, resumeValue, meets_bind, meets_pure]
      exact Meets.uncut (bind_effect ident v true under.1) fun _ _ _ => leads trivial
  | assignValue loc target op => exact holds.swap (fun obeys => ⟨obeys.2, obeys.1⟩) heeds
  | ret => exact holds.pop fun obeys => obeys.2
  | exprStmt =>
      have forest : Forest s.heap.lookup (v.box?.toList ++ []) := by
        refine sound.owned.forest.weaken (List.Sublist.subperm ?_)
        rw [List.append_nil, ← boxes_singleton]
        simp only [Stack.values, Frame.values, Control.values, boxes_append]
        exact (List.sublist_append_right _ _).trans (List.sublist_append_right _ _)
      simp only [Transition.Guards, resumeValue, meets_bind, meets_pure]
      exact Meets.uncut (dropValue_meets forest) fun _ _ _ => leads trivial
  | loopCondition condition body =>
      simp only [resumeValue]
      split
      · exact holds.swap (fun obeys => ⟨obeys.2, obeys⟩) (Frame.asks_elim rfl)
      · exact leads trivial
  | loopBody condition body => exact holds.pop fun obeys => obeys

theorem resumePlace_guards {l : Location} {frame : Frame .place next} {k : Stack next}
    (sound : Sound (.found l) (.cons frame k) s) (holds : guard.Holds (.found l) (.cons frame k)) :
    (resumePlace ctx l frame k).Guards guard s := by
  have leads : ∀ {target : Control next}, target.Obeys rule guard.callee → guard.Holds target k :=
    fun obeys => holds.pop fun _ => obeys
  have failed : ∀ {mid : State} {interrupt : Interrupt} {after : State},
      Declined mid interrupt after → guard.Holds (.interrupted interrupt) k := by
    intro mid interrupt after declined
    obtain ⟨⟨fault, rfl, -⟩, -⟩ := declined
    exact leads trivial
  have reached : Reached s l := sound.holds
  cases frame with
  | readPlace expr =>
      simp only [Transition.Guards, resumePlace, meets_bind, meets_pure]
      refine (read_effect ctx expr sound.owned reached).mono ?_ fun _ _ declined => failed declined
      exact fun _ _ _ => leads trivial
  | borrowPlace operand isMut =>
      simp only [Transition.Guards, resumePlace, meets_bind, meets_pure]
      refine (access_effect ctx l operand _ _ s).mono ?_ fun _ _ declined => failed declined
      intro _ mid _
      exact Meets.uncut (pushTag_effect l.addr isMut mid) fun _ _ _ => leads trivial
  | shownPlace template values last rest =>
      simp only [Transition.Guards, resumePlace, meets_bind, meets_pure]
      refine (load_effect ctx last sound.owned reached).mono ?_ fun _ _ declined => failed declined
      intro value _ _
      refine holds.pop fun obeys => ?_
      obtain ⟨macros, isPlace, before, allowed, restObeys⟩ := obeys
      refine ⟨macros, ?_, by simpa using allowed, restObeys⟩
      simpa [or_imp, forall_and, isPlace] using before
  | derefPlace operand =>
      simp only [Transition.Guards, resumePlace, meets_bind, meets_pure]
      refine (load_effect ctx operand sound.owned reached).mono ?_ fun _ _ declined =>
        failed declined
      intro pointer mid _
      refine (pointee_effect (some l) pointer operand mid).mono ?_ fun _ _ declined =>
        failed declined
      exact fun _ _ _ => leads trivial
  | assignPlace loc target op value =>
      cases op with
      | some op =>
          simp only [Transition.Guards, resumePlace, meets_bind, meets_pure]
          refine (combine_effect ctx loc target op value sound.owned reached).mono ?_
            fun _ _ declined => failed declined
          exact fun _ _ _ => leads trivial
      | none =>
          simp only [Transition.Guards, resumePlace, meets_bind, meets_pure]
          refine (assign_effect ctx target value sound.owned reached).mono ?_
            fun _ _ declined => failed declined
          exact fun _ _ _ => leads trivial

theorem unwind_guards {interrupt : Interrupt} {frame : Frame mode next} {k : Stack next}
    (sound : Sound (.interrupted interrupt) (.cons frame k) s)
    (holds : guard.Holds (.interrupted interrupt) (.cons frame k)) :
    (unwind interrupt frame k).Guards guard s := by
  have past : frame.isCall = false → guard.Holds (.interrupted interrupt) k := by
    intro inside
    refine ⟨?_, holds.frames.2⟩
    cases interrupt with
    | returned v => exact holds.control.imp_right (guard.pop inside)
    | failed fault => exact Or.inl trivial
  obtain ⟨below, under, -⟩ := sound.fits
  cases frame with
  | leaveScope =>
      obtain ⟨count, rest, shape, -⟩ := under
      simp only [Transition.Guards, unwind, meets_bind, meets_pure]
      exact Meets.uncut (popScope_meets sound.owned shape) fun _ _ _ => past rfl
  | leaveCall f =>
      simp only [Transition.Guards, unwind, meets_bind]
      apply Meets.uncut (popFrame_meets sound.owned under)
      intro _ _ _
      cases interrupt with
      | returned v => exact holds.pop fun _ => trivial
      | failed fault => exact holds.pop fun _ => trivial
  | _ => exact past rfl

/-! ### All steps -/

/-- What heeds the guard keeps it. -/
theorem advance_guards {control : Control mode} {k : Stack mode} {t : Transition}
    (sound : Sound control k s) (holds : guard.Holds control k) (heeds : guard.Heeds ctx control k)
    (advanced : advance ctx control k = some t) : t.Guards guard s := by
  cases control with
  | expr e =>
      obtain rfl := Option.some.inj advanced
      exact enterExpr_guards holds
  | block body =>
      obtain rfl := Option.some.inj advanced
      refine holds.push (fun obeys => ?_) (Frame.asks_elim rfl)
      have parts := (Block.obeys_iff body).mp obeys
      exact ⟨parts, parts.1⟩
  | stmts rest tail =>
      cases rest with
      | nil =>
          cases tail with
          | none =>
              obtain rfl := Option.some.inj advanced
              exact holds.stay fun _ => trivial
          | some tail =>
              obtain rfl := Option.some.inj advanced
              exact holds.stay fun obeys => obeys.2.2 tail rfl
      | cons stmt rest =>
          obtain rfl := Option.some.inj advanced
          refine holds.push (fun obeys => ?_) (Frame.asks_elim rfl)
          obtain ⟨blocks, restObeys, tailObeys⟩ := obeys
          have both := List.forall_mem_cons.mp restObeys
          exact ⟨⟨blocks, both.1⟩, blocks, both.2, tailObeys⟩
  | args loc func values rest =>
      cases rest with
      | nil =>
          obtain rfl := Option.some.inj advanced
          exact applyCall_guards holds heeds
      | cons first rest =>
          obtain rfl := Option.some.inj advanced
          refine holds.push (fun obeys => ?_) heeds
          obtain ⟨calls, ⟨before, length, allowed⟩, restObeys⟩ := obeys
          have both := List.forall_mem_cons.mp restObeys
          rw [argsAllowed, Bool.and_eq_true] at allowed
          exact ⟨both.1, calls, ⟨before ++ [first], by simp [length], allowed.2⟩, both.2⟩
  | call f values loc =>
      obtain rfl := Option.some.inj advanced
      simp only [Transition.Guards, meets_bind, meets_pure]
      refine (pushFrame_meets ctx f loc sound.owned).mono ?_ ?_
      · exact fun _ _ _ => holds.stay fun obeys => obeys
      · intro interrupt _ broken
        obtain ⟨fault, rfl, -⟩ := broken.fault
        exact holds.stay fun _ => trivial
  | enter f values =>
      obtain rfl := Option.some.inj advanced
      exact enter_guards sound holds heeds
  | shown template values rest =>
      cases rest with
      | nil =>
          obtain rfl := Option.some.inj advanced
          exact holds.stay fun obeys => obeys.1
      | cons first rest =>
          obtain rfl := Option.some.inj advanced
          have parts : Control.Obeys rule guard.callee (.shown template values (first :: rest)) →
              rule.macros = true ∧ (∀ one ∈ values, one.owned = !one.arg.isPlace) ∧
                argsAllowed rule.macroArg (values.map (·.arg) ++ [first]) rest = true ∧
                first.obeys rule = true ∧ ∀ one ∈ rest, one.obeys rule = true := by
            intro obeys
            obtain ⟨macros, before, allowed, restObeys⟩ := obeys
            rw [argsAllowed, Bool.and_eq_true] at allowed
            exact ⟨macros, before, allowed.2, List.forall_mem_cons.mp restObeys⟩
          split
          · rename_i isPlace
            refine holds.push (fun obeys => ?_) fun asks => heeds (Or.inr asks)
            obtain ⟨macros, before, allowed, firstObeys, restObeys⟩ := parts obeys
            exact ⟨firstObeys, macros, isPlace, before, allowed, restObeys⟩
          · rename_i isValue
            refine holds.push (fun obeys => ?_) fun asks => heeds (Or.inl asks)
            obtain ⟨macros, before, allowed, firstObeys, restObeys⟩ := parts obeys
            exact ⟨firstObeys, macros, Bool.eq_false_iff.mpr isValue, before, allowed, restObeys⟩
  | follow template flight texts rest =>
      cases rest with
      | nil =>
          obtain rfl := Option.some.inj advanced
          exact print_guards sound holds
      | cons first rest =>
          obtain rfl := Option.some.inj advanced
          exact followFirst_guards sound holds
  | display value =>
      obtain rfl := Option.some.inj advanced
      exact displayStep_guards holds
  | value v =>
      cases k with
      | nil => simp [advance] at advanced
      | cons frame k =>
          obtain rfl := Option.some.inj advanced
          exact resumeValue_guards sound holds heeds
  | place e =>
      obtain rfl := Option.some.inj advanced
      exact enterPlace_guards holds
  | found l =>
      cases k with
      | cons frame k =>
          obtain rfl := Option.some.inj advanced
          exact resumePlace_guards sound holds
  | stmt stmt =>
      obtain rfl := Option.some.inj advanced
      exact enterStmt_guards sound.fits.1 holds
  | loop condition body =>
      obtain rfl := Option.some.inj advanced
      exact holds.push (fun obeys => ⟨obeys.1, obeys⟩) (Frame.asks_elim rfl)
  | finished =>
      cases k with
      | cons frame k =>
          obtain rfl := Option.some.inj advanced
          cases frame with
          | stmts rest tail => exact holds.pop fun obeys => obeys
  | interrupted interrupt =>
      cases k with
      | nil => simp [advance] at advanced
      | cons frame k =>
          obtain rfl := Option.some.inj advanced
          exact unwind_guards sound holds

end Steps

end BorrowLang.Evaluator
