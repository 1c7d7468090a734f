import BorrowLang.Proofs.Leaks.Actions
import BorrowLang.Proofs.Ownership.Machine

/-!
# What a step loses

A box leaves the flight without being dropped or stored in two ways: an operator or a condition uses
up a value that should not have been a box, or an interrupt goes past values that wait for others.
Whatever the program, scopes, flight and the boxes that were lost lead to every cell in use.
-/

set_option autoImplicit false

namespace BorrowLang.Evaluator

open Ownership

/-! ### Values that are lost -/

/-- The values that are at their end when a frame takes a value. -/
def Frame.usesUp {next : Mode} (frame : Frame .value next) (v : Value) : List Value :=
  match frame with
  | .unary _ _ | .logic _ _ | .truth | .branch _ _ | .loopCondition _ _ | .loopBody _ _ => [v]
  | .right _ _ first => [first, v]
  | _ => []

/-- The values in flight that the next step neither keeps nor drops, as long as nothing has failed. -/
def loses (ctx : Context) {mode : Mode} (control : Control mode) (k : Stack mode) : List Value :=
  match control, k with
  | .value v, .cons frame _ => frame.usesUp v
  | .found _, .cons (.assignPlace _ _ (some _) value) _ => [value]
  | .args _ func values [], _ => if (ctx.function? func).isNone then values else []
  | .enter f values, _ => values.drop f.params.length
  | .interrupted (.returned _), .cons frame _ => frame.values
  | _, _ => []

/-- Is a machine on its way out with a fault? -/
def Control.failed {mode : Mode} : Control mode → Bool
  | .interrupted (.failed _) => true
  | _ => false

/-- Scopes, values in flight and boxes that were lost lead to every cell in use, until something
fails. -/
def Full (lost : List Addr) {mode : Mode} (control : Control mode) (k : Stack mode) (s : State) :
    Prop :=
  control.failed = false → s.Covered (boxes (k.values ++ control.values) ++ lost)

/-- A transition leads to a machine with every cell accounted for. -/
def Transition.Fills (lost : List Addr) (t : Transition) (s : State) : Prop :=
  Meets t.action s (fun control after => Full lost control t.stack after)
    (fun interrupt after => Full lost (.interrupted interrupt : Control t.mode) t.stack after)

section Steps

variable {mode next : Mode} {s after : State} {lost : List Addr} {ctx : Context}

theorem Declined.full {k : Stack mode} {interrupt : Interrupt}
    (declined : Declined s interrupt after) : Full lost (.interrupted interrupt) k after := by
  obtain ⟨⟨fault, rfl, -⟩, -⟩ := declined
  intro impossible
  simp [Control.failed] at impossible

theorem fail_fills {k : Stack mode} {fault : Fault} : Transition.Fills lost ⟨k, fail fault⟩ s := by
  intro impossible
  simp [Control.failed] at impossible

theorem goTo_fills {flight : List Addr} {target : Control next} {rest : Stack next}
    (covered : s.Covered flight)
    (part : ∀ box ∈ flight, box ∈ boxes (rest.values ++ target.values) ++ lost) :
    (goTo target rest).Fills lost s :=
  fun _ => covered.more part

theorem full_value {k : Stack .value} {value : Value}
    (covered : after.Covered ((boxes k.values ++ lost) ++ boxes [value])) :
    Full lost (.value value) k after := by
  refine fun _ => covered.more fun box member => ?_
  simp only [Control.values, boxes_append, List.mem_append] at member ⊢
  tauto

theorem full_plain {k : Stack mode} {control : Control mode} (covered : after.Covered (boxes k.values ++ lost)) :
    Full lost control k after := by
  refine fun _ => covered.more fun box member => ?_
  simp only [boxes_append, List.mem_append] at member ⊢
  tauto

/-! ### The first steps into expressions, places and statements -/

theorem enterExpr_fills {expr : Expr} {k : Stack .value}
    (covered : s.Covered (boxes k.values ++ lost)) : (enterExpr expr k).Fills lost s := by
  fun_cases enterExpr expr k with
  | case1 => exact full_plain covered
  | case15 | case16 => exact fail_fills
  | _ =>
      refine goTo_fills covered fun box member => ?_
      simpa [Stack.values, Frame.values, Control.values, ownedValues] using member

theorem enterPlace_fills {expr : Expr} {k : Stack .place}
    (covered : s.Covered (boxes k.values ++ lost)) : (enterPlace expr k).Fills lost s := by
  fun_cases enterPlace expr k with
  | case1 loc ident =>
      simp only [Transition.Fills, lookup, meets_bind, meets_get]
      split
      · exact full_plain covered
      · exact fail_fills
  | case6 => exact fail_fills
  | _ =>
      refine goTo_fills covered fun box member => ?_
      simpa [Stack.values, Frame.values, Control.values] using member

theorem enterStmt_fills {stmt : Stmt} {k : Stack .done}
    (covered : s.Covered (boxes k.values ++ lost)) (accounted : s.heap.Accounted)
    (isOpen : Open s.shape) : (enterStmt stmt k).Fills lost s := by
  fun_cases enterStmt stmt k with
  | case1 loc ident =>
      simp only [Transition.Fills, meets_bind, meets_pure]
      have held : s.Covered ((boxes k.values ++ lost) ++
          (Cell.box? ⟨.unit, if false then .live else .uninit⟩).toList) :=
        covered.more fun box member => List.mem_append_left _ member
      apply Meets.uncut (bind_covers ident held accounted isOpen)
      exact fun _ after coveredAfter => full_plain coveredAfter
  | case4 => exact full_plain covered
  | case8 | case9 => exact fail_fills
  | _ =>
      refine goTo_fills covered fun box member => ?_
      simpa [Stack.values, Frame.values, Control.values] using member

/-! ### Steps of calls and macros -/

theorem applyCall_fills {loc : Option Position} {func : String} {values : List Value}
    {k : Stack .value} (covered : s.Covered (boxes (k.values ++ values) ++ lost)) :
    (applyCall ctx loc func values k).Fills
      (lost ++ boxes (if (ctx.function? func).isNone then values else [])) s := by
  fun_cases applyCall ctx loc func values k with
  | case1 f =>
      rename_i known
      refine goTo_fills covered fun box member => ?_
      simpa [known, Control.values] using member
  | case2 | case4 => exact fail_fills
  | case3 =>
      rename_i unknown _ value rest
      refine goTo_fills covered fun box member => ?_
      simp only [unknown, Option.isNone_none, if_true, Control.values, boxes_append, List.append_nil,
        List.mem_append] at member ⊢
      tauto

/-- The arguments of a call are bound, or there are more of them than parameters. -/
theorem boxes_bound (params : List Param) (values : List Value) :
    ∀ box ∈ boxes values,
      box ∈ boxes ((params.zip values).map (·.2)) ++ boxes (values.drop params.length) := by
  induction params generalizing values with
  | nil => simp
  | cons param params ih =>
      cases values with
      | nil => simp
      | cons value values =>
          intro box member
          have later := ih values box
          simp only [boxes_cons, List.zip_cons_cons, List.map_cons, List.length_cons,
            List.drop_succ_cons, List.mem_append] at member later ⊢
          tauto

theorem enter_fills {f : FunctionDef} {values : List Value} {k : Stack .value}
    (sound : Sound (.enter f values) k s)
    (covered : s.Covered (boxes (k.values ++ values) ++ lost)) :
    Transition.Fills (lost ++ boxes (values.drop f.params.length)) ⟨.cons (.leaveCall f) k, do
      bindArgs (f.params.zip values)
      return .block f.body⟩ s := by
  obtain ⟨rest, shape, -⟩ := sound.fits
  have owned : Owned s (boxes k.values ++ boxes ((f.params.zip values).map (·.2))) := by
    refine sound.owned.weaken (List.Sublist.subperm ?_)
    rw [boxes_append]
    exact ((bound_sublist f.params values).filterMap Value.box?).append_left (boxes k.values)
  have held : s.Covered ((boxes k.values ++ (lost ++ boxes (values.drop f.params.length))) ++
      boxes ((f.params.zip values).map (·.2))) := by
    refine covered.more fun box member => ?_
    have bound := boxes_bound f.params values box
    simp only [boxes_append, List.mem_append] at member bound ⊢
    tauto
  simp only [Transition.Fills, meets_bind, meets_pure]
  apply Meets.uncut (bindArgs_covers owned held ⟨0, rest, shape⟩)
  intro _ after coveredAfter
  exact full_plain (coveredAfter.more (by simp [Stack.values, Frame.values]))

theorem print_fills {template : String} {flight : List Value} {texts : List String}
    {k : Stack .value} (sound : Sound (.follow template flight texts []) k s)
    (covered : s.Covered (boxes (k.values ++ flight) ++ lost)) :
    Transition.Fills lost ⟨k, print template flight texts⟩ s := by
  simp only [Transition.Fills, print, meets_bind, format]
  split
  · exact fail_fills
  · rename_i pieces split
    simp only [meets_pure, emit, meets_modify]
    let shown : State := { s with outputs := Template.fill pieces texts :: s.outputs }
    have forest : Forest shown.heap.lookup
        (boxes flight ++ (shown.scopeCells ++ boxes k.values)) := by
      refine sound.owned.forest.weaken (List.Perm.subperm ?_)
      rw [boxes_append, ← List.append_assoc s.scopeCells]
      exact List.perm_append_comm
    have covers : Covers shown.heap.lookup
        (boxes flight ++ (shown.scopeCells ++ (boxes k.values ++ lost))) := by
      refine Covers.more covered fun root member => ?_
      simp only [boxes_append, List.mem_append] at member ⊢
      tauto
    apply Meets.uncut (dropValues_covers forest covers)
    intro _ after met
    have scopeCells : after.scopeCells = shown.scopeCells := by
      rw [State.scopeCells, State.scopeCells, met.2]
    have coveredAfter : after.Covered (boxes k.values ++ lost) := by
      unfold State.Covered
      rw [scopeCells]
      exact met.1
    exact full_plain coveredAfter

theorem followFirst_fills {template : String} {owned : List Value} {texts : List String}
    {arg : Expr} {value : Value} {rest : List (Expr × Value)} {k : Stack .value}
    (covered : s.Covered (boxes (k.values ++ owned) ++ lost)) :
    Transition.Fills lost ⟨k, followFirst ctx template owned texts arg value rest⟩ s := by
  have keeps : Meets (follow ctx arg value) s
      (fun _ after => after.Covered (boxes (k.values ++ owned) ++ lost))
      (fun interrupt after => Full lost (.interrupted interrupt) k after) := by
    cases value with
    | ref addr isMut tag =>
        simp only [follow, meets_bind, meets_pure]
        refine (load_ends ctx _ arg s).mono ?_ ?_
        · exact fun inner after met => covered.unmoved met.1.unmoved
        · intro interrupt after met
          obtain ⟨-, fault, rfl, -⟩ := met
          intro impossible
          simp [Control.failed] at impossible
    | box addr =>
        simp only [follow, meets_bind, meets_get]
        cases s.heap.load addr with
        | error fault => exact fail_fills
        | ok inner => exact covered
    | _ => exact covered
  simp only [Transition.Fills, followFirst, meets_bind]
  apply Meets.onOk keeps
  intro inner after coveredAfter
  cases inner with
  | none => exact fun _ => coveredAfter
  | some inner => exact fun _ => coveredAfter

theorem displayStep_fills {value : Value} {k : Stack .value}
    (covered : s.Covered (boxes k.values ++ lost)) :
    Transition.Fills lost ⟨k, displayStep value⟩ s := by
  unfold Transition.Fills displayStep
  split
  · simp only [meets_bind, meets_get]
    cases s.heap.load _ with
    | error fault => exact fail_fills
    | ok inner => exact full_plain covered
  · simp only [meets_bind, emit, meets_modify, meets_pure]
    exact full_plain (covered.unmoved ⟨rfl, rfl⟩)

/-! ### Steps after an outcome -/

/-- A result that leaves the cells as they are leads on. -/
theorem result_fills {k : Stack .value} {result : Eval Value}
    (covered : s.Covered (boxes k.values ++ lost))
    (known : Meets result s (fun value after => after = s ∧ value.box? = none) (Declined s)) :
    Transition.Fills lost ⟨k, do return .value (← result)⟩ s := by
  simp only [Transition.Fills, meets_bind, meets_pure]
  refine known.mono ?_ fun _ _ declined => declined.full
  intro value _ met
  obtain ⟨rfl, -⟩ := met
  exact full_plain covered

theorem derefValue_fills {v : Value} {operand : Expr} {k : Stack .place}
    (covered : s.Covered ((boxes k.values ++ lost) ++ boxes [v])) (accounted : s.heap.Accounted)
    (isOpen : Open s.shape) :
    Transition.Fills lost ⟨k, do
      if let .box _ := v then
        let _ ← materialize v
      return .found (← pointee none v operand)⟩ s := by
  have finish : ∀ {mid : State}, mid.Covered (boxes k.values ++ lost) →
      Meets (do return Control.found (← pointee none v operand)) mid
        (fun control after => Full lost control k after)
        (fun interrupt after => Full lost (.interrupted interrupt : Control .place) k after) := by
    intro mid coveredMid
    simp only [meets_bind, meets_pure]
    refine (pointee_effect none v operand mid).mono ?_ fun _ _ declined => declined.full
    rintro l _ rfl
    exact full_plain coveredMid
  cases v with
  | box b =>
      simp only [Transition.Fills]
      rw [meets_bind]
      apply Meets.uncut (materialize_covers covered accounted isOpen)
      exact fun addr mid coveredMid => finish coveredMid
  | _ =>
      refine finish (covered.more fun box member => ?_)
      simpa [boxes_singleton, Value.box?] using member

theorem resumeValue_fills {v : Value} {frame : Frame .value next} {k : Stack next}
    (sound : Sound (.value v) (.cons frame k) s)
    (covered : s.Covered (boxes ((k.values ++ frame.values) ++ [v]) ++ lost)) :
    (resumeValue ctx v frame k).Fills (lost ++ boxes (frame.usesUp v)) s := by
  have accounted := sound.owned.accounted
  obtain ⟨below, under, -⟩ := sound.fits
  have held : ∀ {others : List Addr}, frame.values = [] → frame.usesUp v = [] →
      others = lost ++ boxes (frame.usesUp v) →
      s.Covered ((boxes k.values ++ others) ++ boxes [v]) := by
    rintro others values kept rfl
    refine covered.more fun box member => ?_
    simp only [values, kept, boxes_append, boxes_nil, List.append_nil, List.mem_append] at member ⊢
    tauto
  have plain : (∀ box ∈ boxes frame.values, box ∈ boxes (frame.usesUp v)) →
      (∀ box ∈ boxes [v], box ∈ boxes (frame.usesUp v)) →
      s.Covered (boxes k.values ++ (lost ++ boxes (frame.usesUp v))) := by
    intro ofFrame ofValue
    refine covered.more fun box member => ?_
    have first := ofFrame box
    have second := ofValue box
    simp only [boxes_append, List.mem_append] at member first second ⊢
    tauto
  cases frame with
  | unary loc op =>
      exact result_fills (plain (by simp [Frame.values]) (by simp [Frame.usesUp]))
        (unary_effect ctx loc op v s)
  | right loc op first =>
      have used : s.Covered (boxes k.values ++ (lost ++ boxes [first, v])) := by
        refine plain ?_ ?_ <;> intro box member <;>
          simp only [Frame.values, Frame.usesUp, boxes_cons, boxes_nil, List.append_nil,
            List.mem_append] at member ⊢ <;> tauto
      exact result_fills used (binary_effect ctx loc op first v s)
  | logic isAnd right =>
      have used := plain (by simp [Frame.values]) (by simp [Frame.usesUp])
      simp only [resumeValue]
      split
      · exact goTo_fills used (by simp [Stack.values, Frame.values, Control.values])
      · exact full_plain used
  | truth => exact full_plain (plain (by simp [Frame.values]) (by simp [Frame.usesUp]))
  | branch thenBlock elseBlock =>
      have used := plain (by simp [Frame.values]) (by simp [Frame.usesUp])
      simp only [resumeValue]
      split
      · exact full_plain used
      · cases elseBlock with
        | none => exact full_plain used
        | some elseBlock => exact full_plain used
  | loopCondition condition body =>
      have used := plain (by simp [Frame.values]) (by simp [Frame.usesUp])
      simp only [resumeValue]
      split
      · exact goTo_fills used (by simp [Stack.values, Frame.values, Control.values])
      · exact full_plain used
  | loopBody condition body =>
      exact full_plain (plain (by simp [Frame.values]) (by simp [Frame.usesUp]))
  | left loc op right =>
      refine goTo_fills covered fun box member => ?_
      simpa [Stack.values, Frame.values, Control.values, Frame.usesUp] using member
  | assignValue loc target op =>
      refine goTo_fills covered fun box member => ?_
      simpa [Stack.values, Frame.values, Control.values, Frame.usesUp] using member
  | arg loc func values rest =>
      refine goTo_fills covered fun box member => ?_
      simpa [Stack.values, Frame.values, Control.values, Frame.usesUp] using member
  | shownValue template values arg rest =>
      refine goTo_fills covered fun box member => ?_
      simpa [Stack.values, Frame.values, Control.values, Frame.usesUp, addShown, ownedValues]
        using member
  | borrowTemporary isMut =>
      simp only [Transition.Fills, resumeValue, meets_bind, meets_pure]
      apply Meets.uncut (materialize_covers (held rfl rfl rfl) accounted under.1)
      intro addr mid coveredMid
      apply Meets.uncut (pushTag_effect addr isMut mid)
      exact fun value after met => full_plain (coveredMid.unmoved met.1)
  | boxNew =>
      simp only [Transition.Fills, resumeValue, meets_bind, meets_pure]
      apply Meets.uncut (boxNew_covers (held rfl rfl rfl) accounted)
      exact fun addr after coveredAfter => full_value coveredAfter
  | derefValue operand => exact derefValue_fills (held rfl rfl rfl) accounted under.1
  | letVar ident =>
      have one := held rfl rfl rfl
      rw [boxes_singleton] at one
      simp only [Transition.Fills, resumeValue, meets_bind, meets_pure]
      apply Meets.uncut (bind_covers ident one accounted under.1)
      exact fun _ after coveredAfter => full_plain coveredAfter
  | ret =>
      refine fun _ => (held rfl rfl rfl).more fun box member => ?_
      simp only [Control.values, Interrupt.values, boxes_append, List.mem_append] at member ⊢
      tauto
  | exprStmt =>
      have forest : Forest s.heap.lookup (v.box?.toList ++ (s.scopeCells ++ boxes k.values)) := by
        refine sound.owned.forest.weaken (List.Perm.subperm ?_)
        simp only [Stack.values, Frame.values, Control.values, List.append_nil, boxes_append,
          boxes_singleton]
        rw [← List.append_assoc s.scopeCells]
        exact List.perm_append_comm
      have covers : Covers s.heap.lookup
          (v.box?.toList ++ (s.scopeCells ++ (boxes k.values ++ (lost ++ boxes [])))) := by
        rw [← boxes_singleton]
        exact (held rfl rfl rfl).swap
      simp only [Transition.Fills, resumeValue, meets_bind, meets_pure]
      apply Meets.uncut (dropValue_covers forest covers)
      intro _ after met
      obtain ⟨-, coversAfter, frames⟩ := met
      have scopeCells : after.scopeCells = s.scopeCells := by
        rw [State.scopeCells, State.scopeCells, frames]
      rw [← scopeCells] at coversAfter
      exact full_plain coversAfter
  | leaveScope =>
      obtain ⟨count, rest, shape, -⟩ := under
      simp only [Transition.Fills, resumeValue, meets_bind, meets_pure]
      apply Meets.uncut (popScope_covers sound.owned (held rfl rfl rfl) ⟨count, rest, shape⟩)
      exact fun _ after coveredAfter => full_value coveredAfter
  | leaveCall f =>
      simp only [Transition.Fills, resumeValue, meets_bind, meets_pure]
      apply Meets.uncut (popFrame_covers sound.owned (held rfl rfl rfl) under)
      exact fun _ after coveredAfter => full_value coveredAfter

theorem resumePlace_fills {l : Location} {frame : Frame .place next} {k : Stack next}
    (sound : Sound (.found l) (.cons frame k) s)
    (covered : s.Covered (boxes (k.values ++ frame.values) ++ lost)) :
    (resumePlace ctx l frame k).Fills
      (lost ++ boxes (loses ctx (.found l) (.cons frame k))) s := by
  have reached : Reached s l := sound.holds
  have owned : Owned s (boxes (k.values ++ frame.values)) := by
    simpa [Control.values, Stack.values] using sound.owned
  cases frame with
  | readPlace expr =>
      simp only [Transition.Fills, resumePlace, meets_bind, meets_pure]
      refine (read_effect ctx expr owned reached).mono ?_ fun _ _ declined => declined.full
      intro value after taken
      refine full_value (covered.taken taken |>.more fun box member => ?_)
      simpa [Frame.values, loses] using member
  | borrowPlace operand isMut =>
      simp only [Transition.Fills, resumePlace, meets_bind, meets_pure]
      refine (access_effect ctx l operand _ _ s).mono ?_ fun _ _ declined => declined.full
      intro _ mid met
      apply Meets.uncut (pushTag_effect l.addr isMut mid)
      intro value after pushed
      refine full_plain ((covered.unmoved (met.1.unmoved.trans pushed.1)).more fun box member => ?_)
      simpa [Frame.values, loses] using member
  | shownPlace template values arg rest =>
      simp only [Transition.Fills, resumePlace, meets_bind, meets_pure]
      refine (load_effect ctx arg owned reached).mono ?_ fun _ _ declined => declined.full
      intro value after met
      refine fun _ => (covered.unmoved met.1.unmoved).more fun box member => ?_
      simpa [Frame.values, Control.values, loses, addShown, ownedValues] using member
  | derefPlace operand =>
      simp only [Transition.Fills, resumePlace, meets_bind, meets_pure]
      refine (load_effect ctx operand owned reached).mono ?_ fun _ _ declined => declined.full
      intro pointer mid met
      refine (pointee_effect (some l) pointer operand mid).mono ?_ fun _ _ declined =>
        declined.full
      rintro target _ rfl
      refine full_plain ((covered.unmoved met.1.unmoved).more fun box member => ?_)
      simpa [Frame.values, loses] using member
  | assignPlace loc target op value =>
      cases op with
      | some op =>
          simp only [Transition.Fills, resumePlace, meets_bind, meets_pure]
          refine (combine_effect ctx loc target op value owned reached).mono ?_ fun _ _ declined =>
            declined.full
          intro _ after met
          obtain ⟨result, plain, replaced⟩ := met
          refine full_plain (State.Covered.replaced ?_ replaced)
          rw [boxes_singleton, plain]
          refine covered.more fun box member => ?_
          simp only [Frame.values, loses, boxes_append, Option.toList_none, List.append_nil,
            List.mem_append] at member ⊢
          tauto
      | none =>
          simp only [Transition.Fills, resumePlace, meets_bind, meets_pure]
          refine (assign_effect ctx target value owned reached).mono ?_ fun _ _ declined =>
            declined.full
          intro _ after replaced
          refine full_plain (State.Covered.replaced ?_ replaced)
          refine covered.more fun box member => ?_
          simp only [Frame.values, loses, boxes_append, boxes_nil, List.append_nil,
            List.mem_append] at member ⊢
          tauto

/-- A return loses the values of the frames that it goes past. -/
theorem unwind_fills {v : Value} {frame : Frame mode next} {k : Stack next}
    (sound : Sound (.interrupted (.returned v)) (.cons frame k) s)
    (covered : s.Covered (boxes ((k.values ++ frame.values) ++ [v]) ++ lost)) :
    (unwind (.returned v) frame k).Fills (lost ++ boxes frame.values) s := by
  have past : s.Covered (boxes (k.values ++ [v]) ++ (lost ++ boxes frame.values)) := by
    refine covered.more fun box member => ?_
    simp only [boxes_append, List.mem_append] at member ⊢
    tauto
  obtain ⟨below, under, -⟩ := sound.fits
  cases frame with
  | leaveScope =>
      obtain ⟨count, rest, shape, -⟩ := under
      simp only [Transition.Fills, unwind, meets_bind, meets_pure]
      apply Meets.uncut (popScope_covers sound.owned past ⟨count, rest, shape⟩)
      exact fun _ after coveredAfter _ => coveredAfter
  | leaveCall f =>
      simp only [Transition.Fills, unwind, meets_bind]
      apply Meets.uncut (popFrame_covers sound.owned past under)
      exact fun _ after coveredAfter _ => coveredAfter
  | _ => exact fun _ => past

/-! ### All steps -/

/-- Whatever a step neither keeps nor drops, it loses. -/
theorem advance_fills {control : Control mode} {k : Stack mode} {t : Transition}
    (sound : Sound control k s) (full : Full lost control k s) (works : control.failed = false)
    (advanced : advance ctx control k = some t) :
    t.Fills (lost ++ boxes (loses ctx control k)) s := by
  have covered := full works
  have kept : s.Covered (boxes (k.values ++ control.values) ++
      (lost ++ boxes (loses ctx control k))) := by
    refine covered.more fun box member => ?_
    simp only [List.mem_append] at member ⊢
    tauto
  have plain : control.values = [] →
      s.Covered (boxes k.values ++ (lost ++ boxes (loses ctx control k))) := by
    intro none
    simpa [none] using kept
  cases control with
  | expr e =>
      obtain rfl := Option.some.inj advanced
      exact enterExpr_fills (plain rfl)
  | block body =>
      obtain rfl := Option.some.inj advanced
      obtain ⟨⟨count, rest, shape⟩, -⟩ := sound.fits
      obtain ⟨scope, scopes, frames, framesEq⟩ := Open.frames ⟨count, rest, shape⟩
      simp only [Transition.Fills, meets_bind, meets_pure, pushScope, meets_modify, framesEq]
      refine full_plain ?_
      have scopeCells : State.scopeCells { s with frames := ⟨{} :: scope :: scopes⟩ :: frames } =
          s.scopeCells := by
        simp [State.scopeCells, framesEq]
      unfold State.Covered
      rw [scopeCells]
      exact (plain rfl).more (by simp [Stack.values, Frame.values])
  | stmts rest tail =>
      cases rest with
      | nil => cases tail <;> (obtain rfl := Option.some.inj advanced; exact full_plain (plain rfl))
      | cons stmt rest =>
          obtain rfl := Option.some.inj advanced
          exact goTo_fills (plain rfl) (by simp [Stack.values, Frame.values, Control.values])
  | args loc func values rest =>
      cases rest with
      | nil =>
          obtain rfl := Option.some.inj advanced
          exact applyCall_fills covered
      | cons arg rest =>
          obtain rfl := Option.some.inj advanced
          refine goTo_fills covered fun box member => ?_
          simpa [Stack.values, Frame.values, Control.values, loses] using member
  | call f values loc =>
      obtain rfl := Option.some.inj advanced
      simp only [Transition.Fills, meets_bind, meets_pure, pushFrame, meets_get]
      split
      · exact fail_fills
      · rw [meets_set]
        have scopeCells : State.scopeCells { s with frames := ⟨[default]⟩ :: s.frames } =
            s.scopeCells := by
          simp [State.scopeCells, default]
        intro _
        unfold State.Covered
        rw [scopeCells]
        exact kept
  | enter f values =>
      obtain rfl := Option.some.inj advanced
      exact enter_fills sound covered
  | shown template values rest =>
      cases rest with
      | nil =>
          obtain rfl := Option.some.inj advanced
          exact fun _ => kept
      | cons arg rest =>
          obtain rfl := Option.some.inj advanced
          split <;>
            refine goTo_fills kept fun box member => ?_ <;>
            simpa [Stack.values, Frame.values, Control.values] using member
  | follow template flight texts rest =>
      cases rest with
      | nil =>
          obtain rfl := Option.some.inj advanced
          exact print_fills sound kept
      | cons shown rest =>
          obtain rfl := Option.some.inj advanced
          exact followFirst_fills kept
  | display value =>
      obtain rfl := Option.some.inj advanced
      exact displayStep_fills (plain rfl)
  | value v =>
      cases k with
      | nil => simp [advance] at advanced
      | cons frame k =>
          obtain rfl := Option.some.inj advanced
          exact resumeValue_fills sound covered
  | place e =>
      obtain rfl := Option.some.inj advanced
      exact enterPlace_fills (plain rfl)
  | found l =>
      cases k with
      | cons frame k =>
          obtain rfl := Option.some.inj advanced
          refine resumePlace_fills sound (covered.more fun box member => ?_)
          simpa [Stack.values, Control.values] using member
  | stmt stmt =>
      obtain rfl := Option.some.inj advanced
      exact enterStmt_fills (plain rfl) sound.owned.accounted sound.fits.1
  | loop condition body =>
      obtain rfl := Option.some.inj advanced
      exact goTo_fills (plain rfl) (by simp [Stack.values, Frame.values, Control.values])
  | finished =>
      cases k with
      | cons frame k =>
          obtain rfl := Option.some.inj advanced
          cases frame with
          | stmts rest tail =>
              refine goTo_fills (plain rfl) fun box member => ?_
              simpa [Stack.values, Frame.values, Control.values] using member
  | interrupted interrupt =>
      cases k with
      | nil => simp [advance] at advanced
      | cons frame k =>
          obtain rfl := Option.some.inj advanced
          cases interrupt with
          | returned v => exact unwind_fills sound covered
          | failed fault => simp [Control.failed] at works

end Steps

end BorrowLang.Evaluator
