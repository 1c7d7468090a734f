import BorrowLang.Proofs.Code.Machine
import BorrowLang.Proofs.Numbers.Actions
import BorrowLang.Proofs.Ownership.Run
import Mathlib.Algebra.Group.Int.Defs

/-!
# Runs within 32 bits

A machine whose values and literals fit into 32 bits steps to such a machine; so every integer of a
run of a program that was read from a text fits, at every step, whether the program was checked or
not.  What a run prints are texts of such values.
-/

set_option autoImplicit false

namespace BorrowLang.Evaluator

/-! ### Values of a machine -/

/-- The values that occur in a control, whether it owns them or only looks at them. -/
def Control.occurring {mode : Mode} : Control mode → List Value
  | .args _ _ values _ | .call _ values _ | .enter _ values => values
  | .shown _ values _ => values.map (·.value)
  | .follow _ owned _ rest => owned ++ rest.map (·.2)
  | .display v | .value v | .interrupted (.returned v) => [v]
  | .interrupted (.failed fault) => fault.values
  | _ => []

/-- The values that occur in a frame. -/
def Frame.occurring {first next : Mode} : Frame first next → List Value
  | .right _ _ v | .assignPlace _ _ _ v => [v]
  | .arg _ _ values _ => values
  | .shownValue _ values _ _ | .shownPlace _ values _ _ => values.map (·.value)
  | _ => []

/-- The values that occur in frames. -/
def Stack.occurring {mode : Mode} : Stack mode → List Value
  | .nil => []
  | .cons frame rest => rest.occurring ++ frame.occurring

/-- A value occurs in a machine: in its control or its frames, or in a cell, whatever the state of
the cell is. -/
def Machine.Occurs (m : Machine) (value : Value) : Prop :=
  value ∈ m.stack.occurring ++ m.control.occurring ∨
    ∃ addr state, m.state.heap.cell addr = .ok ⟨value, state⟩

/-- The texts that a control has for the holes of a template. -/
def Control.texts {mode : Mode} : Control mode → List String
  | .follow _ _ texts _ => texts
  | _ => []

/-- The next step prints a text: that of a value that leads on to no other, or that of a template
whose values were all followed to the end. -/
def Control.Prints {mode : Mode} (control : Control mode) (text : String) : Prop :=
  match control with
  | .display v => v.addr? = none ∧ text = v.text
  | .follow template _ texts [] =>
      ∃ pieces, Template.split template = .ok pieces ∧ text = Template.fill pieces texts
  | _ => False

/-! ### Machines within 32 bits -/

/-- A text of a value that fits into 32 bits. -/
def OfBounded (text : String) : Prop := ∃ value : Value, value.Bounded ∧ text = value.text

/-- The values of a control fit into 32 bits, and so do the literals of its code. -/
def Control.Bounded {mode : Mode} : Control mode → Prop
  | .expr e | .place e => e.Bounded
  | .block body => body.Bounded
  | .stmts rest tail => (∀ one ∈ rest, one.Bounded) ∧ ∀ last ∈ tail, last.Bounded
  | .args _ _ values rest => (∀ v ∈ values, v.Bounded) ∧ ∀ arg ∈ rest, arg.Bounded
  | .call f values _ | .enter f values => f.body.Bounded ∧ ∀ v ∈ values, v.Bounded
  | .shown _ values rest =>
      (∀ shown ∈ values, shown.value.Bounded) ∧ ∀ arg ∈ rest, arg.Bounded
  | .follow _ owned texts rest =>
      (∀ v ∈ owned, v.Bounded) ∧ (∀ text ∈ texts, OfBounded text) ∧
        ∀ shown ∈ rest, shown.2.Bounded
  | .display v | .value v => v.Bounded
  | .stmt code => code.Bounded
  | .loop condition body => condition.Bounded ∧ body.Bounded
  | .found _ | .finished => True
  | .interrupted interrupt => interrupt.Bounded

/-- The values of a frame fit into 32 bits, and so do the literals of its code. -/
def Frame.Bounded {first next : Mode} : Frame first next → Prop
  | .logic _ operand | .left _ _ operand => operand.Bounded
  | .right _ _ v | .assignPlace _ _ _ v => v.Bounded
  | .arg _ _ values rest => (∀ v ∈ values, v.Bounded) ∧ ∀ arg ∈ rest, arg.Bounded
  | .shownValue _ values _ rest | .shownPlace _ values _ rest =>
      (∀ shown ∈ values, shown.value.Bounded) ∧ ∀ arg ∈ rest, arg.Bounded
  | .branch thenBlock elseBlock => thenBlock.Bounded ∧ ∀ arm ∈ elseBlock, arm.Bounded
  | .assignValue _ target _ => target.Bounded
  | .loopCondition condition body | .loopBody condition body => condition.Bounded ∧ body.Bounded
  | .stmts rest tail => (∀ one ∈ rest, one.Bounded) ∧ ∀ last ∈ tail, last.Bounded
  | _ => True

/-- The values of frames fit into 32 bits, and so do the literals of their code. -/
def Stack.Bounded {mode : Mode} (k : Stack mode) : Prop := k.Each fun frame _ => frame.Bounded

/-- A transition keeps the integers within 32 bits, and prints no text but those that were told. -/
structure Transition.Bounded (told : String → Prop) (t : Transition) : Prop where
  action : Bounds told t.action Control.Bounded
  stack : t.stack.Bounded

section Occurring

variable {mode : Mode}

theorem Control.Bounded.occurring {control : Control mode} (bounded : control.Bounded) :
    ∀ value ∈ control.occurring, value.Bounded := by
  cases control with
  | args | shown => simpa [Control.occurring] using bounded.1
  | call | enter => exact bounded.2
  | follow template owned texts rest =>
      intro value member
      rcases List.mem_append.mp member with isOwned | isShown
      · exact bounded.1 value isOwned
      · obtain ⟨shown, inRest, rfl⟩ := List.mem_map.mp isShown
        exact bounded.2.2 shown inRest
  | display | value => exact List.forall_mem_singleton.mpr bounded
  | interrupted interrupt =>
      cases interrupt with
      | returned value => exact List.forall_mem_singleton.mpr bounded
      | failed fault => exact bounded
  | _ => nofun

theorem Control.Bounded.texts {control : Control mode} (bounded : control.Bounded) :
    ∀ text ∈ control.texts, OfBounded text := by
  cases control with
  | follow => exact bounded.2.1
  | _ => nofun

theorem Frame.Bounded.occurring {next : Mode} {frame : Frame mode next} (bounded : frame.Bounded) :
    ∀ value ∈ frame.occurring, value.Bounded := by
  cases frame with
  | right | assignPlace => exact List.forall_mem_singleton.mpr bounded
  | arg => exact bounded.1
  | shownValue | shownPlace => simpa [Frame.occurring] using bounded.1
  | _ => nofun

theorem Stack.Bounded.occurring {k : Stack mode} (bounded : k.Bounded) :
    ∀ value ∈ k.occurring, value.Bounded := by
  induction k with
  | nil => nofun
  | cons frame rest ih =>
      intro value member
      rcases List.mem_append.mp member with below | here
      · exact ih bounded.2 value below
      · exact Frame.Bounded.occurring bounded.1 value here

end Occurring

/-! ### Steps -/

section Steps

variable {told : String → Prop} {ctx : Context} {mode next : Mode}

theorem goTo_bounded {control : Control mode} {k : Stack mode} (fits : control.Bounded)
    (rest : k.Bounded) : (goTo control k).Bounded told :=
  ⟨bounds_pure fits, rest⟩

theorem enterExpr_bounded {expr : Expr} {k : Stack .value} (fits : expr.Bounded)
    (rest : k.Bounded) : (enterExpr expr k).Bounded told := by
  cases expr with
  | literal loc value =>
      refine goTo_bounded ?_ rest
      cases value <;> exact fits
  | name | deref => exact goTo_bounded fits ⟨trivial, rest⟩
  | unary | boxNew =>
      exact goTo_bounded (by simpa [Expr.Bounded, Control.Bounded] using fits) ⟨trivial, rest⟩
  | binary loc op left right =>
      obtain ⟨leftFits, rightFits⟩ : left.Bounded ∧ right.Bounded := by
        simpa [Expr.Bounded] using fits
      cases op <;> exact goTo_bounded leftFits ⟨rightFits, rest⟩
  | borrow loc operand isMut =>
      have inner : operand.Bounded := by simpa [Expr.Bounded] using fits
      simp only [enterExpr]
      split <;> exact goTo_bounded inner ⟨trivial, rest⟩
  | call loc func args =>
      exact goTo_bounded ⟨List.forall_mem_nil _, Expr.allBounded_iff.mp (by simpa [Expr.Bounded] using fits)⟩ rest
  | macroCall loc callee template args =>
      exact goTo_bounded ⟨List.forall_mem_nil _, Expr.allBounded_iff.mp (by simpa [Expr.Bounded] using fits)⟩ rest
  | ifElse loc condition thenBlock elseBlock =>
      cases elseBlock with
      | none =>
          obtain ⟨test, arm⟩ : condition.Bounded ∧ thenBlock.Bounded := by
            simpa [Expr.Bounded] using fits
          exact goTo_bounded test ⟨⟨arm, by simp⟩, rest⟩
      | some other =>
          obtain ⟨test, arm, otherArm⟩ : condition.Bounded ∧ thenBlock.Bounded ∧ other.Bounded := by
            simpa [Expr.Bounded] using fits
          exact goTo_bounded test ⟨⟨arm, by simpa using otherArm⟩, rest⟩
  | block => exact goTo_bounded (by simpa [Expr.Bounded, Control.Bounded] using fits) rest
  | ofStmt | ofBlock => exact ⟨bounds_fail rfl, rest⟩

theorem enterPlace_bounded {expr : Expr} {k : Stack .place} (fits : expr.Bounded)
    (rest : k.Bounded) : (enterPlace expr k).Bounded told := by
  fun_cases enterPlace expr k with
  | case1 => exact ⟨(lookup_bounds _).map fun _ _ => trivial, rest⟩
  | case2 => exact goTo_bounded (by simpa [Expr.Bounded, Control.Bounded] using fits) rest
  | case3 | case4 | case5 =>
      exact goTo_bounded (by simpa [Expr.Bounded, Control.Bounded] using fits) ⟨trivial, rest⟩
  | case6 => exact ⟨bounds_fail rfl, rest⟩

theorem enterStmt_bounded {stmt : Stmt} {k : Stack .done} (fits : stmt.Bounded)
    (rest : k.Bounded) : (enterStmt stmt k).Bounded told := by
  fun_cases enterStmt stmt k with
  | case1 => exact ⟨(bind_bounds _ (by trivial) false).map fun _ _ => trivial, rest⟩
  | case2 | case5 | case7 =>
      exact goTo_bounded (by simpa [Stmt.Bounded, Control.Bounded] using fits) ⟨trivial, rest⟩
  | case3 loc target value op =>
      obtain ⟨targetFits, valueFits⟩ : target.Bounded ∧ value.Bounded := by
        simpa [Stmt.Bounded] using fits
      exact goTo_bounded valueFits ⟨targetFits, rest⟩
  | case4 => exact ⟨bounds_throw trivial, rest⟩
  | case6 => exact goTo_bounded (by simpa [Stmt.Bounded, Control.Bounded] using fits) rest
  | _ => exact ⟨bounds_fail rfl, rest⟩

theorem applyCall_bounded {loc : Option Position} {func : String} {values : List Value}
    {k : Stack .value} (functions : ∀ f ∈ ctx.functions, f.body.Bounded)
    (fit : ∀ value ∈ values, value.Bounded) (rest : k.Bounded) :
    (applyCall ctx loc func values k).Bounded told := by
  fun_cases applyCall ctx loc func values k with
  | case1 =>
      rename_i f found
      have member := List.mem_reverse.mp (List.mem_of_find?_eq_some found)
      exact goTo_bounded ⟨functions f member, fit⟩ rest
  | case3 => exact goTo_bounded (fit _ List.mem_cons_self) rest
  | case2 | case4 => exact ⟨bounds_fail rfl, rest⟩

theorem addShown_bounded {template : String} {values : List Shown} {shown : Shown}
    {rest : List Expr} (fit : ∀ one ∈ values, one.value.Bounded) (fits : shown.value.Bounded)
    (args : ∀ arg ∈ rest, arg.Bounded) : (addShown template values shown rest).Bounded :=
  ⟨List.forall_mem_append.mpr ⟨fit, List.forall_mem_singleton.mpr fits⟩, args⟩

theorem followShown_bounded {template : String} {values : List Shown}
    (fit : ∀ one ∈ values, one.value.Bounded) : (followShown template values).Bounded := by
  refine ⟨?_, nofun, ?_⟩
  · intro value member
    obtain ⟨shown, isOwned, rfl⟩ := List.mem_map.mp member
    exact fit shown (List.mem_of_mem_filter isOwned)
  · intro pair member
    obtain ⟨shown, inValues, rfl⟩ := List.mem_map.mp member
    exact fit shown inValues

theorem followFirst_bounds {template : String} {owned : List Value} {texts : List String}
    {arg : Expr} {value : Value} {rest : List (Expr × Value)}
    (fit : (Control.follow template owned texts ((arg, value) :: rest)).Bounded) :
    Bounds told (followFirst ctx template owned texts arg value rest) Control.Bounded := by
  obtain ⟨ownedFit, textsFit, restFit⟩ := fit
  obtain ⟨fits, others⟩ := List.forall_mem_cons.mp restFit
  refine (follow_bounds arg value).bind fun inner innerFits => ?_
  cases inner with
  | some inner =>
      exact bounds_pure
        ⟨ownedFit, textsFit, List.forall_mem_cons.mpr ⟨innerFits inner rfl, others⟩⟩
  | none =>
      have added : ∀ text ∈ texts ++ [value.text], OfBounded text :=
        List.forall_mem_append.mpr ⟨textsFit, List.forall_mem_singleton.mpr ⟨value, fits, rfl⟩⟩
      exact bounds_pure ⟨ownedFit, added, others⟩

theorem print_bounds {template : String} {owned : List Value} {texts : List String}
    (prints : ∀ text, (Control.follow template owned texts []).Prints text → told text) :
    Bounds told (print template owned texts) Control.Bounded := by
  have formatted : Bounds told (format template texts) told := by
    unfold format
    split
    · exact bounds_fail rfl
    · rename_i pieces split
      exact bounds_pure (prints _ ⟨pieces, split, rfl⟩)
  exact formatted.bind fun text known => (emit_bounds known).andThen fun _ =>
    (dropValues_bounds owned).map fun _ _ => trivial

theorem displayStep_bounds {value : Value}
    (prints : ∀ text, (Control.display value).Prints text → told text) :
    Bounds told (displayStep value) Control.Bounded := by
  unfold displayStep
  split
  · exact bounds_get.bind fun s bounded =>
      (bounds_ofHeap bounded.heap.load).map fun _ known => known
  · rename_i ends
    exact (emit_bounds (prints _ ⟨ends, rfl⟩)).andThen fun _ => bounds_pure trivial

theorem resumeValue_bounded {v : Value} {frame : Frame .value next} {k : Stack next}
    (fits : v.Bounded) (frameFits : frame.Bounded) (rest : k.Bounded) :
    (resumeValue ctx v frame k).Bounded told := by
  cases frame with
  | unary loc op => exact ⟨(unary_bounds op v).map fun _ known => known, rest⟩
  | logic isAnd right =>
      simp only [resumeValue]
      split
      · exact goTo_bounded frameFits ⟨trivial, rest⟩
      · exact goTo_bounded trivial rest
  | truth => exact goTo_bounded trivial rest
  | left loc op right => exact goTo_bounded frameFits ⟨fits, rest⟩
  | right loc op first => exact ⟨(binary_bounds op first v).map fun _ known => known, rest⟩
  | borrowTemporary isMut =>
      exact ⟨(materialize_bounds fits).andThen fun addr =>
        (pushTag_bounds addr isMut).map fun _ known => known, rest⟩
  | boxNew => exact ⟨(alloc_bounds fits true).map fun _ _ => trivial, rest⟩
  | arg loc func values args =>
      have added := List.forall_mem_append.mpr ⟨frameFits.1, List.forall_mem_singleton.mpr fits⟩
      exact goTo_bounded ⟨added, frameFits.2⟩ rest
  | shownValue template values arg args =>
      exact goTo_bounded (addShown_bounded frameFits.1 fits frameFits.2) rest
  | branch thenBlock elseBlock =>
      simp only [resumeValue]
      split
      · exact goTo_bounded frameFits.1 rest
      · cases elseBlock with
        | none => exact goTo_bounded trivial rest
        | some elseBlock => exact goTo_bounded (frameFits.2 elseBlock rfl) rest
  | leaveScope => exact ⟨popScope_bounds.map fun _ _ => fits, rest⟩
  | leaveCall f => exact ⟨popFrame_bounds.map fun _ _ => fits, rest⟩
  | derefValue operand =>
      have found : Bounds told (do return Control.found (← pointee none v operand))
          Control.Bounded :=
        (pointee_bounds none fits operand).map fun _ _ => trivial
      cases v with
      | box addr => exact ⟨(materialize_bounds fits).andThen fun _ => found, rest⟩
      | _ => exact ⟨found, rest⟩
  | letVar ident => exact ⟨(bind_bounds ident fits true).map fun _ _ => trivial, rest⟩
  | assignValue loc target op => exact goTo_bounded frameFits ⟨fits, rest⟩
  | ret => exact ⟨bounds_throw fits, rest⟩
  | exprStmt => exact ⟨(dropValue_bounds v).map fun _ _ => trivial, rest⟩
  | loopCondition condition body =>
      simp only [resumeValue]
      split
      · exact goTo_bounded frameFits.2 ⟨frameFits, rest⟩
      · exact goTo_bounded trivial rest
  | loopBody condition body => exact goTo_bounded frameFits rest

theorem resumePlace_bounded {l : Location} {frame : Frame .place next} {k : Stack next}
    (frameFits : frame.Bounded) (rest : k.Bounded) :
    (resumePlace ctx l frame k).Bounded told := by
  cases frame with
  | readPlace expr => exact ⟨(read_bounds l expr).map fun _ known => known, rest⟩
  | borrowPlace operand isMut =>
      exact ⟨(access_bounds l operand isMut _).andThen fun _ =>
        (pushTag_bounds l.addr isMut).map fun _ known => known, rest⟩
  | shownPlace template values arg args =>
      exact ⟨(load_bounds l arg).map fun _ known =>
        addShown_bounded frameFits.1 known frameFits.2, rest⟩
  | derefPlace operand =>
      exact ⟨(load_bounds l operand).bind fun _ known =>
        (pointee_bounds (some l) known operand).map fun _ _ => trivial, rest⟩
  | assignPlace loc target op value =>
      cases op with
      | some op => exact ⟨(combine_bounds l target op value).map fun _ _ => trivial, rest⟩
      | none => exact ⟨(assign_bounds l target frameFits).map fun _ _ => trivial, rest⟩

theorem unwind_bounded {interrupt : Interrupt} {frame : Frame mode next} {k : Stack next}
    (fits : interrupt.Bounded) (rest : k.Bounded) : (unwind interrupt frame k).Bounded told := by
  cases frame with
  | leaveScope => exact ⟨popScope_bounds.map fun _ _ => fits, rest⟩
  | leaveCall f =>
      refine ⟨popFrame_bounds.andThen fun _ => ?_, rest⟩
      cases interrupt <;> exact bounds_pure fits
  | _ => exact goTo_bounded fits rest

/-- A step from a machine within 32 bits keeps within them. -/
theorem advance_bounded {control : Control mode} {k : Stack mode} {t : Transition}
    (functions : ∀ f ∈ ctx.functions, f.body.Bounded) (fits : control.Bounded) (rest : k.Bounded)
    (prints : ∀ text, control.Prints text → told text)
    (advanced : advance ctx control k = some t) : t.Bounded told := by
  cases control with
  | expr e =>
      obtain rfl := Option.some.inj advanced
      exact enterExpr_bounded fits rest
  | block body =>
      obtain rfl := Option.some.inj advanced
      exact ⟨pushScope_bounds.map fun _ _ => Block.bounded_iff.mp fits, trivial, rest⟩
  | stmts stmts tail =>
      cases stmts with
      | nil =>
          cases tail with
          | none =>
              obtain rfl := Option.some.inj advanced
              exact goTo_bounded trivial rest
          | some last =>
              obtain rfl := Option.some.inj advanced
              exact goTo_bounded (fits.2 last rfl) rest
      | cons stmt others =>
          obtain rfl := Option.some.inj advanced
          obtain ⟨first, more⟩ := List.forall_mem_cons.mp fits.1
          exact goTo_bounded first ⟨⟨more, fits.2⟩, rest⟩
  | args loc func values args =>
      cases args with
      | nil =>
          obtain rfl := Option.some.inj advanced
          exact applyCall_bounded functions fits.1 rest
      | cons arg others =>
          obtain rfl := Option.some.inj advanced
          obtain ⟨first, more⟩ := List.forall_mem_cons.mp fits.2
          exact goTo_bounded first ⟨⟨fits.1, more⟩, rest⟩
  | call f values loc =>
      obtain rfl := Option.some.inj advanced
      exact ⟨(pushFrame_bounds f).map fun _ _ => fits, rest⟩
  | enter f values =>
      obtain rfl := Option.some.inj advanced
      have args : ∀ arg ∈ f.params.zip values, arg.2.Bounded :=
        fun arg member => fits.2 arg.2 (List.of_mem_zip member).2
      exact ⟨(bindArgs_bounds args).map fun _ _ => fits.1, trivial, rest⟩
  | shown template values args =>
      cases args with
      | nil =>
          obtain rfl := Option.some.inj advanced
          exact goTo_bounded (followShown_bounded fits.1) rest
      | cons arg others =>
          obtain rfl := Option.some.inj advanced
          obtain ⟨first, more⟩ := List.forall_mem_cons.mp fits.2
          split <;> exact goTo_bounded first ⟨⟨fits.1, more⟩, rest⟩
  | follow template owned texts shown =>
      cases shown with
      | nil =>
          obtain rfl := Option.some.inj advanced
          exact ⟨print_bounds prints, rest⟩
      | cons first others =>
          obtain rfl := Option.some.inj advanced
          exact ⟨followFirst_bounds fits, rest⟩
  | display value =>
      obtain rfl := Option.some.inj advanced
      exact ⟨displayStep_bounds prints, rest⟩
  | value v =>
      cases k with
      | nil => simp [advance] at advanced
      | cons frame k =>
          obtain rfl := Option.some.inj advanced
          exact resumeValue_bounded fits rest.1 rest.2
  | place e =>
      obtain rfl := Option.some.inj advanced
      exact enterPlace_bounded fits rest
  | found l =>
      cases k with
      | cons frame k =>
          obtain rfl := Option.some.inj advanced
          exact resumePlace_bounded rest.1 rest.2
  | stmt stmt =>
      obtain rfl := Option.some.inj advanced
      exact enterStmt_bounded fits rest
  | loop condition body =>
      obtain rfl := Option.some.inj advanced
      exact goTo_bounded fits.1 ⟨fits, rest⟩
  | finished =>
      cases k with
      | cons frame k =>
          obtain rfl := Option.some.inj advanced
          cases frame
          exact goTo_bounded rest.1 rest.2
  | interrupted interrupt =>
      cases k with
      | nil => simp [advance] at advanced
      | cons frame k =>
          obtain rfl := Option.some.inj advanced
          exact unwind_bounded fits rest.2

end Steps

/-! ### Runs -/

/-- A machine within 32 bits, whose outputs are among the texts that were told. -/
structure Machine.Bounded (told : String → Prop) (m : Machine) : Prop where
  control : m.control.Bounded
  stack : m.stack.Bounded
  state : m.state.Bounded told

section Runs

variable {told : String → Prop} {ctx : Context}

theorem Machine.Bounded.mono {m : Machine} {more : String → Prop} (bounded : m.Bounded told)
    (weaker : ∀ text, told text → more text) : m.Bounded more :=
  ⟨bounded.control, bounded.stack, bounded.state.heap,
    fun text member => weaker text (bounded.state.outputs text member)⟩

theorem Machine.Bounded.step {m next : Machine}
    (functions : ∀ f ∈ ctx.functions, f.body.Bounded) (bounded : m.Bounded told)
    (prints : ∀ text, m.control.Prints text → told text) (step : m.step ctx = some next) :
    next.Bounded told := by
  obtain ⟨t, advanced, rfl⟩ := Option.map_eq_some_iff.mp step
  obtain ⟨action, stack⟩ := advance_bounded functions bounded.control bounded.stack prints advanced
  have ends := action m.state bounded.state
  unfold Meets at ends
  unfold Transition.perform
  cases done : t.action m.state with
  | mk result after =>
      rw [done] at ends
      cases result <;> exact ⟨ends.1, stack, ends.2⟩

theorem bounded_start (functions : ∀ f ∈ ctx.functions, f.body.Bounded) :
    (Machine.start ctx).Bounded told := by
  have empty : State.Bounded told {} :=
    ⟨fun addr cell found => by simp [Heap.lookup] at found, List.forall_mem_nil _⟩
  unfold Machine.start
  split
  · exact ⟨List.forall_mem_nil _, trivial, empty⟩
  · rename_i entry found
    have member := List.mem_reverse.mp (List.mem_of_find?_eq_some found)
    exact ⟨⟨functions entry member, List.forall_mem_nil _⟩, trivial, empty⟩

/-- Every machine of a run is within 32 bits, and its outputs were printed by earlier steps. -/
theorem bounded_reached (functions : ∀ f ∈ ctx.functions, f.body.Bounded) (steps : Nat) :
    (reached ctx steps).Bounded fun text =>
      ∃ earlier < steps, (reached ctx earlier).control.Prints text := by
  induction steps with
  | zero => exact bounded_start functions
  | succ steps ih =>
      have later : (reached ctx steps).Bounded fun text =>
          ∃ earlier < steps + 1, (reached ctx earlier).control.Prints text :=
        ih.mono fun text ⟨earlier, before, prints⟩ => ⟨earlier, Nat.lt_succ_of_lt before, prints⟩
      rw [reached_succ]
      cases step : (reached ctx steps).step ctx with
      | none => exact later
      | some next =>
          exact later.step functions (fun text prints => ⟨steps, Nat.lt_succ_self _, prints⟩) step

theorem Machine.Bounded.int {m : Machine} (bounded : m.Bounded told) {n : Int}
    (occurs : m.Occurs (.int n)) : -2 ^ 31 ≤ n ∧ n ≤ 2 ^ 31 - 1 := by
  rcases occurs with inFlight | ⟨addr, state, found⟩
  · rcases List.mem_append.mp inFlight with inFrames | inControl
    · exact bounded.stack.occurring _ inFrames
    · exact bounded.control.occurring _ inControl
  · exact bounded.state.heap.cell _ found

end Runs

/-- Integers stay within 32 bits.  At every step of every run of a program that was read from a
text, checked or not, an integer that occurs as a value fits: in a cell, in an argument or result on
the way, in a value that is about to be shown.  The texts for the holes of a template are texts of
such values, and each output was printed by a step from them or from a value that was shown by
itself. -/
theorem integers_inRange {file : Option String} {text : String} {program : Program}
    (read : Program.ofText file text = .ok program) (settings : Settings) (origin : Option String)
    (steps : Nat) :
    (∀ n : Int, (reached ⟨program.functions, settings, origin⟩ steps).Occurs (.int n) →
      -2 ^ 31 ≤ n ∧ n ≤ 2 ^ 31 - 1) ∧
    (∀ shown ∈ (reached ⟨program.functions, settings, origin⟩ steps).control.texts,
      OfBounded shown) ∧
    ∀ output ∈ (reached ⟨program.functions, settings, origin⟩ steps).state.outputs,
      ∃ earlier < steps,
        (reached ⟨program.functions, settings, origin⟩ earlier).control.Prints output := by
  have bounded := @bounded_reached ⟨program.functions, settings, origin⟩ (ofText_bounded read) steps
  exact ⟨fun n occurs => bounded.int occurs, bounded.control.texts, bounded.state.outputs⟩

/-- A program that is not accepted: it adds a boolean to the least integer. -/
def addTrue : String := "fn main()\x7bdisplayi32(-2147483648+true);\x7d"

/-- What the run of a text has shown after some steps. -/
def outputsAfter (text : String) (steps : Nat) : Option (List String) :=
  match Program.ofText none text with
  | .error _ => none
  | .ok program => some (reached ⟨program.functions, default, none⟩ steps).state.outputs

/-- The least integer is read with its sign, and the boolean counts as one. -/
theorem integers_inRange_addTrue :
    ∃ program, Program.ofText none addTrue = .ok program ∧
      (reached ⟨program.functions, default, none⟩ 15).state.outputs = ["-2147483647"] ∧
      ∃ earlier < 15,
        (reached ⟨program.functions, default, none⟩ earlier).control.Prints "-2147483647" := by
  have outputs : outputsAfter addTrue 15 = some ["-2147483647"] := by decide +kernel
  unfold outputsAfter at outputs
  split at outputs
  · simp at outputs
  · rename_i program read
    have shown := Option.some.inj outputs
    refine ⟨program, read, shown, ?_⟩
    exact (integers_inRange read default none 15).2.2 _ (by simp [shown])

end BorrowLang.Evaluator
