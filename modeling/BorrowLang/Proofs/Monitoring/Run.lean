import BorrowLang.Proofs.Monitoring.Shadows
import BorrowLang.Proofs.Ownership.Faults

/-!
# Borrow stacks only watch

Step by step, a machine without a watch is at the same point as the machine of the evaluator, with
the same cells, bindings, outputs and tags, as long as no violation of the borrow stacks was
reported.  Nothing takes the place of such a report, so a run that does not end with one ends as if
nothing had watched it.
-/

set_option autoImplicit false

namespace BorrowLang.Evaluator

variable {ctx : Context} {mode next : Mode}

/-! ### Steps that do not look at the stacks -/

def Transition.Unaware (t : Transition) : Prop := Evaluator.Unaware t.action

theorem enterExpr_unaware (expr : Expr) (k : Stack .value) : (enterExpr expr k).Unaware := by
  cases expr with
  | binary loc op left right => cases op <;> exact unaware_pure _
  | borrow loc operand isMut =>
      simp only [enterExpr]
      split <;> exact unaware_pure _
  | ofStmt | ofBlock => exact unaware_throw _
  | _ => exact unaware_pure _

theorem enterPlace_unaware (expr : Expr) (k : Stack .place) :
    (enterPlace expr k).Unaware := by
  fun_cases enterPlace expr k with
  | case1 loc ident => exact (unaware_lookup ident).bind fun _ => unaware_pure _
  | case6 => exact unaware_throw _
  | _ => exact unaware_pure _

theorem enterStmt_unaware (stmt : Stmt) (k : Stack .done) : (enterStmt stmt k).Unaware := by
  fun_cases enterStmt stmt k with
  | case1 loc ident => exact (unaware_bind ident .unit false).bind fun _ => unaware_pure _
  | case4 | case8 | case9 => exact unaware_throw _
  | _ => exact unaware_pure _

theorem applyCall_unaware (loc : Option Position) (func : String) (values : List Value)
    (k : Stack .value) : (applyCall ctx loc func values k).Unaware := by
  fun_cases applyCall ctx loc func values k with
  | case1 | case3 => exact unaware_pure _
  | case2 | case4 => exact unaware_throw _

theorem print_unaware (template : String) (owned : List Value) (texts : List String) :
    Unaware (print template owned texts) :=
  (unaware_format template texts).bind fun text => (unaware_emit text).bind fun _ =>
    (unaware_dropValues owned).bind fun _ => unaware_pure _

theorem displayStep_unaware (value : Value) : Unaware (displayStep value) := by
  unfold displayStep
  split
  · rename_i addr _
    exact unaware_get fun s borrows tags =>
      (unaware_ofHeap (s.heap.load addr) ⟨borrows, tags, rfl⟩).bind fun shown _ _ alike =>
        unaware_pure (Control.display shown) alike
  · exact (unaware_emit _).bind fun _ => unaware_pure _

theorem resumeValue_unaware (v : Value) (frame : Frame .value next) (k : Stack next) :
    (resumeValue ctx v frame k).Unaware := by
  cases frame with
  | unary loc op => exact (unaware_unary ctx loc op v).bind fun _ => unaware_pure _
  | right loc op first => exact (unaware_binary ctx loc op first v).bind fun _ => unaware_pure _
  | boxNew => exact (unaware_alloc v true).bind fun _ => unaware_pure _
  | letVar ident => exact (unaware_bind ident v true).bind fun _ => unaware_pure _
  | exprStmt => exact (unaware_dropValue v).bind fun _ => unaware_pure _
  | leaveScope => exact unaware_popScope.bind fun _ => unaware_pure _
  | leaveCall => exact unaware_popFrame.bind fun _ => unaware_pure _
  | borrowTemporary isMut =>
      exact (unaware_materialize v).bind fun addr =>
        (unaware_pushTag addr isMut).bind fun _ => unaware_pure _
  | derefValue operand =>
      have found : Unaware (do return .found (← pointee none v operand) : Eval (Control .place)) :=
        (unaware_pointee none v operand).bind fun _ => unaware_pure _
      cases v with
      | box addr => exact (unaware_materialize _).bind fun _ => found
      | _ => exact found
  | logic | loopCondition =>
      simp only [resumeValue]
      split <;> exact unaware_pure _
  | branch thenBlock elseBlock =>
      simp only [resumeValue]
      split
      · exact unaware_pure _
      · cases elseBlock <;> exact unaware_pure _
  | ret => exact unaware_throw _
  | _ => exact unaware_pure _

theorem unwind_unaware (interrupt : Interrupt) (frame : Frame mode next) (k : Stack next) :
    (unwind interrupt frame k).Unaware := by
  cases frame with
  | leaveScope => exact unaware_popScope.bind fun _ => unaware_pure _
  | leaveCall =>
      refine unaware_popFrame.bind fun _ => ?_
      cases interrupt <;> exact unaware_pure _
  | _ => exact unaware_pure _

/-! ### Steps that use a cell -/

/-- Two transitions to the same frames, the second without a watch. -/
def Transition.Shadows (t u : Transition) : Prop :=
  ∃ action : Eval (Control t.mode), u = ⟨t.stack, action⟩ ∧
    ∀ ⦃s s'⦄, Alike s s' → Evaluator.Shadows t.action action s s'

theorem Transition.Shadows.of_unaware {t : Transition} (unaware : t.Unaware) :
    t.Shadows t := ⟨t.action, rfl, unaware⟩

theorem followFirst_shadows (template : String) (owned : List Value) (texts : List String)
    (arg : Expr) (value : Value) (rest : List (Expr × Value)) {s t : State} (alike : Alike s t) :
    Shadows (followFirst ctx template owned texts arg value rest)
      (Watch.off.followFirst ctx template owned texts arg value rest) s t := by
  refine (follow_shadows ctx arg value alike).bind fun inner _ _ alike => ?_
  cases inner <;> exact unaware_pure _ alike

theorem resumePlace_shadows (l : Location) (frame : Frame .place next) (k : Stack next) :
    (resumePlace ctx l frame k).Shadows (Watch.off.resumePlace ctx l frame k) := by
  cases frame with
  | readPlace expr =>
      exact ⟨_, rfl, fun _ _ alike => (read_shadows ctx l expr alike).bind fun v _ _ alike =>
        unaware_pure (Control.value v) alike⟩
  | borrowPlace operand isMut =>
      exact ⟨_, rfl, fun _ _ alike =>
        (access_shadows ctx l operand isMut .conflictingBorrow alike).bind fun _ _ _ alike =>
          (unaware_pushTag l.addr isMut alike).bind fun v _ _ alike =>
            unaware_pure (Control.value v) alike⟩
  | shownPlace template values arg rest =>
      exact ⟨_, rfl, fun _ _ alike => (load_shadows ctx l arg alike).bind fun v _ _ alike =>
        unaware_pure (addShown template values ⟨arg, v, false⟩ rest) alike⟩
  | derefPlace operand =>
      exact ⟨_, rfl, fun _ _ alike => (load_shadows ctx l operand alike).bind fun v _ _ alike =>
        (unaware_pointee (some l) v operand alike).bind fun goal _ _ alike =>
          unaware_pure (Control.found goal) alike⟩
  | assignPlace loc target op value =>
      refine ⟨_, rfl, fun s s' alike => ?_⟩
      cases op with
      | none =>
          exact (assign_shadows ctx l target value alike).bind fun _ _ _ alike =>
            unaware_pure Control.finished alike
      | some op =>
          exact (combine_shadows ctx loc l target op value alike).bind fun _ _ _ alike =>
            unaware_pure Control.finished alike

/-- The step from a control, beside the one without a watch. -/
theorem advance_shadows (ctx : Context) (control : Control mode) (k : Stack mode) :
    Option.Rel Transition.Shadows (advance ctx control k) (Watch.off.advance ctx control k) := by
  have same : ∀ {t : Transition}, t.Unaware →
      Option.Rel Transition.Shadows (some t) (some t) := fun unaware =>
    .some (.of_unaware unaware)
  cases control with
  | expr e => exact same (enterExpr_unaware e k)
  | block => exact same (unaware_pushScope.bind fun _ => unaware_pure _)
  | stmts rest tail =>
      cases rest with
      | nil => cases tail <;> exact same (unaware_pure _)
      | cons stmt rest => exact same (unaware_pure _)
  | args loc func values rest =>
      cases rest with
      | nil => exact same (applyCall_unaware loc func values k)
      | cons arg rest => exact same (unaware_pure _)
  | call f values loc =>
      exact same ((unaware_pushFrame ctx f loc).bind fun _ => unaware_pure _)
  | enter f values => exact same ((unaware_bindArgs _).bind fun _ => unaware_pure _)
  | shown template values rest =>
      cases rest with
      | nil => exact same (unaware_pure _)
      | cons arg rest =>
          refine same ?_
          split <;> exact unaware_pure _
  | follow template owned texts rest =>
      cases rest with
      | nil => exact same (print_unaware template owned texts)
      | cons first rest =>
          exact .some ⟨_, rfl, fun _ _ => followFirst_shadows template owned texts first.1 first.2 rest⟩
  | display value => exact same (displayStep_unaware value)
  | value v =>
      cases k with
      | nil => exact .none
      | cons frame k => exact same (resumeValue_unaware v frame k)
  | place e => exact same (enterPlace_unaware e k)
  | found l =>
      cases k with
      | cons frame k => exact .some (resumePlace_shadows l frame k)
  | stmt stmt => exact same (enterStmt_unaware stmt k)
  | loop => exact same (unaware_pure _)
  | finished =>
      cases k with
      | cons frame k =>
          cases frame
          exact same (unaware_pure _)
  | interrupted interrupt =>
      cases k with
      | nil => exact .none
      | cons frame k => exact same (unwind_unaware interrupt frame k)

/-! ### Runs -/

/-- A machine and one that is not watched are at the same point. -/
def Machine.Beside (m n : Machine) : Prop := ∃ t, Alike m.state t ∧ n = { m with state := t }

/-- A violation of the borrow stacks is on its way out. -/
def Machine.Violated (m : Machine) : Prop := ∃ fault ∈ m.fault?, fault.OfStacks

/-- A step without a watch goes the same way, unless the watched one finds a violation. -/
theorem step_beside (ctx : Context) {m n : Machine} (beside : m.Beside n) :
    (m.step ctx = none → Watch.off.step ctx n = none) ∧
    ∀ after, m.step ctx = some after →
      after.Violated ∨ ∃ mine, Watch.off.step ctx n = some mine ∧ after.Beside mine := by
  obtain ⟨control, k, s⟩ := m
  obtain ⟨t, alike, rfl⟩ := beside
  have both := advance_shadows ctx control k
  simp only [Machine.step, Watch.step]
  generalize advance ctx control k = watched at both
  generalize Watch.off.advance ctx control k = unwatched at both
  cases both with
  | none =>
      refine ⟨fun _ => rfl, ?_⟩
      rintro _ ⟨⟩
  | @some t u shadows =>
      constructor
      · rintro ⟨⟩
      intro after step
      obtain rfl := Option.some.inj step
      obtain ⟨action, rfl, shadows⟩ := shadows
      have known := shadows alike
      unfold Evaluator.Shadows Meets at known
      simp only [Option.map_some, Transition.perform]
      cases done : t.action s with
      | mk result last =>
          rw [done] at known
          cases result with
          | ok control =>
              obtain ⟨mine, ended, alike⟩ := known
              exact Or.inr ⟨_, rfl, mine, alike, by rw [ended]⟩
          | error interrupt =>
              rcases known with violates | ⟨mine, ended, alike⟩
              · cases interrupt with
                | returned v => exact violates.elim
                | failed fault => exact Or.inl ⟨fault, rfl, violates⟩
              · exact Or.inr ⟨_, rfl, mine, alike, by rw [ended]⟩

theorem Watch.run_succ (watch : Watch) (m : Machine) (steps : Nat) :
    watch.run ctx (steps + 1) m =
      (watch.step ctx (watch.run ctx steps m)).getD (watch.run ctx steps m) := by
  induction steps generalizing m with
  | zero =>
      simp only [Watch.run]
      cases watch.step ctx m <;> rfl
  | succ steps ih =>
      rw [Watch.run]
      cases step : watch.step ctx m with
      | none => simp [Watch.run, step]
      | some next =>
          simp only [ih next]
          simp [Watch.run, step]

theorem reached_beside (ctx : Context) (steps : Nat) :
    (reached ctx steps).Violated ∨ (reached ctx steps).Beside (Watch.off.reached ctx steps) := by
  induction steps with
  | zero => exact Or.inr ⟨(Machine.start ctx).state, ⟨_, rfl, rfl⟩, rfl⟩
  | succ steps ih =>
      rcases ih with ⟨fault, fails, violates⟩ | beside
      · exact Or.inl ⟨fault, fault?_succ fails, violates⟩
      · rw [reached_succ, Watch.reached, Watch.run_succ]
        have both := step_beside ctx beside
        cases step : (reached ctx steps).step ctx with
        | none =>
            have stuck := both.1 step
            rw [Watch.reached] at stuck beside
            rw [stuck]
            exact Or.inr beside
        | some next =>
            rcases both.2 next step with violated | ⟨mine, step', beside'⟩
            · exact Or.inl violated
            · rw [Watch.reached] at step'
              rw [step']
              exact Or.inr beside'

theorem Machine.Beside.ending {m n : Machine} (beside : m.Beside n) : n.ending = m.ending := by
  obtain @⟨mode, control, k, s⟩ := m
  obtain ⟨t, -, rfl⟩ := beside
  cases control with
  | value => cases k <;> rfl
  | interrupted interrupt => cases mode <;> cases interrupt <;> cases k <;> rfl
  | _ => rfl

/-- The borrow stacks only watch.  A run of the evaluator is the run with its borrow stacks for a
watch; and if it ends, but not with a violation of the stacks, the run without a watch ends after
the same steps, in the same way, with the same outputs and the same cells, of which the same number
were allocated and freed. -/
theorem run_unwatched (ctx : Context) :
    Watch.stacks.reached ctx = reached ctx ∧
    ∀ steps, (reached ctx steps).step ctx = none → ¬ (reached ctx steps).Violated →
      Watch.off.step ctx (Watch.off.reached ctx steps) = none ∧
      (Watch.off.reached ctx steps).ending = (reached ctx steps).ending ∧
      (Watch.off.reached ctx steps).state.outputs = (reached ctx steps).state.outputs ∧
      (Watch.off.reached ctx steps).state.heap = (reached ctx steps).state.heap := by
  refine ⟨funext fun steps => stacks_run ctx steps _, fun steps ended fine => ?_⟩
  have beside := (reached_beside ctx steps).resolve_left fine
  have same := beside.ending
  have stuck := (step_beside ctx beside).1 ended
  obtain ⟨t, ⟨borrows, -, rfl⟩, there⟩ := beside
  refine ⟨stuck, same, ?_, ?_⟩ <;> rw [there]

/-- A program that assigns to a binding while a reference to it is kept, but not used again. -/
def assignBorrowed : Context where
  settings := default
  functions := [{
    name := "main", params := [], returnType := none, loc := none
    body := .mk
      [.letVar none "x" none (some (.literal none (.int 1))) true,
        .letVar none "r" none (some (.borrow none (.name none "x") false)) false,
        .assign none (.name none "x") (.literal none (.int 2)) none,
        .expr none (.call none "displayi32" [.name none "x"])] none none }]

/-- The run of `assignBorrowed` ends the tag of its reference.  Without a watch the tag stays, and
the run ends as it does. -/
theorem run_unwatched_assignBorrowed :
    (reached assignBorrowed 37).step assignBorrowed = none ∧
    ¬ (reached assignBorrowed 37).Violated ∧
    (reached assignBorrowed 37).state.borrows.revoked.size = 1 ∧
    (Watch.off.reached assignBorrowed 37).state.borrows.revoked.size = 0 ∧
    Watch.off.step assignBorrowed (Watch.off.reached assignBorrowed 37) = none ∧
    (Watch.off.reached assignBorrowed 37).ending = .normal ∧
    (Watch.off.reached assignBorrowed 37).state.outputs = ["2"] ∧
    (Watch.off.reached assignBorrowed 37).state.heap =
      (reached assignBorrowed 37).state.heap := by
  have ended : (reached assignBorrowed 37).step assignBorrowed = none :=
    Option.isNone_iff_eq_none.mp (by decide +kernel)
  have fine : ¬ (reached assignBorrowed 37).Violated := by
    rintro ⟨fault, fails, -⟩
    have noFault : (reached assignBorrowed 37).fault? = none := by decide +kernel
    exact nomatch noFault.symm.trans fails
  obtain ⟨stuck, same, outputs, heap⟩ := (run_unwatched assignBorrowed).2 37 ended fine
  refine ⟨ended, fine, by decide +kernel, by decide +kernel, stuck, ?_, ?_, heap⟩
  · rw [same]
    decide +kernel
  · rw [outputs]
    decide +kernel

end BorrowLang.Evaluator
