import BorrowLang.Proofs.Ownership.Frames

/-!
# Every step keeps the machine in order

A step takes a machine in order to another one; an interrupt that takes down the frames leaves every
scope on the way.
-/

set_option autoImplicit false

namespace BorrowLang.Evaluator

open Ownership

section Steps

variable {mode next : Mode} {s : State}

/-! ### The first steps into expressions, places and statements -/

theorem literalValue_plain (value : Literal) : (literalValue value).box? = none := by
  cases value <;> rfl

theorem enterExpr_keeps {expr : Expr} {k : Stack .value} (sound : Sound (.expr expr) k s) :
    (enterExpr expr k).Keeps s := by
  obtain ⟨isOpen, fits⟩ := sound.fits
  have owned : Owned s (boxes k.values) := by simpa [Control.values] using sound.owned
  cases expr with
  | literal loc value =>
      exact sound_value_plain (literalValue_plain value) owned (.refl s) fits
  | name | deref | unary | boxNew | ifElse =>
      exact handOn_keeps sound (by simp [Stack.values, Frame.values, Control.values])
        ⟨isOpen, fits.push ⟨isOpen, rfl⟩⟩ trivial
  | binary loc op left right =>
      cases op with
      | _ =>
          exact handOn_keeps sound (by simp [Stack.values, Frame.values, Control.values])
            ⟨isOpen, fits.push ⟨isOpen, rfl⟩⟩ trivial
  | borrow loc operand isMut =>
      simp only [enterExpr]
      split
      · exact handOn_keeps sound (by simp [Stack.values, Frame.values, Control.values])
          ⟨isOpen, fits.push ⟨isOpen, rfl⟩⟩ trivial
      · exact handOn_keeps sound (by simp [Stack.values, Frame.values, Control.values])
          ⟨isOpen, fits.push ⟨isOpen, rfl⟩⟩ trivial
  | call | macroCall | block =>
      exact handOn_keeps sound (by simp [Control.values, ownedValues]) ⟨isOpen, fits⟩ trivial
  | ofStmt | ofBlock => exact fail_keeps owned fits trivial

theorem mem_scopeCells_of_bound {name : String} {addr : Addr}
    (bound : ((s.frames.head?.map (·.scopes)).getD []).findSome?
      (fun scope => (scope.names.find? (·.1 = name)).map (·.2)) = some addr) :
    addr ∈ s.scopeCells := by
  cases frames : s.frames with
  | nil => simp [frames] at bound
  | cons activation rest =>
      simp only [frames, List.head?_cons, Option.map_some, Option.getD_some] at bound
      obtain ⟨scope, inScopes, found⟩ := List.exists_of_findSome?_eq_some bound
      obtain ⟨binding, bindingFound, rfl⟩ := Option.map_eq_some_iff.mp found
      have inCells := scope.held binding (List.mem_of_find?_eq_some bindingFound)
      simp only [State.scopeCells, frames, List.flatMap_cons, List.mem_append, List.mem_flatMap]
      exact Or.inl ⟨scope, inScopes, inCells⟩

theorem enterPlace_keeps {expr : Expr} {k : Stack .place} (sound : Sound (.place expr) k s) :
    (enterPlace expr k).Keeps s := by
  obtain ⟨isOpen, fits⟩ := sound.fits
  have owned : Owned s (boxes k.values) := by simpa [Control.values] using sound.owned
  fun_cases enterPlace expr k with
  | case1 loc ident =>
      simp only [Transition.Keeps, lookup, meets_bind, meets_get]
      split
      · rename_i addr bound
        have inCells := mem_scopeCells_of_bound bound
        refine sound_plain rfl owned (.refl s) ⟨isOpen, fits⟩ ⟨by simp, fun _ => ?_⟩
        obtain ⟨chain, run⟩ := owned.forest.ends addr
          (owned.forest.present addr (List.mem_append_left _ inCells))
        exact ⟨addr, inCells, chain, run, run.head_mem⟩
      · exact fail_keeps owned fits trivial
  | case2 => exact handOn_keeps sound (by simp [Control.values]) ⟨isOpen, fits⟩ trivial
  | case3 | case4 | case5 =>
      exact handOn_keeps sound (by simp [Stack.values, Frame.values, Control.values])
        ⟨isOpen, fits.push ⟨isOpen, rfl⟩⟩ trivial
  | case6 => exact fail_keeps owned fits trivial

theorem enterStmt_keeps {stmt : Stmt} {k : Stack .done} (sound : Sound (.stmt stmt) k s) :
    (enterStmt stmt k).Keeps s := by
  obtain ⟨isOpen, fits⟩ := sound.fits
  have owned : Owned s (boxes k.values) := by simpa [Control.values] using sound.owned
  fun_cases enterStmt stmt k with
  | case1 loc ident typeExpr isMut =>
      simp only [Transition.Keeps, meets_bind, meets_pure]
      have held : Owned s (boxes k.values ++ (Cell.box? ⟨.unit, .uninit⟩).toList) := by
        simpa [Cell.box?, Cell.liveValue?] using owned
      apply Meets.uncut (@bind_meets _ _ ident _ false held isOpen)
      intro _ after met
      obtain ⟨ownedAfter, steady⟩ := met
      exact sound_plain rfl ownedAfter steady ⟨isOpen, fits⟩ trivial
  | case4 =>
      have ownedUnit : Owned s (boxes (k.values ++ [.unit])) := by
        simpa [boxes_singleton, Value.box?] using owned
      exact ⟨⟨ownedUnit, fits, trivial⟩, .refl s⟩
  | case6 => exact handOn_keeps sound (by simp [Control.values]) ⟨isOpen, fits⟩ trivial
  | case2 | case3 | case5 | case7 =>
      exact handOn_keeps sound (by simp [Stack.values, Frame.values, Control.values])
        ⟨isOpen, fits.push ⟨isOpen, rfl⟩⟩ trivial
  | case8 | case9 => exact fail_keeps owned fits trivial

/-! ### Steps of calls and macros -/

theorem applyCall_keeps {ctx : Context} {loc : Option Position} {func : String}
    {values : List Value} {k : Stack .value} (sound : Sound (.args loc func values []) k s) :
    (applyCall ctx loc func values k).Keeps s := by
  obtain ⟨isOpen, fits⟩ := sound.fits
  have owned : Owned s (boxes k.values) := sound.owned.weaken (by
    simpa using (List.sublist_append_left _ _).subperm)
  fun_cases applyCall ctx loc func values k with
  | case1 f known => exact handOn_keeps sound rfl fits trivial
  | case2 | case4 => exact fail_keeps owned fits trivial
  | case3 value rest =>
      exact goTo_keeps sound (by simp [Control.values]) ⟨isOpen, fits⟩ trivial

theorem bound_sublist (params : List Param) (values : List Value) :
    ((params.zip values).map (·.2)).Sublist values := by
  induction params generalizing values with
  | nil => simp
  | cons param params ih =>
      cases values with
      | nil => simp
      | cons value values => exact (ih values).cons_cons value

/-- The step into a function after its activation is there. -/
theorem enter_keeps {f : FunctionDef} {values : List Value} {k : Stack .value}
    (sound : Sound (.enter f values) k s) :
    Transition.Keeps ⟨.cons (.leaveCall f) k, do
      bindArgs (f.params.zip values)
      return .block f.body⟩ s := by
  obtain ⟨rest, shape, fits⟩ := sound.fits
  have part := bound_sublist f.params values
  have owned : Owned s (boxes k.values ++ boxes ((f.params.zip values).map (·.2))) := by
    refine sound.owned.weaken (List.Sublist.subperm ?_)
    rw [boxes_append]
    exact (part.filterMap Value.box?).append_left (boxes k.values)
  simp only [Transition.Keeps, meets_bind, meets_pure]
  apply Meets.uncut (bindArgs_meets owned ⟨0, rest, shape⟩)
  intro _ after met
  obtain ⟨ownedAfter, steady⟩ := met
  exact sound_plain rfl (by simpa [Stack.values, Frame.values] using ownedAfter) steady
    ⟨⟨0, rest, shape⟩, rest, shape, fits⟩ trivial

theorem follow_meets (ctx : Context) (arg : Expr) (value : Value) {flight : List Addr}
    (owned : Owned s flight) :
    Meets (follow ctx arg value) s
      (fun _ after => Owned after flight ∧ Steady s after)
      (Broken s flight) := by
  cases value with
  | ref addr isMut tag =>
      simp only [follow, meets_bind, meets_pure]
      apply Meets.onOk (load_meets ctx _ arg owned)
      intro inner after met
      obtain ⟨ended, -, -⟩ := met
      exact ⟨ended.owned owned, ended.steady⟩
  | box addr =>
      simp only [follow, meets_bind, meets_get, Heap.load]
      cases found : s.heap.lookup addr with
      | none =>
          rw [Heap.cell_eq_error found]
          exact (Ended.refl s).broken owned trivial
      | some cell =>
          rw [Heap.cell_eq_ok found]
          exact ⟨owned, .refl s⟩
  | _ => exact ⟨owned, .refl s⟩

theorem print_keeps {template : String} {flight : List Value} {texts : List String}
    {k : Stack .value} (sound : Sound (.follow template flight texts []) k s) :
    Transition.Keeps ⟨k, print template flight texts⟩ s := by
  obtain ⟨isOpen, fits⟩ := sound.fits
  have owned : Owned s (boxes k.values) := sound.owned.weaken (by
    simpa using (List.sublist_append_left _ _).subperm)
  simp only [Transition.Keeps, print, meets_bind, format]
  split
  · exact fail_keeps owned fits trivial
  · rename_i pieces split
    simp only [meets_pure, emit, meets_modify]
    let shown : State := { s with outputs := Template.fill pieces texts :: s.outputs }
    have forest : Forest shown.heap.lookup
        (boxes flight ++ (shown.scopeCells ++ boxes k.values)) := by
      refine sound.owned.forest.weaken (List.Perm.subperm ?_)
      rw [boxes_append, ← List.append_assoc s.scopeCells]
      exact List.perm_append_comm
    have ownedShown : Owned shown (boxes k.values) := owned.reframe rfl rfl rfl
    apply Meets.uncut (dropValues_meets forest)
    intro _ after met
    obtain ⟨forestAfter, thinned⟩ := met
    have scopeCells : after.scopeCells = shown.scopeCells := by
      rw [State.scopeCells, State.scopeCells, thinned.frames]
    have steady : Steady s after := by
      have reframed : Steady s shown := ⟨.reframe rfl rfl, rfl⟩
      refine reframed.trans ⟨thinned.kept, ?_⟩
      rw [State.shape, State.shape, thinned.frames]
    exact sound_value_plain rfl
      (thinned.owned ownedShown (List.Subset.refl _) (scopeCells ▸ forestAfter)) steady fits

theorem displayStep_keeps {value : Value} {k : Stack .value} (sound : Sound (.display value) k s) :
    Transition.Keeps ⟨k, displayStep value⟩ s := by
  obtain ⟨isOpen, fits⟩ := sound.fits
  have owned : Owned s (boxes k.values) := by simpa [Control.values] using sound.owned
  unfold Transition.Keeps displayStep
  split
  · rename_i addr pointer
    simp only [meets_bind, meets_get, Heap.load]
    cases found : s.heap.lookup addr with
    | none =>
        rw [Heap.cell_eq_error found]
        refine ((Ended.refl s).broken owned ?_).sound fits
        trivial
    | some cell =>
        rw [Heap.cell_eq_ok found]
        exact sound_plain rfl owned (.refl s) ⟨isOpen, fits⟩ trivial
  · simp only [meets_bind, emit, meets_modify, meets_pure]
    exact sound_value_plain rfl (owned.reframe rfl rfl rfl) ⟨.reframe rfl rfl, rfl⟩ fits

/-! ### Steps with an outcome -/

theorem unary_meets (ctx : Context) (loc : Option Position) (op : UnaryOp) (operand : Value)
    (s : State) :
    Meets (unary ctx loc op operand) s
      (fun value after => after = s ∧ value.box? = none)
      (fun interrupt after => after = s ∧ ∃ fault, interrupt = .failed fault ∧ fault.FromUse) := by
  unfold unary
  split
  · exact ⟨rfl, rfl⟩
  · split
    · unfold ofArith
      split
      · exact ⟨rfl, rfl⟩
      · exact ⟨rfl, _, rfl, trivial⟩
    · exact ⟨rfl, _, rfl, trivial⟩

theorem binary_meets (ctx : Context) (loc : Option Position) (op : BinaryOp) (left right : Value)
    (s : State) :
    Meets (binary ctx loc op left right) s
      (fun value after => after = s ∧ value.box? = none)
      (fun interrupt after => after = s ∧ ∃ fault, interrupt = .failed fault ∧ fault.FromUse) := by
  unfold binary
  split
  · exact ⟨rfl, rfl⟩
  · exact ⟨rfl, rfl⟩
  · split
    · exact ⟨rfl, rfl⟩
    · exact ⟨rfl, _, rfl, trivial⟩
  · exact arith_meets ctx loc _ left right s

/-- A result that is no box, or a failure, leads on in order. -/
theorem result_keeps {k : Stack .value} {result : Eval Value} (owned : Owned s (boxes k.values))
    (fits : k.Fits s.shape)
    (known : Meets result s (fun value after => after = s ∧ value.box? = none)
      (fun interrupt after => after = s ∧ ∃ fault, interrupt = .failed fault ∧ fault.FromUse)) :
    Transition.Keeps ⟨k, do return .value (← result)⟩ s := by
  simp only [Transition.Keeps, meets_bind, meets_pure]
  refine known.mono ?_ ?_
  · intro value _ met
    obtain ⟨rfl, plain⟩ := met
    exact sound_value_plain plain owned (.refl _) fits
  · intro interrupt _ met
    obtain ⟨rfl, fault, rfl, fromUse⟩ := met
    exact ((Ended.refl _).broken owned fromUse).sound fits

/-- Leaving a scope does not fail, and hands on a value or an interrupt. -/
theorem leaveScope_keeps {k : Stack .value} {control : Control .value}
    (owned : Owned s (boxes (k.values ++ control.values)))
    (fits : (Stack.cons .leaveScope k).Fits s.shape)
    (ends : ∀ shape, k.Fits shape → control.Fits k shape) (holds : ∀ after, control.Holds after) :
    Transition.Keeps ⟨k, do
      popScope
      return control⟩ s := by
  obtain ⟨below, ⟨count, rest, shape, rfl⟩, fitsBelow⟩ := fits
  simp only [Transition.Keeps, meets_bind, meets_pure]
  apply Meets.uncut (popScope_meets owned shape)
  intro _ after met
  obtain ⟨ownedAfter, kept, shapeAfter, -⟩ := met
  exact ⟨⟨ownedAfter, shapeAfter ▸ ends _ fitsBelow, holds after⟩, kept⟩

theorem leaveCall_keeps {f : FunctionDef} {k : Stack .value} {control : Control .value}
    (owned : Owned s (boxes (k.values ++ control.values)))
    (fits : (Stack.cons (.leaveCall f) k).Fits s.shape)
    (ends : ∀ shape, k.Fits shape → control.Fits k shape) (holds : ∀ after, control.Holds after) :
    Transition.Keeps ⟨k, do
      popFrame
      return control⟩ s := by
  obtain ⟨below, shape, fitsBelow⟩ := fits
  simp only [Transition.Keeps, meets_bind, meets_pure]
  apply Meets.uncut (popFrame_meets owned shape)
  intro _ after met
  obtain ⟨ownedAfter, kept, shapeAfter, -⟩ := met
  exact ⟨⟨ownedAfter, shapeAfter ▸ ends _ fitsBelow, holds after⟩, kept⟩

/-- A reference to a temporary: the temporary gets a cell of the innermost scope. -/
theorem borrowTemporary_keeps {v : Value} {isMut : Bool} {k : Stack .value}
    (owned : Owned s (boxes k.values ++ boxes [v])) (isOpen : Open s.shape)
    (fits : k.Fits s.shape) :
    Transition.Keeps ⟨k, do
      let addr ← materialize v
      return .value (← pushTag addr isMut)⟩ s := by
  simp only [Transition.Keeps, meets_bind, meets_pure]
  apply Meets.uncut (materialize_meets owned isOpen)
  intro addr mid met
  obtain ⟨ownedMid, steadyMid, inScope, found⟩ := met
  have outside : ∀ box ∈ boxes k.values, ∀ chain, Chain mid.heap.lookup box chain →
      addr ∉ chain := by
    intro box member chain run inside
    have root : addr ∈ mid.scopeCells ++ boxes k.values := List.mem_append_left _ inScope
    obtain ⟨own, ownRun⟩ := ownedMid.forest.ends addr (by simp [found])
    have same := ownedMid.forest.disjoint root (List.mem_append_right _ member) ownRun run
      ownRun.head_mem inside
    exact (List.nodup_append.mp ownedMid.forest.nodup).2.2 addr inScope box member same
  apply Meets.uncut (pushTag_meets isMut ownedMid (by simp [found]) outside)
  intro value after met
  obtain ⟨ownedAfter, steadyAfter, plain⟩ := met
  exact sound_value_plain plain ownedAfter (steadyMid.trans steadyAfter) fits

/-- What a temporary points at: a box is kept in a cell of the innermost scope. -/
theorem derefValue_keeps {v : Value} {operand : Expr} {k : Stack .place}
    (owned : Owned s (boxes k.values ++ boxes [v])) (isOpen : Open s.shape)
    (fits : k.Fits s.shape) :
    Transition.Keeps ⟨k, do
      if let .box _ := v then
        let _ ← materialize v
      return .found (← pointee none v operand)⟩ s := by
  have finish : ∀ {mid : State}, Owned mid (boxes k.values) → Steady s mid →
      (∀ addr, v = .box addr →
        ∃ root ∈ mid.scopeCells, ∃ chain, Chain mid.heap.lookup root chain ∧ addr ∈ chain) →
      Meets (do return Control.found (← pointee none v operand)) mid
        (fun control after => Sound control k after ∧ Kept s after)
        (fun interrupt after => Sound (.interrupted interrupt : Control .place) k after ∧
          Kept s after) := by
    intro mid ownedMid steady kept
    simp only [meets_bind, meets_pure]
    refine (pointee_none_meets v operand kept).mono ?_ ?_
    · intro l _ met
      obtain ⟨rfl, reached⟩ := met
      exact sound_plain rfl ownedMid steady ⟨isOpen, fits⟩ reached
    · intro interrupt _ met
      obtain ⟨rfl, fault, rfl, fromUse⟩ := met
      have broken : Broken s (boxes k.values) (.failed fault) _ :=
        ⟨⟨fault, rfl, fromUse⟩, ownedMid, steady⟩
      exact broken.sound fits
  cases v with
  | box b =>
      simp only [Transition.Keeps]
      rw [meets_bind]
      apply Meets.uncut (materialize_meets owned isOpen)
      intro addr mid met
      obtain ⟨ownedMid, steady, inScope, found⟩ := met
      refine finish ownedMid steady fun other same => ?_
      obtain rfl := Value.box.inj same
      have owns : boxAt mid.heap.lookup addr = some b := by
        simp [boxAt, found, Cell.box?, Cell.liveValue?, Value.box?]
      obtain ⟨chain, run⟩ := ownedMid.forest.ends b (ownedMid.forest.target _ _ owns)
      exact ⟨addr, inScope, _, .next owns run, List.mem_cons_of_mem _ run.head_mem⟩
  | _ =>
      refine finish (owned.weaken (List.sublist_append_left _ _).subperm) (.refl s) ?_
      intro addr same
      simp at same

theorem resumeValue_keeps {ctx : Context} {v : Value} {frame : Frame .value next} {k : Stack next}
    (sound : Sound (.value v) (.cons frame k) s) : (resumeValue ctx v frame k).Keeps s := by
  have fits := sound.fits
  have owned : Owned s (boxes k.values ++ boxes frame.values ++ boxes [v]) := by
    simpa [Control.values, Stack.values] using sound.owned
  have ownedRest : Owned s (boxes k.values) := owned.weaken (by
    rw [List.append_assoc]
    exact (List.sublist_append_left _ _).subperm)
  have ownedValue : Owned s (boxes k.values ++ boxes [v]) :=
    owned.weaken ((List.sublist_append_left _ _).append_right _).subperm
  have ownedHere : Owned s (boxes (k.values ++ [v])) := by
    rw [boxes_append]
    exact ownedValue
  cases frame with
  | leaveScope =>
      exact leaveScope_keeps ownedHere fits (fun _ h => h) (fun _ => trivial)
  | leaveCall f =>
      exact leaveCall_keeps ownedHere fits (fun _ h => h) (fun _ => trivial)
  | unary loc op =>
      obtain ⟨-, fits⟩ := fits.pop fun _ h => h
      exact result_keeps ownedRest fits (unary_meets ctx loc op v s)
  | right loc op first =>
      obtain ⟨-, fits⟩ := fits.pop fun _ h => h
      exact result_keeps ownedRest fits (binary_meets ctx loc op first v s)
  | logic isAnd right =>
      obtain ⟨isOpen, fits⟩ := fits.pop fun _ h => h
      simp only [resumeValue]
      split
      · exact goTo_keeps sound (by simp [Stack.values, Frame.values, Control.values])
          ⟨isOpen, fits.push ⟨isOpen, rfl⟩⟩ trivial
      · exact sound_value_plain rfl ownedRest (.refl s) fits
  | truth =>
      obtain ⟨-, fits⟩ := fits.pop fun _ h => h
      exact sound_value_plain rfl ownedRest (.refl s) fits
  | left loc op right =>
      obtain ⟨isOpen, fits⟩ := fits.pop fun _ h => h
      exact handOn_keeps sound (by simp [Stack.values, Frame.values, Control.values])
        ⟨isOpen, fits.push ⟨isOpen, rfl⟩⟩ trivial
  | borrowTemporary isMut =>
      obtain ⟨isOpen, fits⟩ := fits.pop fun _ h => h
      exact borrowTemporary_keeps ownedValue isOpen fits
  | boxNew =>
      obtain ⟨-, fits⟩ := fits.pop fun _ h => h
      simp only [Transition.Keeps, resumeValue, meets_bind, meets_pure]
      apply Meets.uncut (boxNew_meets ownedValue)
      intro addr after met
      obtain ⟨ownedAfter, steady⟩ := met
      exact sound_value ownedAfter steady fits
  | arg loc func values rest =>
      obtain ⟨isOpen, fits⟩ := fits.pop fun _ h => h
      exact handOn_keeps sound (by simp [Stack.values, Frame.values, Control.values])
        ⟨isOpen, fits⟩ trivial
  | shownValue template values arg rest =>
      obtain ⟨isOpen, fits⟩ := fits.pop fun _ h => h
      exact handOn_keeps sound
        (by simp [Stack.values, Frame.values, Control.values, addShown, ownedValues])
        ⟨isOpen, fits⟩ trivial
  | branch thenBlock elseBlock =>
      obtain ⟨isOpen, fitsRest⟩ := fits.pop fun _ h => h
      have part : ∀ body : Block, (goTo (.block body) k).Keeps s := fun body =>
        goTo_keeps sound (by simp [Stack.values, Frame.values, Control.values])
          ⟨isOpen, fitsRest⟩ trivial
      simp only [resumeValue]
      split
      · exact part thenBlock
      · cases elseBlock with
        | none => exact sound_value_plain rfl ownedRest (.refl s) fitsRest
        | some elseBlock => exact part elseBlock
  | derefValue operand =>
      obtain ⟨isOpen, fits⟩ := fits.pop fun _ h => h
      exact derefValue_keeps ownedValue isOpen fits
  | letVar ident =>
      obtain ⟨isOpen, fits⟩ := fits.pop fun _ h => h
      simp only [Transition.Keeps, resumeValue, meets_bind, meets_pure]
      rw [boxes_singleton] at ownedValue
      apply Meets.uncut (bind_meets ident ownedValue isOpen)
      intro _ after met
      obtain ⟨ownedAfter, steady⟩ := met
      exact sound_plain rfl ownedAfter steady ⟨isOpen, fits⟩ trivial
  | assignValue loc target op =>
      obtain ⟨isOpen, fits⟩ := fits.pop fun _ h => h
      exact handOn_keeps sound (by simp [Stack.values, Frame.values, Control.values])
        ⟨isOpen, fits.push ⟨isOpen, rfl⟩⟩ trivial
  | ret =>
      obtain ⟨-, fits⟩ := fits.pop fun _ h => h
      exact ⟨⟨ownedHere, fits, trivial⟩, .refl s⟩
  | exprStmt =>
      obtain ⟨isOpen, fits⟩ := fits.pop fun _ h => h
      simp only [Transition.Keeps, resumeValue, meets_bind, meets_pure]
      have forest : Forest s.heap.lookup (v.box?.toList ++ (s.scopeCells ++ boxes k.values)) := by
        refine ownedValue.forest.weaken (List.Perm.subperm ?_)
        rw [boxes_singleton, ← List.append_assoc s.scopeCells]
        exact List.perm_append_comm
      apply Meets.uncut (dropValue_meets forest)
      intro _ after met
      obtain ⟨forestAfter, thinned, -⟩ := met
      have scopeCells : after.scopeCells = s.scopeCells := by
        rw [State.scopeCells, State.scopeCells, thinned.frames]
      have shape : after.shape = s.shape := by rw [State.shape, State.shape, thinned.frames]
      exact sound_plain rfl
        (thinned.owned ownedRest (List.Subset.refl _) (scopeCells ▸ forestAfter))
        ⟨thinned.kept, shape⟩ ⟨isOpen, fits⟩ trivial
  | loopCondition condition body =>
      obtain ⟨isOpen, fits⟩ := fits.pop fun _ h => h
      simp only [resumeValue]
      split
      · exact goTo_keeps sound (by simp [Stack.values, Frame.values, Control.values])
          ⟨isOpen, fits.push ⟨isOpen, rfl⟩⟩ trivial
      · exact goTo_keeps sound (by simp [Stack.values, Frame.values, Control.values])
          ⟨isOpen, fits⟩ trivial
  | loopBody condition body =>
      obtain ⟨isOpen, fits⟩ := fits.pop fun _ h => h
      exact goTo_keeps sound (by simp [Stack.values, Frame.values, Control.values])
        ⟨isOpen, fits⟩ trivial

theorem resumePlace_keeps {ctx : Context} {l : Location} {frame : Frame .place next}
    {k : Stack next} (sound : Sound (.found l) (.cons frame k) s) :
    (resumePlace ctx l frame k).Keeps s := by
  have fits := sound.fits.2
  have reached : Reached s l := sound.holds
  have owned : Owned s (boxes k.values ++ boxes frame.values) := by
    simpa [Control.values, Stack.values] using sound.owned
  have ownedRest : Owned s (boxes k.values) :=
    owned.weaken (List.sublist_append_left _ _).subperm
  cases frame with
  | readPlace expr =>
      obtain ⟨-, fits⟩ := fits.pop fun _ h => h
      simp only [Transition.Keeps, resumePlace, meets_bind, meets_pure]
      refine (read_meets ctx expr ownedRest reached).mono ?_ ?_
      · intro value after met
        obtain ⟨ownedAfter, steady⟩ := met
        exact sound_value ownedAfter steady fits
      · exact fun interrupt after broken => broken.sound fits
  | borrowPlace operand isMut =>
      obtain ⟨-, fits⟩ := fits.pop fun _ h => h
      simp only [Transition.Keeps, resumePlace, meets_bind, meets_pure]
      refine (access_meets ctx l operand _ _ s).mono ?_ ?_
      · intro _ mid met
        obtain ⟨ended, here, valid⟩ := met
        have ownedMid := ended.owned ownedRest
        have present : (mid.heap.lookup l.addr).isSome := by
          rw [ended.heap]
          exact reached.present ownedRest here
        have outside : ∀ box ∈ boxes k.values, ∀ chain, Chain mid.heap.lookup box chain →
            l.addr ∉ chain := by
          intro box member chain run
          rw [ended.heap] at run
          exact reached.outside ownedRest valid member run
        apply Meets.uncut (pushTag_meets isMut ownedMid present outside)
        intro value after met
        obtain ⟨ownedAfter, steady, plain⟩ := met
        exact sound_value_plain plain ownedAfter (ended.steady.trans steady) fits
      · intro interrupt after met
        obtain ⟨rfl, diagnostic, rfl⟩ := met
        exact fail_keeps ownedRest fits trivial
  | shownPlace template values arg rest =>
      obtain ⟨isOpen, fits⟩ := fits.pop fun _ h => h
      have ownedShown : Owned s (boxes (k.values ++ ownedValues values)) := by
        rw [boxes_append]
        exact owned
      simp only [Transition.Keeps, resumePlace, meets_bind, meets_pure]
      refine (load_meets ctx l arg ownedShown).mono ?_ ?_
      · intro value after met
        obtain ⟨ended, -, -⟩ := met
        refine ⟨⟨?_, ?_, trivial⟩, ended.steady.toKept⟩
        · simpa [addShown, Control.values, ownedValues] using ended.owned ownedShown
        · exact ⟨ended.steady.shape ▸ isOpen, ended.steady.shape ▸ fits⟩
      · intro interrupt after broken
        exact Broken.sound (broken.since (.refl s) (by
          rw [boxes_append]
          exact (List.sublist_append_left _ _).subperm)) fits
  | derefPlace operand =>
      obtain ⟨isOpen, fits⟩ := fits.pop fun _ h => h
      simp only [Transition.Keeps, resumePlace, meets_bind, meets_pure]
      refine (load_meets ctx l operand ownedRest).mono ?_ ?_
      · intro pointer mid met
        obtain ⟨ended, found, -⟩ := met
        have foundMid : mid.heap.lookup l.addr = some ⟨pointer, .live⟩ := by
          rw [ended.heap]
          exact found
        refine (pointee_some_meets operand (ended.reached reached) foundMid).mono ?_ ?_
        · intro target _ met
          obtain ⟨rfl, reachedTarget⟩ := met
          exact sound_plain rfl (ended.owned ownedRest) ended.steady ⟨isOpen, fits⟩ reachedTarget
        · intro interrupt _ met
          obtain ⟨rfl, fault, rfl, fromUse⟩ := met
          exact (ended.broken ownedRest fromUse).sound fits
      · exact fun interrupt after broken => broken.sound fits
  | assignPlace loc target op value =>
      obtain ⟨isOpen, fitsRest⟩ := fits.pop fun _ h => h
      cases op with
      | some op =>
          simp only [Transition.Keeps, resumePlace, meets_bind, meets_pure]
          refine (combine_meets ctx loc target op value ownedRest reached).mono ?_ ?_
          · intro _ after met
            obtain ⟨ownedAfter, steady⟩ := met
            exact sound_plain rfl ownedAfter steady ⟨isOpen, fitsRest⟩ trivial
          · exact fun interrupt after broken => broken.sound fitsRest
      | none =>
          simp only [Transition.Keeps, resumePlace, meets_bind, meets_pure]
          refine (assign_meets ctx target value owned reached).mono ?_ ?_
          · intro _ after met
            obtain ⟨ownedAfter, steady⟩ := met
            exact sound_plain rfl ownedAfter steady ⟨isOpen, fitsRest⟩ trivial
          · exact fun interrupt after broken => broken.sound fitsRest

theorem resumeDone_keeps {frame : Frame .done next} {k : Stack next}
    (sound : Sound .finished (.cons frame k) s) : (resumeDone frame k).Keeps s := by
  cases frame with
  | stmts rest tail =>
      obtain ⟨isOpen, fits⟩ := sound.fits.2.pop fun _ h => h
      exact handOn_keeps sound (by simp [Stack.values, Frame.values, Control.values])
        ⟨isOpen, fits⟩ trivial

/-- An interrupt leaves the scopes and calls that it goes past. -/
theorem unwind_keeps {interrupt : Interrupt} {frame : Frame mode next} {k : Stack next}
    (sound : Sound (.interrupted interrupt) (.cons frame k) s) :
    (unwind interrupt frame k).Keeps s := by
  have fits : (Stack.cons frame k).Fits s.shape := sound.fits
  have owned : Owned s (boxes (k.values ++ interrupt.values)) := by
    refine sound.owned.weaken (List.Sublist.subperm ?_)
    simp only [Stack.values, boxes_append, Control.values]
    exact (List.sublist_append_left _ _).append_right _
  have holds : ∀ {mode : Mode} (after : State),
      (.interrupted interrupt : Control mode).Holds after := by
    intro mode after
    cases interrupt with
    | returned v => trivial
    | failed fault => exact sound.holds
  have past : ∀ {below : List Nat}, k.Fits below → below = s.shape →
      (goTo (.interrupted interrupt) k).Keeps s := by
    rintro below fitsBelow rfl
    exact ⟨⟨owned, fitsBelow, holds s⟩, .refl s⟩
  obtain ⟨below, under, fitsBelow⟩ := fits
  cases frame with
  | leaveScope =>
      exact leaveScope_keeps owned sound.fits (fun _ h => h) holds
  | leaveCall f =>
      cases interrupt with
      | returned v => exact leaveCall_keeps owned sound.fits (fun _ h => h) (fun _ => trivial)
      | failed fault => exact leaveCall_keeps owned sound.fits (fun _ h => h) holds
  | _ => exact past fitsBelow under.2

/-! ### Steps and runs -/

theorem advance_keeps {ctx : Context} {control : Control mode} {k : Stack mode} {t : Transition}
    (sound : Sound control k s) (step : advance ctx control k = some t) : t.Keeps s := by
  cases control with
  | expr e =>
      obtain rfl := Option.some.inj step
      exact enterExpr_keeps sound
  | block body =>
      obtain rfl := Option.some.inj step
      obtain ⟨⟨count, rest, shape⟩, fits⟩ := sound.fits
      have owned : Owned s (boxes k.values) := by simpa [Control.values] using sound.owned
      simp only [Transition.Keeps, meets_bind, meets_pure]
      apply Meets.uncut (pushScope_meets owned shape)
      intro _ after met
      obtain ⟨ownedAfter, kept, shapeAfter⟩ := met
      refine ⟨⟨?_, ⟨⟨_, _, shapeAfter⟩, _, ⟨_, _, shapeAfter, rfl⟩, shape ▸ fits⟩, trivial⟩, kept⟩
      simpa [Stack.values, Frame.values, Control.values] using ownedAfter
  | stmts rest tail =>
      obtain ⟨isOpen, fits⟩ := sound.fits
      cases rest with
      | nil =>
          cases tail with
          | none =>
              obtain rfl := Option.some.inj step
              have owned : Owned s (boxes k.values) := by
                simpa [Control.values] using sound.owned
              exact sound_value_plain rfl owned (.refl s) fits
          | some tail =>
              obtain rfl := Option.some.inj step
              exact handOn_keeps sound rfl ⟨isOpen, fits⟩ trivial
      | cons stmt rest =>
          obtain rfl := Option.some.inj step
          exact handOn_keeps sound (by simp [Stack.values, Frame.values, Control.values])
            ⟨isOpen, fits.push ⟨isOpen, rfl⟩⟩ trivial
  | args loc func values rest =>
      cases rest with
      | nil =>
          obtain rfl := Option.some.inj step
          exact applyCall_keeps sound
      | cons arg rest =>
          obtain rfl := Option.some.inj step
          obtain ⟨isOpen, fits⟩ := sound.fits
          exact handOn_keeps sound (by simp [Stack.values, Frame.values, Control.values])
            ⟨isOpen, fits.push ⟨isOpen, rfl⟩⟩ trivial
  | call f values loc =>
      obtain rfl := Option.some.inj step
      have fits : k.Fits s.shape := sound.fits
      simp only [Transition.Keeps, meets_bind, meets_pure]
      refine (pushFrame_meets ctx f loc sound.owned).mono ?_ ?_
      · intro _ after met
        obtain ⟨owned, kept, shape⟩ := met
        exact ⟨⟨owned, ⟨s.shape, shape, fits⟩, trivial⟩, kept⟩
      · intro interrupt after broken
        exact Broken.sound (broken.since (.refl s) (by
          rw [boxes_append]
          exact (List.sublist_append_left _ _).subperm)) fits
  | enter f values =>
      obtain rfl := Option.some.inj step
      exact enter_keeps sound
  | shown template values rest =>
      obtain ⟨isOpen, fits⟩ := sound.fits
      cases rest with
      | nil =>
          obtain rfl := Option.some.inj step
          exact handOn_keeps sound rfl ⟨isOpen, fits⟩ trivial
      | cons arg rest =>
          obtain rfl := Option.some.inj step
          split
          · exact handOn_keeps sound (by simp [Stack.values, Frame.values, Control.values])
              ⟨isOpen, fits.push ⟨isOpen, rfl⟩⟩ trivial
          · exact handOn_keeps sound (by simp [Stack.values, Frame.values, Control.values])
              ⟨isOpen, fits.push ⟨isOpen, rfl⟩⟩ trivial
  | follow template flight texts rest =>
      cases rest with
      | nil =>
          obtain rfl := Option.some.inj step
          exact print_keeps sound
      | cons shown rest =>
          obtain ⟨arg, value⟩ := shown
          obtain rfl := Option.some.inj step
          obtain ⟨isOpen, fits⟩ := sound.fits
          have owned : Owned s (boxes (k.values ++ flight)) := sound.owned
          simp only [Transition.Keeps, followFirst, meets_bind]
          refine (follow_meets ctx arg value owned).mono ?_ ?_
          · intro next after met
            obtain ⟨ownedAfter, steady⟩ := met
            have fitsAfter : Open after.shape ∧ k.Fits after.shape :=
              ⟨steady.shape ▸ isOpen, steady.shape ▸ fits⟩
            cases next with
            | none => exact ⟨⟨ownedAfter, fitsAfter, trivial⟩, steady.toKept⟩
            | some inner => exact ⟨⟨ownedAfter, fitsAfter, trivial⟩, steady.toKept⟩
          · intro interrupt after broken
            exact Broken.sound (broken.since (.refl s) (by
              rw [boxes_append]
              exact (List.sublist_append_left _ _).subperm)) fits
  | display value =>
      obtain rfl := Option.some.inj step
      exact displayStep_keeps sound
  | value v =>
      cases k with
      | nil => simp [advance] at step
      | cons frame k =>
          obtain rfl := Option.some.inj step
          exact resumeValue_keeps sound
  | place e =>
      obtain rfl := Option.some.inj step
      exact enterPlace_keeps sound
  | found l =>
      cases k with
      | cons frame k =>
          obtain rfl := Option.some.inj step
          exact resumePlace_keeps sound
  | stmt stmt =>
      obtain rfl := Option.some.inj step
      exact enterStmt_keeps sound
  | loop condition body =>
      obtain rfl := Option.some.inj step
      obtain ⟨isOpen, fits⟩ := sound.fits
      exact handOn_keeps sound (by simp [Stack.values, Frame.values, Control.values])
        ⟨isOpen, fits.push ⟨isOpen, rfl⟩⟩ trivial
  | finished =>
      cases k with
      | cons frame k =>
          obtain rfl := Option.some.inj step
          exact resumeDone_keeps sound
  | interrupted interrupt =>
      cases k with
      | nil => simp [advance] at step
      | cons frame k =>
          obtain rfl := Option.some.inj step
          exact unwind_keeps sound

end Steps

end BorrowLang.Evaluator
