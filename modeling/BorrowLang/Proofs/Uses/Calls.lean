import BorrowLang.Proofs.Uses.Statements

/-!
# Calls without uses of what is gone

The arguments of a call come to values of the types of its parameters, and then it is for the
function that is called; those of a macro are shown, and what they lead to is there.
-/

set_option autoImplicit false

namespace BorrowLang.Evaluator

open Ownership Moves
open Checker (Operand)

variable {ctx : Context} {rules : Checker.Context} {n : Nat} {s : State} {types : CellTypes}
variable {callers : List Layer} {o after : Outline} {counts : List Nat} {k : Stack .value}

/-! ### Arguments of a call -/

/-- An argument is run as an expression; only what is known after it is another matter where a
mutable reference is borrowed anew. -/
theorem argument_safe {arg : Expr} {param : Ty} {value : Operand}
    (inner : ExprSafe ctx rules n arg)
    (passed : argument arg param (Moves.expr rules arg) o = some (value, after))
    (tracked : s.Tracked types (⟨o, counts⟩ :: callers) (boxes k.values))
    (goesOn : GoesOn ctx rules n after counts callers types value k) :
    Safe ctx n ⟨.expr arg, k, s⟩ := by
  unfold argument at passed
  split at passed
  · split at passed
    · rename_i isPlace
      obtain ⟨spot, found, passed⟩ := placeOf_bind passed
      obtain ⟨ty, isTy, passed⟩ := typeOf_bind passed
      split at passed
      · obtain ⟨whole, passed⟩ := ensure_bind passed
        obtain ⟨-, ends⟩ := ensure_bind passed
        obtain ⟨rfl, rfl⟩ := pure_eq_some.mp ends
        have entered : enterExpr arg k = goTo (.place arg) (.cons (.readPlace arg) k) := by
          cases arg <;> first | rfl | cases isPlace
        have values : (Stack.cons (.readPlace arg) k).values = k.values := List.append_nil _
        exact .goes (congrArg some entered) rfl (placeOf_safe arg found (values ▸ tracked)
          (fun depth _ => whole.held depth)
          (readPlace_safe arg isTy whole (Or.inl ⟨by rintro _ ⟨⟩, rfl⟩) (goesOn.value rfl)))
      · exact inner passed tracked goesOn
    · exact inner passed tracked goesOn
  · exact inner passed tracked goesOn

theorem args_safe {loc : Option Position} {func : String} {args : List Expr} {params done : List Ty}
    {values : List Value} (each : ∀ arg ∈ args, ExprSafe ctx rules n arg)
    (passed : Moves.arguments rules args params o = some ((), after))
    (arity : args.length = params.length)
    (shaped : List.Forall₂ (Value.Shaped types) values done)
    (tracked : s.Tracked types (⟨o, counts⟩ :: callers) (boxes (k.values ++ values)))
    (returns : OnReturn ctx n callers types rules.result k)
    (goesOn : ∀ (later : CellTypes) (values : List Value) (s : State), types.Extends later →
      List.Forall₂ (Value.Shaped later) values (done ++ params) →
      s.Tracked later (⟨after, counts⟩ :: callers) (boxes (k.values ++ values)) →
        Safe ctx n ⟨.args loc func values [], k, s⟩) :
    Safe ctx n ⟨.args loc func values args, k, s⟩ := by
  induction args generalizing o params done values types s with
  | nil =>
      obtain rfl := List.eq_nil_of_length_eq_zero arity.symm
      rw [Moves.arguments] at passed
      · obtain ⟨-, rfl⟩ := pure_eq_some.mp passed
        exact goesOn types values s (.refl types) ((List.append_nil done).symm ▸ shaped) tracked
      · exact fun arg args param rest impossible => by cases impossible
  | cons arg rest ih =>
      cases params with
      | nil => cases arity
      | cons param params =>
          rw [Moves.arguments] at passed
          obtain ⟨operand, mid, begins, passed⟩ := bind_eq_some.mp passed
          obtain ⟨_, expects, passes⟩ := answer_bind passed
          refine .goes rfl rfl (argument_safe (k := .cons (.arg loc func values rest) k)
            (each arg List.mem_cons_self) begins tracked (.push returns (fun _ => rfl) ?_))
          intro comes later v s extended ofTy tracked
          have coerces := (expect_eq_ok expects).resolve_left (by simp [comes])
          have shapedMore : List.Forall₂ (Value.Shaped later) (values ++ [v]) (done ++ [param]) :=
            List.rel_append (shaped.imp fun _ _ known => known.mono extended)
              (.cons (ofTy.coerce coerces) .nil)
          refine .goes rfl rfl (ih (fun arg member => each arg (List.mem_cons_of_mem _ member)) passes
            (Nat.succ.inj arity) shapedMore ?_ (returns.later extended) ?_)
          · rw [← List.append_assoc]
            exact tracked
          · intro last values s extendedLast
            rw [List.append_assoc]
            exact goesOn last values s (extended.trans extendedLast)

theorem call_safe (loc : Option Position) (func : String) {args : List Expr}
    (calls : CallsSafe ctx rules n) (each : ∀ arg ∈ args, ExprSafe ctx rules n arg) :
    ExprSafe ctx rules n (.call loc func args) := by
  intro o after value counts callers types s k passed tracked goesOn
  rw [Moves.expr] at passed
  obtain ⟨signature, isSignature, passed⟩ := answer_bind passed
  obtain ⟨arity, passed⟩ := ensure_bind passed
  obtain ⟨_, mid, passes, ends⟩ := bind_eq_some.mp passed
  obtain ⟨rfl, rfl⟩ := pure_eq_some.mp ends
  refine .goes rfl rfl (args_safe each passes arity .nil ((List.append_nil k.values).symm ▸ tracked)
    goesOn.returns fun later values s extended shaped tracked => ?_)
  exact calls n (Nat.le_refl n) isSignature shaped tracked ((goesOn.value rfl).later extended)

/-! ### Arguments of a macro -/

/-- What a macro has been given leads to cells that hold values, as far as it follows it. -/
theorem follow_uses {layers : List Layer} {flight : List Addr} (arg : Expr) (v : Value)
    (tracked : s.Tracked types layers flight) (owned : Owned s flight) :
    Meets (follow ctx arg v) s (fun _ last => last.Tracked types layers flight)
      (fun interrupt _ => interrupt.Spared) := by
  cases v with
  | ref addr isMut tag =>
      simp only [follow, meets_bind, meets_pure]
      refine Meets.onOk (load_uses arg tracked.caused fun here valid cell found => ?_) ?_
      · obtain ⟨chain, run⟩ := owned.forest.ends addr here
        obtain ⟨held, isHeld⟩ := tracked.lent addr (valid tag rfl) chain run addr run.head_mem
        obtain rfl := Option.some.inj (found.symm.trans isHeld)
        rfl
      · rintro _ last ⟨ended, -, -, caused⟩
        exact tracked.ended ended caused
  | box addr =>
      simp only [follow, meets_bind, meets_get, meets_pure]
      cases s.heap.load addr with
      | ok value => exact tracked
      | error fault => exact (id : ¬ False)
  | _ => exact tracked

theorem followed_safe {layers : List Layer} {template : String} {flight : List Value}
    {texts : List String} {rest : List (Expr × Value)}
    (tracked : s.Tracked types layers (boxes (k.values ++ flight)))
    (goesOn : OnValue ctx n layers types .unit k) :
    Safe ctx n ⟨.follow template flight texts rest, k, s⟩ := by
  induction n generalizing s texts rest with
  | zero => exact .zero rfl
  | succ n ih =>
      have goesOnLess := goesOn.mono (Nat.le_succ n)
      cases rest with
      | nil =>
          refine .acts rfl rfl fun sound => ?_
          have forest : Forest s.heap.lookup (boxes flight ++ (s.scopeCells ++ boxes k.values)) := by
            refine sound.owned.forest.weaken (List.Perm.subperm ?_)
            rw [boxes_append, ← List.append_assoc s.scopeCells]
            exact List.perm_append_comm
          simp only [print, format, meets_bind]
          split
          · exact (id : ¬ False)
          · rename_i pieces _
            simp only [meets_pure, emit, meets_modify]
            refine Meets.mono (Meets.both (dropValues_meets forest)
              (spares_dropValues flight tracked.caused)) ?_ fun _ _ met => met.2
            rintro _ last ⟨⟨-, thinned⟩, caused⟩
            refine goesOn.plain (.refl types) rfl rfl ?_
            let shown : State := { s with outputs := Template.fill pieces texts :: s.outputs }
            have emitted : shown.Tracked types layers (boxes (k.values ++ flight)) :=
              tracked.reframe rfl rfl tracked.layers
            refine (emitted.thinned thinned caused).weaken fun box member => ?_
            rw [boxes_append]
            exact List.mem_append_left _ member
      | cons first rest =>
          obtain ⟨arg, v⟩ := first
          refine .of_advance rfl rfl fun sound => ?_
          simp only [followFirst, meets_bind]
          refine Meets.mono (follow_uses arg v tracked sound.owned) ?_ fun _ _ => Safe.spared
          intro inner last trackedLast
          cases inner with
          | some value => exact ih trackedLast goesOnLess
          | none => exact ih trackedLast goesOnLess

theorem shown_safe {template : String} {args : List Expr} {values : List Shown}
    (each : ∀ arg ∈ args, ExprSafe ctx rules n arg)
    (passed : Moves.shown rules args o = some ((), after))
    (tracked : s.Tracked types (⟨o, counts⟩ :: callers) (boxes (k.values ++ ownedValues values)))
    (returns : OnReturn ctx n callers types rules.result k)
    (goesOn : OnValue ctx n (⟨after, counts⟩ :: callers) types .unit k) :
    Safe ctx n ⟨.shown template values args, k, s⟩ := by
  induction args generalizing o values types s with
  | nil =>
      rw [Moves.shown] at passed
      obtain ⟨-, rfl⟩ := pure_eq_some.mp passed
      exact .goes rfl rfl (followed_safe tracked goesOn)
  | cons arg rest ih =>
      have eachRest := fun arg member => each arg (List.mem_cons_of_mem _ member)
      rw [Moves.shown] at passed
      split at passed
      · rename_i isPlace
        obtain ⟨spot, found, passed⟩ := placeOf_bind passed
        obtain ⟨_, mid, shows, passes⟩ := bind_eq_some.mp passed
        obtain ⟨whole, rfl⟩ := showPlace_eq_some shows
        have entered : advance ctx (.shown template values (arg :: rest)) k =
            some (goTo (.place arg) (.cons (.shownPlace template values arg rest) k)) := by
          simp only [advance, isPlace, if_true]
        refine .goes entered rfl (placeOf_safe arg found
          (k := .cons (.shownPlace template values arg rest) k) tracked
          (fun depth _ => whole.held depth) (shownPlace_safe arg whole ?_))
        intro later v s extended tracked
        refine ih eachRest passes ?_ (returns.later extended) (goesOn.later extended)
        simpa [ownedValues] using tracked
      · rename_i notPlace
        obtain ⟨operand, mid, begins, passed⟩ := bind_eq_some.mp passed
        obtain ⟨_, -, passes⟩ := answer_bind passed
        have entered : advance ctx (.shown template values (arg :: rest)) k =
            some (goTo (.expr arg) (.cons (.shownValue template values arg rest) k)) := by
          simp only [advance, notPlace, if_false, Bool.false_eq_true]
        refine .goes entered rfl (each arg List.mem_cons_self
          (k := .cons (.shownValue template values arg rest) k) begins tracked
          (.push returns (fun _ => rfl) ?_))
        intro _ later v s extended _ tracked
        refine .goes rfl rfl (ih eachRest passes ?_ (returns.later extended)
          (goesOn.later extended))
        simpa [ownedValues, Stack.values, Frame.values] using tracked

theorem macroCall_safe (loc : Option Position) (callee template : String) {args : List Expr}
    (each : ∀ arg ∈ args, ExprSafe ctx rules n arg) :
    ExprSafe ctx rules n (.macroCall loc callee template args) := by
  intro o after value counts callers types s k passed tracked goesOn
  rw [Moves.expr] at passed
  obtain ⟨_, -, passed⟩ := answer_bind passed
  obtain ⟨_, mid, passes, ends⟩ := bind_eq_some.mp passed
  obtain ⟨rfl, rfl⟩ := pure_eq_some.mp ends
  refine .goes rfl rfl (shown_safe each passes ?_ goesOn.returns (goesOn.value rfl))
  rw [show ownedValues [] = [] from rfl, List.append_nil]
  exact tracked

end BorrowLang.Evaluator
