import BorrowLang.Proofs.Ownership.Faults
import BorrowLang.Proofs.Uses.Actions

/-!
# Safe runs

A machine is safe for some steps when none of them finds the use of a value that is not there.  What
is under way is safe when it is safe to go on from whatever it may come to: with a value of its type,
at a location, or by a return from the function.
-/

set_option autoImplicit false

namespace BorrowLang.Evaluator

open Ownership Moves

/-- No step of so many finds the use of a value that is not there, if the machine is in order. -/
def Safe (ctx : Context) (n : Nat) (m : Machine) : Prop :=
  Sound m.control m.stack m.state →
    ∀ steps ≤ n, ∀ fault ∈ (m.run ctx steps).fault?, ¬ fault.OfMove

variable {ctx : Context} {n : Nat} {mode next : Mode} {control : Control mode} {k : Stack mode}
variable {s : State} {types grown : CellTypes} {layers callers : List Layer}

namespace Safe

theorem mono {m : Machine} (safe : Safe ctx n m) {fewer : Nat} (atMost : fewer ≤ n) :
    Safe ctx fewer m :=
  fun sound steps bound => safe sound steps (Nat.le_trans bound atMost)

theorem zero {m : Machine} (here : m.fault? = none) : Safe ctx 0 m := by
  intro _ steps bound fault fails
  obtain rfl := Nat.le_zero.mp bound
  rw [Machine.run, here] at fails
  cases fails

theorem of_next {m : Machine} (here : m.fault? = none)
    (goesOn : Sound m.control m.stack m.state → ∀ next, m.step ctx = some next → Safe ctx n next) :
    Safe ctx (n + 1) m := by
  intro sound steps bound fault fails
  cases steps with
  | zero =>
      change fault ∈ m.fault? at fails
      rw [here] at fails
      cases fails
  | succ steps =>
      rw [Machine.run] at fails
      cases step : m.step ctx with
      | none =>
          rw [step] at fails
          change fault ∈ m.fault? at fails
          rw [here] at fails
          cases fails
      | some next =>
          rw [step] at fails
          exact goesOn sound next step (sound.step step).1 steps (Nat.le_of_succ_le_succ bound)
            fault fails

/-- A machine that fails for another reason is safe: it goes on failing for that reason. -/
theorem failed {fault : Fault} (other : ¬ fault.OfMove) :
    Safe ctx n ⟨(.interrupted (.failed fault) : Control mode), k, s⟩ := by
  intro sound steps bound found fails
  suffices same : ∀ m : Machine, Sound m.control m.stack m.state → fault ∈ m.fault? →
      fault ∈ (m.run ctx steps).fault? by
    have known := same ⟨(.interrupted (.failed fault) : Control mode), k, s⟩ sound rfl
    rw [Option.mem_def] at known fails
    obtain rfl := Option.some.inj (known.symm.trans fails)
    exact other
  clear fails bound
  induction steps with
  | zero => exact fun m _ known => known
  | succ steps ih =>
      intro m sound known
      rw [Machine.run]
      cases step : m.step ctx with
      | none => exact known
      | some next => exact ih next (sound.step step).1 (fault?_step sound known step)

theorem spared {interrupt : Interrupt} (isSpared : interrupt.Spared) :
    Safe ctx n ⟨(.interrupted interrupt : Control mode), k, s⟩ := by
  cases interrupt with
  | failed fault => exact failed isSpared
  | returned value => exact isSpared.elim

theorem of_advance {t : Transition} (advanced : advance ctx control k = some t)
    (here : Machine.fault? ⟨control, k, s⟩ = none)
    (leads : Sound control k s →
      Meets t.action s (fun target after => Safe ctx n ⟨target, t.stack, after⟩)
        fun interrupt after =>
          Safe ctx n ⟨(.interrupted interrupt : Control t.mode), t.stack, after⟩) :
    Safe ctx (n + 1) ⟨control, k, s⟩ := by
  refine of_next here fun sound next step => ?_
  obtain ⟨t', isStep, rfl⟩ := Option.map_eq_some_iff.mp step
  obtain rfl := Option.some.inj (advanced.symm.trans isStep)
  have leads := leads sound
  unfold Meets at leads
  unfold Transition.perform
  cases done : t.action s with
  | mk result after =>
      rw [done] at leads
      cases result <;> exact leads

/-- A step that only goes to another point. -/
theorem goes {target : Control next} {rest : Stack next}
    (advanced : advance ctx control k = some (goTo target rest))
    (here : Machine.fault? ⟨control, k, s⟩ = none) (safe : Safe ctx n ⟨target, rest, s⟩) :
    Safe ctx n ⟨control, k, s⟩ :=
  (of_advance advanced here fun _ => safe).mono (Nat.le_succ n)

/-- A step that does something, or fails for another reason. -/
theorem acts {action : Eval (Control next)} {rest : Stack next}
    (advanced : advance ctx control k = some ⟨rest, action⟩)
    (here : Machine.fault? ⟨control, k, s⟩ = none)
    (leads : Sound control k s →
      Meets action s (fun target after => Safe ctx n ⟨target, rest, after⟩)
        fun interrupt _ => interrupt.Spared) :
    Safe ctx n ⟨control, k, s⟩ :=
  (of_advance advanced here fun sound =>
    (leads sound).mono (fun _ _ => id) fun _ _ => spared).mono (Nat.le_succ n)

end Safe

/-! ### What is safe to go on from -/

theorem boxes_append_plain (values : List Value) {value : Value} (plain : value.box? = none) :
    boxes (values ++ [value]) = boxes values := by
  rw [boxes_append, boxes_singleton, plain, Option.toList_none, List.append_nil]

theorem box?_eq_none_of_addr? {value : Value} (plain : value.addr? = none) :
    value.box? = none := by
  cases value with
  | box addr => cases plain
  | _ => rfl

/-- It is safe to go on with a value of a type. -/
def OnValue (ctx : Context) (n : Nat) (layers : List Layer) (types : CellTypes) (ty : Ty)
    (k : Stack .value) : Prop :=
  ∀ (later : CellTypes) (value : Value) (s : State), types.Extends later → value.Shaped later ty →
    s.Tracked later layers (boxes (k.values ++ [value])) → Safe ctx n ⟨.value value, k, s⟩

/-- It is safe to go on when something is done. -/
def OnDone (ctx : Context) (n : Nat) (layers : List Layer) (types : CellTypes) (k : Stack .done) :
    Prop :=
  ∀ (later : CellTypes) (s : State), types.Extends later →
    s.Tracked later layers (boxes k.values) → Safe ctx n ⟨.finished, k, s⟩

/-- It is safe to return a value of a type from the innermost activation. -/
def OnReturn (ctx : Context) (n : Nat) (callers : List Layer) (types : CellTypes) (ty : Ty)
    {mode : Mode} (k : Stack mode) : Prop :=
  ∀ (later : CellTypes) (layer : Layer) (value : Value) (s : State), types.Extends later →
    value.Shaped later ty → s.Tracked later (layer :: callers) (boxes (k.values ++ [value])) →
      Safe ctx n ⟨(.interrupted (.returned value) : Control mode), k, s⟩

theorem OnValue.later {ty : Ty} {k : Stack .value} (goesOn : OnValue ctx n layers types ty k)
    (extended : types.Extends grown) : OnValue ctx n layers grown ty k :=
  fun last value s extendedLast => goesOn last value s (extended.trans extendedLast)

theorem OnValue.mono {ty : Ty} {k : Stack .value} (goesOn : OnValue ctx n layers types ty k)
    {fewer : Nat} (atMost : fewer ≤ n) : OnValue ctx fewer layers types ty k :=
  fun last value s extended shaped tracked =>
    (goesOn last value s extended shaped tracked).mono atMost

/-- What is safe with what is known is safe with more. -/
theorem OnValue.loosen {o after : Outline} {counts : List Nat} {ty : Ty} {k : Stack .value}
    (goesOn : OnValue ctx n (⟨after, counts⟩ :: callers) types ty k) (loosens : Loosens o after) :
    OnValue ctx n (⟨o, counts⟩ :: callers) types ty k :=
  fun last value s extended shaped tracked =>
    goesOn last value s extended shaped (tracked.loosen loosens)

theorem OnValue.coerce {ty final : Ty} {k : Stack .value}
    (goesOn : OnValue ctx n layers types final k) (coerces : ty.coercesTo final = true) :
    OnValue ctx n layers types ty k :=
  fun last value s extended shaped tracked =>
    goesOn last value s extended (shaped.coerce coerces) tracked

theorem OnDone.loosen {o after : Outline} {counts : List Nat} {k : Stack .done}
    (goesOn : OnDone ctx n (⟨after, counts⟩ :: callers) types k) (loosens : Loosens o after) :
    OnDone ctx n (⟨o, counts⟩ :: callers) types k :=
  fun last s extended tracked => goesOn last s extended (tracked.loosen loosens)

theorem OnDone.later {k : Stack .done} (goesOn : OnDone ctx n layers types k)
    (extended : types.Extends grown) : OnDone ctx n layers grown k :=
  fun last s extendedLast => goesOn last s (extended.trans extendedLast)

theorem OnDone.mono {k : Stack .done} (goesOn : OnDone ctx n layers types k) {fewer : Nat}
    (atMost : fewer ≤ n) : OnDone ctx fewer layers types k :=
  fun last s extended tracked => (goesOn last s extended tracked).mono atMost

namespace OnReturn

variable {ty : Ty}

theorem later (returns : OnReturn ctx n callers types ty k) (extended : types.Extends grown) :
    OnReturn ctx n callers grown ty k :=
  fun last layer value s extendedLast =>
    returns last layer value s (extended.trans extendedLast)

theorem mono (returns : OnReturn ctx n callers types ty k) {fewer : Nat} (atMost : fewer ≤ n) :
    OnReturn ctx fewer callers types ty k :=
  fun last layer value s extended shaped tracked =>
    (returns last layer value s extended shaped tracked).mono atMost

/-- A return goes past a frame that leaves neither a scope nor a call. -/
theorem push {frame : Frame next mode} (returns : OnReturn ctx n callers types ty k)
    (plain : ∀ interrupt, unwind interrupt frame k = goTo (.interrupted interrupt) k) :
    OnReturn ctx n callers types ty (.cons frame k) := by
  intro last layer value s extended shaped tracked
  refine .goes (congrArg some (plain _)) rfl (returns last layer value s extended shaped ?_)
  refine tracked.weaken fun box member => ?_
  simp only [Stack.values, boxes_append, List.mem_append] at member ⊢
  tauto

end OnReturn

/-- A scope is left, whatever comes after it. -/
theorem leaveScope_safe {k : Stack .value} {target : Control .value} {o : Outline}
    {counts : List Nat} (fits : (Stack.cons .leaveScope k).Fits s.shape)
    (owned : Owned s (boxes (k.values ++ target.values)))
    (tracked : s.Tracked types (⟨o, counts⟩ :: callers) (boxes (k.values ++ target.values)))
    (goesOn : ∀ after, after.Tracked types (⟨o.cut (counts.headD 0), counts.tail⟩ :: callers)
      (boxes (k.values ++ target.values)) → Safe ctx n ⟨target, k, after⟩) :
    Meets (do
      popScope
      return target) s (fun control after => Safe ctx n ⟨control, k, after⟩)
      fun interrupt _ => interrupt.Spared := by
  obtain ⟨below, ⟨count, rest, shape, -⟩, -⟩ := fits
  obtain ⟨scope, scopes, frames, framesEq⟩ := Open.frames ⟨count, rest, shape⟩
  simp only [meets_bind, meets_pure]
  refine Meets.mono (Meets.both (popScope_meets owned shape) (spares_popScope tracked.caused)) ?_
    fun _ _ met => met.2
  rintro _ after ⟨⟨-, -, -, thinned⟩, caused⟩
  exact goesOn after (tracked.popScope framesEq thinned caused)

/-- A call is left, whatever comes after it. -/
theorem leaveCall_safe {f : FunctionDef} {k : Stack .value} {target : Control .value}
    {layer : Layer} (fits : (Stack.cons (.leaveCall f) k).Fits s.shape)
    (owned : Owned s (boxes (k.values ++ target.values)))
    (tracked : s.Tracked types (layer :: callers) (boxes (k.values ++ target.values)))
    (goesOn : ∀ after, after.Tracked types callers (boxes (k.values ++ target.values)) →
      Safe ctx n ⟨target, k, after⟩) :
    Meets (do
      popFrame
      return target) s (fun control after => Safe ctx n ⟨control, k, after⟩)
      fun interrupt _ => interrupt.Spared := by
  obtain ⟨below, shape, -⟩ := fits
  simp only [meets_bind, meets_pure]
  refine Meets.mono (Meets.both (popFrame_meets owned shape) (spares_popFrame tracked.caused)) ?_
    fun _ _ met => met.2
  rintro _ after ⟨⟨-, -, -, thinned⟩, caused⟩
  exact goesOn after (tracked.popFrame thinned caused)

/-- A value is come to when its scope is left. -/
theorem OnValue.scope {o : Outline} {count : Nat} {counts : List Nat} {ty : Ty} {k : Stack .value}
    (goesOn : OnValue ctx n (⟨o.cut count, counts⟩ :: callers) types ty k) :
    OnValue ctx n (⟨o, count :: counts⟩ :: callers) types ty (.cons .leaveScope k) := by
  intro last value s extended shaped tracked
  refine .acts rfl rfl fun sound => ?_
  have values : (Stack.cons .leaveScope k).values = k.values := List.append_nil _
  have owned := sound.owned
  rw [values] at owned tracked
  exact leaveScope_safe sound.fits owned tracked fun after =>
    goesOn last value after extended shaped

/-- A value is come to when its call is left. -/
theorem OnValue.call {ty : Ty} {f : FunctionDef} {layer : Layer} {k : Stack .value}
    (goesOn : OnValue ctx n callers types ty k) :
    OnValue ctx n (layer :: callers) types ty (.cons (.leaveCall f) k) := by
  intro last value s extended shaped tracked
  refine .acts rfl rfl fun sound => ?_
  have values : (Stack.cons (.leaveCall f) k).values = k.values := List.append_nil _
  have owned := sound.owned
  rw [values] at owned tracked
  exact leaveCall_safe sound.fits owned tracked fun after => goesOn last value after extended shaped

namespace OnReturn

variable {ty : Ty}

/-- A return leaves the scopes on its way. -/
theorem scope {k : Stack .value} (returns : OnReturn ctx n callers types ty k) :
    OnReturn ctx n callers types ty (.cons .leaveScope k) := by
  intro last layer value s extended shaped tracked
  refine .acts rfl rfl fun sound => ?_
  have values : (Stack.cons .leaveScope k).values = k.values := List.append_nil _
  have owned := sound.owned
  rw [values] at owned tracked
  exact leaveScope_safe sound.fits owned tracked fun after =>
    returns last _ value after extended shaped

/-- A return from a call comes to a value there. -/
theorem call {k : Stack .value} {f : FunctionDef} (goesOn : OnValue ctx n callers types ty k) :
    OnReturn ctx n callers types ty (.cons (.leaveCall f) k) := by
  intro last layer value s extended shaped tracked
  refine .acts rfl rfl fun sound => ?_
  have values : (Stack.cons (.leaveCall f) k).values = k.values := List.append_nil _
  have owned := sound.owned
  rw [values] at owned tracked
  exact @leaveCall_safe ctx n s last callers f k (.value value) layer sound.fits owned tracked
    fun after => goesOn last value after extended shaped

end OnReturn

end BorrowLang.Evaluator
