import BorrowLang.Proofs.Accepted
import BorrowLang.Proofs.Code.Run
import BorrowLang.Proofs.Leaks.Run
import BorrowLang.Proofs.Typing.Run

/-!
# Programs that do not leak

A value that waits for other arguments is lost when one of those returns from the function.  A
program that has passed the check and only returns from first arguments loses nothing: what is left
after a run is what its result owns.
-/

set_option autoImplicit false

namespace BorrowLang

namespace CodeRule

/-- No argument after the first returns from the function. -/
def returnsFirst : CodeRule where
  callArg before arg := before.isEmpty || arg.obeys noReturn
  macroArg before arg := before.isEmpty || arg.obeys noReturn

end CodeRule

/-- A place has no part that is run, and so obeys every rule. -/
theorem Typing.PlaceTyped.obeys {env : Env} {expr : Expr} {ty : Ty}
    (place : PlaceTyped env expr ty) (rule : CodeRule) : expr.obeys rule = true := by
  induction place with
  | name => simp [Expr.obeys]
  | ofBorrow _ ih => simpa [Expr.obeys] using ih
  | deref _ _ ih => simpa [Expr.obeys] using ih

namespace Evaluator

open Ownership Typing

/-! ### No return past a box -/

/-- The frames up to the next call hold no box. -/
def Stack.Bare : {mode : Mode} → Stack mode → Prop
  | _, .nil => True
  | _, .cons frame rest => frame.isCall = true ∨ (boxes frame.values = [] ∧ rest.Bare)

/-- Nothing returns from inside of a frame that holds a box. -/
def noReturnGuard : Guard .noReturn where
  quiet := Stack.Bare
  asks frame := boxes frame.values ≠ []
  holds := by
    intro first next frame asks
    cases frame <;> simp_all [Frame.values, Frame.holdsValues, boxes]
  push := fun bare quiet => Or.inr ⟨not_not.mp quiet, bare⟩
  pop := fun inside bare => (bare.resolve_left (by simp [inside])).2

section Typed

variable {ctx : Context} {signature? : String → Option Signature} {types : CellTypes}
variable {v : Value} {s : State}

theorem Value.HasType.plain (ofType : v.HasType types .i32 ∨ v.HasType types .bool ∨
    v.HasType types .unit) : boxes [v] = [] := by
  rcases ofType with ofType | ofType | ofType <;> cases ofType <;> rfl

theorem BinaryTyped.plain {op : BinaryOp} {operand ty : Ty} (known : BinaryTyped op operand ty)
    (ofType : v.HasType types operand) : boxes [v] = [] := by
  cases known with
  | arith | order => exact Value.HasType.plain (Or.inl ofType)
  | eq plain | ne plain =>
      rcases plain with rfl | rfl
      · exact Value.HasType.plain (Or.inl ofType)
      · exact Value.HasType.plain (Or.inr (Or.inl ofType))

/-- A return is in the first argument, which does not wait for others. -/
theorem obeys_of_returnsFirst {before : List Expr} {arg : Expr} {values : List Value}
    (allowed : (before.isEmpty || arg.obeys .noReturn) = true)
    (length : values.length ≤ before.length) (asks : boxes values ≠ []) :
    arg.obeys .noReturn = true := by
  rcases (Bool.or_eq_true _ _).mp allowed with none | free
  · obtain rfl := List.isEmpty_iff.mp none
    obtain rfl := List.length_eq_zero_iff.mp (Nat.le_zero.mp length)
    contradiction
  · exact free

/-- In a machine that is typed, and whose arguments return in order, no return goes past a box. -/
theorem noReturnGuard_heeds {m : Machine} (typed : m.Typed signature?)
    (obeys : m.Obeys .returnsFirst) : noReturnGuard.Heeds ctx m.control m.stack := by
  obtain ⟨control, k, s⟩ := m
  obtain ⟨types, standing⟩ := typed
  have known := obeys.control
  cases control with
  | args loc func values rest =>
      cases rest with
      | nil => exact fun _ _ => trivial
      | cons arg rest =>
          obtain ⟨-, ⟨before, length, allowed⟩, -⟩ := known
          rw [argsAllowed, Bool.and_eq_true] at allowed
          exact obeys_of_returnsFirst allowed.1 length.ge
  | shown template values rest =>
      cases rest with
      | nil => trivial
      | cons arg rest =>
          obtain ⟨-, -, allowed, -⟩ := known
          rw [argsAllowed, Bool.and_eq_true] at allowed
          have length : (ownedValues values).length ≤ (values.map (·.arg)).length := by
            rw [ownedValues, List.length_map, List.length_map]
            exact List.length_filter_le _ _
          exact fun asks => obeys_of_returnsFirst allowed.1 length (asks.elim id id)
  | enter f values => exact Or.inr (Or.inl rfl)
  | value v =>
      cases standing with
      | inside comes => cases comes
      | value ofType fit =>
          cases fit with
          | frame takes =>
              cases takes with
              | left known => exact fun asks => absurd (known.plain ofType) asks
              | assignValue place => exact fun _ => place.obeys .noReturn
              | combineValue place => exact fun _ => place.obeys .noReturn
              | _ => trivial
          | _ => trivial
  | _ => trivial

theorem noReturnGuard_reached (program : ProgramTyped ctx signature?)
    (functions : ∀ f ∈ ctx.functions, f.body.obeys .returnsFirst = true) (steps : Nat) :
    noReturnGuard.Holds (reached ctx steps).control (reached ctx steps).stack :=
  Guard.holds_reached (Guard.holds_start trivial)
    (fun steps _ =>
      noReturnGuard_heeds (typed_reached program steps) (obeys_reached functions rfl steps))
    steps

/-! ### Nothing is lost -/

theorem usesUp_typed {next : Mode} {frame : Frame .value next} {k : Stack next} {envs : List Env}
    {result ty : Ty} (ofType : v.HasType types ty)
    (fit : Fit types signature? envs result (some ty) (.cons frame k)) :
    boxes (frame.usesUp v) = [] := by
  cases fit with
  | leaveCall => rfl
  | frame takes =>
      cases takes with
      | @unary _ op ty known =>
          cases op with
          | neg =>
              obtain rfl := Option.some.inj known
              exact Value.HasType.plain (Or.inl ofType)
          | not =>
              obtain rfl := Option.some.inj known
              exact Value.HasType.plain (Or.inr (Or.inl ofType))
          | unknown => simp [unaryType?] at known
      | right known ofFirst =>
          rw [Frame.usesUp, boxes_cons, known.plain ofType, List.append_nil, ← boxes_singleton]
          exact known.plain ofFirst
      | logic | truth | branch | branchOnly | loopCondition =>
          exact Value.HasType.plain (Or.inr (Or.inl ofType))
      | loopBody => exact Value.HasType.plain (Or.inr (Or.inr ofType))
      | _ => rfl

/-- A step of a machine that is typed loses no box, unless a return goes past one. -/
theorem loses_typed {m : Machine} (program : ProgramTyped ctx signature?)
    (typed : m.Typed signature?) (guarded : noReturnGuard.Holds m.control m.stack) :
    boxes (loses ctx m.control m.stack) = [] := by
  obtain ⟨control, k, s⟩ := m
  obtain ⟨types, standing⟩ := typed
  cases control with
  | value v =>
      cases k with
      | nil => rfl
      | cons frame k =>
          cases standing with
          | inside comes => cases comes
          | value ofType fit => exact usesUp_typed ofType fit
  | found l =>
      cases k with
      | cons frame k =>
          cases standing with
          | inside comes suits fit =>
              cases comes
              obtain rfl : some _ = _ := suits
              cases fit with
              | frame takes =>
                  cases takes with
                  | combinePlace ofType => exact Value.HasType.plain (Or.inl ofType)
                  | _ => rfl
  | args loc func values rest =>
      cases standing with
      | inside comes =>
          cases comes with
          | args found ofTypes typed =>
              cases typed with
              | cons => rfl
              | nil =>
                  rw [List.append_nil] at found
                  rcases program.function func _ found with ⟨f, known, -⟩ | ⟨known, -, isBuiltin⟩
                  · simp [loses, known, boxes]
                  · obtain ⟨rfl, -⟩ := Signature.mk.inj isBuiltin
                    cases ofTypes with
                    | cons ofType none =>
                        cases none
                        rw [loses, known, Option.isNone_none, if_pos rfl]
                        exact Value.HasType.plain (Or.inl ofType)
  | enter f values =>
      cases standing with
      | inside comes => cases comes
      | enter function ofTypes =>
          have length : values.length ≤ f.params.length := by
            rw [function.arity, ofTypes.length_eq]
          rw [loses, List.drop_eq_nil_of_le length]
          rfl
  | interrupted interrupt =>
      cases k with
      | nil => cases interrupt <;> rfl
      | cons frame k =>
          cases interrupt with
          | failed fault => rfl
          | returned v =>
              have bare : Stack.Bare (.cons frame k) := guarded.control.resolve_left (by
                intro impossible
                simp [Control.Obeys, CodeRule.noReturn] at impossible)
              rcases bare with isCall | ⟨none, -⟩
              · cases frame <;> simp_all [Frame.isCall, loses, Frame.values, boxes]
              · exact none
  | _ => rfl

theorem lost_typed (program : ProgramTyped ctx signature?)
    (functions : ∀ f ∈ ctx.functions, f.body.obeys .returnsFirst = true) (steps : Nat) :
    lost ctx steps = [] := by
  induction steps with
  | zero => rfl
  | succ steps ih =>
      rw [lost, ih, List.nil_append]
      exact loses_typed program (typed_reached program steps)
        (noReturnGuard_reached program functions steps)

end Typed

/-- No leak.  A program that was read from a text, has passed the check, and does not return from an
argument after others leaves nothing at a normal end but the cells that its result owns, which are
none if the result is not a box. -/
theorem run_noLeak {textFile file : Option String} {text : String} {program : Program}
    {settings : Settings} {signatures : List (String × Signature)} {ctx : Context}
    (read : Program.ofText textFile text = .ok program)
    (passed : program.check settings file = .ok signatures)
    (returnsFirst : program.obeys .returnsFirst = true)
    (functions : ctx.functions = program.functions)
    (entry : ctx.settings.entry = settings.entry) {steps : Nat} {value : Value} {s : State}
    (ended : reached ctx steps = ⟨.value value, .nil, s⟩) :
    (∃ owned, s.heap.owned value = .ok owned ∧ s.heap.live = owned.length ∧
      s.heap.allocated = s.heap.freed + owned.length) ∧
    (value.box? = none → s.heap.live = 0 ∧ s.heap.freed = s.heap.allocated) := by
  have typed := Checker.programTyped_of_check passed (ofText_regular read) functions entry
  have inOrder : ∀ f ∈ ctx.functions, f.body.obeys .returnsFirst = true := by
    rw [functions]
    exact List.all_eq_true.mp returnsFirst
  obtain ⟨owned, found, live, total⟩ := run_leaves ended (lost_typed typed inOrder steps)
  refine ⟨⟨owned, found, live, total⟩, fun plain => ?_⟩
  obtain rfl : [] = owned := Except.ok.inj ((owned_eq_nil plain).symm.trans found)
  exact ⟨live, total.symm⟩

/-- The run of a text that is accepted is at a normal end, with some cells left. -/
def endsWith (text : String) (steps live : Nat) (returnsFirst : Bool) : Bool :=
  (accepted? text).any fun program =>
    program.obeys .returnsFirst = returnsFirst &&
      match reached ⟨program.functions, default, none⟩ steps with
      | ⟨.value _, .nil, s⟩ => s.heap.live = live
      | _ => false

theorem parts_of_endsWith {text : String} {steps live : Nat} {returnsFirst : Bool}
    (ends : endsWith text steps live returnsFirst = true) :
    ∃ program signatures value s, Program.ofText none text = .ok program ∧
      program.check default none = .ok signatures ∧ program.obeys .returnsFirst = returnsFirst ∧
      reached ⟨program.functions, default, none⟩ steps = ⟨.value value, .nil, s⟩ ∧
      s.heap.live = live := by
  obtain ⟨program, accepted, known⟩ := (Option.any_eq_true _ _).mp ends
  obtain ⟨signatures, read, passed⟩ := parts_of_accepted accepted
  obtain ⟨inOrder, atEnd⟩ := (Bool.and_eq_true _ _).mp known
  split at atEnd
  · rename_i value s isEnd
    exact ⟨program, signatures, value, s, read, passed, of_decide_eq_true inOrder, isEnd,
      of_decide_eq_true atEnd⟩
  · simp at atEnd

/-- The text of a program that binds a box. -/
def boxText : String := "fn main(){let b=Box::new(1);}"

/-- The run of `boxText` ends after thirteen steps and leaves nothing. -/
theorem run_noLeak_boxText :
    ∃ program signatures value s, Program.ofText none boxText = .ok program ∧
      program.check default none = .ok signatures ∧ program.obeys .returnsFirst = true ∧
      reached ⟨program.functions, default, none⟩ 13 = ⟨.value value, .nil, s⟩ ∧
      ∃ owned, s.heap.owned value = .ok owned ∧ s.heap.live = owned.length ∧
        s.heap.allocated = s.heap.freed + owned.length := by
  have ends : endsWith boxText 13 0 true = true := by decide +kernel
  obtain ⟨program, signatures, value, s, read, passed, returnsFirst, isEnd, -⟩ :=
    parts_of_endsWith ends
  exact ⟨program, signatures, value, s, read, passed, returnsFirst, isEnd,
    (run_noLeak read passed returnsFirst rfl rfl isEnd).1⟩

/-- The text of a program whose entry function returns a box. -/
def returnBox : String := "fn main()->Box<i32>{Box::new(1)}"

/-- The text of a program that returns from an argument after a box. -/
def returnPastBox : String := "fn f(b:Box<i32>,n:i32){}fn main(){f(Box::new(1),{return;1});}"

/-- Not every program that passes the check leaves nothing: a result that is a box is left, and so is
an argument before one that returns. -/
theorem run_leak :
    (∃ program signatures value s, Program.ofText none returnBox = .ok program ∧
      program.check default none = .ok signatures ∧ program.obeys .returnsFirst = true ∧
      reached ⟨program.functions, default, none⟩ 9 = ⟨.value value, .nil, s⟩ ∧
      s.heap.live = 1) ∧
    ∃ program signatures value s, Program.ofText none returnPastBox = .ok program ∧
      program.check default none = .ok signatures ∧ program.obeys .returnsFirst = false ∧
      reached ⟨program.functions, default, none⟩ 23 = ⟨.value value, .nil, s⟩ ∧
      s.heap.live = 1 :=
  ⟨parts_of_endsWith (by decide +kernel), parts_of_endsWith (by decide +kernel)⟩

end Evaluator

end BorrowLang
