import BorrowLang.Proofs.Accepted
import BorrowLang.Proofs.Captures.Machine
import BorrowLang.Proofs.Code.Run
import BorrowLang.Proofs.Typing.Run

/-!
# Programs that do not misuse the heap

A program that has passed the check reaches a cell that is gone only when a macro follows a box that
a later argument of the macro has dropped.  Where no argument after a place runs statements or other
functions, every box is still there when it is followed.
-/

set_option autoImplicit false

namespace BorrowLang

namespace CodeRule

/-- In a macro, the arguments after a place run neither statements nor other functions. -/
def calmAfterPlace : CodeRule where
  macroArg before arg := !before.any Expr.isPlace || arg.obeys calm

end CodeRule

namespace Evaluator

open Ownership Typing

/-- What the heap promises of a run. -/
structure HeapSafe (ctx : Context) : Prop where
  /-- No step fails on the heap. -/
  faults : ∀ steps, ∀ fault ∈ (reached ctx steps).fault?, ¬ fault.OfHeap
  /-- A box that a macro is about to follow leads to a cell in use. -/
  shown : ∀ steps template owned texts rest k s,
    reached ctx steps = ⟨.follow template owned texts rest, k, s⟩ →
    ∀ arg addr, (arg, Value.box addr) ∈ rest → s.heap.contains addr

section Runs

variable {ctx : Context} {signature? : String → Option Signature}

/-- Where a box is captured, a place came before. -/
theorem any_isPlace_of_captured {values : List Shown}
    (kinds : ∀ one ∈ values, one.owned = !one.arg.isPlace)
    (captured : boxes (capturedValues values) ≠ []) :
    (values.map (·.arg)).any Expr.isPlace = true := by
  obtain ⟨box, member⟩ := List.exists_mem_of_ne_nil _ captured
  obtain ⟨value, inValues, -⟩ := List.mem_filterMap.mp member
  obtain ⟨one, kept, -⟩ := List.mem_map.mp inValues
  obtain ⟨inShown, notOwned⟩ := List.mem_filter.mp kept
  have isPlace : one.arg.isPlace = true := by simpa [kinds one inShown] using notOwned
  exact List.any_eq_true.mpr ⟨one.arg, List.mem_map_of_mem inShown, isPlace⟩

theorem calmGuard_heeds {m : Machine} (obeys : m.Obeys .calmAfterPlace)
    (holds : calmGuard.Holds m.control m.stack) : calmGuard.Heeds ctx m.control m.stack := by
  obtain ⟨control, k, s⟩ := m
  have known := obeys.control
  cases control with
  | args loc func values rest =>
      cases rest with
      | nil => exact fun _ _ => trivial
      | cons arg rest => exact fun asks => absurd rfl asks
  | shown template values rest =>
      cases rest with
      | nil => trivial
      | cons arg rest =>
          obtain ⟨-, kinds, allowed, -⟩ := known
          rw [argsAllowed, Bool.and_eq_true] at allowed
          intro asks
          have place := any_isPlace_of_captured kinds (asks.elim id id)
          exact ((Bool.or_eq_true _ _).mp allowed.1).resolve_left (by rw [place]; decide)
  | enter f values =>
      have quiet : k.captured = [] := holds.control.resolve_left (by
        simp [Control.Obeys, CodeRule.calm])
      exact Or.inr (List.append_eq_nil_iff.mpr ⟨quiet, rfl⟩)
  | value v =>
      cases k with
      | nil => trivial
      | cons frame k =>
          cases frame with
          | left => exact fun asks => absurd rfl asks
          | assignValue => exact fun asks => absurd rfl asks
          | _ => trivial
  | _ => trivial

theorem calmGuard_reached
    (functions : ∀ f ∈ ctx.functions, f.body.obeys .calmAfterPlace = true) (steps : Nat) :
    calmGuard.Holds (reached ctx steps).control (reached ctx steps).stack :=
  Guard.holds_reached (Guard.holds_start rfl)
    (fun steps holds => calmGuard_heeds (obeys_reached functions rfl steps) holds) steps

theorem attends_start (ctx : Context) :
    Attends (Machine.start ctx).control (Machine.start ctx).stack (Machine.start ctx).state := by
  have tidy : Tidy (Heap.lookup {}) := by
    intro addr cell found
    simp [Heap.lookup] at found
  unfold Machine.start
  split
  · exact ⟨⟨tidy, by simp [Stack.captured, Control.captured]⟩, id⟩
  · exact ⟨⟨tidy, by simp [Stack.captured, Control.captured]⟩, trivial⟩

theorem Attends.step {m next : Machine} (sound : Sound m.control m.stack m.state)
    (typed : m.Typed signature?) (calm : calmGuard.Holds m.control m.stack)
    (attends : Attends m.control m.stack m.state) (step : m.step ctx = some next) :
    Attends next.control next.stack next.state := by
  obtain ⟨types, standing⟩ := typed
  obtain ⟨t, advanced, rfl⟩ := Option.map_eq_some_iff.mp step
  have attendsNext := advance_attends sound standing calm attends advanced
  unfold Transition.Attends Meets at attendsNext
  unfold Transition.perform
  cases done : t.action m.state with
  | mk result after =>
      rw [done] at attendsNext
      cases result <;> exact attendsNext

theorem attends_reached (program : ProgramTyped ctx signature?)
    (functions : ∀ f ∈ ctx.functions, f.body.obeys .calmAfterPlace = true) (steps : Nat) :
    Attends (reached ctx steps).control (reached ctx steps).stack (reached ctx steps).state := by
  induction steps with
  | zero => exact attends_start ctx
  | succ steps ih =>
      rw [reached_succ]
      cases step : (reached ctx steps).step ctx with
      | none => exact ih
      | some next =>
          exact ih.step (sound_reached ctx steps) (typed_reached program steps)
            (calmGuard_reached functions steps) step

theorem heapSafe_of_typed (program : ProgramTyped ctx signature?)
    (functions : ∀ f ∈ ctx.functions, f.body.obeys .calmAfterPlace = true) : HeapSafe ctx where
  faults steps fault known := by
    have clean := (attends_reached program functions steps).clean
    generalize reached ctx steps = m at known clean
    obtain ⟨control, k, s⟩ := m
    cases control with
    | interrupted interrupt =>
        cases interrupt with
        | returned v => simp [Machine.fault?] at known
        | failed other =>
            obtain rfl := Option.some.inj known
            exact clean
    | _ => simp [Machine.fault?] at known
  shown steps template owned texts rest k s isFollow arg addr member := by
    have attends := attends_reached program functions steps
    rw [isFollow] at attends
    rw [Heap.contains_eq]
    refine attends.shows.held addr (List.mem_append_right _ ?_)
    exact List.mem_filterMap.mpr ⟨.box addr, List.mem_map.mpr ⟨(arg, .box addr), member, rfl⟩, rfl⟩

end Runs

/-- Heap safety.  A program that was read from a text, has passed the check, and in its macros runs
neither statements nor other functions after an argument that is a place does not misuse the heap. -/
theorem run_heapSafe {textFile file : Option String} {text : String} {program : Program}
    {settings : Settings} {signatures : List (String × Signature)} {ctx : Context}
    (read : Program.ofText textFile text = .ok program)
    (passed : program.check settings file = .ok signatures)
    (calm : program.obeys .calmAfterPlace = true)
    (functions : ctx.functions = program.functions)
    (entry : ctx.settings.entry = settings.entry) : HeapSafe ctx := by
  refine heapSafe_of_typed
    (Checker.programTyped_of_check passed (ofText_regular read) functions entry) ?_
  rw [functions]
  exact List.all_eq_true.mp calm

/-- The text of a program that shows a box before another value. -/
def showBox : String := "fn main()\x7blet b=Box::new(1);println!(\"\x7b\x7d\x7b\x7d\",b,2);\x7d"

/-- `showBox` is accepted, and nothing is run after the place that it shows. -/
theorem run_heapSafe_showBox :
    ∃ program signatures, Program.ofText none showBox = .ok program ∧
      program.check default none = .ok signatures ∧ program.obeys .calmAfterPlace = true ∧
      HeapSafe ⟨program.functions, default, none⟩ := by
  have accepted : (accepted? showBox).any (·.obeys .calmAfterPlace) = true := by decide +kernel
  obtain ⟨program, found, calm⟩ := (Option.any_eq_true _ _).mp accepted
  obtain ⟨signatures, read, passed⟩ := parts_of_accepted found
  exact ⟨program, signatures, read, passed, calm, run_heapSafe read passed calm rfl rfl⟩

/-- The text of a program that drops a box in an argument after it. -/
def showDropped : String := "fn main()\x7blet b=Box::new(1);println!(\"\x7b\x7d\x7b\x7d\",b,\x7blet c=b;1\x7d);\x7d"

/-- Not every program that passes the check is safe: in `showDropped`, a box is gone before the macro
follows it. -/
theorem run_heapFault :
    ∃ program signatures, Program.ofText none showDropped = .ok program ∧
      program.check default none = .ok signatures ∧
      (reached ⟨program.functions, default, none⟩ 32).fault? =
        some (.heap (.freedAccess 1)) := by
  have faults : (accepted? showDropped).any (fun program =>
      (reached ⟨program.functions, default, none⟩ 32).fault? = some (.heap (.freedAccess 1))) =
        true := by decide +kernel
  obtain ⟨program, found, fault⟩ := (Option.any_eq_true _ _).mp faults
  obtain ⟨signatures, read, passed⟩ := parts_of_accepted found
  exact ⟨program, signatures, read, passed, of_decide_eq_true fault⟩

end Evaluator

end BorrowLang
