import BorrowLang.Proofs.Leaks.Machine
import BorrowLang.Proofs.Ownership.Run

/-!
# Leaks along a run

Whatever the program, a cell that a run still uses is on the chain of a scope's cell, of a box in
flight, or of a box that a step has lost.  A run that ends normally and has lost nothing leaves just
the cells that its result owns.
-/

set_option autoImplicit false

namespace BorrowLang

namespace Ownership

/-- The cells on a chain that leads everywhere are all the cells. -/
theorem Chain.live_eq {heap : Heap} {a : Addr} {chain : List Addr}
    (run : Chain heap.lookup a chain) (all : ∀ b, (heap.lookup b).isSome → b ∈ chain) :
    heap.live = chain.length := by
  have inChain : heap.cells.keys ⊆ chain := by
    intro b member
    rw [Std.TreeMap.mem_keys, Std.TreeMap.mem_iff_isSome_getElem?] at member
    exact all b member
  have bound := (Std.TreeMap.nodup_keys.subperm inChain).length_le
  rw [Std.TreeMap.length_keys] at bound
  exact Nat.le_antisymm bound run.length_le_live

/-- Each cell of a chain is owned by the first, over any number of boxes. -/
theorem Chain.reaches {heap : Heap} {a b : Addr} {chain : List Addr}
    (run : Chain heap.lookup a chain) (inChain : b ∈ chain) :
    Relation.ReflTransGen (Owns heap) a b := by
  induction run with
  | last here alone =>
      obtain rfl := List.mem_singleton.mp inChain
      exact .refl
  | next owns rest ih =>
      rcases List.mem_cons.mp inChain with rfl | further
      · exact .refl
      · exact .head owns (ih further)

theorem live_eq_zero {heap : Heap} (none : ∀ b, ¬ (heap.lookup b).isSome) : heap.live = 0 := by
  unfold Heap.live
  rw [← Std.TreeMap.length_keys, List.length_eq_zero_iff, List.eq_nil_iff_forall_not_mem]
  intro b member
  rw [Std.TreeMap.mem_keys, Std.TreeMap.mem_iff_isSome_getElem?] at member
  exact none b member

end Ownership

namespace Evaluator

open Ownership

variable {ctx : Context} {lostSoFar : List Addr}

/-- Nothing stops a machine on its way out with a fault. -/
theorem unwind_failed {mode next : Mode} {s : State} {fault : Fault} {frame : Frame mode next}
    {k : Stack next} (sound : Sound (.interrupted (.failed fault)) (.cons frame k) s) :
    Meets (unwind (.failed fault) frame k).action s (fun control _ => control.failed = true)
      fun _ _ => False := by
  obtain ⟨below, under, -⟩ := sound.fits
  cases frame with
  | leaveScope =>
      obtain ⟨count, rest, shape, -⟩ := under
      simp only [unwind, meets_bind, meets_pure]
      apply Meets.uncut (popScope_meets sound.owned shape)
      exact fun _ _ _ => rfl
  | leaveCall f =>
      simp only [unwind, meets_bind, meets_pure]
      apply Meets.uncut (popFrame_meets sound.owned under)
      exact fun _ _ _ => rfl
  | _ => rfl

theorem failed_step {m next : Machine} (sound : Sound m.control m.stack m.state)
    (failed : m.control.failed = true) (step : m.step ctx = some next) :
    next.control.failed = true := by
  obtain ⟨control, k, s⟩ := m
  obtain ⟨t, advanced, rfl⟩ := Option.map_eq_some_iff.mp step
  cases control with
  | interrupted interrupt =>
      cases interrupt with
      | returned v => simp [Control.failed] at failed
      | failed fault =>
          cases k with
          | nil => simp [advance] at advanced
          | cons frame k =>
              obtain rfl := Option.some.inj advanced
              obtain ⟨control, after, done, still⟩ := (unwind_failed sound).completes
              unfold Transition.perform
              rw [done]
              exact still
  | _ => simp [Control.failed] at failed

theorem Full.step {m next : Machine} (sound : Sound m.control m.stack m.state)
    (full : Full lostSoFar m.control m.stack m.state) (step : m.step ctx = some next) :
    Full (lostSoFar ++ boxes (loses ctx m.control m.stack)) next.control next.stack
      next.state := by
  by_cases failed : m.control.failed = true
  · intro works
    rw [failed_step sound failed step] at works
    contradiction
  · obtain ⟨t, advanced, rfl⟩ := Option.map_eq_some_iff.mp step
    have fills := advance_fills sound full (Bool.eq_false_iff.mpr failed) advanced
    unfold Transition.Fills Meets at fills
    unfold Transition.perform
    cases done : t.action m.state with
    | mk result after =>
        rw [done] at fills
        cases result <;> exact fills

/-- The boxes that a run has lost on the way to a machine. -/
def lost (ctx : Context) : (steps : Nat) → List Addr
  | 0 => []
  | steps + 1 =>
      lost ctx steps ++ boxes (loses ctx (reached ctx steps).control (reached ctx steps).stack)

theorem full_start (ctx : Context) :
    Full [] (Machine.start ctx).control (Machine.start ctx).stack (Machine.start ctx).state := by
  have none : ∀ addr, ¬ (Heap.lookup {} addr).isSome := by simp [Heap.lookup]
  unfold Machine.start
  split
  · exact fun _ addr here => absurd here (none addr)
  · exact fun _ addr here => absurd here (none addr)

theorem full_reached (ctx : Context) (steps : Nat) :
    Full (lost ctx steps) (reached ctx steps).control (reached ctx steps).stack
      (reached ctx steps).state := by
  induction steps with
  | zero => exact full_start ctx
  | succ steps ih =>
      rw [reached_succ, lost]
      cases step : (reached ctx steps).step ctx with
      | some next => exact ih.step (sound_reached ctx steps) step
      | none =>
          refine fun works => (ih works).more fun root member => ?_
          rw [← List.append_assoc]
          exact List.mem_append_left _ member

theorem failed_of_fault? {m : Machine} (fine : m.fault? = none) : m.control.failed = false := by
  obtain ⟨control, k, s⟩ := m
  cases control with
  | interrupted interrupt =>
      cases interrupt with
      | returned => rfl
      | failed => simp [Machine.fault?] at fine
  | _ => rfl

/-- Every cell in use is accounted for: it belongs to a scope, or a chain of boxes leads to it from
a scope's cell, from a box in flight, or from a box that was lost. -/
theorem run_covers (steps : Nat) (fine : (reached ctx steps).fault? = none) {addr : Addr}
    (here : (reached ctx steps).state.heap.contains addr) :
    ∃ root ∈ (reached ctx steps).state.scopeCells ++ ((reached ctx steps).flight ++ lost ctx steps),
      Relation.ReflTransGen (Owns (reached ctx steps).state.heap) root addr := by
  rw [Heap.contains_eq] at here
  obtain ⟨root, member, chain, run, inChain⟩ :=
    (full_reached ctx steps (failed_of_fault? fine)).exists_root
      (sound_reached ctx steps).owned.forest.ends here
  exact ⟨root, member, run.reaches inChain⟩

/-- What is left after a normal end: the cells that the result owns, unless boxes were lost. -/
theorem run_leaves {steps : Nat} {value : Value} {s : State}
    (ended : reached ctx steps = ⟨.value value, .nil, s⟩) (kept : lost ctx steps = []) :
    ∃ owned, s.heap.owned value = .ok owned ∧ s.heap.live = owned.length ∧
      s.heap.allocated = s.heap.freed + owned.length := by
  have sound := sound_reached ctx steps
  have full := full_reached ctx steps
  rw [ended] at sound full
  rw [kept] at full
  have atEnd : (Machine.mk (.value value) .nil s).step ctx = none := rfl
  have scopeCells : s.scopeCells = [] := by
    rw [State.scopeCells, frames_eq_nil_of_ended sound atEnd, List.flatMap_nil]
  have ends := sound.owned.forest.ends
  have total := sound.owned.accounted.total
  have onChain : ∀ b, (s.heap.lookup b).isSome →
      ∃ root ∈ value.box?.toList, ∃ chain, Chain s.heap.lookup root chain ∧ b ∈ chain := by
    intro b here
    obtain ⟨root, member, found⟩ := (full rfl).exists_root ends here
    simp only [scopeCells, Stack.values, Control.values, List.nil_append, List.append_nil,
      boxes_singleton] at member
    exact ⟨root, member, found⟩
  cases isBox : value.box? with
  | none =>
      have live : s.heap.live = 0 := by
        refine live_eq_zero fun b here => ?_
        obtain ⟨root, member, -⟩ := onChain b here
        simp [isBox] at member
      exact ⟨[], owned_eq_nil isBox, live, by rw [live] at total; exact total⟩
  | some root =>
      obtain rfl := Value.box?_eq_some.mp isBox
      obtain ⟨chain, run⟩ := ends root (sound.owned.forest.present root (by
        simp [Stack.values, Control.values, boxes_singleton, isBox]))
      have live : s.heap.live = chain.length := by
        refine run.live_eq fun b here => ?_
        obtain ⟨other, member, chain', run', inChain⟩ := onChain b here
        obtain rfl : other = root := by simpa [isBox] using member
        rwa [run.unique run']
      exact ⟨chain, run.owned_eq, live, by rw [← live]; exact total⟩

end Evaluator

end BorrowLang
