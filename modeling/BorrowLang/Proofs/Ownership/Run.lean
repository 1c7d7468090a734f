import BorrowLang.Evaluator.Program
import BorrowLang.Proofs.Ownership.Machine
import Mathlib.Logic.Relation

/-!
# Ownership along a run

Whatever the program, a run keeps every machine in order: a box has one owner, ownership has no
cycle, dropping does not fail, and no cell is lost from the count.  At the end of a run no call is
open, and every cell that belonged to a scope on the way was freed, once.
-/

set_option autoImplicit false

namespace BorrowLang

/-- The boxes that the cells of a heap hold. -/
def Heap.liveBoxes (heap : Heap) : List Addr :=
  heap.cells.toList.filterMap fun entry => entry.2.box?

namespace Ownership

/-- A cell holds a box that points at another. -/
def Owns (heap : Heap) (a b : Addr) : Prop := boxAt heap.lookup a = some b

theorem mem_liveBoxes {heap : Heap} {b : Addr} :
    b ∈ heap.liveBoxes ↔ ∃ a, Owns heap a b := by
  simp only [Heap.liveBoxes, List.mem_filterMap, Prod.exists,
    Std.TreeMap.mem_toList_iff_getElem?_eq_some, Owns, boxAt, Option.bind_eq_some_iff]
  rfl

/-- What a cell owns, over any number of boxes, is further down its chain. -/
theorem mem_of_transGen {heap : Heap} {a b : Addr} {chain : List Addr}
    (path : Relation.TransGen (Owns heap) a b) (run : Chain heap.lookup a chain) :
    ∃ rest, chain = a :: rest ∧ b ∈ rest := by
  induction path using Relation.TransGen.head_induction_on generalizing chain with
  | single owns =>
      cases run with
      | last here alone => simp [Owns, alone] at owns
      | next owns' rest =>
          obtain rfl := Option.some.inj (owns'.symm.trans owns)
          exact ⟨_, rfl, rest.head_mem⟩
  | head owns path ih =>
      cases run with
      | last here alone => simp [Owns, alone] at owns
      | next owns' rest =>
          obtain rfl := Option.some.inj (owns'.symm.trans owns)
          obtain ⟨tail, rfl, member⟩ := ih rest
          exact ⟨_, rfl, List.mem_cons_of_mem _ member⟩

variable {heap : Heap} {roots : List Addr}

theorem Forest.acyclic (forest : Forest heap.lookup roots) (a : Addr) :
    ¬ Relation.TransGen (Owns heap) a a := by
  intro cycle
  obtain ⟨chain, run⟩ : ∃ chain, Chain heap.lookup a chain := by
    obtain ⟨b, owns, -⟩ := Relation.TransGen.head'_iff.mp cycle
    exact forest.ends a (isSome_of_boxAt owns)
  obtain ⟨rest, rfl, member⟩ := mem_of_transGen cycle run
  exact (List.nodup_cons.mp run.nodup).1 member

theorem Forest.liveBoxes_nodup (forest : Forest heap.lookup roots) : heap.liveBoxes.Nodup := by
  refine List.pairwise_filterMap.mpr ?_
  refine heap.cells.distinct_keys_toList.imp_of_mem ?_
  rintro ⟨a, cell⟩ ⟨a', cell'⟩ member member' different b box b' box' rfl
  have found : heap.lookup a = some cell := Std.TreeMap.mem_toList_iff_getElem?_eq_some.mp member
  have found' : heap.lookup a' = some cell' :=
    Std.TreeMap.mem_toList_iff_getElem?_eq_some.mp member'
  have same : a = a' := forest.owner a a' b (by simpa [boxAt, found] using box)
    (by simpa [boxAt, found'] using box')
  exact different (by simp [same])

end Ownership

namespace Evaluator

open Ownership

/-- The boxes in flight: the values of what is still being evaluated. -/
def Machine.flight (m : Machine) : List Addr := boxes (m.stack.values ++ m.control.values)

/-- The fault that a machine is about to end with. -/
def Machine.fault? (m : Machine) : Option Fault :=
  match m with
  | ⟨.interrupted (.failed fault), _, _⟩ => some fault
  | _ => none

/-- The scope or call that is next to be left can be left. -/
def Machine.CanLeave (m : Machine) : Prop :=
  match m with
  | ⟨_, .cons .leaveScope _, s⟩ => ∃ after, popScope s = (.ok (), after)
  | ⟨_, .cons (.leaveCall _) _, s⟩ => ∃ after, popFrame s = (.ok (), after)
  | _ => True

/-- A value is somewhere where it will be dropped or moved on from: in flight, or in a cell that
holds it. -/
def Machine.Carries (m : Machine) (value : Value) : Prop :=
  value ∈ m.stack.values ++ m.control.values ∨
    ∃ addr, m.state.heap.cell addr = .ok ⟨value, .live⟩

/-- What ownership is like at each step. -/
structure Machine.InOrder (m : Machine) : Prop where
  /-- The boxes in cells and in flight point at different cells. -/
  distinct : (m.state.heap.liveBoxes ++ m.flight).Nodup
  held : ∀ addr ∈ m.state.heap.liveBoxes ++ m.flight, m.state.heap.contains addr
  apart : ∀ addr ∈ m.state.heap.liveBoxes ++ m.flight, addr ∉ m.state.scopeCells
  acyclic : ∀ addr, ¬ Relation.TransGen (Owns m.state.heap) addr addr
  scopeDistinct : m.state.scopeCells.Nodup
  scopeHeld : ∀ addr ∈ m.state.scopeCells, m.state.heap.contains addr
  accounted : m.state.heap.allocated = m.state.heap.freed + m.state.heap.live
  stacked : ∀ addr, m.state.borrows.byAddr.contains addr → m.state.heap.contains addr
  /-- Dropping does not fail. -/
  drops : ∀ value, m.Carries value → ∃ after, dropValue value m.state = (.ok (), after)
  leaves : m.CanLeave
  /-- No cell was freed twice, no chain of boxes had no end, and no scope was missing. -/
  faults : ∀ fault ∈ m.fault?, fault.FromUse

theorem dropValue_completes {s : State} {roots : List Addr} {value : Value}
    (forest : Forest s.heap.lookup roots)
    (present : ∀ b, value = .box b → (s.heap.lookup b).isSome) :
    ∃ after, dropValue value s = (.ok (), after) := by
  cases plain : value.box? with
  | none =>
      have unowned : Forest s.heap.lookup (value.box?.toList ++ []) := by
        rw [plain]
        exact forest.weaken (List.nil_sublist roots).subperm
      obtain ⟨⟨⟩, after, dropped, -⟩ := (dropValue_meets unowned).completes
      exact ⟨after, dropped⟩
  | some b =>
      obtain rfl := Value.box?_eq_some.mp plain
      obtain ⟨chain, run⟩ := forest.ends b (present b rfl)
      obtain ⟨⟨⟩, after, dropped, -⟩ := (dropValue_box_meets run).completes
      exact ⟨after, dropped⟩

theorem Sound.canLeave {m : Machine} (sound : Sound m.control m.stack m.state) : m.CanLeave := by
  obtain ⟨control, k, s⟩ := m
  have fits : k.Fits s.shape ∨ ∃ rest, s.shape = 1 :: rest := by
    have known := sound.fits
    cases control with
    | call | value | interrupted => exact Or.inl known
    | enter => exact Or.inr ⟨known.choose, known.choose_spec.1⟩
    | _ => exact Or.inl known.2
  cases k with
  | nil => trivial
  | cons frame k =>
      cases frame with
      | leaveScope =>
          obtain ⟨count, rest, shape⟩ : Open s.shape := by
            rcases fits with ⟨_, ⟨count, rest, shape, _⟩, _⟩ | ⟨rest, shape⟩
            · exact ⟨count, rest, shape⟩
            · exact ⟨0, rest, shape⟩
          obtain ⟨⟨⟩, after, left, -⟩ := (popScope_meets sound.owned shape).completes
          exact ⟨after, left⟩
      | leaveCall f =>
          obtain ⟨rest, shape⟩ : ∃ rest, s.shape = 1 :: rest := by
            rcases fits with ⟨below, shape, _⟩ | open'
            · exact ⟨below, shape⟩
            · exact open'
          obtain ⟨⟨⟩, after, left, -⟩ := (popFrame_meets sound.owned shape).completes
          exact ⟨after, left⟩
      | _ => trivial

/-- The invariant of the steps says what is wanted of each machine. -/
theorem Sound.inOrder {m : Machine} (sound : Sound m.control m.stack m.state) : m.InOrder := by
  have forest := sound.owned.forest
  have nodup := List.nodup_append.mp forest.nodup
  have target : ∀ addr ∈ m.state.heap.liveBoxes, (m.state.heap.lookup addr).isSome ∧
      addr ∉ m.state.scopeCells ++ m.flight := by
    intro addr member
    obtain ⟨a, owns⟩ := mem_liveBoxes.mp member
    exact ⟨forest.target a addr owns, forest.unowned a addr owns⟩
  have flight : ∀ addr ∈ m.flight, (m.state.heap.lookup addr).isSome := fun addr member =>
    forest.present addr (List.mem_append_right _ member)
  constructor
  · refine List.nodup_append.mpr ⟨forest.liveBoxes_nodup, nodup.2.1, ?_⟩
    rintro a live b inFlight rfl
    exact (target a live).2 (List.mem_append_right _ inFlight)
  · intro addr member
    rw [Heap.contains_eq]
    exact (List.mem_append.mp member).elim (fun live => (target addr live).1) (flight addr)
  · intro addr member inScope
    rcases List.mem_append.mp member with live | inFlight
    · exact (target addr live).2 (List.mem_append_left _ inScope)
    · exact nodup.2.2 addr inScope addr inFlight rfl
  · exact forest.acyclic
  · exact nodup.1
  · intro addr member
    rw [Heap.contains_eq]
    exact forest.present addr (List.mem_append_left _ member)
  · exact sound.owned.accounted.total
  · intro addr known
    rw [Heap.contains_eq]
    exact sound.owned.stacked addr known
  · rintro value (inFlight | ⟨addr, found⟩)
    · refine dropValue_completes forest ?_
      rintro b rfl
      exact flight b (List.mem_filterMap.mpr ⟨_, inFlight, rfl⟩)
    · refine dropValue_completes forest ?_
      rintro b rfl
      refine forest.target addr b ?_
      simp [boxAt, Heap.lookup_of_cell found, Cell.box?, Cell.liveValue?, Value.box?]
  · exact sound.canLeave
  · intro fault known
    obtain ⟨control, k, s⟩ := m
    cases control with
    | interrupted interrupt =>
        cases interrupt with
        | returned v => simp [Machine.fault?] at known
        | failed fault' =>
            obtain rfl := Option.some.inj known
            exact sound.holds
    | _ => simp [Machine.fault?] at known

/-! ### From steps to runs -/

variable {ctx : Context}

theorem Sound.step {m next : Machine} (sound : Sound m.control m.stack m.state)
    (step : m.step ctx = some next) :
    Sound next.control next.stack next.state ∧ Kept m.state next.state := by
  obtain ⟨t, advanced, rfl⟩ := Option.map_eq_some_iff.mp step
  have keeps := advance_keeps sound advanced
  unfold Transition.Keeps Meets at keeps
  unfold Transition.perform
  cases done : t.action m.state with
  | mk result after =>
      rw [done] at keeps
      cases result <;> exact keeps

theorem Machine.run_succ (m : Machine) (steps : Nat) :
    m.run ctx (steps + 1) = ((m.run ctx steps).step ctx).getD (m.run ctx steps) := by
  induction steps generalizing m with
  | zero =>
      simp only [Machine.run]
      cases m.step ctx <;> rfl
  | succ steps ih =>
      rw [Machine.run]
      cases step : m.step ctx with
      | none => simp [Machine.run, step]
      | some next =>
          simp only [ih next]
          simp [Machine.run, step]

/-- The machine of a run after some steps. -/
def reached (ctx : Context) (steps : Nat) : Machine := (Machine.start ctx).run ctx steps

theorem sound_start (ctx : Context) :
    Sound (Machine.start ctx).control (Machine.start ctx).stack (Machine.start ctx).state := by
  have empty : Heap.lookup {} = fun _ => none := by
    funext addr
    simp [Heap.lookup]
  have owned : Owned {} [] := by
    refine ⟨⟨?_, ?_, ?_, ?_, ?_, ?_⟩, ?_, ?_, ⟨?_, rfl⟩⟩ <;>
      simp [empty, boxAt, State.scopeCells]
  unfold Machine.start
  split
  · exact ⟨owned, rfl, trivial⟩
  · exact ⟨owned, rfl, trivial⟩

theorem reached_succ (ctx : Context) (steps : Nat) :
    reached ctx (steps + 1) = ((reached ctx steps).step ctx).getD (reached ctx steps) :=
  (Machine.start ctx).run_succ steps

/-- A run takes one step at a time, each of them in order. -/
theorem sound_reached (ctx : Context) (steps : Nat) :
    Sound (reached ctx steps).control (reached ctx steps).stack (reached ctx steps).state := by
  induction steps with
  | zero => exact sound_start ctx
  | succ steps ih =>
      rw [reached_succ]
      cases step : (reached ctx steps).step ctx with
      | none => exact ih
      | some next => exact (ih.step step).1

theorem kept_succ (ctx : Context) (steps : Nat) :
    Kept (reached ctx steps).state (reached ctx (steps + 1)).state := by
  rw [reached_succ]
  cases step : (reached ctx steps).step ctx with
  | none => exact .refl _
  | some next => exact ((sound_reached ctx steps).step step).2

theorem kept_of_le (ctx : Context) {first last : Nat} (later : first ≤ last) :
    Kept (reached ctx first).state (reached ctx last).state := by
  induction last, later using Nat.le_induction with
  | base => exact .refl _
  | succ last _ ih => exact ih.trans (kept_succ ctx last)

/-- A machine that takes no step has no frames left, and a value or an interrupt. -/
theorem Machine.eq_of_ended {m : Machine} (ended : m.step ctx = none) :
    (∃ value s, m = ⟨.value value, .nil, s⟩) ∨ ∃ interrupt s, m = ⟨.interrupted interrupt, .nil, s⟩ := by
  obtain ⟨control, k, s⟩ := m
  have stuck : advance ctx control k = none := Option.map_eq_none_iff.mp ended
  cases control with
  | value v =>
      cases k with
      | nil => exact Or.inl ⟨v, s, rfl⟩
      | cons frame k => simp [advance] at stuck
  | interrupted interrupt =>
      cases k with
      | nil => exact Or.inr ⟨interrupt, s, rfl⟩
      | cons frame k => simp [advance] at stuck
  | found l => cases k with | cons frame k => simp [advance] at stuck
  | finished => cases k with | cons frame k => simp [advance] at stuck
  | stmts rest tail => cases rest <;> cases tail <;> simp [advance] at stuck
  | args loc func values rest => cases rest <;> simp [advance] at stuck
  | shown template values rest => cases rest <;> simp [advance] at stuck
  | follow template flight texts rest => cases rest <;> simp [advance] at stuck
  | _ => simp [advance] at stuck

theorem frames_eq_nil_of_ended {m : Machine} (sound : Sound m.control m.stack m.state)
    (ended : m.step ctx = none) : m.state.frames = [] := by
  rcases Machine.eq_of_ended ended with ⟨value, s, rfl⟩ | ⟨interrupt, s, rfl⟩
  · exact List.map_eq_nil_iff.mp sound.fits
  · exact List.map_eq_nil_iff.mp sound.fits

/-- A cell of a scope that is none later was freed at one step in between, for good. -/
theorem freed_between (ctx : Context) {addr : Addr} (first count : Nat)
    (member : addr ∈ (reached ctx first).state.scopeCells)
    (left : addr ∉ (reached ctx (first + count)).state.scopeCells) :
    ∃ last, first ≤ last ∧ last < first + count ∧
      (∀ steps, first ≤ steps → steps ≤ last → (reached ctx steps).state.heap.contains addr) ∧
      ∀ steps, last < steps → ¬ (reached ctx steps).state.heap.contains addr := by
  induction count generalizing first with
  | zero => exact absurd member left
  | succ count ih =>
      have sound := sound_reached ctx first
      have here : ((reached ctx first).state.heap.lookup addr).isSome :=
        sound.owned.forest.present addr (List.mem_append_left _ member)
      have old := sound.owned.accounted.bounded addr here
      by_cases stays : addr ∈ (reached ctx (first + 1)).state.scopeCells
      · rw [← Nat.succ_add_eq_add_succ] at left
        obtain ⟨last, after, before, held, gone⟩ := ih (first + 1) stays left
        refine ⟨last, by omega, by omega, ?_, gone⟩
        intro steps atLeast atMost
        rcases Nat.eq_or_lt_of_le atLeast with rfl | more
        · rw [Heap.contains_eq]
          exact here
        · exact held steps more atMost
      · refine ⟨first, Nat.le_refl _, by omega, ?_, ?_⟩
        · intro steps atLeast atMost
          obtain rfl := Nat.le_antisymm atMost atLeast
          rw [Heap.contains_eq]
          exact here
        · intro steps more
          have absent := ((kept_succ ctx first).inScope addr member old).resolve_left stays
          have bound := Nat.le_trans old (kept_succ ctx first).allocated
          rw [Heap.contains_eq]
          intro again
          simpa [absent] using (kept_of_le ctx more).gone addr bound again

/-- Ownership and unwinding.  Each machine of a run is in order; when no step is left, no call is
open; and a cell of a scope is in use up to some step, and never after it. -/
theorem run_inOrder (ctx : Context) :
    (∀ steps, (reached ctx steps).InOrder) ∧
    (∀ steps, (reached ctx steps).step ctx = none → (reached ctx steps).state.frames = []) ∧
    ∀ first steps addr, addr ∈ (reached ctx first).state.scopeCells →
      (reached ctx steps).step ctx = none →
      ∃ last, first ≤ last ∧ last < steps ∧
        (∀ between, first ≤ between → between ≤ last →
          (reached ctx between).state.heap.contains addr) ∧
        ∀ later, last < later → ¬ (reached ctx later).state.heap.contains addr := by
  refine ⟨fun steps => (sound_reached ctx steps).inOrder,
    fun steps ended => frames_eq_nil_of_ended (sound_reached ctx steps) ended, ?_⟩
  intro first steps addr member ended
  have atEnd : ∀ more, reached ctx (steps + more) = reached ctx steps := by
    intro more
    induction more with
    | zero => rfl
    | succ more ih => rw [← Nat.add_assoc, reached_succ, ih, ended]; rfl
  have noCells : ∀ more, addr ∉ (reached ctx (steps + more)).state.scopeCells := by
    intro more
    rw [atEnd more, State.scopeCells, frames_eq_nil_of_ended (sound_reached ctx steps) ended]
    simp
  have before : first < steps := by
    by_contra notBefore
    obtain ⟨more, rfl⟩ := Nat.exists_eq_add_of_le (Nat.not_lt.mp notBefore)
    exact noCells more member
  obtain ⟨count, rfl⟩ := Nat.exists_eq_add_of_le before.le
  exact freed_between ctx first count member (noCells 0)

/-- A program whose entry function binds a box. -/
def bindBox : Context where
  settings := default
  functions := [{
    name := "main", params := [], returnType := none, loc := none
    body := .mk [.letVar none "b" none (some (.boxNew none (.literal none (.int 1)))) false] none
      none }]

/-- The binding of `bindBox` is in use from the ninth step to the eleventh. -/
theorem run_inOrder_bindBox :
    2 ∈ (reached bindBox 9).state.scopeCells ∧
    (reached bindBox 13).step bindBox = none ∧
    (reached bindBox 13).state.frames = [] ∧
    ∃ last, 9 ≤ last ∧ last < 13 ∧
      (∀ between, 9 ≤ between → between ≤ last → (reached bindBox between).state.heap.contains 2) ∧
      ∀ later, last < later → ¬ (reached bindBox later).state.heap.contains 2 :=
  have member : 2 ∈ (reached bindBox 9).state.scopeCells := by decide
  have ended : (reached bindBox 13).step bindBox = none := rfl
  ⟨member, ended, (run_inOrder bindBox).2.1 13 ended,
    (run_inOrder bindBox).2.2 9 13 2 member ended⟩

end Evaluator

end BorrowLang
