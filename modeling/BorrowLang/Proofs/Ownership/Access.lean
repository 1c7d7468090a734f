import BorrowLang.Proofs.Ownership.Drop

/-!
# Reaching cells in order

A location is reached from a scope or through a reference, along cells that own each other.  So it
is never inside a box in flight: no reference leads there, and no scope owns it.  Reading a
location, which moves a box out of it, keeps the state in order.
-/

set_option autoImplicit false

namespace BorrowLang.Evaluator

open Ownership BorrowStacks

/-- The cells are kept, and no scope is entered or left. -/
structure Steady (s after : State) : Prop extends Kept s after where
  shape : after.shape = s.shape

theorem Steady.refl (s : State) : Steady s s := ⟨.refl s, rfl⟩

theorem Steady.trans {s mid after : State} (first : Steady s mid) (second : Steady mid after) :
    Steady s after :=
  ⟨first.toKept.trans second.toKept, second.shape.trans first.shape⟩

/-- A fault that does not come from dropping. -/
def Fault.FromUse : Fault → Prop
  | .heap (.doubleFree _) | .heap .cycle | .noScope => False
  | _ => True

/-- A report, or the use of a cell that is gone. -/
def Fault.OfAccess : Fault → Prop
  | .reported _ | .heap (.freedAccess _) => True
  | _ => False

theorem Fault.OfAccess.fromUse {fault : Fault} (ofAccess : fault.OfAccess) : fault.FromUse := by
  fun_cases Fault.OfAccess fault with
  | case1 | case2 => trivial
  | case3 => simp_all [Fault.OfAccess]

/-- An evaluation has failed and left the state in order. -/
structure Broken (s : State) (flight : List Addr) (interrupt : Interrupt) (after : State) : Prop where
  fault : ∃ fault, interrupt = .failed fault ∧ fault.FromUse
  owned : Owned after flight
  steady : Steady s after

theorem Broken.since {s mid after : State} {flight fewer : List Addr} {interrupt : Interrupt}
    (steady : Steady s mid) (broken : Broken mid flight interrupt after)
    (part : fewer.Subperm flight) : Broken s fewer interrupt after :=
  ⟨broken.fault, broken.owned.weaken part, steady.trans broken.steady⟩

/-! ### References that end -/

/-- Nothing has happened but that references have ended. -/
structure Ended (s after : State) : Prop where
  state : after = { s with borrows := after.borrows }
  lowered : Lowered s.borrows after.borrows

namespace Ended

variable {s mid after : State}

theorem refl (s : State) : Ended s s := ⟨rfl, .refl _⟩

theorem trans (first : Ended s mid) (second : Ended mid after) : Ended s after where
  state := by
    rw [second.state, first.state]
  lowered := first.lowered.trans second.lowered

theorem heap (ended : Ended s after) : after.heap = s.heap := by
  rw [ended.state]

theorem frames (ended : Ended s after) : after.frames = s.frames := by
  rw [ended.state]

theorem scopeCells (ended : Ended s after) : after.scopeCells = s.scopeCells := by
  rw [State.scopeCells, State.scopeCells, ended.frames]

theorem steady (ended : Ended s after) : Steady s after where
  allocated := Nat.le_of_eq (by rw [ended.heap])
  gone addr _ here := by rwa [ended.heap] at here
  inScope addr member _ := Or.inl (by rwa [ended.scopeCells])
  shape := by rw [State.shape, State.shape, ended.frames]

theorem owned (ended : Ended s after) {flight : List Addr} (owned : Owned s flight) :
    Owned after flight where
  forest := by
    rw [ended.heap, ended.scopeCells]
    exact owned.forest
  quiet box member := by
    obtain ⟨chain, run, empty⟩ := owned.quiet box member
    refine ⟨chain, by rwa [ended.heap], fun addr inChain => ?_⟩
    exact ended.lowered.empty addr (empty addr inChain)
  stacked addr here := by
    rw [ended.heap]
    exact owned.stacked addr (ended.lowered.keys addr here)
  accounted := by
    rw [ended.heap]
    exact owned.accounted

theorem broken (ended : Ended s after) {flight : List Addr} (owned : Owned s flight) {fault : Fault}
    (fromUse : fault.FromUse) : Broken s flight (.failed fault) after :=
  ⟨⟨fault, rfl, fromUse⟩, ended.owned owned, ended.steady⟩

end Ended

/-! ### Locations -/

/-- How a location was reached: along boxes, from the cell of a scope or by a reference. -/
structure Reached (s : State) (l : Location) : Prop where
  path : (l.owners ++ [l.addr]).IsChain fun a b => boxAt s.heap.lookup a = some b
  base : l.tag = none →
    ∃ root ∈ s.scopeCells, ∃ chain, Chain s.heap.lookup root chain ∧ l.first ∈ chain

theorem Location.first_eq_head (l : Location) : (l.owners ++ [l.addr]).head? = some l.first := by
  cases owners : l.owners <;> simp [Location.first, owners]

theorem Ended.reached {s after : State} (ended : Ended s after) {l : Location}
    (reached : Reached s l) : Reached after l where
  path := by
    rw [ended.heap]
    exact reached.path
  base owner := by
    rw [ended.heap, ended.scopeCells]
    exact reached.base owner

/-- Going back along a path of owners does not leave cells that have their owners among them. -/
theorem head_mem_of_path {cells : Cells} {inside path : List Addr} {first last : Addr}
    (closed : ∀ a b, boxAt cells a = some b → b ∈ inside → a ∈ inside)
    (run : path.IsChain fun a b => boxAt cells a = some b)
    (head : path.head? = some first) (tail : path.getLast? = some last) (member : last ∈ inside) :
    first ∈ inside := by
  induction path generalizing first with
  | nil => simp at head
  | cons x rest ih =>
      obtain rfl := Option.some.inj head
      cases rest with
      | nil =>
          obtain rfl := Option.some.inj tail
          exact member
      | cons y rest =>
          obtain ⟨owns, restRun⟩ := List.isChain_cons_cons.mp run
          exact closed x y owns (ih restRun rfl (by simpa using tail))

/-- Going along a path of boxes does not leave the cells in use. -/
theorem present_of_path {cells : Cells} {roots path : List Addr} {first last : Addr}
    (forest : Forest cells roots) (run : path.IsChain fun a b => boxAt cells a = some b)
    (head : path.head? = some first) (tail : path.getLast? = some last)
    (here : (cells first).isSome) : (cells last).isSome := by
  induction path generalizing first with
  | nil => simp at head
  | cons x rest ih =>
      obtain rfl := Option.some.inj head
      cases rest with
      | nil =>
          obtain rfl := Option.some.inj tail
          exact here
      | cons y rest =>
          obtain ⟨owns, restRun⟩ := List.isChain_cons_cons.mp run
          exact ih restRun rfl (by simpa using tail) (forest.target x y owns)

namespace Reached

variable {s : State} {l : Location} {flight : List Addr}

theorem present (reached : Reached s l) (owned : Owned s flight)
    (here : (s.heap.lookup l.first).isSome) : (s.heap.lookup l.addr).isSome :=
  present_of_path owned.forest reached.path l.first_eq_head (by simp) here

/-- A location with a reference that is still valid is outside of the boxes in flight. -/
theorem outside (reached : Reached s l) (owned : Owned s flight)
    (valid : ∀ tag, l.tag = some tag → s.borrows.stack l.first ≠ []) {box : Addr}
    (member : box ∈ flight) {chain : List Addr} (run : Chain s.heap.lookup box chain) :
    l.addr ∉ chain := by
  intro inside
  have boxRoot : box ∈ s.scopeCells ++ flight := List.mem_append_right _ member
  have firstInside : l.first ∈ chain :=
    head_mem_of_path (fun a b owns inChain => owned.forest.owner_mem boxRoot run inChain owns)
      reached.path l.first_eq_head (by simp) inside
  cases via : l.tag with
  | some tag =>
      obtain ⟨quietChain, quietRun, empty⟩ := owned.quiet box member
      obtain rfl := quietRun.unique run
      exact valid tag via (empty l.first firstInside)
  | none =>
      obtain ⟨root, rootMem, rootChain, rootRun, inRoot⟩ := reached.base via
      have same : root = box := owned.forest.disjoint (List.mem_append_left _ rootMem) boxRoot
        rootRun run inRoot firstInside
      exact (List.nodup_append.mp owned.forest.nodup).2.2 root rootMem box member same

end Reached

/-! ### Uses of a location -/

/-- An access that is allowed ends references, through a reference that is valid. -/
theorem access_meets (ctx : Context) (l : Location) (expr : Expr) (isWrite : Bool)
    (cause : DiagnosticKind) (s : State) :
    Meets (access ctx l expr isWrite cause) s
      (fun _ after => Ended s after ∧ (s.heap.lookup l.first).isSome ∧
        ∀ tag, l.tag = some tag → s.borrows.stack l.first ≠ [])
      (fun interrupt after => after = s ∧ ∃ diagnostic, interrupt = .failed (.reported diagnostic)) := by
  simp only [access, meets_bind, meets_get, Heap.contains_eq]
  split
  · exact ⟨rfl, _, rfl⟩
  · rename_i here
    have here : (s.heap.lookup l.first).isSome := by
      simpa only [Bool.not_eq_true', Bool.not_eq_false] using here
    split
    · exact ⟨rfl, _, rfl⟩
    · rename_i mid first
      split
      · exact ⟨rfl, _, rfl⟩
      · rename_i last rest
        refine ⟨⟨rfl, ?_⟩, here, ?_⟩
        · exact (access_lowered first).trans (accessOwned_lowered rest)
        · intro tag via
          rw [via] at first
          exact stack_ne_nil_of_access first

theorem load_ends (ctx : Context) (l : Location) (expr : Expr) (s : State) :
    Meets (load ctx l expr) s
      (fun value after => Ended s after ∧ s.heap.lookup l.addr = some ⟨value, .live⟩ ∧
        ∀ tag, l.tag = some tag → s.borrows.stack l.first ≠ [])
      (fun interrupt after => Ended s after ∧ ∃ fault, interrupt = .failed fault ∧
        fault.OfAccess) := by
  simp only [load, meets_bind, meets_get]
  refine (access_meets ctx l expr _ _ s).mono ?_ ?_
  · intro _ mid met
    obtain ⟨ended, -, valid⟩ := met
    rw [ended.heap]
    cases found : s.heap.lookup l.addr with
    | none =>
        rw [Heap.cell_eq_error found, meets_ofHeap_error]
        exact ⟨ended, _, rfl, trivial⟩
    | some cell =>
        rw [Heap.cell_eq_ok found, meets_ofHeap_ok]
        obtain ⟨value, state⟩ := cell
        cases state with
        | live => exact ⟨ended, rfl, valid⟩
        | moved => exact ⟨ended, _, rfl, trivial⟩
        | uninit => exact ⟨ended, _, rfl, trivial⟩
  · intro interrupt after met
    obtain ⟨rfl, diagnostic, rfl⟩ := met
    exact ⟨.refl after, _, rfl, trivial⟩

theorem load_meets (ctx : Context) (l : Location) (expr : Expr) {s : State} {flight : List Addr}
    (owned : Owned s flight) :
    Meets (load ctx l expr) s
      (fun value after => Ended s after ∧ s.heap.lookup l.addr = some ⟨value, .live⟩ ∧
        ∀ tag, l.tag = some tag → s.borrows.stack l.first ≠ [])
      (Broken s flight) := by
  refine (load_ends ctx l expr s).mono (fun _ _ loaded => loaded) ?_
  intro interrupt after met
  obtain ⟨ended, fault, rfl, ofAccess⟩ := met
  exact ended.broken owned ofAccess.fromUse

theorem endOwned_plain (fuel : Nat) {value : Value} (plain : value.box? = none) :
    endOwned fuel value = pure () := by
  cases value with
  | box addr => simp [Value.box?] at plain
  | _ => cases fuel <;> rfl

theorem endOwned_meets {s : State} {box : Addr} {chain : List Addr}
    (run : Chain s.heap.lookup box chain) :
    ∀ fuel, chain.length ≤ fuel →
      Meets (endOwned fuel (.box box)) s
        (fun _ after => Ended s after ∧ ∀ addr ∈ chain, after.borrows.stack addr = [])
        (fun _ _ => False) := by
  generalize lookupEq : s.heap.lookup = cells at run
  induction run generalizing s with
  | @last a here alone =>
      intro fuel enough
      obtain ⟨fuel, rfl⟩ : ∃ n, fuel = n + 1 := ⟨fuel - 1, by simp at enough; omega⟩
      obtain ⟨cell, found⟩ := Option.isSome_iff_exists.mp here
      obtain ⟨borrows, allowed, lowered, empty⟩ :=
        access_owner_write s.borrows a .moveWhileBorrowed
      rw [← lookupEq] at found alone
      simp only [endOwned, meets_bind, meets_get, allowed, meets_set, Heap.cell_eq_ok found,
        meets_ofHeap_ok]
      simp only [boxAt, found, Option.bind_some, Cell.box?] at alone
      have done : Ended s { s with borrows } ∧ ∀ addr ∈ [a], borrows.stack addr = [] :=
        ⟨⟨rfl, lowered⟩, by simpa using empty⟩
      cases value : cell.liveValue? with
      | none => exact done
      | some v =>
          have plain : v.box? = none := by simpa [value] using alone
          simp only [endOwned_plain fuel plain]
          exact done
  | @next a b chain owns rest ih =>
      intro fuel enough
      obtain ⟨fuel, rfl⟩ : ∃ n, fuel = n + 1 := ⟨fuel - 1, by simp at enough; omega⟩
      obtain ⟨cell, found⟩ := Option.isSome_iff_exists.mp (isSome_of_boxAt owns)
      obtain ⟨borrows, allowed, lowered, empty⟩ :=
        access_owner_write s.borrows a .moveWhileBorrowed
      rw [← lookupEq] at found owns
      simp only [endOwned, meets_bind, meets_get, allowed, meets_set, Heap.cell_eq_ok found,
        meets_ofHeap_ok]
      simp only [boxAt, found, Option.bind_some, Cell.box?] at owns
      cases value : cell.liveValue? with
      | none => simp [value] at owns
      | some v =>
          rw [value] at owns
          obtain rfl := Value.box?_eq_some.mp (by simpa [value] using owns)
          have ended : Ended s { s with borrows } := ⟨rfl, lowered⟩
          apply Meets.onOk (@ih { s with borrows } lookupEq fuel
            (Nat.le_of_succ_le_succ enough))
          intro _ after met
          obtain ⟨endedRest, emptyRest⟩ := met
          refine ⟨ended.trans endedRest, ?_⟩
          intro addr member
          rcases List.mem_cons.mp member with rfl | later
          · exact endedRest.lowered.empty addr empty
          · exact emptyRest addr later

end BorrowLang.Evaluator
