import BorrowLang.Proofs.Ownership.Effects
import BorrowLang.Proofs.Uses.Causes
import BorrowLang.Proofs.Uses.Layers

/-!
# What the checks know of a state

Each activation has an outline that is true of it; boxes in flight, and cells that may be reached
through references, lead to cells that hold values.  Each action keeps this up to date.
-/

set_option autoImplicit false

namespace BorrowLang

open Ownership Moves BorrowStacks

/-- The types of cells with that of a new one, if it holds a value. -/
def CellTypes.add (types : CellTypes) (addr : Addr) (ty : Ty) (initialized : Bool) : CellTypes :=
  if initialized then Function.update types addr (some ty) else types

namespace Evaluator

variable {types later : CellTypes} {layers callers : List Layer} {flight : List Addr}
variable {s after : State} {o : Outline} {counts : List Nat}

/-- What is known of a state is so. -/
structure State.Tracked (types : CellTypes) (layers : List Layer) (flight : List Addr)
    (s : State) : Prop where
  shaped : ∀ addr value, s.heap.lookup addr = some ⟨value, .live⟩ →
    ∃ ty, types addr = some ty ∧ value.Shaped types ty
  bounded : ∀ addr ty, types addr = some ty → addr ≤ s.heap.allocated
  layers : List.Forall₂ (Layer.Holds types s.heap.lookup) layers s.frames
  whole : ∀ box ∈ flight, Intact s.heap.lookup box
  lent : ∀ addr, s.borrows.stack addr ≠ [] → Intact s.heap.lookup addr
  caused : s.borrows.Caused

/-- The cells of an activation. -/
def Activation.cells (activation : Activation) : List Addr :=
  activation.scopes.flatMap Scope.cells

theorem State.scopeCells_eq (s : State) : s.scopeCells = s.frames.flatMap Activation.cells := rfl

/-- What is known of each activation by itself is known of all of them. -/
theorem holds_each {cells changed : Cells} {frames : List Activation}
    (holds : List.Forall₂ (Layer.Holds types cells) layers frames)
    (each : ∀ (layer : Layer) (activation : Activation), activation ∈ frames →
      layer.Holds types cells activation → layer.Holds later changed activation) :
    List.Forall₂ (Layer.Holds later changed) layers frames := by
  induction holds with
  | nil => exact .nil
  | @cons layer activation layers frames first rest ih =>
      refine .cons (each _ _ List.mem_cons_self first) (ih ?_)
      exact fun layer activation member => each layer activation (List.mem_cons_of_mem _ member)

namespace State.Tracked

theorem head (tracked : s.Tracked types (⟨o, counts⟩ :: callers) flight) :
    ∃ activation rest, s.frames = activation :: rest ∧
      Layer.Holds types s.heap.lookup ⟨o, counts⟩ activation ∧
      List.Forall₂ (Layer.Holds types s.heap.lookup) callers rest := by
  have layers := tracked.layers
  generalize s.frames = frames at layers
  cases layers with
  | cons first rest => exact ⟨_, _, rfl, first, rest⟩

/-- Fewer boxes are in flight. -/
theorem weaken (tracked : s.Tracked types layers flight) {fewer : List Addr}
    (part : ∀ box ∈ fewer, box ∈ flight) : s.Tracked types layers fewer :=
  { tracked with whole := fun box member => tracked.whole box (part box member) }

/-- Less is known of the innermost activation. -/
theorem loosen (tracked : s.Tracked types (⟨o, counts⟩ :: callers) flight) {o' : Outline}
    (loosens : Loosens o o') : s.Tracked types (⟨o', counts⟩ :: callers) flight := by
  obtain ⟨activation, rest, frames, holds, others⟩ := tracked.head
  exact { tracked with layers := frames ▸ .cons (holds.loosen loosens) others }

/-- The activations are others, and what is known of them is so. -/
theorem reframe (tracked : s.Tracked types layers flight) {layers' : List Layer}
    (heap : after.heap = s.heap) (borrows : after.borrows = s.borrows)
    (holds : List.Forall₂ (Layer.Holds types s.heap.lookup) layers' after.frames) :
    after.Tracked types layers' flight where
  shaped addr value found := tracked.shaped addr value (heap ▸ found)
  bounded addr ty known := heap ▸ tracked.bounded addr ty known
  layers := heap ▸ holds
  whole box member := heap ▸ tracked.whole box member
  lent addr some := heap ▸ tracked.lent addr (borrows ▸ some)
  caused := borrows ▸ tracked.caused

/-- Cells have left the heap, or references have ended. -/
theorem thin (tracked : s.Tracked types layers flight)
    (cells : ∀ addr, (after.heap.lookup addr).isSome → after.heap.lookup addr = s.heap.lookup addr)
    (allocated : after.heap.allocated = s.heap.allocated)
    (lowered : Lowered s.borrows after.borrows) (frames : after.frames = s.frames)
    (caused : after.borrows.Caused) : after.Tracked types layers flight := by
  have same : ∀ {a}, ∀ chain, Chain after.heap.lookup a chain →
      ∀ x ∈ chain, after.heap.lookup x = s.heap.lookup x :=
    fun chain run x member => cells x (run.present x member)
  refine ⟨fun addr value found => ?_, fun addr ty known => ?_, ?_, fun box member => ?_,
    fun addr some => ?_, caused⟩
  · rw [cells addr (by simp [found])] at found
    exact tracked.shaped addr value found
  · exact allocated ▸ tracked.bounded addr ty known
  · rw [frames]
    refine holds_each tracked.layers fun layer activation _ holds => ?_
    exact holds.frame holds.typed fun isCell => (holds.covered isCell).frame same
  · exact (tracked.whole box member).frame same
  · refine (tracked.lent addr fun none => some ?_).frame same
    exact lowered.empty addr none

theorem ended (tracked : s.Tracked types layers flight) (ended : Ended s after)
    (caused : after.borrows.Caused) : after.Tracked types layers flight :=
  tracked.thin (fun _ _ => by rw [ended.heap]) (by rw [ended.heap]) ended.lowered ended.frames
    caused

theorem thinned (tracked : s.Tracked types layers flight) (thinned : Thinned s after)
    (caused : after.borrows.Caused) : after.Tracked types layers flight :=
  tracked.thin thinned.cells thinned.allocated thinned.lowered thinned.frames caused

/-! ### Scopes and calls -/

theorem pushScope (tracked : s.Tracked types (⟨o, counts⟩ :: callers) flight) {scopes : List Scope}
    {rest : List Activation} (frames : s.frames = ⟨scopes⟩ :: rest)
    (heap : after.heap = s.heap) (borrows : after.borrows = s.borrows)
    (pushed : after.frames = ⟨{} :: scopes⟩ :: rest) :
    after.Tracked types (⟨o, o.decls.length :: counts⟩ :: callers) flight := by
  refine tracked.reframe heap borrows ?_
  have layers := tracked.layers
  rw [frames] at layers
  rw [pushed]
  cases layers with
  | cons first others => exact .cons first.enter others

theorem popScope (tracked : s.Tracked types (⟨o, counts⟩ :: callers) flight) {scope : Scope}
    {scopes : List Scope} {rest : List Activation}
    (frames : s.frames = ⟨scope :: scopes⟩ :: rest) (thinned : Thinned s.leaveScope after)
    (caused : after.borrows.Caused) :
    after.Tracked types (⟨o.cut (counts.headD 0), counts.tail⟩ :: callers) flight := by
  have left : s.leaveScope = { s with frames := ⟨scopes⟩ :: rest } := by
    simp only [State.leaveScope, frames]
  rw [left] at thinned
  refine State.Tracked.thinned (s := { s with frames := ⟨scopes⟩ :: rest }) ?_ thinned caused
  refine tracked.reframe rfl rfl ?_
  have layers := tracked.layers
  rw [frames] at layers
  cases layers with
  | cons first others => exact .cons first.leave others

theorem popFrame {layer : Layer} (tracked : s.Tracked types (layer :: callers) flight)
    (thinned : Thinned { s with frames := s.frames.drop 1 } after)
    (caused : after.borrows.Caused) : after.Tracked types callers flight := by
  refine State.Tracked.thinned (s := { s with frames := s.frames.drop 1 }) ?_ thinned caused
  refine tracked.reframe rfl rfl ?_
  have layers := tracked.layers
  generalize s.frames = frames at layers
  cases layers with
  | cons first others => exact others

/-- A new activation has one scope, without bindings. -/
theorem pushFrame (tracked : s.Tracked types layers flight) (heap : after.heap = s.heap)
    (borrows : after.borrows = s.borrows) (pushed : after.frames = ⟨[default]⟩ :: s.frames) :
    after.Tracked types (⟨⟨[], fun _ _ => none⟩, [0]⟩ :: layers) flight := by
  refine tracked.reframe heap borrows ?_
  rw [pushed]
  refine .cons ⟨rfl, ?_, rfl, ?_, ?_⟩ tracked.layers
  · exact List.forall_mem_singleton.mpr .slnil
  · exact fun isCell => by cases isCell
  · exact fun isCell => by cases isCell

/-! ### New cells -/

theorem extends_add (tracked : s.Tracked types layers flight) (ty : Ty) (initialized : Bool) :
    types.Extends (types.add (s.heap.allocated + 1) ty initialized) := by
  unfold CellTypes.add
  split
  · refine CellTypes.Extends.insert ?_ ty
    cases known : types (s.heap.allocated + 1) with
    | none => rfl
    | some ty => exact absurd (tracked.bounded _ ty known) (Nat.not_succ_le_self _)
  · exact .refl types

theorem add_of_ne {addr new : Addr} {ty : Ty} {initialized : Bool} (other : addr ≠ new) :
    types.add new ty initialized addr = types addr := by
  unfold CellTypes.add
  split
  · exact Function.update_of_ne other _ _
  · rfl

theorem alloc (tracked : s.Tracked types layers flight) (owned : Owned s flight) {value : Value}
    {ty : Ty} {initialized : Bool} (shaped : initialized = true → value.Shaped types ty) :
    State.Tracked (types.add (s.heap.allocated + 1) ty initialized) layers flight
      { s with heap := (s.heap.alloc value initialized).1 } := by
  have fresh := owned.accounted.fresh (Nat.lt_succ_self s.heap.allocated)
  have target := owned.forest.target
  have isOld : ∀ {addr}, (s.heap.lookup addr).isSome → addr ≠ s.heap.allocated + 1 := by
    rintro addr here rfl
    rw [fresh] at here
    cases here
  have inUse : ∀ root ∈ s.scopeCells ++ flight, root ≠ s.heap.allocated + 1 :=
    fun root member => isOld (owned.forest.present root member)
  have extended := tracked.extends_add ty initialized
  constructor
  · intro addr held found
    rw [Heap.lookup_alloc] at found
    by_cases new : addr = s.heap.allocated + 1
    · subst new
      rw [Function.update_self] at found
      obtain ⟨rfl, isLive⟩ := Cell.mk.inj (Option.some.inj found)
      have isThere : initialized = true := by
        cases initialized with
        | true => rfl
        | false => cases isLive
      refine ⟨ty, ?_, (shaped isThere).mono extended⟩
      simp [CellTypes.add, isThere]
    · rw [Function.update_of_ne new] at found
      obtain ⟨own, known, ofTy⟩ := tracked.shaped addr held found
      exact ⟨own, extended addr own known, ofTy.mono extended⟩
  · intro addr own known
    by_cases new : addr = s.heap.allocated + 1
    · exact Nat.le_of_eq new
    · rw [add_of_ne new] at known
      exact Nat.le_succ_of_le (tracked.bounded addr own known)
  · rw [Heap.lookup_alloc]
    refine holds_each tracked.layers fun layer activation member holds => ?_
    have apart : ∀ {level addr}, activation.cell? level = some addr →
        addr ≠ s.heap.allocated + 1 := fun isCell =>
      inUse _ (List.mem_append_left _ (List.mem_flatMap.mpr ⟨_, member, holds.mem_cells isCell⟩))
    refine holds.frame (fun isCell known => ?_) fun isCell => ?_
    · rw [add_of_ne (apart isCell)] at known
      exact holds.typed isCell known
    · exact (holds.covered isCell).alloc fresh target (apart isCell)
  · intro box member
    rw [Heap.lookup_alloc]
    exact (tracked.whole box member).alloc fresh target (inUse box (List.mem_append_right _ member))
  · intro addr some
    rw [Heap.lookup_alloc]
    refine (tracked.lent addr some).alloc fresh target (isOld (owned.stacked addr ?_))
    by_contra absent
    exact some (stack_of_absent (Bool.eq_false_iff.mpr absent))
  · exact tracked.caused

/-- What a new cell leads to is there, where its value is. -/
theorem intact_alloc (tracked : s.Tracked types layers flight) (owned : Owned s flight)
    {value : Value} (inFlight : ∀ b, value = .box b → b ∈ flight) :
    Intact (s.heap.alloc value true).1.lookup (s.heap.allocated + 1) := by
  rw [Heap.lookup_alloc]
  refine Intact.new (owned.accounted.fresh (Nat.lt_succ_self _)) owned.forest.target ?_
  intro b isBox
  have member := inFlight b isBox
  exact ⟨owned.forest.present b (List.mem_append_right _ member), tracked.whole b member⟩

/-- There is one more binding, with a new cell. -/
theorem declare (tracked : s.Tracked types (⟨o, counts⟩ :: callers) flight)
    (owned : Owned s flight) {scope : Scope} {scopes : List Scope} {rest : List Activation}
    (frames : s.frames = ⟨scope :: scopes⟩ :: rest) {decl : Decl} {value : Value} {ty : Ty}
    {initialized : Bool} (shaped : initialized = true → value.Shaped types ty)
    (typed : initialized = true → decl.ty = some ty)
    (inFlight : initialized = true → ∀ b, value = .box b → b ∈ flight)
    (heap : after.heap = (s.heap.alloc value initialized).1) (borrows : after.borrows = s.borrows)
    (bound : after.frames = ⟨scope.bind decl.name (s.heap.allocated + 1) :: scopes⟩ :: rest) :
    after.Tracked (types.add (s.heap.allocated + 1) ty initialized)
      (⟨o.declare decl initialized, counts⟩ :: callers) flight := by
  have fresh : types (s.heap.allocated + 1) = none := by
    cases known : types (s.heap.allocated + 1) with
    | none => rfl
    | some ty => exact absurd (tracked.bounded _ ty known) (Nat.not_succ_le_self _)
  have allocated := tracked.alloc owned shaped
  refine allocated.reframe heap borrows ?_
  have layers := allocated.layers
  rw [frames] at layers
  rw [bound]
  cases layers with
  | cons first others =>
      refine .cons (first.declare decl initialized (fun own known => ?_) fun isThere => ?_) others
      · cases initialized with
        | true =>
            rw [CellTypes.add, if_pos rfl, Function.update_self] at known
            exact (typed rfl).trans known
        | false =>
            rw [CellTypes.add, if_neg Bool.false_ne_true, fresh] at known
            cases known
      · subst isThere
        exact tracked.intact_alloc owned (inFlight rfl)

/-- The innermost scope has one more cell, a new one. -/
theorem hold (tracked : s.Tracked types layers flight) (owned : Owned s flight) {scope : Scope}
    {scopes : List Scope} {rest : List Activation}
    (frames : s.frames = ⟨scope :: scopes⟩ :: rest) {value : Value} {ty : Ty}
    (shaped : value.Shaped types ty) (heap : after.heap = (s.heap.alloc value true).1)
    (borrows : after.borrows = s.borrows)
    (kept : after.frames = ⟨scope.hold (s.heap.allocated + 1) :: scopes⟩ :: rest) :
    after.Tracked (types.add (s.heap.allocated + 1) ty true) layers flight := by
  have allocated := tracked.alloc owned fun _ : true = true => shaped
  refine allocated.reframe heap borrows ?_
  have layers := allocated.layers
  rw [frames] at layers
  rw [kept]
  cases layers with
  | cons first others => exact .cons (first.hold _) others

end State.Tracked

end Evaluator

end BorrowLang
