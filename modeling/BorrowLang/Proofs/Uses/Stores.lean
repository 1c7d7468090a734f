import BorrowLang.Proofs.Uses.Tracked

/-!
# Values that leave a cell or come to one

A box is moved out of a cell that one binding leads to, and no reference: what is gone then is known.
A value is stored in a cell: whatever leads there finds no gap any more.
-/

set_option autoImplicit false

namespace BorrowLang

open Ownership Moves BorrowStacks

namespace Moves

/-- The outline after an assignment: the place has a value, and its binding may have got its type. -/
structure Assigned (o : Outline) (spot : Spot) (after : Outline) : Prop where
  binders : o.decls.map Decl.binder = after.decls.map Decl.binder
  ty : ∀ {level ty}, o.declTy? level = some ty → after.declTy? level = some ty
  marks : after.marks = o.marks.setLive spot

namespace Assigned

variable {o after : Outline} {spot : Spot}

/-- What was gone is still gone, except at the place and behind it. -/
theorem gone (assigned : Assigned o spot after) {level depth : Nat} (isGone : o.Gone level depth)
    (elsewhere : level ≠ spot.level ∨ depth < spot.depth) : after.Gone level depth := by
  have same : ∀ above ≤ depth, after.marks level above = o.marks level above := by
    intro above atMost
    rw [assigned.marks, Marks.setLive, if_neg]
    rintro ⟨rfl, isBehind⟩
    rcases elsewhere with other | before
    · exact other rfl
    · omega
  unfold Outline.Gone
  rw [same depth (Nat.le_refl _), same 0 (Nat.zero_le _)]
  exact isGone

theorem names (assigned : Assigned o spot after) :
    o.decls.map (·.name) = after.decls.map (·.name) := by
  have names := congrArg (List.map Prod.fst) assigned.binders
  rwa [List.map_map, List.map_map] at names

end Assigned

end Moves

namespace Evaluator

variable {types : CellTypes} {callers : List Layer} {layers : List Layer} {flight : List Addr}
variable {s after : State} {o o' : Outline} {counts : List Nat} {activation : Activation}
variable {rest : List Activation} {l root : Addr} {full : List Addr} {ty : Ty}

/-- A cell of the innermost activation is none of another one. -/
theorem Owned.apart (owned : Owned s flight) (frames : s.frames = activation :: rest)
    (home : root ∈ activation.cells) {other : Activation} (member : other ∈ rest) :
    root ∉ other.cells := by
  intro inOther
  have nodup := (List.nodup_append.mp owned.forest.nodup).1
  rw [State.scopeCells_eq, frames, List.flatMap_cons] at nodup
  exact (List.nodup_append.mp nodup).2.2 root home root
    (List.mem_flatMap.mpr ⟨other, member, inOther⟩) rfl

theorem mem_scopeCells (frames : s.frames = activation :: rest) {other : Activation}
    (member : other ∈ activation :: rest) (inOther : root ∈ other.cells) : root ∈ s.scopeCells := by
  rw [State.scopeCells_eq, frames]
  exact List.mem_flatMap.mpr ⟨other, member, inOther⟩

namespace Layer.Holds

variable {cells : Cells} {layer : Layer} {dropped : List Addr} {value : Value} {spot : Spot}

/-- A value was stored in a cell that is the assigned place, or leads on from no binding of the
activation to anything before that place. -/
theorem store (holds : Layer.Holds types cells ⟨o, counts⟩ activation)
    (assigned : Assigned o spot o') (ready : Ready (without cells dropped) l value)
    (typed : ∀ level, activation.cell? level = some l → o'.declTy? level = some ty)
    (short : ∀ addr chain, activation.cell? spot.level = some addr → Chain cells addr chain →
      l ∉ chain → chain.length ≤ spot.depth) :
    Layer.Holds (Function.update types l (some ty))
      (Function.update (without cells dropped) l (some ⟨value, .live⟩)) ⟨o', counts⟩ activation := by
  refine ⟨holds.floors, holds.held, holds.named.trans assigned.names, ?_, ?_⟩
  · intro level addr own isCell isTy
    by_cases here : addr = l
    · subst here
      rw [Function.update_self] at isTy
      exact (typed level isCell).trans isTy
    · rw [Function.update_of_ne here] at isTy
      exact assigned.ty (holds.typed isCell isTy)
  · intro level addr isCell
    refine ((holds.covered isCell).thin dropped).store ready fun chain run apart depth inChain gone =>
      assigned.gone gone ?_
    by_cases other : level = spot.level
    · -- A chain that does not go through the cell ends before the place.
      subst other
      have before := run.frame fun x member => (run.same_of_without x member).symm
      exact Or.inr (Nat.lt_of_lt_of_le inChain (short addr chain isCell before apart))
    · exact Or.inl other

/-- A value was stored in a cell that is a binding of the type, or none of the activation. -/
theorem storeElsewhere (holds : layer.Holds types cells activation)
    (ready : Ready (without cells dropped) l value)
    (typed : ∀ {level}, activation.cell? level = some l → layer.outline.declTy? level = some ty) :
    layer.Holds (Function.update types l (some ty))
      (Function.update (without cells dropped) l (some ⟨value, .live⟩)) activation := by
  refine holds.frame (fun {level addr own} isCell isTy => ?_) fun isCell =>
    ((holds.covered isCell).thin dropped).store ready fun _ _ _ _ _ => id
  by_cases here : addr = l
  · subst here
    rw [Function.update_self] at isTy
    exact (typed isCell).trans isTy
  · rw [Function.update_of_ne here] at isTy
    exact holds.typed isCell isTy

end Layer.Holds

namespace State.Tracked

/-- A reference may lead to a cell that has no gap behind it. -/
theorem lend (tracked : s.Tracked types layers flight) {addr : Addr}
    (intact : Intact s.heap.lookup addr) (kind : BorrowKind) :
    State.Tracked types layers flight { s with borrows := (s.borrows.push addr kind).1 } where
  shaped := tracked.shaped
  bounded := tracked.bounded
  layers := tracked.layers
  whole := tracked.whole
  lent other some := by
    by_cases here : other = addr
    · exact here ▸ intact
    · exact tracked.lent other (stack_push s.borrows addr kind here ▸ some)
  caused := tracked.caused

/-- A box is moved out of a cell that only one root leads to, and no reference. -/
theorem take (tracked : s.Tracked types (⟨o, counts⟩ :: callers) flight) (owned : Owned s flight)
    (frames : s.frames = activation :: rest) (home : root ∈ activation.cells)
    (run : Chain s.heap.lookup root full) (inside : l ∈ full)
    (intact : Intact s.heap.lookup root) {b : Addr}
    (found : s.heap.lookup l = some ⟨.box b, .live⟩)
    (quiet : ∀ addr chain, Chain s.heap.lookup addr chain → l ∈ chain →
      s.borrows.stack addr = [])
    (loosens : Loosens o o')
    (known : ∀ level, activation.cell? level = some root →
      ∃ depth, full[depth]? = some l ∧ o'.Gone level depth) :
    State.Tracked types (⟨o', counts⟩ :: callers) (flight ++ [b])
      { s with heap := { s.heap with cells := s.heap.cells.insert l ⟨.unit, .moved⟩ } } := by
  have empty : Cell.box? ⟨.unit, .moved⟩ = none := rfl
  have roots : root ∈ s.scopeCells := mem_scopeCells frames List.mem_cons_self home
  have onlyRoot : ∀ {other chain}, other ∈ s.scopeCells ++ flight →
      Chain s.heap.lookup other chain → l ∈ chain → other = root := fun member run' through =>
    owned.forest.disjoint member (List.mem_append_left _ roots) run' run through inside
  have chainOf : ∀ other ∈ s.scopeCells ++ flight, ∃ chain, Chain s.heap.lookup other chain :=
    fun other member => owned.forest.ends other (owned.forest.present other member)
  constructor
  · intro addr held isHeld
    rw [Heap.lookup_insert] at isHeld
    by_cases here : addr = l
    · subst here
      rw [Function.update_self] at isHeld
      cases isHeld
    · rw [Function.update_of_ne here] at isHeld
      exact tracked.shaped addr held isHeld
  · exact tracked.bounded
  · rw [Heap.lookup_insert]
    have layers := tracked.layers
    rw [frames] at layers ⊢
    cases layers with
    | cons first others =>
        refine .cons ?_ (holds_each others fun layer other member holds => ?_)
        · have holds := first.loosen loosens
          refine holds.frame holds.typed fun {level addr} isCell => ?_
          have inCells : addr ∈ s.scopeCells ++ flight := List.mem_append_left _
            (mem_scopeCells frames List.mem_cons_self (first.mem_cells isCell))
          obtain ⟨chain, chainRun⟩ := chainOf addr inCells
          refine (first.covered isCell).moved chainRun empty (fun through => ?_)
            fun depth => loosens.gone
          obtain rfl := onlyRoot inCells chainRun through
          obtain rfl := chainRun.unique run
          exact known level isCell
        · refine holds.frame holds.typed fun {level addr} isCell => ?_
          have inOther := holds.mem_cells isCell
          have inCells : addr ∈ s.scopeCells ++ flight := List.mem_append_left _
            (mem_scopeCells frames (List.mem_cons_of_mem _ member) inOther)
          obtain ⟨chain, chainRun⟩ := chainOf addr inCells
          refine (holds.covered isCell).moved chainRun empty (fun through => ?_) fun depth => id
          obtain rfl := onlyRoot inCells chainRun through
          exact absurd inOther (owned.apart frames home member)
  · intro box member
    rw [Heap.lookup_insert]
    rcases List.mem_append.mp member with old | new
    · obtain ⟨chain, chainRun⟩ := chainOf box (List.mem_append_right _ old)
      refine (tracked.whole box old).moved chainRun empty fun through => ?_
      obtain rfl := onlyRoot (List.mem_append_right _ old) chainRun through
      exact (List.nodup_append.mp owned.forest.nodup).2.2 box roots box old rfl
    · obtain rfl := List.mem_singleton.mp new
      have owns : boxAt s.heap.lookup l = some box := by
        simp [boxAt, found, Cell.box?, Cell.liveValue?, Value.box?]
      exact intact.taken run inside owns (owned.forest.ends box (owned.forest.target _ _ owns)) empty
  · intro addr some
    rw [Heap.lookup_insert]
    have present := owned.stacked addr (by
      by_contra absent
      exact some (stack_of_absent (Bool.eq_false_iff.mpr absent)))
    obtain ⟨chain, chainRun⟩ := owned.forest.ends addr present
    exact (tracked.lent addr some).moved chainRun empty fun through =>
      some (quiet addr chain chainRun through)
  · exact tracked.caused

/-- The types of cells where one cell may get its type. -/
theorem extends_store (known : types l = some ty ∨ types l = none) :
    types.Extends (Function.update types l (some ty)) := by
  intro addr own found
  by_cases here : addr = l
  · subst here
    rcases known with isTy | untyped
    · rw [Function.update_self, ← found, isTy]
    · cases untyped.symm.trans found
  · rwa [Function.update_of_ne here]

/-- What a value owns is apart from the cell that it is put into and from what is dropped there. -/
theorem ready (tracked : s.Tracked types layers flight) (owned : Owned s flight) {value : Value}
    {gone : List Addr} (owns : OwnedBy s.heap.lookup l gone)
    (boxed : ∀ b, value = .box b → b ∈ flight)
    (outside : ∀ box ∈ flight, ∀ chain, Chain s.heap.lookup box chain → l ∉ chain) :
    Ready (without s.heap.lookup gone) l value := by
  intro b isBox
  have member := List.mem_append_right s.scopeCells (boxed b isBox)
  obtain ⟨chain, run⟩ := owned.forest.ends b (owned.forest.present b member)
  have notHere := outside b (boxed b isBox) chain run
  have kept := owned.forest.apart member run notHere owns
  refine ⟨chain, run.frame fun x inChain => without_of_notMem (kept x inChain), notHere, ?_⟩
  intro x inChain
  obtain ⟨held, found⟩ := tracked.whole b (boxed b isBox) chain run x inChain
  exact ⟨held, (without_of_notMem (kept x inChain)).trans found⟩

/-- A value is stored in a cell, and what the cell owned is gone. -/
theorem store (tracked : s.Tracked types (⟨o, counts⟩ :: callers) flight) (owned : Owned s flight)
    (frames : s.frames = activation :: rest) {value : Value} {spot : Spot}
    (boxed : ∀ b, value = .box b → b ∈ flight) (shaped : value.Shaped types ty)
    (outside : ∀ box ∈ flight, ∀ chain, Chain s.heap.lookup box chain → l ∉ chain)
    (known : types l = some ty ∨ types l = none ∧ l ∈ activation.cells)
    (present : (s.heap.lookup l).isSome)
    (replaced : ∃ gone, OwnedBy s.heap.lookup l gone ∧ after.heap.lookup =
      Function.update (without s.heap.lookup gone) l (some ⟨value, .live⟩))
    (allocated : after.heap.allocated = s.heap.allocated)
    (framesAfter : after.frames = s.frames) (lowered : Lowered s.borrows after.borrows)
    (caused : after.borrows.Caused) (assigned : Assigned o spot o')
    (typed : ∀ level, activation.cell? level = some l → o'.declTy? level = some ty)
    (short : ∀ addr chain, activation.cell? spot.level = some addr →
      Chain s.heap.lookup addr chain → l ∉ chain → chain.length ≤ spot.depth) :
    after.Tracked (Function.update types l (some ty)) (⟨o', counts⟩ :: callers) flight := by
  obtain ⟨gone, owns, lookup⟩ := replaced
  have extended := extends_store (known.imp_right And.left)
  have ready := tracked.ready owned owns boxed outside
  have intacts : ∀ {addr}, Intact s.heap.lookup addr → Intact after.heap.lookup addr :=
    fun intact => lookup ▸ (intact.thin gone).store ready
  constructor
  · intro addr held found
    rw [lookup] at found
    by_cases here : addr = l
    · subst here
      rw [Function.update_self] at found
      obtain ⟨rfl, -⟩ := Cell.mk.inj (Option.some.inj found)
      exact ⟨ty, Function.update_self .., shaped.mono extended⟩
    · rw [Function.update_of_ne here] at found
      have isThere : (without s.heap.lookup gone addr).isSome := by rw [found]; rfl
      rw [without_of_notMem (isSome_without isThere).1] at found
      obtain ⟨own, isTy, ofTy⟩ := tracked.shaped addr held found
      exact ⟨own, extended addr own isTy, ofTy.mono extended⟩
  · intro addr own isTy
    rw [allocated]
    by_cases here : addr = l
    · exact here ▸ owned.accounted.bounded l present
    · rw [Function.update_of_ne here] at isTy
      exact tracked.bounded addr own isTy
  · have layers := tracked.layers
    rw [framesAfter, lookup]
    rw [frames] at layers ⊢
    cases layers with
    | cons first others =>
        refine .cons (first.store assigned ready typed short)
          (holds_each others fun layer other member holds => ?_)
        refine holds.storeElsewhere ready fun {level} isCell => ?_
        rcases known with isOwn | ⟨-, home⟩
        · exact holds.typed isCell isOwn
        · exact absurd (holds.mem_cells isCell) (owned.apart frames home member)
  · exact fun box member => intacts (tracked.whole box member)
  · exact fun addr some => intacts (tracked.lent addr fun none => some (lowered.empty addr none))
  · exact caused

end State.Tracked

end Evaluator

end BorrowLang
