import BorrowLang.Proofs.Uses.Places

/-!
# Uses of places

A place that is read, borrowed, shown or assigned, at the location that it denotes: no such use finds
that a value is gone, and what is known after it is what the check says.
-/

set_option autoImplicit false

namespace BorrowLang

open Ownership Moves
open Checker (Operand)

namespace Moves

variable {o after : Outline} {spot : Spot} {value : Operand}

theorem Loosens.moved (o : Outline) (spot : Spot) :
    Loosens o { o with marks := o.marks.set spot .moved } := by
  refine ⟨rfl, id, fun {level depth} isGone => ?_⟩
  simp only [Outline.Gone, Marks.set]
  by_cases here : level = spot.level ∧ depth = spot.depth
  · rw [if_pos here]
    exact Or.inl rfl
  · rw [if_neg here]
    rcases isGone with moved | ⟨rfl, uninit⟩
    · exact Or.inl moved
    · rw [if_neg here]
      exact Or.inr ⟨rfl, uninit⟩

/-- A place that is used is whole; it is copied, or moved out of its binding. -/
theorem usePlace_eq_some (passed : usePlace spot o = some (value, after)) :
    o.ty? spot = some value.ty ∧ o.Whole spot.level ∧
      ((∀ inner, value.ty ≠ .box inner) ∧ after = o ∨
        o.Owned spot ∧ after = { o with marks := o.marks.set spot .moved }) := by
  obtain ⟨ty, isTy, used⟩ := typeOf_bind passed
  split at used
  · rename_i copied
    obtain ⟨whole, ends⟩ := ensure_bind used
    obtain ⟨rfl, rfl⟩ := pure_eq_some.mp ends
    refine ⟨isTy, whole, Or.inl ⟨fun inner isBox => ?_, rfl⟩⟩
    obtain rfl : ty = .box inner := isBox
    cases copied
  · obtain ⟨⟨whole, owned⟩, moves⟩ := ensure_bind used
    have ends := mark_bind moves
    obtain ⟨rfl, rfl⟩ := pure_eq_some.mp ends
    exact ⟨isTy, whole, Or.inr ⟨owned, rfl⟩⟩

theorem borrowPlace_eq_some {isMut : Bool} (passed : borrowPlace spot isMut o = some (value, after)) :
    o.Whole spot.level ∧ after = o ∧
      ∃ ty, o.ty? spot = some ty ∧ value = { ty := .ref isMut ty } := by
  have borrows : (do
      Bare.ensure (·.Whole spot.level)
      return { ty := .ref isMut (← typeOf spot) } : Bare Operand) o = some (value, after) := by
    unfold borrowPlace at passed
    split at passed
    · exact (ensure_bind passed).2
    · exact passed
  obtain ⟨whole, typed⟩ := ensure_bind borrows
  obtain ⟨ty, isTy, ends⟩ := typeOf_bind typed
  obtain ⟨rfl, rfl⟩ := pure_eq_some.mp ends
  exact ⟨whole, rfl, ty, isTy, rfl⟩

theorem showPlace_eq_some {checker : Checker.Context} {loc : Option Position} {u : Unit}
    (passed : showPlace checker loc spot o = some (u, after)) : o.Whole spot.level ∧ after = o := by
  obtain ⟨whole, typed⟩ := ensure_bind passed
  obtain ⟨ty, -, shown⟩ := typeOf_bind typed
  exact ⟨whole, (answer_eq_some shown).2⟩

end Moves

/-! ### Paths of boxes -/

namespace Ownership

/-- Each cell of a path but the first has its owner there. -/
theorem owner_of_path {cells : Cells} {path : List Addr} {y : Addr}
    (run : path.IsChain fun a b => boxAt cells a = some b) (member : y ∈ path) :
    path.head? = some y ∨ ∃ x ∈ path, boxAt cells x = some y := by
  induction path with
  | nil => cases member
  | cons x rest ih =>
      rcases List.mem_cons.mp member with rfl | later
      · exact Or.inl rfl
      · cases rest with
        | nil => cases later
        | cons z rest =>
            obtain ⟨owns, restRun⟩ := List.isChain_cons_cons.mp run
            rcases ih restRun later with first | ⟨owner, inRest, isOwner⟩
            · obtain rfl := Option.some.inj first
              exact Or.inr ⟨x, List.mem_cons_self, owns⟩
            · exact Or.inr ⟨owner, List.mem_cons_of_mem _ inRest, isOwner⟩

end Ownership

namespace Evaluator

variable {ctx : Context} {n : Nat} {s : State} {types later : CellTypes}
variable {callers : List Layer} {flight : List Addr} {o after : Outline} {counts : List Nat}
variable {spot : Spot} {l : Location} {activation : Activation} {rest : List Activation}

theorem Owned.distinct (owned : Owned s flight) (frames : s.frames = activation :: rest) :
    activation.cells.Nodup := by
  have nodup := (List.nodup_append.mp owned.forest.nodup).1
  rw [State.scopeCells_eq, frames, List.flatMap_cons] at nodup
  exact (List.nodup_append.mp nodup).1

/-- Whatever leads to a location that was reached from a root is on the way there. -/
theorem Reached.closed (reached : Reached s l) (owned : Owned s flight)
    (isRoot : l.first ∈ s.scopeCells ++ flight) :
    ∀ x y, boxAt s.heap.lookup x = some y → y ∈ l.owners ++ [l.addr] →
      x ∈ l.owners ++ [l.addr] := by
  intro x y owns member
  rcases owner_of_path reached.path member with first | ⟨owner, inPath, isOwner⟩
  · obtain rfl := Option.some.inj (l.first_eq_head.symm.trans first)
    exact absurd isRoot (owned.forest.unowned _ _ owns)
  · exact owned.forest.owner _ _ _ owns isOwner ▸ inPath

/-- Where nothing of a binding is gone, a use that is allowed finds all values behind it. -/
theorem Location.Denotes.intact (denotes : l.Denotes types o spot s)
    (tracked : s.Tracked types (⟨o, counts⟩ :: callers) flight) (owned : Owned s flight)
    (reached : Reached s l) (whole : o.Whole spot.level) (here : (s.heap.lookup l.first).isSome)
    (valid : ∀ tag, l.tag = some tag → s.borrows.stack l.first ≠ []) :
    Intact s.heap.lookup l.addr := by
  obtain ⟨activation, rest, root, frames, isCell, bound, -⟩ := denotes.root
  obtain ⟨chain, run⟩ := owned.forest.ends l.first here
  have inside := List.mem_of_getElem? (reached.getElem? run).2
  cases via : l.tag with
  | some tag => exact (tracked.lent _ (valid tag via)).behind run inside
  | none =>
      obtain ⟨isRoot, -⟩ := bound via
      obtain ⟨activation', rest', frames', holds, -⟩ := tracked.head
      obtain ⟨rfl, rfl⟩ := List.cons.inj (frames.symm.trans frames')
      rw [isRoot] at run
      exact ((holds.covered isCell).intact whole.held).behind run inside

/-! ### Reading and borrowing -/

theorem Sound.owned_found {k : Stack .place} (sound : Sound (.found l) k s) :
    Owned s (boxes k.values) := by
  simpa [Control.values] using sound.owned

/-- A place is read: its value stays there, unless it is a box. -/
theorem readPlace_safe (e : Expr) {ty : Ty} {k : Stack .value} (isTy : o.ty? spot = some ty)
    (whole : o.Whole spot.level)
    (use : (∀ inner, ty ≠ .box inner) ∧ after = o ∨
      o.Owned spot ∧ after = { o with marks := o.marks.set spot .moved })
    (goesOn : OnValue ctx n (⟨after, counts⟩ :: callers) types ty k) :
    OnPlace ctx n o counts callers types spot (.cons (.readPlace e) k) := by
  intro later l s extended tracked denotes
  refine .acts rfl rfl fun sound => ?_
  have values : (Stack.cons (.readPlace e) k).values = k.values := List.append_nil _
  rw [values] at tracked
  have reached : Reached s l := sound.holds
  have owned := values ▸ sound.owned_found
  simp only [meets_bind, meets_pure]
  refine Meets.onOk (read_uses e owned tracked.caused
    (denotes.held_state tracked owned reached fun depth _ => whole.held depth)) ?_
  rintro result read ⟨found, used, caused⟩
  obtain ⟨known, -, isKnown, shaped⟩ := denotes.shaped tracked found
  obtain rfl := Option.some.inj (isTy.symm.trans isKnown)
  have loosens : Loosens o after := by
    rcases use with ⟨-, rfl⟩ | ⟨-, rfl⟩
    · exact .refl _
    · exact .moved o spot
  refine goesOn later result read extended shaped ?_
  cases used with
  | stayed plain ended =>
      rw [boxes_append_plain _ plain]
      exact (tracked.ended ended caused).loosen loosens
  | @left b mid ended idle =>
      -- A box is not copied, so it leaves its binding, which was on the way there from the start.
      obtain ⟨isOwned, rfl⟩ := use.resolve_left fun stays =>
        by cases shaped.box?_of_ne_box stays.1
      obtain ⟨activation, rest, root, frames, isCell, direct, through⟩ := denotes.root
      have owner : l.tag = none := by
        by_contra via
        exact (through via).1 isOwned
      obtain ⟨isRoot, depth⟩ := direct owner
      obtain ⟨activation', rest', frames', holds, -⟩ := tracked.head
      obtain ⟨rfl, rfl⟩ := List.cons.inj (frames.symm.trans frames')
      have home := holds.mem_cells isCell
      have inScopes := mem_scopeCells frames List.mem_cons_self home
      obtain ⟨chain, run⟩ := owned.forest.ends root (owned.forest.present root
        (List.mem_append_left _ inScopes))
      have isHere := (reached.getElem? (isRoot ▸ run)).2
      have closed := reached.closed owned (isRoot ▸ List.mem_append_left _ inScopes)
      have trackedMid := tracked.ended ended caused
      have heap := ended.heap
      rw [boxes_append]
      refine trackedMid.take (ended.owned owned) (ended.frames.trans frames) home (heap ▸ run)
        (List.mem_of_getElem? isHere) (heap ▸ (holds.covered isCell).intact whole.held)
        (heap ▸ found) ?_ loosens ?_
      · intro addr chain run' inChain
        rw [heap] at run'
        exact idle owner addr (run'.start_mem_of_closed closed inChain (by simp))
      · intro level isBinding
        obtain rfl := holds.cell?_inj (owned.distinct frames) isBinding isCell
        exact ⟨spot.depth, depth ▸ isHere, Or.inl (by simp [Marks.set])⟩

theorem borrowPlace_safe (operand : Expr) {isMut : Bool} {value : Operand} {k : Stack .value}
    (passed : borrowPlace spot isMut o = some (value, after))
    (goesOn : OnValue ctx n (⟨after, counts⟩ :: callers) types value.ty k) :
    OnPlace ctx n o counts callers types spot (.cons (.borrowPlace operand isMut) k) := by
  obtain ⟨whole, rfl, ty, isTy, rfl⟩ := borrowPlace_eq_some passed
  intro later l s extended tracked denotes
  refine .acts rfl rfl fun sound => ?_
  have values : (Stack.cons (.borrowPlace operand isMut) k).values = k.values := List.append_nil _
  rw [values] at tracked
  have reached : Reached s l := sound.holds
  have owned := values ▸ sound.owned_found
  simp only [meets_bind, meets_pure]
  refine Meets.onOk (access_uses l operand isMut (by rintro ⟨⟩) tracked.caused) ?_
  rintro _ mid ⟨ended, here, valid, caused⟩
  have intact := denotes.intact tracked owned reached whole here valid
  obtain ⟨chain, run⟩ := owned.forest.ends l.addr (reached.present owned here)
  obtain ⟨held, found⟩ := intact chain run l.addr run.head_mem
  obtain ⟨known, points, isKnown, -⟩ := denotes.shaped tracked found
  obtain rfl := Option.some.inj (isTy.symm.trans isKnown)
  simp only [pushTag, meets_bind, meets_get, meets_set, meets_pure]
  refine goesOn later _ _ extended (.ref points) ?_
  rw [boxes_append_plain _ rfl]
  exact (tracked.ended ended caused).lend (ended.heap ▸ intact) _

/-! ### Showing -/

/-- It is safe to go on with the arguments of a macro from one that is shown. -/
theorem shownPlace_safe (arg : Expr) {template : String} {shown : List Shown} {args : List Expr}
    {k : Stack .value} (whole : o.Whole spot.level)
    (goesOn : ∀ (later : CellTypes) (value : Value) (s : State), types.Extends later →
      s.Tracked later (⟨o, counts⟩ :: callers) (boxes (k.values ++ ownedValues shown)) →
        Safe ctx n ⟨addShown template shown ⟨arg, value, false⟩ args, k, s⟩) :
    OnPlace ctx n o counts callers types spot (.cons (.shownPlace template shown arg args) k) := by
  intro later l s extended tracked denotes
  refine .acts rfl rfl fun sound => ?_
  have reached : Reached s l := sound.holds
  have owned := sound.owned_found
  simp only [meets_bind, meets_pure]
  refine Meets.onOk (load_uses arg tracked.caused (denotes.held_state tracked owned reached
    fun depth _ => whole.held depth)) ?_
  rintro value loaded ⟨ended, -, -, caused⟩
  exact goesOn later value loaded extended (tracked.ended ended caused)

/-! ### Assigning -/

theorem assignPlace_eq_some (passed : assignPlace spot o = some ((), after)) :
    o.Writable spot ∧ after = { o with marks := o.marks.setLive spot } := by
  obtain ⟨writable, marked⟩ := ensure_bind passed
  obtain ⟨-, rfl⟩ := Prod.mk.inj (Option.some.inj marked)
  exact ⟨writable, rfl⟩

/-- An assigned place has the type of its binding, or its binding gets that of the value. -/
theorem assignType_eq_some {checker : Checker.Context} {loc : Option Position} {value : Operand}
    {op : Option BinaryOp} (passed : assignType checker loc spot value op o = some ((), after)) :
    (op.isSome → o.Whole spot.level ∧ o.ty? spot = some .i32) ∧
      (op = none → ∀ ty, o.ty? spot = some ty →
        value.diverges = true ∨ value.ty.coercesTo ty = true) ∧
      (after = o ∧ (o.ty? spot).isSome ∨
        o.ty? spot = none ∧ op = none ∧ after = o.setTy spot.level value.ty) := by
  cases op with
  | some op =>
      obtain ⟨whole, typed⟩ := ensure_bind passed
      obtain ⟨⟨isTy, -⟩, rfl⟩ := ensure_eq_some typed
      exact ⟨fun _ => ⟨whole, isTy⟩, by rintro ⟨⟩, Or.inl ⟨rfl, by rw [isTy]; rfl⟩⟩
  | none =>
      refine ⟨by rintro ⟨⟩, fun _ => ?_, ?_⟩
      · intro ty isTy
        simp only [assignType, isTy] at passed
        exact expect_eq_ok (answer_eq_some passed).1
      · cases isTy : o.ty? spot with
        | none =>
            simp only [assignType, isTy] at passed
            obtain ⟨-, rfl⟩ := Prod.mk.inj (Option.some.inj passed)
            exact Or.inr ⟨rfl, rfl, rfl⟩
        | some ty =>
            simp only [assignType, isTy] at passed
            exact Or.inl ⟨(answer_eq_some passed).2, rfl⟩

/-- An assignment to a place is one to its outline. -/
theorem assigned_of_eq_some {checker : Checker.Context} {loc : Option Position} {value : Operand}
    {op : Option BinaryOp} {mid : Outline}
    (typed : assignType checker loc spot value op o = some ((), mid))
    (placed : assignPlace spot mid = some ((), after)) : Assigned o spot after := by
  obtain ⟨-, rfl⟩ := assignPlace_eq_some placed
  cases op with
  | some op =>
      obtain ⟨-, -, ⟨rfl, -⟩ | ⟨-, impossible, -⟩⟩ := assignType_eq_some typed
      · exact ⟨rfl, id, rfl⟩
      · cases impossible
  | none =>
      obtain ⟨binders, marks, types⟩ := assignType_parts typed
      refine ⟨binders.symm, fun {level ty} known => ?_, congrArg (Marks.setLive · spot) marks⟩
      change mid.declTy? level = some ty
      rw [types, known]
      split <;> rfl

/-- The type of the cell at an assigned place, from the assignment on. -/
theorem Location.Denotes.gets {checker : Checker.Context} {loc : Option Position} {value : Operand}
    {op : Option BinaryOp} {mid : Outline} (denotes : l.Denotes types o spot s)
    (inside : spot.level < o.decls.length)
    (typed : assignType checker loc spot value op o = some ((), mid))
    (placed : assignPlace spot mid = some ((), after)) :
    ∃ ty, (types l.addr = some ty ∨ types l.addr = none) ∧
      (spot.depth = 0 → after.declTy? spot.level = some ty) ∧ (op.isSome → ty = .i32) ∧
      (op = none → value.diverges = false → value.ty.coercesTo ty = true) := by
  obtain ⟨-, rfl⟩ := assignPlace_eq_some placed
  obtain ⟨compound, coerces, kept⟩ := assignType_eq_some typed
  obtain ⟨level, depth⟩ := spot
  rcases kept with ⟨rfl, known⟩ | ⟨unknown, rfl, rfl⟩
  · obtain ⟨ty, isTy⟩ := Option.isSome_iff_exists.mp known
    refine ⟨ty, ?_, ?_, fun isOp => ?_, fun isNone comes => ?_⟩
    · cases cell : types l.addr with
      | none => exact Or.inr rfl
      | some other => exact Or.inl ((denotes.typed other cell).symm.trans isTy)
    · rintro rfl
      exact isTy
    · exact Option.some.inj (isTy.symm.trans (compound isOp).2)
    · exact (coerces isNone ty isTy).resolve_left (by simp [comes])
  · refine ⟨value.ty, Or.inr ?_, ?_, by rintro ⟨⟩, fun _ _ => Ty.coercesTo_refl _⟩
    · cases cell : types l.addr with
      | none => rfl
      | some other => cases unknown.symm.trans (denotes.typed other cell)
    · rintro rfl
      have untyped : o.declTy? level = none := unknown
      change (o.setTy level value.ty).declTy? level = some value.ty
      rw [declTy?_setTy, if_pos ⟨rfl, inside⟩, untyped]
      rfl

/-- What is known of a state goes on from an assignment. -/
theorem Stored.tracked {last : State} {value : Value} {ty : Ty} (stored : Stored s l value last)
    (denotes : l.Denotes types o spot s)
    (tracked : s.Tracked types (⟨o, counts⟩ :: callers) flight) (owned : Owned s flight)
    (reached : Reached s l) (boxed : ∀ b, value = .box b → b ∈ flight)
    (shaped : value.Shaped types ty) (cell : types l.addr = some ty ∨ types l.addr = none)
    (gets : spot.depth = 0 → after.declTy? spot.level = some ty) (assigned : Assigned o spot after) :
    last.Tracked (Function.update types l.addr (some ty)) (⟨after, counts⟩ :: callers) flight := by
  obtain ⟨activation, rest, root, frames, isCell, direct, through⟩ := denotes.root
  obtain ⟨activation', rest', frames', holds, -⟩ := tracked.head
  obtain ⟨rfl, rfl⟩ := List.cons.inj (frames.symm.trans frames')
  have isFirst : types l.addr = none → l.addr = root ∧ spot.depth = 0 := by
    intro untyped
    obtain ⟨owner, first⟩ := denotes.untyped untyped
    obtain ⟨isRoot, depth⟩ := direct owner
    have noOwners : l.owners = [] := List.eq_nil_of_length_eq_zero (depth.trans first)
    exact ⟨by simpa [Location.first, noOwners] using isRoot, first⟩
  refine tracked.store owned frames boxed shaped
    (fun box member chain run => reached.outside owned stored.valid member run) ?_ stored.present
    stored.replaced stored.allocated stored.frames stored.lowered stored.caused assigned ?_ ?_
  · refine cell.imp_right fun untyped => ⟨untyped, ?_⟩
    exact (isFirst untyped).1 ▸ holds.mem_cells isCell
  · intro level isBinding
    rcases cell with isTy | untyped
    · exact assigned.ty (holds.typed isBinding isTy)
    · obtain ⟨isRoot, first⟩ := isFirst untyped
      obtain rfl := holds.cell?_inj (owned.distinct frames) (isRoot ▸ isBinding) isCell
      exact gets first
  · intro addr chain isBinding run outside
    obtain rfl := Option.some.inj (isCell.symm.trans isBinding)
    by_cases owner : l.tag = none
    · have isHere := (reached.getElem? ((direct owner).1 ▸ run)).2
      exact absurd (List.mem_of_getElem? isHere) outside
    · exact (through owner).2 chain run

theorem assignPlace_safe {checker : Checker.Context} {loc valueLoc : Option Position}
    (target : Expr) {operand : Operand} {op : Option BinaryOp} {mid : Outline} {value : Value}
    {k : Stack .done} (typed : assignType checker valueLoc spot operand op o = some ((), mid))
    (placed : assignPlace spot mid = some ((), after)) (ofTy : value.Shaped types operand.ty)
    (comes : operand.diverges = false)
    (goesOn : OnDone ctx n (⟨after, counts⟩ :: callers) types k) :
    OnPlace ctx n o counts callers types spot (.cons (.assignPlace loc target op value) k) := by
  intro later l s extended tracked denotes
  refine .acts rfl rfl fun sound => ?_
  have values : (Stack.cons (.assignPlace loc target op value) k).values = k.values ++ [value] := rfl
  have reached : Reached s l := sound.holds
  have owned := sound.owned_found
  rw [values] at tracked owned
  obtain ⟨activation, rest, frames, holds, -⟩ := tracked.head
  obtain ⟨activation', rest', root, frames', isCell, -⟩ := denotes.root
  obtain ⟨rfl, rfl⟩ := List.cons.inj (frames.symm.trans frames')
  obtain ⟨ty, cell, gets, compound, coerces⟩ := denotes.gets (holds.lt_length isCell) typed placed
  have assigned := assigned_of_eq_some typed placed
  have goesOnFrom : ∀ {result : Value} {last : State}, result.Shaped later ty →
      (∀ b, result = .box b → b ∈ boxes (k.values ++ [value])) → Stored s l result last →
        Safe ctx n ⟨.finished, k, last⟩ := by
    intro result last shaped boxed stored
    refine goesOn _ last (extended.trans (State.Tracked.extends_store cell)) ?_
    refine (stored.tracked denotes tracked owned reached boxed shaped cell gets assigned).weaken ?_
    intro box member
    rw [boxes_append]
    exact List.mem_append_left _ member
  cases op with
  | none =>
      simp only [meets_bind, meets_pure]
      refine Meets.onOk (assign_uses target value owned reached tracked.caused) ?_
      intro _ last stored
      refine goesOnFrom ((ofTy.mono extended).coerce (coerces rfl comes)) ?_ stored
      rintro b rfl
      rw [boxes_append]
      exact List.mem_append_right _ (List.mem_singleton_self b)
  | some op =>
      have whole := ((assignType_eq_some typed).1 rfl).1
      simp only [meets_bind, meets_pure]
      refine Meets.onOk (combine_uses loc target op value tracked.caused
        (denotes.held_state tracked owned reached fun depth _ => whole.held depth)) ?_
      rintro _ last ⟨result, plain, stored⟩
      refine goesOnFrom (.plain plain ?_) ?_ stored
      · rw [compound rfl]
        rfl
      · rintro b rfl
        cases plain

end Evaluator

end BorrowLang
