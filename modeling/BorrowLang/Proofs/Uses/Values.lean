import BorrowLang.Proofs.Uses.Reading

/-!
# What is done with a value

A value that a part of a body has come to is dropped, bound, returned, or put into a new cell: a box
is made of it, or a reference to it as a temporary, or a temporary is looked through at once.
-/

set_option autoImplicit false

namespace BorrowLang.Evaluator

open Ownership Moves BorrowStacks
open Checker (Operand)

variable {ctx : Context} {n : Nat} {s : State} {types later : CellTypes} {layers : List Layer}
variable {callers : List Layer} {flight : List Addr} {o after : Outline} {counts : List Nat}
variable {ty : Ty}

/-- A box that leads to cells with their values may be in flight. -/
theorem State.Tracked.own (tracked : s.Tracked types layers flight) {box : Addr}
    (intact : Intact s.heap.lookup box) : s.Tracked types layers (flight ++ [box]) where
  shaped := tracked.shaped
  bounded := tracked.bounded
  layers := tracked.layers
  whole other member := by
    rcases List.mem_append.mp member with old | new
    · exact tracked.whole other old
    · exact List.mem_singleton.mp new ▸ intact
  lent := tracked.lent
  caused := tracked.caused

/-- The machine is inside of a scope when a frame that leaves none is next. -/
theorem Sound.isOpen {next : Mode} {v : Value} {frame : Frame .value next} {k : Stack next}
    (sound : Sound (.value v) (.cons frame k) s)
    (inner : ∀ shape below, frame.Below shape below → Open shape ∧ below = shape) : Open s.shape :=
  (Stack.Fits.pop sound.fits (inner s.shape)).1

theorem exprStmt_safe {k : Stack .done} (goesOn : OnDone ctx n layers types k) :
    OnValue ctx n layers types ty (.cons .exprStmt k) := by
  intro later v s extended shaped tracked
  refine .acts rfl rfl fun sound => ?_
  have values : (Stack.cons .exprStmt k).values = k.values := List.append_nil _
  have forest : Forest s.heap.lookup (v.box?.toList ++ (s.scopeCells ++ boxes k.values)) := by
    refine sound.owned.forest.weaken (List.Perm.subperm ?_)
    rw [values, boxes_append, ← List.append_assoc s.scopeCells, ← boxes_singleton]
    exact List.perm_append_comm
  rw [values, boxes_append] at tracked
  simp only [meets_bind, meets_pure]
  refine Meets.mono (Meets.both (dropValue_meets forest) (spares_dropValue v tracked.caused)) ?_
    fun _ _ met => met.2
  rintro _ last ⟨⟨-, thinned, -⟩, caused⟩
  refine goesOn later last extended ((tracked.thinned thinned caused).weaken ?_)
  exact fun box member => List.mem_append_left _ member

theorem letVar_safe (decl : Decl) {final : Ty} {k : Stack .done} (isTy : decl.ty = some final)
    (coerces : ty.coercesTo final = true)
    (goesOn : OnDone ctx n (⟨o.declare decl true, counts⟩ :: callers) types k) :
    OnValue ctx n (⟨o, counts⟩ :: callers) types ty (.cons (.letVar decl.name) k) := by
  intro later v s extended shaped tracked
  refine .acts rfl rfl fun sound => ?_
  have values : (Stack.cons (.letVar decl.name) k).values = k.values := List.append_nil _
  have owned := sound.owned
  rw [values, boxes_append] at tracked
  rw [values, boxes_append] at owned
  obtain ⟨scope, scopes, frames, framesEq⟩ := (sound.isOpen fun _ _ => id).frames
  simp only [bind, Evaluator.alloc, modifyScope, meets_bind, meets_get, meets_set, meets_pure,
    meets_modify, framesEq]
  refine goesOn _ _ (extended.trans (tracked.extends_add final true)) ?_
  refine State.Tracked.weaken ?_ fun box member => List.mem_append_left (boxes [v]) member
  refine tracked.declare owned framesEq (fun _ => shaped.coerce coerces) (fun _ => isTy)
    (fun _ b isBox => ?_) rfl rfl rfl
  exact List.mem_append_right _ (by rw [isBox]; exact List.mem_singleton_self b)

theorem ret_safe {final : Ty} {k : Stack .done} (coerces : ty.coercesTo final = true)
    {layer : Layer} (returns : OnReturn ctx n callers types final k) :
    OnValue ctx n (layer :: callers) types ty (.cons .ret k) := by
  intro later v s extended shaped tracked
  have values : (Stack.cons .ret k).values = k.values := List.append_nil _
  rw [values] at tracked
  refine (Safe.of_advance rfl rfl fun _ => ?_).mono (Nat.le_succ n)
  exact returns later layer v s extended (shaped.coerce coerces) tracked

theorem boxNew_safe {k : Stack .value} (goesOn : OnValue ctx n layers types (.box ty) k) :
    OnValue ctx n layers types ty (.cons .boxNew k) := by
  intro later v s extended shaped tracked
  refine .acts rfl rfl fun sound => ?_
  have values : (Stack.cons .boxNew k).values = k.values := List.append_nil _
  have owned := sound.owned
  rw [values, boxes_append] at tracked
  rw [values, boxes_append] at owned
  have inFlight : ∀ b, v = .box b → b ∈ boxes k.values ++ boxes [v] := fun b isBox =>
    List.mem_append_right _ (by rw [isBox]; exact List.mem_singleton_self b)
  simp only [Evaluator.alloc, meets_bind, meets_get, meets_set, meets_pure]
  have extendedNew := tracked.extends_add ty true
  refine goesOn _ _ _ (extended.trans extendedNew) (.box ?_) ?_
  · simp [CellTypes.add, Heap.alloc]
  · rw [boxes_append]
    refine State.Tracked.own ?_ (tracked.intact_alloc owned inFlight)
    exact (tracked.alloc owned fun _ => shaped).weaken fun box member =>
      List.mem_append_left _ member

/-- A value that is kept as a temporary is in a cell of the innermost scope. -/
theorem materialize_uses {v : Value} (tracked : s.Tracked types layers flight)
    (owned : Owned s flight) (isOpen : Open s.shape) (shaped : v.Shaped types ty) :
    Meets (materialize v) s
      (fun addr last => addr = s.heap.allocated + 1 ∧
        last.Tracked (types.add addr ty true) layers flight ∧
        last.heap = (s.heap.alloc v true).1 ∧ last.borrows = s.borrows ∧
        ∃ scope scopes rest, s.frames = ⟨scope :: scopes⟩ :: rest ∧
          last.frames = ⟨scope.hold addr :: scopes⟩ :: rest)
      (fun _ _ => False) := by
  obtain ⟨scope, scopes, frames, framesEq⟩ := isOpen.frames
  simp only [materialize, Evaluator.alloc, modifyScope, meets_bind, meets_get, meets_set,
    meets_pure, meets_modify, framesEq]
  exact ⟨rfl, tracked.hold owned framesEq shaped rfl rfl rfl, trivial, trivial, scope, scopes,
    frames, rfl, rfl⟩

theorem borrowTemporary_safe {isMut : Bool} {k : Stack .value}
    (goesOn : OnValue ctx n layers types (.ref isMut ty) k) :
    OnValue ctx n layers types ty (.cons (.borrowTemporary isMut) k) := by
  intro later v s extended shaped tracked
  refine .acts rfl rfl fun sound => ?_
  have values : (Stack.cons (.borrowTemporary isMut) k).values = k.values := List.append_nil _
  have owned := sound.owned
  rw [values, boxes_append] at tracked
  rw [values, boxes_append] at owned
  have inFlight : ∀ b, v = .box b → b ∈ boxes k.values ++ boxes [v] := fun b isBox =>
    List.mem_append_right _ (by rw [isBox]; exact List.mem_singleton_self b)
  simp only [meets_bind, meets_pure]
  refine Meets.uncut (materialize_uses tracked owned (sound.isOpen fun _ _ => id) shaped) ?_
  rintro _ last ⟨rfl, trackedLast, heap, -, -⟩
  simp only [pushTag, meets_bind, meets_get, meets_set, meets_pure]
  refine goesOn _ _ _ (extended.trans (tracked.extends_add ty true)) (.ref ?_) ?_
  · simp [CellTypes.add]
  · rw [boxes_append_plain _ rfl]
    refine State.Tracked.weaken (trackedLast.lend ?_ _) fun box member =>
      List.mem_append_left _ member
    rw [heap]
    exact tracked.intact_alloc owned inFlight

/-! ### Temporaries that are looked through -/

theorem enterPlace_temporary {loc : Option Position} {operand : Expr}
    (notPlace : (Expr.deref loc operand).isPlace = false) (k : Stack .place) :
    enterPlace (.deref loc operand) k = goTo (.expr operand) (.cons (.derefValue operand) k) := by
  cases operand <;> simp_all [enterPlace, Expr.isPlace]

/-- A new cell has no reference to it. -/
theorem Owned.stack_new (owned : Owned s flight) : s.borrows.stack (s.heap.allocated + 1) = [] := by
  refine stack_of_absent (Bool.eq_false_iff.mpr fun known => ?_)
  have here := owned.stacked _ known
  rw [owned.accounted.fresh (Nat.lt_succ_self _)] at here
  cases here

/-- What a reference leads to is copied. -/
theorem derefRef_safe (e operand : Expr) {target : Ty} {addr : Addr} {tag : Tag}
    {k : Stack .value} (tracked : s.Tracked types layers (boxes k.values))
    (points : types addr = some target) (copied : target.isCopy = true)
    (goesOn : OnValue ctx n layers types target k) :
    Safe ctx n
      ⟨.found { addr, tag := some tag, source := some operand }, .cons (.readPlace e) k, s⟩ := by
  refine .acts rfl rfl fun sound => ?_
  have values : (Stack.cons (.readPlace e) k).values = k.values := List.append_nil _
  have owned := values ▸ sound.owned_found
  simp only [meets_bind, meets_pure]
  refine Meets.onOk (read_uses e owned tracked.caused fun here valid cell found => ?_) ?_
  · obtain ⟨chain, run⟩ := owned.forest.ends addr here
    obtain ⟨held, isHeld⟩ := tracked.lent addr (valid tag rfl) chain run addr run.head_mem
    obtain rfl := Option.some.inj (found.symm.trans isHeld)
    rfl
  · rintro result last ⟨found, used, caused⟩
    obtain ⟨known, isTy, shaped⟩ := tracked.shaped addr result found
    obtain rfl := Option.some.inj (points.symm.trans isTy)
    cases used with
    | stayed plain ended =>
        refine goesOn types result last (.refl types) shaped ?_
        rw [boxes_append_plain _ plain]
        exact tracked.ended ended caused
    | left => cases shaped.box?_of_isCopy copied

/-- What a box that is a temporary leads to is moved out of the box. -/
theorem derefBox_safe (e : Expr) {target : Ty} {b : Addr} {k : Stack .value} {last : State}
    {scope : Scope} {scopes : List Scope} {rest : List Activation}
    (tracked : s.Tracked types (⟨o, counts⟩ :: callers) (boxes k.values ++ [b]))
    (owned : Owned s (boxes k.values ++ [b])) (points : types b = some target)
    (frames : s.frames = ⟨scope :: scopes⟩ :: rest)
    (trackedLast : last.Tracked (types.add (s.heap.allocated + 1) (.box target) true)
      (⟨o, counts⟩ :: callers) (boxes k.values ++ [b]))
    (heap : last.heap = (s.heap.alloc (.box b) true).1) (borrows : last.borrows = s.borrows)
    (framesLast : last.frames = ⟨scope.hold (s.heap.allocated + 1) :: scopes⟩ :: rest)
    (goesOn : OnValue ctx n (⟨o, counts⟩ :: callers) types target k) :
    Safe ctx n ⟨.found { addr := b }, .cons (.readPlace e) k, last⟩ := by
  refine .acts rfl rfl fun sound => ?_
  have values : (Stack.cons (.readPlace e) k).values = k.values := List.append_nil _
  have ownedLast := values ▸ sound.owned_found
  have extended := tracked.extends_add (.box target) true
  have inFlight : b ∈ boxes k.values ++ [b] := List.mem_append_right _ (List.mem_singleton_self b)
  have weak : last.Tracked (types.add (s.heap.allocated + 1) (.box target) true)
      (⟨o, counts⟩ :: callers) (boxes k.values) :=
    trackedLast.weaken fun box member => List.mem_append_left _ member
  simp only [meets_bind, meets_pure]
  refine Meets.onOk (read_uses e ownedLast weak.caused fun here _ cell found => ?_) ?_
  · obtain ⟨chain, run⟩ := ownedLast.forest.ends b here
    obtain ⟨held, isHeld⟩ := trackedLast.whole b inFlight chain run b run.head_mem
    obtain rfl := Option.some.inj (found.symm.trans isHeld)
    rfl
  rintro result read ⟨found, used, caused⟩
  obtain ⟨known, isTy, shaped⟩ := weak.shaped b result found
  obtain rfl := Option.some.inj ((extended b target points).symm.trans isTy)
  refine goesOn _ result read extended shaped ?_
  cases used with
  | stayed plain ended =>
      rw [boxes_append_plain _ plain]
      exact weak.ended ended caused
  | @left inner mid ended idle =>
      have fresh := owned.accounted.fresh (Nat.lt_succ_self s.heap.allocated)
      have owns : boxAt last.heap.lookup (s.heap.allocated + 1) = some b := by
        rw [heap, Heap.lookup_alloc, boxAt_update, if_pos rfl]
        rfl
      obtain ⟨chain, run⟩ := ownedLast.forest.ends b (ownedLast.forest.target _ _ owns)
      have home : s.heap.allocated + 1 ∈
          Activation.cells ⟨scope.hold (s.heap.allocated + 1) :: scopes⟩ := by
        simp [Activation.cells, Scope.hold]
      have inScopes := mem_scopeCells framesLast List.mem_cons_self home
      have closed : ∀ x y, boxAt last.heap.lookup x = some y → y ∈ [s.heap.allocated + 1, b] →
          x ∈ [s.heap.allocated + 1, b] := by
        intro x y owner member
        rcases List.mem_cons.mp member with rfl | later
        · exact absurd (List.mem_append_left _ inScopes) (ownedLast.forest.unowned _ _ owner)
        · obtain rfl := List.mem_singleton.mp later
          exact ownedLast.forest.owner _ _ _ owner owns ▸ List.mem_cons_self
      have same := ended.heap
      rw [boxes_append]
      refine (weak.ended ended caused).take (ended.owned ownedLast)
        (ended.frames.trans framesLast) home (same ▸ run.next owns) (by simp [run.head_mem])
        (same ▸ heap ▸ tracked.intact_alloc owned fun c isBox => ?_) (same ▸ found) ?_ (.refl o) ?_
      · obtain rfl := Value.box.inj isBox
        exact inFlight
      · intro addr path run' inPath
        rw [same] at run'
        rcases List.mem_cons.mp (run'.start_mem_of_closed closed inPath (by simp)) with rfl | later
        · refine ended.lowered.empty _ ?_
          rw [borrows]
          exact owned.stack_new
        · exact idle rfl addr later
      · -- No binding has the new cell.
        intro level isBinding
        obtain ⟨activation, others, frames', holds, -⟩ := tracked.head
        obtain ⟨rfl, rfl⟩ := List.cons.inj (frames.symm.trans frames')
        have member := mem_scopeCells frames List.mem_cons_self (holds.mem_cells isBinding)
        have here := owned.forest.present _ (List.mem_append_left _ member)
        rw [fresh] at here
        cases here

theorem derefValue_safe {checker : Checker.Context} {loc : Option Position} (e operand : Expr)
    {value result : Operand} {k : Stack .value}
    (passed : (Checker.derefValue checker loc value default).1 = .ok result)
    (goesOn : OnValue ctx n (⟨o, counts⟩ :: callers) types result.ty k) :
    OnValue ctx n (⟨o, counts⟩ :: callers) types value.ty
      (.cons (.derefValue operand) (.cons (.readPlace e) k)) := by
  obtain ⟨target, isPointee, rfl, -, copied⟩ := derefValue_eq_ok passed
  intro later v s extended shaped tracked
  refine .acts rfl rfl fun sound => ?_
  have values : (Stack.cons (.derefValue operand) (.cons (.readPlace e) k)).values = k.values := by
    simp [Stack.values, Frame.values]
  have owned := sound.owned
  rw [values, boxes_append] at tracked
  rw [values, boxes_append] at owned
  generalize value.ty = ty at shaped isPointee copied
  cases shaped with
  | plain _ noPointer =>
      rw [noPointer] at isPointee
      cases isPointee
  | ref points =>
      obtain rfl := Option.some.inj isPointee
      simp only [pointee, meets_bind, meets_pure]
      refine derefRef_safe e operand (tracked.weaken fun box member =>
        List.mem_append_left _ member) points (copied rfl) (goesOn.later extended)
  | box points =>
      obtain rfl := Option.some.inj isPointee
      simp only [meets_bind, meets_pure]
      refine Meets.uncut (materialize_uses tracked owned (sound.isOpen fun _ _ => id)
        (.box points)) ?_
      rintro _ last ⟨rfl, trackedLast, heap, borrows, scope, scopes, rest, frames, framesLast⟩
      simp only [pointee, meets_pure]
      exact derefBox_safe e tracked owned points frames trackedLast heap borrows framesLast
        (goesOn.later extended)

end BorrowLang.Evaluator
