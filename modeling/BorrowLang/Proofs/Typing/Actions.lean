import BorrowLang.Proofs.Ownership.Action
import BorrowLang.Proofs.Typing.Cells

/-!
# Actions on cells of known types

An action on values of the right types comes to a value of the right type, or it fails in a way that
types do not rule out: with a report, or in the heap.
-/

set_option autoImplicit false

namespace BorrowLang.Evaluator

open Typing

variable {types : CellTypes} {env : Env} {callers envs : List Env} {s after : State}
variable {flight : List Addr}

/-- A fault that types do not rule out. -/
def Fault.BeyondTypes : Fault → Prop
  | .reported _ | .heap _ => True
  | _ => False

/-- A failure that types do not rule out; what is known of the state still holds. -/
structure Failed (types : CellTypes) (envs : List Env) (interrupt : Interrupt) (after : State) :
    Prop where
  fault : ∃ fault, interrupt = .failed fault ∧ fault.BeyondTypes
  typed : after.Typed types envs

theorem State.Typed.failed (typed : s.Typed types envs) {fault : Fault}
    (beyond : fault.BeyondTypes) : Failed types envs (.failed fault) s :=
  ⟨⟨fault, rfl, beyond⟩, typed⟩

/-! ### Reaching cells -/

/-- Where a name is bound to a cell of a type, there is such a cell. -/
theorem find_typed {bindings : List (String × Ty)} {names : List (String × Addr)}
    (same : List.Forall₂ (fun known bound => bound.1 = known.1 ∧ types bound.2 = some known.2)
      bindings names) (name : String) :
    Option.Rel (fun ty addr => types addr = some ty)
      ((bindings.find? (·.1 = name)).map (·.2)) ((names.find? (·.1 = name)).map (·.2)) := by
  induction same with
  | nil => exact .none
  | @cons known bound bindings names first rest ih =>
      obtain ⟨named, points⟩ := first
      by_cases here : known.1 = name
      · simpa [named, here] using Option.Rel.some points
      · simpa [named, here] using ih

theorem type?_typed {scopes : List Scope} (same : List.Forall₂ (Scope.Typed types) env scopes)
    (name : String) :
    Option.Rel (fun ty addr => types addr = some ty) (env.type? name)
      (scopes.findSome? fun scope => (scope.names.find? (·.1 = name)).map (·.2)) := by
  unfold Env.type?
  induction same with
  | nil => exact .none
  | cons first rest ih =>
      have found := find_typed first name
      simp only [List.findSome?_cons]
      generalize Option.map _ _ = own at found ⊢
      generalize Option.map _ _ = other at found ⊢
      cases found with
      | none => exact ih
      | some points => exact .some points

theorem lookup_typed (typed : s.Typed types (env :: callers)) {name : String} {ty : Ty}
    (bound : env.type? name = some ty) :
    Meets (lookup name) s (fun addr after => after = s ∧ types addr = some ty)
      (fun _ _ => False) := by
  obtain ⟨scopes, rest, frames, same, -⟩ := typed.head
  have found := type?_typed same name
  simp only [lookup, meets_bind, meets_get, frames, List.head?_cons, Option.map_some,
    Option.getD_some]
  rw [bound] at found
  split
  · rename_i addr isAddr
    rw [isAddr] at found
    cases found with
    | some points => exact ⟨rfl, points⟩
  · rename_i isNone
    rw [isNone] at found
    cases found

theorem Fault.OfAccess.beyondTypes {fault : Fault} (ofAccess : fault.OfAccess) :
    fault.BeyondTypes := by
  fun_cases Fault.OfAccess fault with
  | case1 | case2 => trivial
  | case3 => simp_all [Fault.OfAccess]

theorem load_typed (ctx : Context) {l : Location} (expr : Expr) {ty : Ty}
    (typed : s.Typed types envs) (points : types l.addr = some ty) :
    Meets (load ctx l expr) s
      (fun value after => after.Typed types envs ∧ value.HasType types ty)
      (Failed types envs) := by
  refine (load_ends ctx l expr s).mono ?_ ?_
  · intro value after met
    obtain ⟨ended, found, -⟩ := met
    exact ⟨typed.ended ended, typed.heap.value found points⟩
  · intro interrupt after met
    obtain ⟨ended, fault, rfl, ofAccess⟩ := met
    exact (typed.ended ended).failed ofAccess.beyondTypes

theorem access_typed (ctx : Context) (l : Location) (expr : Expr) (isWrite : Bool)
    (cause : DiagnosticKind) (typed : s.Typed types envs) :
    Meets (access ctx l expr isWrite cause) s (fun _ after => Ended s after)
      (Failed types envs) := by
  refine (access_meets ctx l expr isWrite cause s).mono (fun _ _ known => known.1) ?_
  intro interrupt _ met
  obtain ⟨rfl, diagnostic, rfl⟩ := met
  exact typed.failed trivial

theorem endOwned_typed (fuel : Nat) (value : Value) (typed : s.Typed types envs) :
    Meets (endOwned fuel value) s (fun _ after => Ended s after) (Failed types envs) := by
  induction fuel generalizing value s with
  | zero =>
      cases value with
      | box addr => exact typed.failed trivial
      | _ => exact .refl s
  | succ fuel ih =>
      cases value with
      | box addr =>
          have inside : ∀ value mid, Ended s mid →
              Meets (endOwned fuel value) mid (fun _ after => Ended s after)
                (Failed types envs) := by
            intro value mid ended
            exact (ih value (typed.ended ended)).mono (fun _ _ rest => ended.trans rest)
              fun _ _ failed => failed
          simp only [endOwned]
          rw [meets_bind, meets_get]
          split
          · cases s.heap.cell addr with
            | error fault => exact typed.failed trivial
            | ok cell =>
                simp only [meets_bind, meets_ofHeap_ok]
                split
                · exact .refl s
                · exact inside _ s (.refl s)
          · rename_i borrows allowed
            have ended : Ended s { s with borrows } := ⟨rfl, BorrowStacks.access_lowered allowed⟩
            rw [meets_bind, meets_set]
            cases s.heap.cell addr with
            | error fault => exact (typed.ended ended).failed trivial
            | ok cell =>
                simp only [meets_bind, meets_ofHeap_ok]
                split
                · exact ended
                · exact inside _ _ ended
      | _ => exact .refl s

theorem read_typed (ctx : Context) {l : Location} (expr : Expr) {ty : Ty}
    (typed : s.Typed types envs) (points : types l.addr = some ty) :
    Meets (read ctx l expr) s
      (fun value after => after.Typed types envs ∧ value.HasType types ty)
      (Failed types envs) := by
  simp only [read, meets_bind]
  refine (load_ends ctx l expr s).mono ?_ ?_
  · intro value loaded met
    obtain ⟨ended, found, -⟩ := met
    have ofType := typed.heap.value found points
    cases value with
    | box addr =>
        simp only [meets_bind, meets_get]
        apply Meets.onOk (access_typed ctx l expr _ _ (typed.ended ended))
        intro _ accessed endedAccess
        have ended := ended.trans endedAccess
        apply Meets.onOk (endOwned_typed _ _ (typed.ended ended))
        intro _ quieted endedOwned
        have ended := ended.trans endedOwned
        rw [← ended.heap] at found
        simp only [Heap.take_eq_ok found, meets_ofHeap_ok, meets_set, meets_pure]
        exact ⟨(typed.ended ended).overwrite points (by simp [Cell.liveValue?]), ofType⟩
    | _ => exact ⟨typed.ended ended, ofType⟩
  · intro interrupt after met
    obtain ⟨ended, fault, rfl, ofAccess⟩ := met
    exact (typed.ended ended).failed ofAccess.beyondTypes

theorem pointee_typed (base : Option Location) {pointer : Value} (source : Expr)
    {pointerTy ty : Ty} (ofType : pointer.HasType types pointerTy)
    (points : pointerTy.pointee? = some ty) :
    Meets (pointee base pointer source) s (fun l after => after = s ∧ types l.addr = some ty)
      (fun _ _ => False) := by
  cases ofType with
  | box target =>
      obtain rfl := Option.some.inj points
      cases base <;> exact ⟨rfl, target⟩
  | ref target allowed =>
      obtain rfl := Option.some.inj points
      cases base <;> exact ⟨rfl, target⟩
  | _ => simp [Ty.pointee?] at points

theorem pushTag_typed (isMut : Bool) {addr : Addr} {ty : Ty} (typed : s.Typed types envs)
    (points : types addr = some ty) :
    Meets (pushTag addr isMut) s
      (fun value after => after.Typed types envs ∧ value.HasType types (.ref isMut ty))
      (fun _ _ => False) :=
  ⟨typed.reheap (.refl types) typed.heap rfl, .ref points fun isRef => isRef⟩

/-- What a box or reference that is shown leads to may be of any type. -/
theorem follow_typed (ctx : Context) (arg : Expr) (value : Value) (typed : s.Typed types envs) :
    Meets (follow ctx arg value) s (fun _ after => after.Typed types envs)
      (Failed types envs) := by
  cases value with
  | ref addr isMut tag =>
      simp only [follow, meets_bind, meets_pure]
      refine (load_ends ctx _ arg s).mono ?_ ?_
      · intro inner after met
        obtain ⟨ended, -, -⟩ := met
        exact typed.ended ended
      · intro interrupt after met
        obtain ⟨ended, fault, rfl, ofAccess⟩ := met
        exact (typed.ended ended).failed ofAccess.beyondTypes
  | box addr =>
      simp only [follow, meets_bind, meets_get]
      cases s.heap.load addr with
      | error fault => exact typed.failed trivial
      | ok inner => exact typed
  | _ => exact typed

/-! ### Operators -/

theorem literalValue_typed (value : Literal) :
    (literalValue value).HasType types (literalType value) := by
  cases value with
  | int n => exact .int
  | bool b => exact .bool
  | unit => exact .unit

theorem ofArith_typed (ctx : Context) (loc : Option Position) (answer : Except ArithFault Int)
    (typed : s.Typed types envs) :
    Meets (ofArith ctx loc answer) s
      (fun value after => after.Typed types envs ∧ value.HasType types .i32)
      (Failed types envs) := by
  cases answer with
  | ok n => exact ⟨typed, .int⟩
  | error fault => exact typed.failed trivial

theorem arith_typed (ctx : Context) (loc : Option Position) (op : ArithOp) {left right : Value}
    (typed : s.Typed types envs) (leftInt : left.HasType types .i32)
    (rightInt : right.HasType types .i32) :
    Meets (arith ctx loc (.arith op) left right) s
      (fun value after => after.Typed types envs ∧ value.HasType types .i32)
      (Failed types envs) := by
  cases leftInt with
  | int => cases rightInt with
    | int => exact ofArith_typed ctx loc _ typed

/-- The types of the operands and of the result of an operator that evaluates both. -/
inductive BinaryTyped : BinaryOp → Ty → Ty → Prop
  | arith (op : ArithOp) : BinaryTyped (.arith op) .i32 .i32
  | order (op : OrderOp) : BinaryTyped (.order op) .i32 .bool
  | eq {ty : Ty} (plain : ty = .i32 ∨ ty = .bool) : BinaryTyped .eq ty .bool
  | ne {ty : Ty} (plain : ty = .i32 ∨ ty = .bool) : BinaryTyped .ne ty .bool

theorem binary_typed (ctx : Context) (loc : Option Position) {op : BinaryOp} {operand ty : Ty}
    (known : BinaryTyped op operand ty) {left right : Value} (typed : s.Typed types envs)
    (leftTyped : left.HasType types operand) (rightTyped : right.HasType types operand) :
    Meets (binary ctx loc op left right) s
      (fun value after => after.Typed types envs ∧ value.HasType types ty)
      (Failed types envs) := by
  cases known with
  | arith op => exact arith_typed ctx loc op typed leftTyped rightTyped
  | order op =>
      cases leftTyped with
      | int => cases rightTyped with
        | int => exact ⟨typed, .bool⟩
  | eq => exact ⟨typed, .bool⟩
  | ne => exact ⟨typed, .bool⟩

theorem unary_typed (ctx : Context) (loc : Option Position) {op : UnaryOp} {ty : Ty}
    (known : unaryType? op = some ty) {operand : Value} (typed : s.Typed types envs)
    (operandTyped : operand.HasType types ty) :
    Meets (unary ctx loc op operand) s
      (fun value after => after.Typed types envs ∧ value.HasType types ty)
      (Failed types envs) := by
  cases op with
  | not =>
      obtain rfl := Option.some.inj known
      exact ⟨typed, .bool⟩
  | neg =>
      obtain rfl := Option.some.inj known
      cases operandTyped with
      | int => exact ofArith_typed ctx loc _ typed
  | unknown text => simp [unaryType?] at known

/-! ### New cells -/

theorem alloc_typed {value : Value} {initialized : Bool} {ty : Ty} (typed : s.Typed types envs)
    (ofType : initialized = true → value.HasType types ty) :
    Meets (alloc value initialized) s
      (fun addr after => ∃ later, types.Extends later ∧ after.Typed later envs ∧
        later addr = some ty)
      (fun _ _ => False) := by
  obtain ⟨heap, extended⟩ := typed.heap.alloc ofType
  simp only [Evaluator.alloc, meets_bind, meets_get, meets_set, meets_pure]
  exact ⟨_, extended, typed.reheap extended heap rfl, Function.update_self ..⟩

theorem bind_typed (name : String) {value : Value} {initialized : Bool} {ty : Ty}
    (typed : s.Typed types (env :: callers)) (inner : env ≠ [])
    (ofType : initialized = true → value.HasType types ty) :
    Meets (bind name value initialized) s
      (fun _ after => ∃ later, types.Extends later ∧
        after.Typed later (env.bind name ty :: callers))
      (fun _ _ => False) := by
  simp only [bind, meets_bind]
  apply Meets.onOk (alloc_typed typed ofType)
  intro addr mid met
  obtain ⟨later, extended, typedMid, points⟩ := met
  obtain ⟨scopes, rest, frames, same, sameRest⟩ := typedMid.head
  cases same with
  | nil => exact absurd rfl inner
  | cons first others =>
      simp only [modifyScope, meets_modify, frames]
      exact ⟨later, extended, typedMid.heap,
        .cons (.cons (.cons ⟨rfl, points⟩ first) others) sameRest⟩

theorem materialize_typed {value : Value} {ty : Ty} (typed : s.Typed types envs)
    (ofType : value.HasType types ty) :
    Meets (materialize value) s
      (fun addr after => ∃ later, types.Extends later ∧ after.Typed later envs ∧
        later addr = some ty)
      (fun _ _ => False) := by
  simp only [materialize, meets_bind, meets_pure]
  apply Meets.onOk (alloc_typed typed fun _ => ofType)
  intro addr mid met
  obtain ⟨later, extended, typedMid, points⟩ := met
  simp only [modifyScope, meets_modify]
  refine ⟨later, extended, ?_, points⟩
  split
  · rename_i scope scopes rest frames
    refine ⟨typedMid.heap, ?_⟩
    have same := typedMid.frames
    rw [frames] at same
    cases same with
    | cons activation others =>
        cases activation with
        | cons first outer => exact .cons (.cons first outer) others
  · exact typedMid

/-- The arguments of a call are bound with the types of the parameters. -/
theorem bindArgs_typed {params : List Param} {values : List Value} {tys : List Ty}
    (arity : params.length = tys.length) (typed : s.Typed types (env :: callers)) (inner : env ≠ [])
    (ofTypes : List.Forall₂ (Value.HasType types) values tys) :
    Meets (bindArgs (params.zip values)) s
      (fun _ after => ∃ later, types.Extends later ∧
        after.Typed later (env.bindParams (params.zip tys) :: callers))
      (fun _ _ => False) := by
  induction params generalizing values tys types env s with
  | nil =>
      obtain rfl := List.length_eq_zero_iff.mp arity.symm
      exact ⟨types, .refl types, typed⟩
  | cons param params ih =>
      cases ofTypes with
      | nil => simp at arity
      | @cons value ty values tys first rest =>
          simp only [List.zip_cons_cons, bindArgs, meets_bind]
          apply Meets.onOk (bind_typed param.name typed inner fun _ => first)
          intro _ mid met
          obtain ⟨later, extended, typedMid⟩ := met
          have restTyped : List.Forall₂ (Value.HasType later) values tys :=
            rest.imp fun _ _ ofType => ofType.mono extended
          have innerMid : env.bind param.name ty ≠ [] := by
            cases env <;> simp [Env.bind]
          apply Meets.onOk (ih (Nat.succ.inj arity) typedMid innerMid restTyped)
          intro _ after met
          obtain ⟨last, extendedRest, typedAfter⟩ := met
          exact ⟨last, extended.trans extendedRest, typedAfter⟩

/-! ### Cells that are dropped or get new contents -/

theorem dropValue_typed {value : Value} (owned : Owned s (flight ++ boxes [value]))
    (typed : s.Typed types envs) :
    Meets (dropValue value) s (fun _ after => after.Typed types envs) (fun _ _ => False) := by
  have forest : Ownership.Forest s.heap.lookup
      (value.box?.toList ++ (s.scopeCells ++ flight)) := by
    refine owned.forest.weaken (List.Perm.subperm ?_)
    rw [boxes_singleton, ← List.append_assoc s.scopeCells]
    exact List.perm_append_comm
  apply Meets.onOk (dropValue_meets forest)
  intro _ after met
  obtain ⟨-, thinned, -⟩ := met
  exact typed.thinned thinned

theorem dropValues_typed {values : List Value} (owned : Owned s (flight ++ boxes values))
    (typed : s.Typed types envs) :
    Meets (dropValues values) s (fun _ after => after.Typed types envs) (fun _ _ => False) := by
  have forest : Ownership.Forest s.heap.lookup (boxes values ++ (s.scopeCells ++ flight)) := by
    refine owned.forest.weaken (List.Perm.subperm ?_)
    rw [← List.append_assoc s.scopeCells]
    exact List.perm_append_comm
  apply Meets.onOk (dropValues_meets forest)
  intro _ after met
  obtain ⟨-, thinned⟩ := met
  exact typed.thinned thinned

theorem storeAt_typed {addr : Addr} {value : Value} {ty : Ty} (typed : s.Typed types envs)
    (points : types addr = some ty) (ofType : value.HasType types ty) :
    Meets (storeAt addr value) s (fun _ after => after.Typed types envs) (Failed types envs) := by
  simp only [storeAt, meets_bind, meets_get]
  cases found : s.heap.lookup addr with
  | none =>
      rw [Heap.store, Heap.cell_eq_error found]
      exact typed.failed trivial
  | some cell =>
      rw [Heap.store_eq_ok value found, meets_ofHeap_ok, meets_set]
      refine typed.overwrite points ?_
      intro held same
      exact Option.some.inj same ▸ ofType

theorem assign_typed (ctx : Context) {l : Location} (target : Expr) {value : Value} {ty : Ty}
    (owned : Owned s flight) (typed : s.Typed types envs) (points : types l.addr = some ty)
    (ofType : value.HasType types ty) :
    Meets (assign ctx l target value) s (fun _ after => after.Typed types envs)
      (Failed types envs) := by
  simp only [assign, meets_bind, meets_get]
  apply Meets.onOk (access_typed ctx l target _ _ typed)
  intro _ accessed ended
  cases found : accessed.heap.lookup l.addr with
  | none =>
      rw [Heap.cell_eq_error found, meets_ofHeap_error]
      exact (typed.ended ended).failed trivial
  | some cell =>
      rw [Heap.cell_eq_ok found, meets_ofHeap_ok]
      apply Meets.uncut (dropHeld_meets (ended.owned owned).forest found)
      intro _ dropped met
      obtain ⟨gone, -, -, thinned⟩ := met
      exact storeAt_typed ((typed.ended ended).thinned thinned) points ofType

theorem combine_typed (ctx : Context) (loc : Option Position) {l : Location} (target : Expr)
    (op : ArithOp) {value : Value} (typed : s.Typed types envs) (points : types l.addr = some .i32)
    (ofType : value.HasType types .i32) :
    Meets (combine ctx loc l target (.arith op) value) s (fun _ after => after.Typed types envs)
      (Failed types envs) := by
  simp only [combine, meets_bind]
  apply Meets.onOk (load_typed ctx target typed points)
  intro current loaded met
  obtain ⟨typedLoaded, currentInt⟩ := met
  apply Meets.onOk (arith_typed ctx loc op typedLoaded currentInt ofType)
  intro result computed met
  obtain ⟨typedComputed, resultInt⟩ := met
  apply Meets.onOk (access_typed ctx l target _ _ typedComputed)
  intro _ accessed ended
  exact storeAt_typed (typedComputed.ended ended) points resultInt

/-! ### Scopes and calls -/

theorem pushScope_typed (typed : s.Typed types (env :: callers)) :
    Meets pushScope s (fun _ after => after.Typed types (([] :: env) :: callers))
      (fun _ _ => False) := by
  obtain ⟨scopes, rest, frames, same, sameRest⟩ := typed.head
  simp only [pushScope, meets_modify, frames]
  exact ⟨typed.heap, .cons (.cons .nil same) sameRest⟩

theorem popScope_typed (owned : Owned s flight) (isOpen : Open s.shape)
    (typed : s.Typed types (env :: callers)) :
    Meets popScope s (fun _ after => after.Typed types (env.tail :: callers))
      (fun _ _ => False) := by
  obtain ⟨count, rest, shape⟩ := isOpen
  apply Meets.onOk (popScope_meets owned shape)
  intro _ after met
  obtain ⟨-, -, -, thinned⟩ := met
  refine State.Typed.thinned ?_ thinned
  obtain ⟨scope, scopes, frames, framesEq⟩ := Open.frames ⟨count, rest, shape⟩
  have same := typed.frames
  rw [framesEq] at same
  cases same with
  | cons activation others =>
      cases activation with
      | cons first outer =>
          simp only [State.leaveScope, framesEq]
          exact ⟨typed.heap, .cons outer others⟩

theorem popFrame_typed (owned : Owned s flight) {rest : List Nat} (shape : s.shape = 1 :: rest)
    (typed : s.Typed types (env :: callers)) :
    Meets popFrame s (fun _ after => after.Typed types callers) (fun _ _ => False) := by
  apply Meets.onOk (popFrame_meets owned shape)
  intro _ after met
  obtain ⟨-, -, -, thinned⟩ := met
  obtain ⟨scopes, others, frames, -, sameRest⟩ := typed.head
  have left : State.Typed types callers { s with frames := s.frames.drop 1 } :=
    ⟨typed.heap, by simpa [frames] using sameRest⟩
  exact left.thinned thinned

theorem pushFrame_typed (ctx : Context) (f : FunctionDef) (loc : Option Position)
    (typed : s.Typed types envs) :
    Meets (pushFrame ctx f loc) s (fun _ after => after.Typed types ([[]] :: envs))
      (Failed types envs) := by
  simp only [pushFrame, meets_bind, meets_get]
  split
  · exact typed.failed trivial
  · rw [meets_set]
    exact ⟨typed.heap, .cons (.cons .nil .nil) typed.frames⟩

end BorrowLang.Evaluator
