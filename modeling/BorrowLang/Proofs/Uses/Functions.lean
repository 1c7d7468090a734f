import BorrowLang.Proofs.Scoping.Expressions
import BorrowLang.Proofs.Scoping.Points
import BorrowLang.Proofs.Syntax.Nodes
import BorrowLang.Proofs.Uses.Calls

/-!
# Functions without uses of what is gone

A body whose loops have conditions that conserve what is there is safe where the check accepts it,
as long as the calls in it are safe.  Calls of accepted functions are: each step into a function
leaves fewer steps to go.
-/

set_option autoImplicit false

namespace BorrowLang

open Ownership Moves

namespace Moves

/-- Parameters are bindings with values of their types. -/
def Outline.bindParams (o : Outline) : List (Param × Ty) → Outline
  | [] => o
  | (param, ty) :: rest => (o.declare ⟨param.name, param.isMut, some ty⟩ true).bindParams rest

/-- Nothing is in scope. -/
def Outline.empty : Outline := ⟨[], fun _ _ => none⟩

end Moves

/-- The conditions of the loops in a node conserve what is there. -/
def Node.Calm (rules : Checker.Context) (node : Node) : Prop :=
  ∀ loc condition body, (Node.stmt (.whileLoop loc condition body)).Within node →
    Conserves rules condition

theorem Node.Calm.child {rules : Checker.Context} {node child : Node} (calm : node.Calm rules)
    (member : child ∈ node.children) : child.Calm rules :=
  fun loc condition body inner => calm loc condition body (.head member inner)

namespace Evaluator

variable {ctx : Context} {rules : Checker.Context} {n : Nat} {s : State} {types : CellTypes}
variable {callers layers : List Layer} {o : Outline} {counts : List Nat} {k : Stack .value}

/-! ### Bodies -/

/-- A node that is run is safe where the check accepts it. -/
def NodeSafe (ctx : Context) (rules : Checker.Context) (n : Nat) : Node → Prop
  | .expr e => ExprSafe ctx rules n e
  | .stmt statement => StmtSafe ctx rules n statement
  | .block body => BlockSafe ctx rules n body
  | .function _ | .param _ => True

theorem refused_expr {e : Expr} (refused : ∀ o, Moves.expr rules e o = none) :
    ExprSafe ctx rules n e :=
  fun o _ _ _ _ _ _ _ passed => by cases (refused o).symm.trans passed

theorem refused_stmt {statement : Stmt} (refused : ∀ o, Moves.stmt rules statement o = none) :
    StmtSafe ctx rules n statement :=
  fun o _ _ _ _ _ _ _ passed => by cases (refused o).symm.trans passed

theorem expr_node_safe {e : Expr}
    (inner : ∀ child ∈ (Node.expr e).children, NodeSafe ctx rules n child)
    (calls : CallsSafe ctx rules n) : ExprSafe ctx rules n e := by
  cases e with
  | literal loc value => exact literal_safe loc value
  | name loc ident => exact name_safe loc ident
  | unary loc op operand => exact unary_safe loc op (inner (.expr operand) (by simp [Node.children]))
  | binary loc op left right =>
      have first : ExprSafe ctx rules n left := inner (.expr left) (by simp [Node.children])
      have second : ExprSafe ctx rules n right := inner (.expr right) (by simp [Node.children])
      by_cases isLogic : op = .and ∨ op = .or
      · exact logic_safe loc isLogic first second
      · exact operands_safe loc isLogic first second
  | borrow loc operand isMut =>
      exact borrow_safe loc isMut (inner (.expr operand) (by simp [Node.children]))
  | deref loc operand => exact deref_safe loc (inner (.expr operand) (by simp [Node.children]))
  | boxNew loc operand =>
      exact boxNew_expr_safe loc (inner (.expr operand) (by simp [Node.children]))
  | call loc func args =>
      exact call_safe loc func calls fun arg member =>
        inner (.expr arg) (List.mem_map_of_mem member)
  | macroCall loc callee template args =>
      exact macroCall_safe loc callee template fun arg member =>
        inner (.expr arg) (List.mem_map_of_mem member)
  | ifElse loc condition thenBlock elseBlock =>
      refine branch_safe loc (inner (.expr condition) (by simp [Node.children]))
        (inner (.block thenBlock) (by simp [Node.children])) fun body isElse => ?_
      exact inner (.block body) (by simp [Node.children, Option.mem_def.mp isElse])
  | block loc body => exact blockExpr_safe loc (inner (.block body) (by simp [Node.children]))
  | ofStmt | ofBlock => exact refused_expr fun o => by rw [Moves.expr]; rfl

theorem stmt_node_safe {statement : Stmt}
    (inner : ∀ child ∈ (Node.stmt statement).children, ∀ m ≤ n, NodeSafe ctx rules m child)
    (calm : (Node.stmt statement).Calm rules) : StmtSafe ctx rules n statement := by
  have here := fun child member => inner child member n (Nat.le_refl n)
  cases statement with
  | letVar loc ident written value isMut =>
      cases value with
      | none => exact letVar_none_safe loc ident written isMut
      | some init =>
          exact letVar_some_safe loc ident written isMut
            (here (.expr init) (by simp [Node.children]))
  | assign loc target value op =>
      exact assign_safe loc target op (here (.expr value) (by simp [Node.children]))
  | ret loc value =>
      cases value with
      | none => exact ret_none_safe loc
      | some e => exact ret_some_safe loc (here (.expr e) (by simp [Node.children]))
  | whileLoop loc condition body =>
      exact whileLoop_safe loc (inner (.expr condition) (by simp [Node.children]))
        (inner (.block body) (by simp [Node.children])) (calm loc condition body .refl)
  | expr loc e => exact expr_stmt_safe loc (here (.expr e) (by simp [Node.children]))
  | ofExpr | ofBlock => exact refused_stmt fun o => by rw [Moves.stmt]; rfl

theorem node_safe (node : Node) (calm : node.Calm rules) (calls : CallsSafe ctx rules n) :
    NodeSafe ctx rules n node := by
  induction node using Node.rises generalizing n with
  | rise node ih =>
      have inner : ∀ child ∈ node.children, ∀ m ≤ n, NodeSafe ctx rules m child :=
        fun child member m atMost => ih child member (calm.child member) (calls.mono atMost)
      have here := fun child member => inner child member n (Nat.le_refl n)
      cases node with
      | expr e => exact expr_node_safe here calls
      | stmt statement => exact stmt_node_safe inner calm
      | block body =>
          refine block_safe (fun statement member => here (.stmt statement) ?_)
            fun e isTail => here (.expr e) ?_
          · exact List.mem_append_left _ (List.mem_map_of_mem member)
          · exact List.mem_append_right _ (by simp [Option.mem_def.mp isTail])
      | function | param => trivial

/-! ### Parameters -/

/-- A binding with a value. -/
theorem bindParam_tracked {flight : List Addr} (param : Param) (rest : List Addr) {ty : Ty}
    {value : Value}
    (tracked : s.Tracked types (⟨o, counts⟩ :: callers) flight) (owned : Owned s flight)
    (isOpen : Open s.shape) (shaped : value.Shaped types ty)
    (inFlight : ∀ b, value = .box b → b ∈ flight) (part : ∀ box ∈ rest, box ∈ flight) :
    Meets (bind param.name value true) s
      (fun _ after => ∃ later, types.Extends later ∧
        after.Tracked later
          (⟨o.declare ⟨param.name, param.isMut, some ty⟩ true, counts⟩ :: callers) rest)
      fun _ _ => False := by
  obtain ⟨scope, scopes, frames, framesEq⟩ := isOpen.frames
  simp only [bind, Evaluator.alloc, modifyScope, meets_bind, meets_get, meets_set, meets_pure,
    meets_modify, framesEq]
  refine ⟨_, tracked.extends_add ty true, ?_⟩
  refine State.Tracked.weaken ?_ part
  exact tracked.declare owned framesEq (fun _ => shaped) (fun _ => rfl) (fun _ => inFlight)
    rfl rfl rfl

theorem bindArgs_tracked {params : List Param} {tys : List Ty} {values : List Value}
    {flight : List Addr} (arity : params.length = tys.length)
    (shaped : List.Forall₂ (Value.Shaped types) values tys)
    (tracked : s.Tracked types (⟨o, counts⟩ :: callers) (flight ++ boxes values))
    (owned : Owned s (flight ++ boxes values)) (isOpen : Open s.shape) :
    Meets (bindArgs (params.zip values)) s
      (fun _ after => ∃ later, types.Extends later ∧
        after.Tracked later (⟨o.bindParams (params.zip tys), counts⟩ :: callers) flight)
      fun _ _ => False := by
  induction values generalizing params tys types o s with
  | nil =>
      cases shaped
      obtain rfl := List.eq_nil_of_length_eq_zero arity
      exact ⟨types, .refl types, tracked.weaken fun box => List.mem_append_left _⟩
  | cons value values ih =>
      obtain _ | ⟨first, others⟩ := shaped
      rename_i ty tys
      obtain ⟨param, params, rfl⟩ := List.exists_cons_of_length_eq_add_one arity
      have parts : boxes (value :: values) = value.box?.toList ++ boxes values := boxes_cons ..
      have split : Owned s ((flight ++ boxes values) ++
          (Cell.box? ⟨value, if true then .live else .uninit⟩).toList) := by
        refine owned.weaken (List.Perm.subperm ?_)
        change ((flight ++ boxes values) ++ value.box?.toList).Perm _
        rw [parts, List.append_assoc]
        exact List.perm_append_comm.append_left flight
      simp only [List.zip_cons_cons, bindArgs, meets_bind]
      refine Meets.mono (Meets.both (bind_meets param.name split isOpen)
        (bindParam_tracked param (flight ++ boxes values) tracked owned isOpen first ?_ ?_)) ?_
        fun _ _ met => met.1
      · rintro b rfl
        exact List.mem_append_right _ (by rw [parts]; exact List.mem_cons_self)
      · intro box member
        rw [parts]
        simp only [List.mem_append] at member ⊢
        tauto
      rintro _ mid ⟨⟨ownedMid, steady⟩, later, extended, trackedMid⟩
      refine Meets.mono (ih (Nat.succ.inj arity) (others.imp fun _ _ known => known.mono extended)
        trackedMid ownedMid (by rwa [steady.shape])) ?_ fun _ _ => id
      rintro _ after ⟨last, extendedLast, trackedAfter⟩
      exact ⟨last, extended.trans extendedLast, trackedAfter⟩

/-! ### Calls -/

/-- A function passes the check without borrows under its signature, and its loops have conditions
that conserve what is there. -/
structure BodyAccepted (rules : Checker.Context) (f : FunctionDef) (signature : Signature) :
    Prop where
  arity : f.params.length = signature.params.length
  calm : (Node.block f.body).Calm { rules with result := signature.result }
  body : ∃ value after, Moves.block { rules with result := signature.result } f.body
      (Outline.empty.bindParams (f.params.zip signature.params)) = some (value, after) ∧
    (value.diverges = true ∨ value.ty.coercesTo signature.result = true)

/-- What can be called is accepted, or shows an integer. -/
def CallsAccepted (ctx : Context) (rules : Checker.Context) : Prop :=
  ∀ func signature, rules.callable? func = some signature →
    (∃ f, ctx.function? func = some f ∧ BodyAccepted rules f signature) ∨
    (ctx.function? func = none ∧ func = displayName ∧ signature = ⟨[.i32], .unit⟩)

theorem enter_safe {f : FunctionDef} {signature : Signature} {values : List Value}
    (accepts : BodyAccepted rules f signature)
    (body : BlockSafe ctx { rules with result := signature.result } n f.body)
    (shaped : List.Forall₂ (Value.Shaped types) values signature.params)
    (tracked : s.Tracked types (⟨.empty, counts⟩ :: layers) (boxes (k.values ++ values)))
    (goesOn : OnValue ctx n layers types signature.result k) :
    Safe ctx n ⟨.enter f values, k, s⟩ := by
  refine .acts rfl rfl fun sound => ?_
  obtain ⟨rest, shape, -⟩ := sound.fits
  have owned := sound.owned
  rw [boxes_append] at tracked owned
  simp only [meets_bind, meets_pure]
  refine Meets.mono (bindArgs_tracked accepts.arity shaped tracked owned ⟨0, rest, shape⟩) ?_
    fun _ _ => False.elim
  rintro _ after ⟨later, extended, trackedAfter⟩
  obtain ⟨value, last, passed, suits⟩ := accepts.body
  have values : (Stack.cons (.leaveCall f) k).values = k.values := List.append_nil _
  have goesOnLater := goesOn.later extended
  refine body passed (values ▸ trackedAfter) ⟨.call goesOnLater, fun comes => ?_⟩
  exact OnValue.call (goesOnLater.coerce (suits.resolve_left (by simp [comes])))

theorem display_safe {value : Value} (shaped : value.Shaped types .i32)
    (tracked : s.Tracked types layers (boxes (k.values ++ [value])))
    (goesOn : OnValue ctx n layers types .unit k) : Safe ctx n ⟨.display value, k, s⟩ := by
  have plain : value.addr? = none := by
    cases shaped with
    | plain noAddr => exact noAddr
  refine .acts rfl rfl fun _ => ?_
  simp only [displayStep, plain, emit, meets_bind, meets_modify, meets_pure]
  refine goesOn.plain (.refl types) rfl rfl ?_
  let shown : State := { s with outputs := value.text :: s.outputs }
  have emitted : shown.Tracked types layers (boxes (k.values ++ [value])) :=
    tracked.reframe rfl rfl tracked.layers
  rwa [boxes_append_plain _ (box?_eq_none_of_addr? plain)] at emitted

/-- A call is safe with one more step than the calls in the function need. -/
theorem callStep_safe {f : FunctionDef} {signature : Signature} {values : List Value}
    (loc : Option Position) (accepts : BodyAccepted rules f signature)
    (calls : CallsSafe ctx { rules with result := signature.result } n)
    (shaped : List.Forall₂ (Value.Shaped types) values signature.params)
    (tracked : s.Tracked types layers (boxes (k.values ++ values)))
    (goesOn : OnValue ctx n layers types signature.result k) :
    Safe ctx (n + 1) ⟨.call f values loc, k, s⟩ := by
  refine .of_advance rfl rfl fun _ => ?_
  have body : BlockSafe ctx { rules with result := signature.result } n f.body :=
    node_safe (.block f.body) accepts.calm calls
  simp only [pushFrame, meets_bind, meets_get]
  split
  · exact Safe.spared (spared_of_kind (by rintro ⟨⟩))
  · exact enter_safe accepts body shaped (tracked.pushFrame rfl rfl rfl) goesOn

theorem calls_safe (accepts : CallsAccepted ctx rules) (result : Ty) :
    CallsSafe ctx { rules with result } n := by
  -- A call is one step nearer to the end than the call it is made in.
  induction n generalizing result with
  | zero =>
      intro m atMost loc func signature values layers types s k _ _ _ _
      obtain rfl := Nat.le_zero.mp atMost
      exact .zero rfl
  | succ n ih =>
      intro m atMost loc func signature values layers types s k isSignature shaped tracked goesOn
      obtain atMost | rfl := Nat.le_or_eq_of_le_succ atMost
      · exact ih result m atMost isSignature shaped tracked goesOn
      have callable : rules.callable? func = some signature :=
        (Checker.Passes.of_ok (Checker.signatureOf_same loc func) (Prod.ext isSignature rfl)).2
      obtain ⟨f, isFunction, accepted⟩ | ⟨isNone, rfl, rfl⟩ := accepts func signature callable
      · have applied : applyCall ctx loc func values k = goTo (.call f values loc) k := by
          simp only [applyCall, isFunction]
        exact .goes (congrArg some applied) rfl (callStep_safe loc accepted (ih signature.result)
          shaped tracked (goesOn.mono (Nat.le_succ n)))
      · obtain _ | ⟨first, ⟨⟩⟩ := shaped
        have applied : ∀ v, applyCall ctx loc displayName [v] k = goTo (.display v) k := fun v => by
          simp only [applyCall, isNone, if_true]
        exact .goes (congrArg some (applied _)) rfl (display_safe first tracked goesOn)

end Evaluator

end BorrowLang
