import BorrowLang.Syntax.Names
import Mathlib.Data.List.Forall2

/-!
# Renamed programs

Two programs are the same but for the names of bindings when their parts are, one by one, and each
mention of a name resolves to the same binding in both.  A renaming says which names may stand for
one binding; where it counts which bindings are mentioned later, the two programs must agree on that
too, name by name.
-/

set_option autoImplicit false

namespace BorrowLang

/-- Which names of one program and of another stand for one binding, and whether it counts which of
them are mentioned later. -/
structure Renaming where
  pairs : String → String → Prop
  nameless : pairs "" ""
  counts : Bool

namespace Renaming

/-- Two sets of names hold the same bindings. -/
def Agrees (r : Renaming) (names others : List String) : Prop :=
  r.counts = true → ∀ x y, r.pairs x y → (x ∈ names ↔ y ∈ others)

/-- No name changes. -/
def same : Renaming := ⟨Eq, rfl, true⟩

theorem same_agrees (names : List String) : same.Agrees names names := by
  rintro - x _ rfl
  exact Iff.rfl

/-- The names of some pairs stand for the same bindings. -/
def ofPairs (counts : Bool) (pairs : List (String × String)) : Renaming :=
  ⟨fun x y => (x, y) ∈ ("", "") :: pairs, List.mem_cons_self, counts⟩

theorem ofPairs_pairs {counts : Bool} {pairs : List (String × String)} {x y : String}
    (member : (x, y) ∈ pairs) : (ofPairs counts pairs).pairs x y := List.mem_cons_of_mem _ member

theorem ofPairs_agrees {counts : Bool} {pairs : List (String × String)} {names others : List String}
    (agree : ∀ pair ∈ ("", "") :: pairs, (pair.1 ∈ names ↔ pair.2 ∈ others)) :
    (ofPairs counts pairs).Agrees names others := fun _ x y paired => agree (x, y) paired

end Renaming

/-! ### Bindings -/

/-- The names that are bound in two programs, scope by scope, the innermost and latest first. -/
abbrev Bindings := List (List (String × String))

/-- Two names are those of one binding, or neither of them is bound. -/
def Links : List (String × String) → String → String → Prop
  | [], _, _ => True
  | (a, b) :: rest, x, y => a = x ∧ b = y ∨ a ≠ x ∧ b ≠ y ∧ Links rest x y

instance decidableLinks (x y : String) :
    (bound : List (String × String)) → Decidable (Links bound x y)
  | [] => .isTrue trivial
  | (a, b) :: rest =>
      have := decidableLinks x y rest
      inferInstanceAs (Decidable (a = x ∧ b = y ∨ a ≠ x ∧ b ≠ y ∧ Links rest x y))

namespace Bindings

def bind (env : Bindings) (x y : String) : Bindings :=
  match env with
  | [] => [[(x, y)]]
  | scope :: rest => ((x, y) :: scope) :: rest

/-- No binding has another name. -/
def Plain (env : Bindings) : Prop := ∀ binding ∈ env.flatten, binding.1 = binding.2

theorem Plain.bind {env : Bindings} (plain : env.Plain) (x : String) : (env.bind x x).Plain := by
  cases env with
  | nil => simp [Plain, Bindings.bind]
  | cons scope rest => simpa [Plain, Bindings.bind] using plain

theorem Plain.enter {env : Bindings} (plain : env.Plain) : Plain ([] :: env) := plain

end Bindings

theorem links_self {bound : List (String × String)}
    (plain : ∀ binding ∈ bound, binding.1 = binding.2) (x : String) : Links bound x x := by
  induction bound with
  | nil => trivial
  | cons binding rest ih =>
      obtain ⟨a, b⟩ := binding
      obtain rfl : a = b := plain (a, b) List.mem_cons_self
      have later := ih fun other member => plain other (List.mem_cons_of_mem _ member)
      by_cases here : a = x
      · exact Or.inl ⟨here, here⟩
      · exact Or.inr ⟨here, here, later⟩

/-! ### Parts of bodies -/

section Parts

variable (r : Renaming)

mutual

inductive Expr.Renamed : Bindings → Expr → Expr → Prop
  | literal (env : Bindings) (loc : Option Position) (value : Literal) :
      Expr.Renamed env (.literal loc value) (.literal loc value)
  | name {env : Bindings} (loc : Option Position) {x y : String} (links : Links env.flatten x y) :
      Expr.Renamed env (.name loc x) (.name loc y)
  | unary {env : Bindings} (loc : Option Position) (op : UnaryOp) {e e' : Expr}
      (operand : Expr.Renamed env e e') : Expr.Renamed env (.unary loc op e) (.unary loc op e')
  | deref {env : Bindings} (loc : Option Position) {e e' : Expr} (operand : Expr.Renamed env e e') :
      Expr.Renamed env (.deref loc e) (.deref loc e')
  | borrow {env : Bindings} (loc : Option Position) {e e' : Expr} (isMut : Bool)
      (operand : Expr.Renamed env e e') :
      Expr.Renamed env (.borrow loc e isMut) (.borrow loc e' isMut)
  | binary {env : Bindings} (loc : Option Position) (op : BinaryOp) {e e' f f' : Expr}
      (left : Expr.Renamed env e e') (right : Expr.Renamed env f f') :
      Expr.Renamed env (.binary loc op e f) (.binary loc op e' f')
  | call {env : Bindings} (loc : Option Position) (func : String) {es es' : List Expr}
      (args : ArgsRenamed env es es') : Expr.Renamed env (.call loc func es) (.call loc func es')
  | boxNew {env : Bindings} (loc : Option Position) {e e' : Expr} (value : Expr.Renamed env e e') :
      Expr.Renamed env (.boxNew loc e) (.boxNew loc e')
  | macroCall {env : Bindings} (loc : Option Position) (callee template : String)
      {es es' : List Expr} (args : ArgsRenamed env es es') :
      Expr.Renamed env (.macroCall loc callee template es) (.macroCall loc callee template es')
  | ifOnly {env : Bindings} (loc : Option Position) {e e' : Expr} {b b' : Block}
      (condition : Expr.Renamed env e e') (thenBlock : Block.Renamed env b b') :
      Expr.Renamed env (.ifElse loc e b none) (.ifElse loc e' b' none)
  | ifElse {env : Bindings} (loc : Option Position) {e e' : Expr} {b b' c c' : Block}
      (condition : Expr.Renamed env e e') (thenBlock : Block.Renamed env b b')
      (elseBlock : Block.Renamed env c c') :
      Expr.Renamed env (.ifElse loc e b (some c)) (.ifElse loc e' b' (some c'))
  | block {env : Bindings} (loc : Option Position) {b b' : Block} (body : Block.Renamed env b b') :
      Expr.Renamed env (.block loc b) (.block loc b')
  | ofStmt (env : Bindings) (stmt : Stmt) : Expr.Renamed env (.ofStmt stmt) (.ofStmt stmt)
  | ofBlock (env : Bindings) (body : Block) : Expr.Renamed env (.ofBlock body) (.ofBlock body)

inductive ArgsRenamed : Bindings → List Expr → List Expr → Prop
  | nil (env : Bindings) : ArgsRenamed env [] []
  | cons {env : Bindings} {e e' : Expr} {es es' : List Expr} (first : Expr.Renamed env e e')
      (rest : ArgsRenamed env es es') : ArgsRenamed env (e :: es) (e' :: es')

/-- The bindings before a statement come first, then those after it. -/
inductive Stmt.Renamed : Bindings → Bindings → Stmt → Stmt → Prop
  | letVar {env : Bindings} (loc : Option Position) {x y : String} (written : Option TypeExpr)
      (isMut : Bool) (paired : r.pairs x y) :
      Stmt.Renamed env (env.bind x y) (.letVar loc x written none isMut)
        (.letVar loc y written none isMut)
  | letValue {env : Bindings} (loc : Option Position) {x y : String} (written : Option TypeExpr)
      (isMut : Bool) {e e' : Expr} (paired : r.pairs x y) (value : Expr.Renamed env e e') :
      Stmt.Renamed env (env.bind x y) (.letVar loc x written (some e) isMut)
        (.letVar loc y written (some e') isMut)
  | assign {env : Bindings} (loc : Option Position) {e e' f f' : Expr} (op : Option BinaryOp)
      (target : Expr.Renamed env e e') (value : Expr.Renamed env f f') :
      Stmt.Renamed env env (.assign loc e f op) (.assign loc e' f' op)
  | ret (env : Bindings) (loc : Option Position) :
      Stmt.Renamed env env (.ret loc none) (.ret loc none)
  | retValue {env : Bindings} (loc : Option Position) {e e' : Expr}
      (value : Expr.Renamed env e e') :
      Stmt.Renamed env env (.ret loc (some e)) (.ret loc (some e'))
  | whileLoop {env : Bindings} (loc : Option Position) {e e' : Expr} {b b' : Block}
      (condition : Expr.Renamed env e e') (body : Block.Renamed env b b')
      (agrees : r.Agrees (e.names ++ b.names) (e'.names ++ b'.names)) :
      Stmt.Renamed env env (.whileLoop loc e b) (.whileLoop loc e' b')
  | expr {env : Bindings} (loc : Option Position) {e e' : Expr} (value : Expr.Renamed env e e') :
      Stmt.Renamed env env (.expr loc e) (.expr loc e')
  | ofExpr (env : Bindings) (value : Expr) : Stmt.Renamed env env (.ofExpr value) (.ofExpr value)
  | ofBlock (env : Bindings) (body : Block) : Stmt.Renamed env env (.ofBlock body) (.ofBlock body)

/-- Statements before an expression in which some names are mentioned. -/
inductive StmtsRenamed : List String → List String → Bindings → Bindings →
    List Stmt → List Stmt → Prop
  | nil (tail tail' : List String) (env : Bindings) : StmtsRenamed tail tail' env env [] []
  | cons {tail tail' : List String} {env mid out : Bindings} {stmt stmt' : Stmt}
      {rest rest' : List Stmt} (first : Stmt.Renamed env mid stmt stmt')
      (agrees : r.Agrees (namesOfStmts rest ++ tail) (namesOfStmts rest' ++ tail'))
      (more : StmtsRenamed tail tail' mid out rest rest') :
      StmtsRenamed tail tail' env out (stmt :: rest) (stmt' :: rest')

inductive Block.Renamed : Bindings → Block → Block → Prop
  | plain {env out : Bindings} {ss ss' : List Stmt} (loc : Option Position)
      (statements : StmtsRenamed [] [] ([] :: env) out ss ss') :
      Block.Renamed env (.mk ss none loc) (.mk ss' none loc)
  | valued {env out : Bindings} {ss ss' : List Stmt} {e e' : Expr} (loc : Option Position)
      (statements : StmtsRenamed e.names e'.names ([] :: env) out ss ss')
      (tail : Expr.Renamed out e e') :
      Block.Renamed env (.mk ss (some e) loc) (.mk ss' (some e') loc)

end

end Parts

namespace Expr.Renamed

variable {r : Renaming} {env : Bindings} {e e' : Expr}

theorem loc (renamed : Renamed r env e e') : e'.loc = e.loc := by
  cases renamed <;> rfl

theorem borrow_iff (renamed : Renamed r env e e') :
    (∃ loc operand isMut, e' = .borrow loc operand isMut) ↔
      ∃ loc operand isMut, e = .borrow loc operand isMut := by
  cases renamed <;> simp

theorem isPlace (renamed : Renamed r env e e') : e'.isPlace = e.isPlace := by
  fun_induction Expr.isPlace e generalizing e' with
  | case1 loc x =>
      cases renamed
      rfl
  | case2 loc inner operand isMut ih =>
      cases renamed with
      | deref _ borrowed =>
          cases borrowed with
          | borrow _ _ renamed =>
              have same := ih renamed
              exact same
  | case3 loc operand notBorrow ih =>
      cases renamed with
      | deref _ renamed =>
          rw [← ih renamed]
          rename_i other
          refine Expr.isPlace.eq_3 _ _ ?_
          intro loc inner isMut same
          obtain ⟨_, _, _, mine⟩ := renamed.borrow_iff.mp ⟨loc, inner, isMut, same⟩
          exact notBorrow _ _ _ mine
  | case4 e notName notBorrowed notDeref =>
      cases renamed <;> first | rfl | simp_all

end Expr.Renamed

namespace ArgsRenamed

variable {r : Renaming} {env : Bindings}

theorem length : {es es' : List Expr} → ArgsRenamed r env es es' → es'.length = es.length
  | _, _, .nil _ => rfl
  | _, _, .cons _ rest => congrArg (· + 1) (length rest)

theorem locs : {es es' : List Expr} → ArgsRenamed r env es es' →
    es'.map Expr.loc = es.map Expr.loc
  | _, _, .nil _ => rfl
  | _, _, .cons first rest => by rw [List.map_cons, List.map_cons, first.loc, locs rest]

end ArgsRenamed

/-! ### Scopes -/

section Scopes

variable {r : Renaming} {scope : List (String × String)} {env mid out : Bindings}

theorem Bindings.bind_outer (same : mid = scope :: env) (x y : String) :
    ∃ inner, mid.bind x y = inner :: env := by
  subst same
  exact ⟨(x, y) :: scope, rfl⟩

/-- Statements bind names in the innermost scope. -/
theorem Stmt.Renamed.outer {stmt stmt' : Stmt} (renamed : Stmt.Renamed r mid out stmt stmt')
    (same : mid = scope :: env) : ∃ inner, out = inner :: env := by
  cases renamed with
  | letVar | letValue => exact Bindings.bind_outer same _ _
  | _ => exact ⟨scope, same⟩

theorem StmtsRenamed.outer {tail tail' : List String} {ss ss' : List Stmt}
    (renamed : StmtsRenamed r tail tail' mid out ss ss') (same : mid = scope :: env) :
    ∃ inner, out = inner :: env := by
  induction ss generalizing ss' mid scope with
  | nil =>
      cases renamed
      exact ⟨scope, same⟩
  | cons stmt rest ih =>
      cases renamed with
      | cons first agrees more =>
          obtain ⟨inner, between⟩ := first.outer same
          exact ih more between

end Scopes

theorem Block.Renamed.tail_loc {r : Renaming} {env : Bindings} {b b' : Block}
    (renamed : Block.Renamed r env b b') : b'.tail.map Expr.loc = b.tail.map Expr.loc := by
  cases renamed with
  | plain loc statements => rfl
  | valued loc statements tail => exact congrArg some tail.loc

/-! ### Functions and programs -/

/-- Parameters, and the bindings before and after them. -/
inductive ParamsRenamed (r : Renaming) : Bindings → Bindings → List Param → List Param → Prop
  | nil (env : Bindings) : ParamsRenamed r env env [] []
  | cons {env out : Bindings} {x y : String} (written : TypeExpr) (loc : Option Position)
      (isMut : Bool) {ps ps' : List Param} (links : Links env.flatten x y) (paired : r.pairs x y)
      (rest : ParamsRenamed r (env.bind x y) out ps ps') :
      ParamsRenamed r env out (⟨x, written, loc, isMut⟩ :: ps) (⟨y, written, loc, isMut⟩ :: ps')

/-- A function with other names for its bindings. -/
structure FunctionDef.Renamed (r : Renaming) (f f' : FunctionDef) : Prop where
  name : f'.name = f.name
  returnType : f'.returnType = f.returnType
  loc : f'.loc = f.loc
  body : ∃ env, ParamsRenamed r [[]] env f.params f'.params ∧ Block.Renamed r env f.body f'.body

/-- A program with other names for the bindings of its functions.  Where it counts, each function
and its renamed copy agree on which bindings are mentioned later. -/
def Program.Renamed (counts : Bool) (p q : Program) : Prop :=
  List.Forall₂ (fun f f' => ∃ r : Renaming, r.counts = counts ∧ f.Renamed r f') p.functions
    q.functions

/-! ### No other names -/

mutual

theorem Expr.renamed_self {env : Bindings} (plain : env.Plain) :
    (e : Expr) → Expr.Renamed .same env e e
  | .literal loc value => .literal env loc value
  | .name loc ident => .name loc (links_self plain ident)
  | .unary loc op operand => .unary loc op (Expr.renamed_self plain operand)
  | .deref loc operand => .deref loc (Expr.renamed_self plain operand)
  | .borrow loc operand isMut => .borrow loc isMut (Expr.renamed_self plain operand)
  | .binary loc op left right =>
      .binary loc op (Expr.renamed_self plain left) (Expr.renamed_self plain right)
  | .call loc func args => .call loc func (args_renamed_self plain args)
  | .boxNew loc value => .boxNew loc (Expr.renamed_self plain value)
  | .macroCall loc callee template args =>
      .macroCall loc callee template (args_renamed_self plain args)
  | .ifElse loc condition thenBlock none =>
      .ifOnly loc (Expr.renamed_self plain condition) (Block.renamed_self plain thenBlock)
  | .ifElse loc condition thenBlock (some elseBlock) =>
      .ifElse loc (Expr.renamed_self plain condition) (Block.renamed_self plain thenBlock)
        (Block.renamed_self plain elseBlock)
  | .block loc body => .block loc (Block.renamed_self plain body)
  | .ofStmt stmt => .ofStmt env stmt
  | .ofBlock body => .ofBlock env body

theorem args_renamed_self {env : Bindings} (plain : env.Plain) :
    (es : List Expr) → ArgsRenamed .same env es es
  | [] => .nil env
  | e :: es => .cons (Expr.renamed_self plain e) (args_renamed_self plain es)

theorem Stmt.renamed_self {env : Bindings} (plain : env.Plain) :
    (stmt : Stmt) → ∃ out : Bindings, out.Plain ∧ Stmt.Renamed .same env out stmt stmt
  | .letVar loc ident written none isMut =>
      ⟨_, plain.bind ident, .letVar loc written isMut rfl⟩
  | .letVar loc ident written (some value) isMut =>
      ⟨_, plain.bind ident, .letValue loc written isMut rfl (Expr.renamed_self plain value)⟩
  | .assign loc target value op =>
      ⟨env, plain, .assign loc op (Expr.renamed_self plain target) (Expr.renamed_self plain value)⟩
  | .ret loc none => ⟨env, plain, .ret env loc⟩
  | .ret loc (some value) => ⟨env, plain, .retValue loc (Expr.renamed_self plain value)⟩
  | .whileLoop loc condition body =>
      ⟨env, plain, .whileLoop loc (Expr.renamed_self plain condition)
        (Block.renamed_self plain body) (Renaming.same_agrees _)⟩
  | .expr loc value => ⟨env, plain, .expr loc (Expr.renamed_self plain value)⟩
  | .ofExpr value => ⟨env, plain, .ofExpr env value⟩
  | .ofBlock body => ⟨env, plain, .ofBlock env body⟩

theorem stmts_renamed_self {env : Bindings} (plain : env.Plain) (tail : List String) :
    (ss : List Stmt) → ∃ out : Bindings, out.Plain ∧ StmtsRenamed .same tail tail env out ss ss
  | [] => ⟨env, plain, .nil tail tail env⟩
  | stmt :: rest => by
      obtain ⟨mid, plainMid, first⟩ := Stmt.renamed_self plain stmt
      obtain ⟨out, plainOut, more⟩ := stmts_renamed_self plainMid tail rest
      exact ⟨out, plainOut, .cons first (Renaming.same_agrees _) more⟩

theorem Block.renamed_self {env : Bindings} (plain : env.Plain) :
    (b : Block) → Block.Renamed .same env b b
  | .mk statements none loc => by
      obtain ⟨out, -, inner⟩ := stmts_renamed_self plain.enter [] statements
      exact .plain loc inner
  | .mk statements (some tail) loc => by
      obtain ⟨out, plainOut, inner⟩ := stmts_renamed_self plain.enter tail.names statements
      exact .valued loc inner (Expr.renamed_self plainOut tail)

end

theorem params_renamed_self {env : Bindings} (plain : env.Plain) (params : List Param) :
    ∃ out : Bindings, out.Plain ∧ ParamsRenamed .same env out params params := by
  induction params generalizing env with
  | nil => exact ⟨env, plain, .nil env⟩
  | cons param rest ih =>
      obtain ⟨out, plainOut, more⟩ := ih (plain.bind param.name)
      exact ⟨out, plainOut, .cons _ _ _ (links_self plain param.name) rfl more⟩

theorem FunctionDef.renamed_self (f : FunctionDef) : f.Renamed .same f := by
  have plain : Bindings.Plain [[]] := by simp [Bindings.Plain]
  obtain ⟨env, plainEnv, params⟩ := params_renamed_self plain f.params
  exact ⟨rfl, rfl, rfl, env, params, Block.renamed_self plainEnv f.body⟩

end BorrowLang
