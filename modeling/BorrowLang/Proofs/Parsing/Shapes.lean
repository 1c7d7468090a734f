import BorrowLang.Proofs.Parsing.Expressions
import BorrowLang.Proofs.Parsing.Soundness

/-!
# Shapes of trees

Building meets no tree of a shape that it does not know.  The trees of each phrase are of the shape
that is asked for where they are built; and what is built from them is refused with a report, except
for a literal that cannot be converted.
-/

set_option autoImplicit false

namespace BorrowLang

open Grammar

/-! ### Faults of building -/

mutual

/-- The tokens of a tree. -/
def Grammar.ParseTree.leaves : ParseTree → List Token
  | .leaf token => [token]
  | .node _ _ children => leavesOf children

/-- The tokens of some trees. -/
def leavesOf : List ParseTree → List Token
  | [] => []
  | tree :: rest => tree.leaves ++ leavesOf rest

end

theorem leavesOf_append (trees others : List ParseTree) :
    leavesOf (trees ++ others) = leavesOf trees ++ leavesOf others := by
  induction trees with
  | nil => rfl
  | cons tree rest ih => simp [leavesOf, ih]

/-- A string literal whose escapes cannot be decoded. -/
def Grammar.Token.Malformed (token : Token) : Prop :=
  token.terminal = .string ∧ Text.unescape? ((token.text.toList.drop 1).dropLast) = none

/-- An integer literal with more digits than are ever converted. -/
def Grammar.Token.TooLong (token : Token) : Prop :=
  token.terminal = .int ∧ Text.digitLimit < (token.text.toList.filter (· ≠ '_')).length

/-- A fault is reported, or due to a literal among some tokens that cannot be converted. -/
def BuildFault.DueTo (tokens : List Token) : BuildFault → Prop
  | .malformedString => ∃ token ∈ tokens, token.Malformed
  | .tooManyDigits => ∃ token ∈ tokens, token.TooLong
  | .unsupportedShape _ => False
  | .missingSemicolon _ | .unsupportedPath _ _ _ | .boxArguments _ | .integerTooLarge _ => True

/-- Each fault of a computation is reported or due to a literal. -/
def Explained (tokens : List Token) {α : Type} (x : Except BuildFault α) : Prop :=
  ∀ fault, x = .error fault → fault.DueTo tokens

section Rules

variable {tokens : List Token} {α β : Type}

theorem explained_ok (a : α) : Explained tokens (.ok a) := nofun

theorem explained_pure (a : α) : Explained tokens (pure a) := nofun

theorem explained_error {fault : BuildFault} (due : fault.DueTo tokens) :
    Explained tokens (.error fault : Except BuildFault α) :=
  fun _ same => Except.error.inj same ▸ due

theorem Explained.bind {x : Except BuildFault α} {f : α → Except BuildFault β}
    (first : Explained tokens x) (next : ∀ a, Explained tokens (f a)) :
    Explained tokens (x >>= f) := by
  cases x with
  | ok a => exact next a
  | error fault => exact explained_error (first fault rfl)

theorem Explained.map {x : Except BuildFault α} (first : Explained tokens x) (f : α → β) :
    Explained tokens (do return f (← x)) :=
  first.bind fun _ => explained_pure _

theorem explained_mapM {f : α → Except BuildFault β} {xs : List α}
    (each : ∀ x ∈ xs, Explained tokens (f x)) : Explained tokens (xs.mapM f) := by
  induction xs with
  | nil => exact explained_pure _
  | cons x rest ih =>
      obtain ⟨first, others⟩ := List.forall_mem_cons.mp each
      rw [List.mapM_cons]
      exact first.bind fun _ => (ih others).map _

end Rules

/-! ### Expressions -/

/-- A tree that is built as an expression; where it is a number, that is an integer literal. -/
structure ExprTree (tokens : List Token) (tree : ParseTree) : Prop where
  built : Explained tokens (buildExpr tree)
  digits : ∀ text ∈ digits? tree, ∃ token ∈ tokens, token.terminal = .int ∧ token.text = text

variable {tokens : List Token}

theorem buildInteger_explained {token : Token} (member : token ∈ tokens)
    (isInt : token.terminal = .int) (negative : Bool) (loc : Position) :
    Explained tokens (buildInteger negative token.text loc) := by
  have value : ∀ n : Int, Explained tokens
      (if n < minInt ∨ maxInt < n then .error (BuildFault.integerTooLarge loc)
        else .ok (Expr.literal (some loc) (.int n))) := by
    intro n
    split
    · exact explained_error trivial
    · exact explained_ok _
  unfold buildInteger
  simp only
  split
  · rename_i tooLong
    exact explained_error ⟨token, member, isInt, tooLong⟩
  · exact value _

theorem buildString_explained {token : Token} (member : token ∈ tokens)
    (isString : token.terminal = .string) : Explained tokens (buildString token.text) := by
  unfold buildString
  split
  · exact explained_ok _
  · rename_i malformed
    exact explained_error ⟨token, member, isString, malformed⟩

theorem buildPathCall_explained (loc : Position) (owner member : String) (args : List Expr) :
    Explained tokens (buildPathCall loc owner member args) := by
  unfold buildPathCall
  split
  · split
    · exact explained_ok _
    · exact explained_error trivial
  · exact explained_error trivial

theorem buildExprs_explained {trees : List ParseTree}
    (each : ∀ tree ∈ trees, ExprTree tokens tree) :
    Explained tokens (buildExprs trees) := by
  induction trees with
  | nil =>
      rw [buildExprs]
      exact explained_ok _
  | cons tree rest ih =>
      obtain ⟨first, others⟩ := List.forall_mem_cons.mp each
      rw [buildExprs]
      exact first.built.bind fun _ => (ih others).map _

namespace ExprTree

variable {p : Position} {left right operand : ParseTree}

/-- A tree that is no number. -/
theorem ofBuilt {form : Form} {children : List ParseTree} (notLiteral : form ≠ .intLit)
    (built : Explained tokens (buildExpr (.node form p children))) :
    ExprTree tokens (.node form p children) where
  built := built
  digits := by
    rw [Expr.Reads.digits?_eq_none (by simpa [ParseTree.form?] using notLiteral)]
    rintro _ ⟨⟩

theorem ofBinary (op : Token) (leftTree : ExprTree tokens left)
    (rightTree : ExprTree tokens right) :
    ExprTree tokens (.node .binary p [left, .leaf op, right]) := by
  refine ofBuilt (by decide) ?_
  rw [buildExpr]
  exact leftTree.built.bind fun _ => rightTree.built.map _

theorem ofNegation (sign : ParseTree) (tree : ExprTree tokens operand) :
    ExprTree tokens (.node .negation p [sign, operand]) := by
  refine ofBuilt (by decide) ?_
  rw [buildExpr]
  split
  · rename_i text isDigits
    obtain ⟨token, member, isInt, rfl⟩ := tree.digits text isDigits
    exact buildInteger_explained member isInt _ _
  · exact tree.built.map _

theorem ofComplement (sign : ParseTree) (tree : ExprTree tokens operand) :
    ExprTree tokens (.node .complement p [sign, operand]) := by
  refine ofBuilt (by decide) ?_
  rw [buildExpr]
  exact tree.built.map _

theorem ofDeref (sign : ParseTree) (tree : ExprTree tokens operand) :
    ExprTree tokens (.node .deref p [sign, operand]) := by
  refine ofBuilt (by decide) ?_
  rw [buildExpr]
  exact tree.built.map _

theorem ofBorrow {form : Form} (isBorrow : form = .borrow ∨ form = .doubleBorrow) (sign : ParseTree)
    (tree : ExprTree tokens operand) : ExprTree tokens (.node form p [sign, operand]) := by
  rcases isBorrow with rfl | rfl <;>
  · refine ofBuilt (by decide) ?_
    rw [buildExpr]
    exact tree.built.map _

theorem ofBorrowMut {form : Form} (isBorrow : form = .borrow ∨ form = .doubleBorrow)
    (sign mark : ParseTree) (tree : ExprTree tokens operand) :
    ExprTree tokens (.node form p [sign, mark, operand]) := by
  rcases isBorrow with rfl | rfl <;>
  · refine ofBuilt (by decide) ?_
    rw [buildExpr]
    exact tree.built.map _

theorem ofCall (func : Token) {args : List ParseTree} (each : ∀ arg ∈ args, ExprTree tokens arg)
    (q : Position) : ExprTree tokens (.node .call p [.leaf func, .node .args q args]) := by
  refine ofBuilt (by decide) ?_
  rw [buildExpr]
  exact (buildExprs_explained each).map _

theorem ofPathCall (owner member : Token) {args : List ParseTree}
    (each : ∀ arg ∈ args, ExprTree tokens arg) (q : Position) :
    ExprTree tokens (.node .pathCall p [.leaf owner, .leaf member, .node .args q args]) := by
  refine ofBuilt (by decide) ?_
  rw [buildExpr]
  exact (buildExprs_explained each).bind fun args => buildPathCall_explained _ _ _ args

theorem ofMacroCall (callee : Token) (mark : ParseTree) {template : Token}
    (member : template ∈ tokens) (isString : template.terminal = .string) {args : List ParseTree}
    (each : ∀ arg ∈ args, ExprTree tokens arg) (q : Position) :
    ExprTree tokens
      (.node .macroCall p [.leaf callee, mark, .node .macroArgs q (.leaf template :: args)]) := by
  refine ofBuilt (by decide) ?_
  rw [buildExpr]
  exact (buildString_explained member isString).bind fun _ => (buildExprs_explained each).map _

theorem ofNoArgs (func : Token) : ExprTree tokens (.node .call p [.leaf func]) := by
  refine ofBuilt (by decide) ?_
  rw [buildExpr]
  exact explained_ok _

theorem ofPathNoArgs (owner member : Token) :
    ExprTree tokens (.node .pathCall p [.leaf owner, .leaf member]) := by
  refine ofBuilt (by decide) ?_
  rw [buildExpr]
  exact buildPathCall_explained _ _ _ _

theorem ofMacroNoArgs (callee : Token) (mark : ParseTree) :
    ExprTree tokens (.node .macroCall p [.leaf callee, mark]) := by
  refine ofBuilt (by decide) ?_
  rw [buildExpr]
  exact explained_ok _

theorem ofName (name : Token) : ExprTree tokens (.node .var p [.leaf name]) := by
  refine ofBuilt (by decide) ?_
  rw [buildExpr]
  exact explained_ok _

theorem ofInteger {token : Token} (member : token ∈ tokens) (isInt : token.terminal = .int) :
    ExprTree tokens (.node .intLit p [.leaf token]) where
  built := by
    rw [buildExpr]
    exact buildInteger_explained member isInt _ _
  digits text same := ⟨token, member, isInt, Option.some.inj same⟩

theorem ofConstant {form : Form}
    (isConstant : form = .trueLit ∨ form = .falseLit ∨ form = .unitLit) :
    ExprTree tokens (.node form p []) := by
  rcases isConstant with rfl | rfl | rfl <;>
  · refine ofBuilt (by decide) ?_
    rw [buildExpr]
    exact explained_ok _

end ExprTree

/-! ### Items and blocks -/

/-- A tree that is built as a statement. -/
structure StmtTree (tokens : List Token) (tree : ParseTree) : Prop where
  built : Explained tokens (buildStmt tree)
  form : tree.form? = some .letStmt ∨ tree.form? = some .assignStmt ∨
    tree.form? = some .returnStmt ∨ tree.form? = some .whileStmt ∨ tree.form? = some .exprStmt

/-- A tree of an item of a block. -/
inductive ItemTree (tokens : List Token) : ParseTree → Prop
  | empty (p : Position) (children : List ParseTree) : ItemTree tokens (.node .emptyStmt p children)
  | tail (p : Position) {value : ParseTree} (tree : ExprTree tokens value) :
      ItemTree tokens (.node .tailExpr p [value])
  | blockLike {tree : ParseTree} {p : Position} (isBlock : blockLike? tree = some p)
      (built : ExprTree tokens tree) : ItemTree tokens tree
  | stmt {tree : ParseTree} (built : StmtTree tokens tree) : ItemTree tokens tree

theorem ItemTree.ofForm {tree : ParseTree}
    (isBlock : tree.form? = some .ifExpr ∨ tree.form? = some .blockExpr)
    (built : ExprTree tokens tree) : ItemTree tokens tree := by
  cases tree with
  | leaf token => simp [ParseTree.form?] at isBlock
  | node form p children =>
      simp only [ParseTree.form?, Option.some.injEq] at isBlock
      rcases isBlock with rfl | rfl <;> exact .blockLike rfl built

theorem buildItems_explained {trees : List ParseTree}
    (each : ∀ tree ∈ trees, ItemTree tokens tree) :
    Explained tokens (buildItems trees) := by
  induction trees with
  | nil =>
      rw [buildItems]
      exact explained_ok _
  | cons tree rest ih =>
      obtain ⟨first, others⟩ := List.forall_mem_cons.mp each
      have restBuilt := ih others
      cases first with
      | empty p children =>
          rw [buildItems]
          exact restBuilt
      | tail p valueTree =>
          rw [buildItems]
          split
          · exact valueTree.built.map _
          · exact explained_error trivial
      | @blockLike _ p isBlock built =>
          have shape : ∃ form children, tree = .node form p children ∧
              (form = .ifExpr ∨ form = .blockExpr) := by
            unfold blockLike? at isBlock
            split at isBlock
            · exact ⟨_, _, by rw [Option.some.inj isBlock], Or.inl rfl⟩
            · exact ⟨_, _, by rw [Option.some.inj isBlock], Or.inr rfl⟩
            · contradiction
          obtain ⟨form, children, rfl, rfl | rfl⟩ := shape <;>
          · rw [buildItems, isBlock]
            · exact built.built.bind fun _ => restBuilt.map _
            · simp
            · simp
      | stmt stmtTree =>
          obtain ⟨built, isStmt⟩ := stmtTree
          cases tree with
          | leaf token => simp [ParseTree.form?] at isStmt
          | node form p children =>
              simp only [ParseTree.form?, Option.some.injEq] at isStmt
              rcases isStmt with rfl | rfl | rfl | rfl | rfl <;>
              · rw [buildItems, blockLike?]
                · exact built.bind fun _ => restBuilt.map _
                all_goals simp

/-- A tree that is built as a block. -/
inductive BlockTree (tokens : List Token) : ParseTree → Prop
  | ofItems (p : Position) {items : List ParseTree} (each : ∀ item ∈ items, ItemTree tokens item) :
      BlockTree tokens (.node .block p items)

theorem BlockTree.built {tree : ParseTree} (block : BlockTree tokens tree) :
    Explained tokens (buildBlock tree) := by
  obtain ⟨p, each⟩ := block
  rw [buildBlock]
  exact (buildItems_explained each).map _

namespace ExprTree

variable {p : Position} {condition thenBlock body : ParseTree}

theorem ofIf (test : ExprTree tokens condition) (arm : BlockTree tokens thenBlock) :
    ExprTree tokens (.node .ifExpr p [condition, thenBlock]) := by
  refine ofBuilt (by decide) ?_
  rw [buildExpr]
  exact test.built.bind fun _ => arm.built.map _

theorem ofIfElse (test : ExprTree tokens condition) (arm : BlockTree tokens thenBlock)
    {other : ParseTree} (q : Position) (otherArm : BlockTree tokens other) :
    ExprTree tokens (.node .ifExpr p [condition, thenBlock, .node .elseClause q [other]]) := by
  obtain ⟨r, each⟩ := otherArm
  refine ofBuilt (by decide) ?_
  rw [buildExpr]
  exact test.built.bind fun _ => arm.built.bind fun _ => (buildItems_explained each).map _

theorem ofChain (test : ExprTree tokens condition) (arm : BlockTree tokens thenBlock)
    {chained : ParseTree} (q : Position) (chain : ExprTree tokens chained)
    (isIf : chained.form? = some .ifExpr) :
    ExprTree tokens (.node .ifExpr p [condition, thenBlock, .node .elseClause q [chained]]) := by
  refine ofBuilt (by decide) ?_
  rw [buildExpr]
  · exact test.built.bind fun _ => arm.built.bind fun _ => chain.built.map _
  · rintro r items rfl
    simp [ParseTree.form?] at isIf

theorem ofBlock (block : BlockTree tokens body) : ExprTree tokens (.node .blockExpr p [body]) := by
  refine ofBuilt (by decide) ?_
  rw [buildExpr]
  exact block.built.map _

end ExprTree

/-! ### Types -/

/-- A tree that is built as a type. -/
def TypeTree (tokens : List Token) (tree : ParseTree) : Prop := Explained tokens (buildType tree)

namespace TypeTree

variable {p : Position} {target : ParseTree}

theorem ofName (name : Token) : TypeTree tokens (.node .namedType p [.leaf name]) := by
  rw [TypeTree, buildType]
  exact explained_ok _

theorem ofUnit (children : List ParseTree) : TypeTree tokens (.node .unitType p children) := by
  rw [TypeTree, buildType]
  exact explained_ok _

theorem ofGeneric (name : Token) (opening closing : ParseTree) (arg : TypeTree tokens target) :
    TypeTree tokens (.node .genericType p [.leaf name, opening, target, closing]) := by
  rw [TypeTree, buildType]
  exact arg.map _

theorem ofRef {form : Form} (isRef : form = .refType ∨ form = .doubleRefType) (sign : ParseTree)
    (tree : TypeTree tokens target) : TypeTree tokens (.node form p [sign, target]) := by
  rcases isRef with rfl | rfl <;>
  · rw [TypeTree, buildType]
    exact tree.map _

theorem ofRefMut {form : Form} (isRef : form = .refType ∨ form = .doubleRefType)
    (sign mark : ParseTree) (tree : TypeTree tokens target) :
    TypeTree tokens (.node form p [sign, mark, target]) := by
  rcases isRef with rfl | rfl <;>
  · rw [TypeTree, buildType]
    exact tree.map _

end TypeTree

/-! ### Statements -/

theorem buildLet_explained {p : Position} {isMut : Bool} (name : Token) {spec rest : List ParseTree}
    (specTree : spec = [] ∨
      ∃ q written, spec = [.node .typeSpec q [written]] ∧ TypeTree tokens written)
    (valueTree : rest = [] ∨ ∃ sign value, rest = [.leaf sign, value] ∧ ExprTree tokens value) :
    Explained tokens (buildLet p isMut (.leaf name :: spec ++ rest)) := by
  rcases specTree with rfl | ⟨q, written, rfl, type⟩ <;>
    rcases valueTree with rfl | ⟨sign, value, rfl, tree⟩ <;>
    simp only [List.nil_append, List.append_nil, List.cons_append] <;> rw [buildLet]
  · exact explained_ok _
  · exact tree.built.map _
  · exact type.map _
  · exact type.bind fun _ => tree.built.map _

namespace StmtTree

variable {p : Position}

theorem ofLet {name : Token} (isName : name.terminal = .name) {parts : List ParseTree}
    (built : ∀ isMut, Explained tokens (buildLet p isMut (.leaf name :: parts))) :
    StmtTree tokens (.node .letStmt p (.leaf name :: parts)) where
  built := by
    rw [buildStmt]
    · exact built false
    · rintro text position rest same
      obtain rfl := ParseTree.leaf.inj (List.cons.inj same).1
      contradiction
  form := Or.inl rfl

theorem ofLetMut {mark : Token} (isMut : mark.terminal = .kwMut) {parts : List ParseTree}
    (built : ∀ isMut, Explained tokens (buildLet p isMut parts)) :
    StmtTree tokens (.node .letStmt p (.leaf mark :: parts)) where
  built := by
    obtain ⟨terminal, text, position⟩ := mark
    obtain rfl : terminal = .kwMut := isMut
    rw [buildStmt]
    exact built true
  form := Or.inl rfl

theorem ofAssign {target value : ParseTree} (op : Token) (targetTree : ExprTree tokens target)
    (valueTree : ExprTree tokens value) :
    StmtTree tokens (.node .assignStmt p [target, .leaf op, value]) where
  built := by
    rw [buildStmt]
    exact targetTree.built.bind fun _ => valueTree.built.map _
  form := Or.inr (Or.inl rfl)

theorem ofReturn {children : List ParseTree}
    (valueTree : children = [] ∨ ∃ value, children = [value] ∧ ExprTree tokens value) :
    StmtTree tokens (.node .returnStmt p children) where
  built := by
    rcases valueTree with rfl | ⟨value, rfl, tree⟩ <;> rw [buildStmt]
    · exact explained_ok _
    · exact tree.built.map _
  form := Or.inr (Or.inr (Or.inl rfl))

theorem ofWhile {condition body : ParseTree} (test : ExprTree tokens condition)
    (block : BlockTree tokens body) :
    StmtTree tokens (.node .whileStmt p [condition, body]) where
  built := by
    rw [buildStmt]
    exact test.built.bind fun _ => block.built.map _
  form := Or.inr (Or.inr (Or.inr (Or.inl rfl)))

theorem ofExpr {value : ParseTree} (tree : ExprTree tokens value) :
    StmtTree tokens (.node .exprStmt p [value]) where
  built := by
    rw [buildStmt]
    exact tree.built.map _
  form := Or.inr (Or.inr (Or.inr (Or.inr rfl)))

end StmtTree

/-! ### Functions -/

/-- A tree that is built as a parameter. -/
def ParamTree (tokens : List Token) (tree : ParseTree) : Prop := Explained tokens (buildParam tree)

/-- A tree that is built as a function. -/
def FunctionTree (tokens : List Token) (tree : ParseTree) : Prop :=
  Explained tokens (buildFunction tree)

section Functions

variable {p : Position} {written body : ParseTree}

theorem ParamTree.ofType (name : Token) (type : TypeTree tokens written) :
    ParamTree tokens (.node .param p [.leaf name, written]) := by
  rw [ParamTree, buildParam]
  exact type.map _

theorem ParamTree.ofTypeMut (mark name : Token) (type : TypeTree tokens written) :
    ParamTree tokens (.node .param p [.leaf mark, .leaf name, written]) := by
  rw [ParamTree, buildParam]
  exact type.map _

theorem FunctionTree.ofParts (name : Token) {params result : List ParseTree}
    (paramTrees : params = [] ∨
      ∃ q each, params = [.node .params q each] ∧ ∀ one ∈ each, ParamTree tokens one)
    (resultTree : result = [] ∨
      ∃ q written, result = [.node .result q [written]] ∧ TypeTree tokens written)
    (block : BlockTree tokens body) :
    FunctionTree tokens (.node .function p (.leaf name :: params ++ (result ++ [body]))) := by
  rcases paramTrees with rfl | ⟨q, each, rfl, paramTrees⟩ <;>
    rcases resultTree with rfl | ⟨r, written, rfl, type⟩ <;>
    simp only [List.nil_append, List.cons_append] <;>
    rw [FunctionTree, buildFunction]
  · exact block.built.map _
  · exact type.bind fun _ => block.built.map _
  · exact (explained_mapM paramTrees).bind fun _ => block.built.map _
  · exact (explained_mapM paramTrees).bind fun _ => type.bind fun _ => block.built.map _

end Functions

end BorrowLang
