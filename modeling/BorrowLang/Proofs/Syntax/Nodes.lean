import BorrowLang.Syntax.Names
import Mathlib.Logic.Basic
import Mathlib.Logic.Relation

/-!
# Nodes and the names in them

A program is a tree of nodes.  What is known of a node as soon as it is known of the nodes right under
it is known of every node; in this way the names that are collected from a node are those that stand
somewhere within it.
-/

set_option autoImplicit false

namespace BorrowLang

/-- A node of a program. -/
inductive Node
  | function (f : FunctionDef)
  | param (p : Param)
  | block (b : Block)
  | stmt (s : Stmt)
  | expr (e : Expr)

namespace Node

def loc : Node → Option Position
  | function f => f.loc
  | param p => p.loc
  | block b => b.loc
  | stmt s => s.loc
  | expr e => e.loc

/-- The nodes right under a node, in the order of the text. -/
def children : Node → List Node
  | function f => f.params.map param ++ [block f.body]
  | param _ => []
  | block b => b.statements.map stmt ++ b.tail.toList.map expr
  | stmt (.letVar _ _ _ value _) | stmt (.ret _ value) => value.toList.map expr
  | stmt (.assign _ target value _) => [expr target, expr value]
  | stmt (.whileLoop _ condition body) => [expr condition, block body]
  | stmt (.expr _ value) | stmt (.ofExpr value) => [expr value]
  | stmt (.ofBlock body) => [block body]
  | expr (.literal _ _) | expr (.name _ _) => []
  | expr (.unary _ _ operand) | expr (.deref _ operand) | expr (.borrow _ operand _)
  | expr (.boxNew _ operand) => [expr operand]
  | expr (.binary _ _ left right) => [expr left, expr right]
  | expr (.call _ _ args) | expr (.macroCall _ _ _ args) => args.map expr
  | expr (.ifElse _ condition thenBlock elseBlock) =>
      expr condition :: block thenBlock :: elseBlock.toList.map block
  | expr (.block _ body) | expr (.ofBlock body) => [block body]
  | expr (.ofStmt s) => [stmt s]

/-- A node is another one, or under it at any depth. -/
def Within (inner outer : Node) : Prop :=
  Relation.ReflTransGen (fun above below => below ∈ above.children) outer inner

variable {node inner outer child : Node} {name : String}

/-- A node within another one is that one, or within a node right under it. -/
theorem within_iff :
    inner.Within outer ↔ outer = inner ∨ ∃ child ∈ outer.children, inner.Within child :=
  Relation.ReflTransGen.cases_head_iff

/-! ### Nodes under a node are smaller -/

section Sizes

variable {α : Type} [SizeOf α] {build : α → Node} (size : ∀ a, sizeOf (build a) = 1 + sizeOf a)
include size

theorem sizeOf_lt_of_mem_map {items : List α} (member : child ∈ items.map build) :
    sizeOf child < 1 + sizeOf items := by
  obtain ⟨item, inItems, rfl⟩ := List.mem_map.mp member
  have smaller := List.sizeOf_lt_of_mem inItems
  rw [size]
  omega

theorem sizeOf_le_of_mem_toList {item? : Option α} (member : child ∈ item?.toList.map build) :
    sizeOf child ≤ sizeOf item? := by
  cases item? with
  | none => cases member
  | some item =>
      obtain rfl := List.mem_singleton.mp member
      simp [size]

end Sizes

theorem sizeOf_lt_of_mem_children (member : child ∈ node.children) : sizeOf child < sizeOf node := by
  have params := @sizeOf_lt_of_mem_map child Param _ param fun _ => rfl
  have stmts := @sizeOf_lt_of_mem_map child Stmt _ stmt fun _ => rfl
  have args := @sizeOf_lt_of_mem_map child Expr _ expr fun _ => rfl
  have value := @sizeOf_le_of_mem_toList child Expr _ expr fun _ => rfl
  have arm := @sizeOf_le_of_mem_toList child Block _ block fun _ => rfl
  cases node with
  | function f =>
      cases f
      simp only [children] at member
      simp only [function.sizeOf_spec, FunctionDef.mk.sizeOf_spec]
      grind
  | param => cases member
  | block b =>
      cases b
      simp only [children, Block.statements, Block.tail] at member
      simp only [block.sizeOf_spec, Block.mk.sizeOf_spec]
      grind
  | stmt s => cases s <;> simp only [children] at member <;> simp <;> grind
  | expr e => cases e <;> simp only [children] at member <;> simp <;> grind

/-- What holds of a node when it holds of the nodes right under it holds of every node. -/
theorem rises {motive : Node → Prop}
    (rise : ∀ node : Node, (∀ child ∈ node.children, motive child) → motive node) (node : Node) :
    motive node := by
  induction size : sizeOf node using Nat.strongRecOn generalizing node with
  | ind n ih =>
      subst size
      exact rise node fun child member => ih _ (sizeOf_lt_of_mem_children member) child rfl

/-! ### Names -/

/-- The name stands somewhere within the node. -/
def Mentions (node : Node) (name : String) : Prop :=
  ∃ loc, (expr (.name loc name)).Within node

theorem mentions_iff : node.Mentions name ↔
    (∃ loc, node = expr (.name loc name)) ∨ ∃ child ∈ node.children, child.Mentions name := by
  have within (loc : Option Position) : (expr (.name loc name)).Within node ↔
      node = expr (.name loc name) ∨
        ∃ child ∈ node.children, (expr (.name loc name)).Within child := within_iff
  simp only [Mentions, within]
  grind

/-- The names that are collected from a node. -/
def names : Node → List String
  | function f => f.body.names
  | param _ => []
  | block b => b.names
  | stmt s => s.names
  | expr e => e.names

end Node

theorem mem_namesOfArgs {name : String} {args : List Expr} :
    name ∈ namesOfArgs args ↔ ∃ arg ∈ args, name ∈ arg.names := by
  induction args with
  | nil => simp [namesOfArgs]
  | cons arg rest ih => simp [namesOfArgs, ih]

theorem mem_namesOfStmts {name : String} {stmts : List Stmt} :
    name ∈ namesOfStmts stmts ↔ ∃ stmt ∈ stmts, name ∈ stmt.names := by
  induction stmts with
  | nil => simp [namesOfStmts]
  | cons stmt rest ih => simp [namesOfStmts, ih]

namespace Node

variable {node : Node} {name : String}

/-- Names are collected from a node that is a name and from the nodes right under it. -/
theorem mem_names : name ∈ node.names ↔
    (∃ loc, node = expr (.name loc name)) ∨ ∃ child ∈ node.children, name ∈ child.names := by
  cases node with
  | function f => simp [names, children, or_and_right, exists_or]
  | param => simp [names, children]
  | block b =>
      obtain ⟨statements, tail, loc⟩ := b
      cases tail <;> simp [names, children, Block.names, Block.statements, Block.tail,
        mem_namesOfStmts, or_and_right, exists_or]
  | stmt s =>
      cases s with
      | letVar _ _ _ value => cases value <;> simp [names, children, Stmt.names]
      | ret _ value => cases value <;> simp [names, children, Stmt.names]
      | _ => simp [names, children, Stmt.names]
  | expr e =>
      cases e with
      | name => simp [names, children, Expr.names, eq_comm]
      | ifElse _ _ _ elseBlock => cases elseBlock <;> simp [names, children, Expr.names]
      | _ => simp [names, children, Expr.names, mem_namesOfArgs]

/-- The names that are collected from a node are those that stand somewhere within it. -/
theorem mem_names_iff : name ∈ node.names ↔ node.Mentions name := by
  induction node using rises with
  | rise node ih =>
      rw [mem_names, mentions_iff]
      exact or_congr_right
        (exists_congr fun child => and_congr_right fun member => ih child member)

end Node

end BorrowLang
