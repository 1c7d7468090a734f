import BorrowLang.Proofs.Syntax.Nodes
import Mathlib.Data.List.Basic
import Mathlib.Tactic.Tauto

/-!
# Searching nodes for names

The names in some nodes can be searched for with a list of what is still to be looked into: the next
field is taken from it, and what is in that is put there instead.  Every such search comes to its end,
and it finds the names that stand somewhere within the nodes.
-/

set_option autoImplicit false

namespace BorrowLang

/-! ### Fields -/

/-- A value in which there are no names to look for. -/
inductive Atom
  | nothing
  | text (text : String)
  | flag (flag : Bool)
  | literal (literal : Literal)

/-- What stands in a field of a node: a node, a list or an atom. -/
inductive Field
  | atom (atom : Atom)
  | expr (e : Expr)
  | stmt (s : Stmt)
  | block (b : Block)
  | list (fields : List Field)

namespace Field

variable {field : Field} {name ident : String}

def text (text : String) : Field := atom (.text text)

def flag (flag : Bool) : Field := atom (.flag flag)

/-- A field in which nothing may stand. -/
def optional {α : Type} (build : α → Field) : Option α → Field
  | none => atom .nothing
  | some a => build a

/-- What is in a field: the members of a list, or the fields of a node, but for its position and the type
that is written in it.  A node that stands for one of another class is looked into by itself. -/
def parts : Field → List Field
  | atom _ => []
  | list fields => fields
  | block (.mk statements tail _) => [list (statements.map stmt), optional expr tail]
  | stmt (.letVar _ ident _ value isMut) => [text ident, optional expr value, flag isMut]
  | stmt (.assign _ target value op) =>
      [expr target, expr value, optional text (op.map BinaryOp.text)]
  | stmt (.ret _ value) => [optional expr value]
  | stmt (.whileLoop _ condition body) => [expr condition, block body]
  | stmt (.expr _ value) | stmt (.ofExpr value) => [expr value]
  | stmt (.ofBlock body) => [block body]
  | expr (.literal _ value) => [atom (.literal value)]
  | expr (.name _ ident) => [text ident]
  | expr (.unary _ op operand) => [text op.text, expr operand]
  | expr (.deref _ operand) => [expr operand]
  | expr (.borrow _ operand isMut) => [expr operand, flag isMut]
  | expr (.binary _ op left right) => [text op.text, expr left, expr right]
  | expr (.call _ func args) => [text func, list (args.map expr)]
  | expr (.boxNew _ value) => [expr value]
  | expr (.macroCall _ callee template args) => [text callee, text template, list (args.map expr)]
  | expr (.ifElse _ condition thenBlock elseBlock) =>
      [expr condition, block thenBlock, optional block elseBlock]
  | expr (.block _ body) | expr (.ofBlock body) => [block body]
  | expr (.ofStmt s) => [stmt s]

/-- The node that stands in a field, if one does. -/
def node? : Field → Option Node
  | atom _ | list _ => none
  | expr e => some (.expr e)
  | stmt s => some (.stmt s)
  | block b => some (.block b)

/-- The name that stands in a field by itself, if one does. -/
def ident? : Field → Option String
  | expr (.name _ ident) => some ident
  | _ => none

/-- The name stands somewhere within the node in a field, or within a member of the list there. -/
inductive Mentions : Field → String → Prop
  | node {field : Field} {node : Node} {name : String} (here : field.node? = some node)
      (mentions : node.Mentions name) : Mentions field name
  | member {fields : List Field} {field : Field} {name : String} (member : field ∈ fields)
      (mentions : Mentions field name) : Mentions (list fields) name

theorem mentions_node {node : Node} (here : field.node? = some node) :
    field.Mentions name ↔ node.Mentions name := by
  refine ⟨fun mentions => ?_, .node here⟩
  cases mentions with
  | node here' mentions => rwa [Option.some.inj (here.symm.trans here')]
  | member => cases here

@[simp] theorem mentions_expr {e : Expr} : (expr e).Mentions name ↔ (Node.expr e).Mentions name :=
  mentions_node rfl

@[simp] theorem mentions_stmt {s : Stmt} : (stmt s).Mentions name ↔ (Node.stmt s).Mentions name :=
  mentions_node rfl

@[simp] theorem mentions_block {b : Block} :
    (block b).Mentions name ↔ (Node.block b).Mentions name := mentions_node rfl

@[simp] theorem mentions_list {fields : List Field} :
    (list fields).Mentions name ↔ ∃ field ∈ fields, field.Mentions name := by
  refine ⟨fun mentions => ?_, fun ⟨field, member, mentions⟩ => .member member mentions⟩
  cases mentions with
  | node here => cases here
  | member member mentions => exact ⟨_, member, mentions⟩

/-- What is written in an atom, such as the name of a function, is not mentioned there. -/
@[simp] theorem not_mentions_atom {atom : Atom} : ¬ (Field.atom atom).Mentions name := by
  rintro ⟨⟨⟩, -⟩

@[simp] theorem not_mentions_text {text : String} : ¬ (Field.text text).Mentions name :=
  not_mentions_atom

@[simp] theorem not_mentions_flag {flag : Bool} : ¬ (Field.flag flag).Mentions name :=
  not_mentions_atom

@[simp] theorem mentions_optional {α : Type} {build : α → Field} {a? : Option α} :
    (optional build a?).Mentions name ↔ ∃ a ∈ a?, (build a).Mentions name := by
  cases a? <;> simp [optional]

theorem mentions_ident (here : field.ident? = some ident) : field.Mentions name ↔ name = ident := by
  unfold ident? at here
  split at here
  · obtain rfl := Option.some.inj here
    rw [mentions_expr, Node.mentions_iff]
    simp [Node.children, eq_comm]
  · cases here

/-- Unless a name stands in the field by itself, what is mentioned in it is mentioned in its parts. -/
theorem mentions_parts (other : field.ident? = none) :
    field.Mentions name ↔ ∃ part ∈ field.parts, part.Mentions name := by
  cases field with
  | atom | list => simp [parts]
  | block b =>
      obtain ⟨statements, tail, loc⟩ := b
      rw [mentions_block, Node.mentions_iff]
      simp [parts, Node.children, Block.statements, Block.tail, or_and_right, exists_or]
  | stmt s =>
      rw [mentions_stmt, Node.mentions_iff]
      cases s <;> simp [parts, Node.children]
  | expr e =>
      rw [mentions_expr, Node.mentions_iff]
      cases e with
      | name => cases other
      | _ => simp [parts, Node.children]

/-! ### Sizes of fields -/

mutual

/-- How much there is to look into in a field. -/
noncomputable def size : Field → Nat
  | atom _ => 1
  | expr e => sizeOf e
  | stmt s => sizeOf s
  | block b => sizeOf b
  | list fields => 1 + sizes fields

noncomputable def sizes : List Field → Nat
  | [] => 0
  | field :: rest => field.size + sizes rest

end

theorem sizes_append (fields more : List Field) :
    sizes (fields ++ more) = sizes fields + sizes more := by
  induction fields with
  | nil => simp [sizes]
  | cons field rest ih => simp only [List.cons_append, sizes, ih, Nat.add_assoc]

theorem sizes_reverse (fields : List Field) : sizes fields.reverse = sizes fields := by
  induction fields with
  | nil => rfl
  | cons field rest ih =>
      simp only [List.reverse_cons, sizes_append, sizes, ih, Nat.add_zero]
      exact Nat.add_comm _ _

section Sizes

variable {α : Type} [SizeOf α] {build : α → Field} (size : ∀ a, (build a).size = sizeOf a)
include size

theorem sizes_map (items : List α) : 1 + sizes (items.map build) ≤ sizeOf items := by
  induction items with
  | nil => simp [sizes]
  | cons item rest ih =>
      simp only [List.map_cons, sizes, size, List.cons.sizeOf_spec]
      omega

theorem size_optional (a? : Option α) : (optional build a?).size ≤ sizeOf a? := by
  cases a? with
  | none => simp [optional, Field.size]
  | some a => simp [optional, size]

end Sizes

theorem size_operator (op? : Option BinaryOp) :
    (optional text (op?.map BinaryOp.text)).size = 1 := by
  cases op? <;> simp [optional, text, size]

theorem sizeOf_loc (loc : Option Position) : 0 < sizeOf loc := by
  cases loc with
  | none => exact Nat.one_pos
  | some loc => exact Nat.lt_of_lt_of_le Nat.one_pos (Nat.le_add_right 1 _)

theorem sizeOf_text (text : String) : 0 < sizeOf text := by
  cases text
  exact Nat.lt_of_lt_of_le Nat.one_pos (Nat.le_add_right 1 _)

/-- The parts of a field are smaller, all together. -/
theorem sizes_parts (field : Field) : sizes field.parts < field.size := by
  have args := @sizes_map Expr _ expr fun _ => rfl
  have stmts := @sizes_map Stmt _ stmt fun _ => rfl
  have value := @size_optional Expr _ expr fun _ => rfl
  have arm := @size_optional Block _ block fun _ => rfl
  cases field with
  | atom | list => simp [parts, size, sizes]
  | block b =>
      obtain ⟨statements, tail, loc⟩ := b
      simp only [parts, size, sizes, Block.mk.sizeOf_spec]
      grind
  | stmt s =>
      cases s <;> simp [parts, text, flag, size, sizes, size_operator] <;> grind [sizeOf_loc]
  | expr e =>
      cases e <;> simp [parts, text, flag, size, sizes] <;> grind [sizeOf_loc, sizeOf_text]

end Field

/-! ### The search -/

/-- A search for names: the fields that are still to be looked into, the next one first, and the names
that have been found. -/
structure Search where
  pending : List Field
  found : List String := []

namespace Search

variable {s after : Search} {name : String} {found : List String}

/-- The next field is looked into.  A name by itself is found; instead of any other field its parts are
pending, the last one first.  A search with nothing pending is over. -/
def next? (s : Search) : Option Search :=
  match s.pending with
  | [] => none
  | field :: rest =>
      match field.ident? with
      | some ident => some { pending := rest, found := s.found.insert ident }
      | none => some { s with pending := field.parts.reverse ++ rest }

theorem next?_eq_none : s.next? = none ↔ s.pending = [] := by
  unfold next?
  split
  · simp_all
  · split <;> simp_all

/-- What a step can come to. -/
theorem next_cases (next : s.next? = some after) : ∃ field rest, s.pending = field :: rest ∧
    ((∃ ident, field.ident? = some ident ∧ after = ⟨rest, s.found.insert ident⟩) ∨
      field.ident? = none ∧ after = ⟨field.parts.reverse ++ rest, s.found⟩) := by
  obtain ⟨_ | ⟨field, rest⟩, found⟩ := s
  · cases next
  · refine ⟨field, rest, rfl, ?_⟩
    cases here : field.ident? with
    | some ident =>
        simp only [next?, here, Option.some.injEq] at next
        exact Or.inl ⟨ident, rfl, next.symm⟩
    | none =>
        simp only [next?, here, Option.some.injEq] at next
        exact Or.inr ⟨rfl, next.symm⟩

/-- A search comes to its end, with these names. -/
inductive Ends : Search → List String → Prop
  | finished {found : List String} : Ends { pending := [], found } found
  | go {s after : Search} {found : List String} (next : s.next? = some after)
      (onward : Ends after found) : Ends s found

/-- With each step there is less to look into. -/
theorem sizes_next (next : s.next? = some after) :
    Field.sizes after.pending < Field.sizes s.pending := by
  obtain ⟨field, rest, pending, ⟨ident, -, rfl⟩ | ⟨-, rfl⟩⟩ := next_cases next
  · rw [pending, Field.sizes]
    exact Nat.lt_add_of_pos_left (Nat.zero_lt_of_lt field.sizes_parts)
  · rw [pending, Field.sizes, Field.sizes_append, Field.sizes_reverse]
    exact Nat.add_lt_add_right field.sizes_parts _

theorem exists_ends (s : Search) : ∃ found, s.Ends found := by
  induction size : Field.sizes s.pending using Nat.strongRecOn generalizing s with
  | ind n ih =>
      subst size
      cases next : s.next? with
      | none =>
          obtain ⟨pending, found⟩ := s
          obtain rfl : pending = [] := next?_eq_none.mp next
          exact ⟨found, .finished⟩
      | some after =>
          obtain ⟨found, ends⟩ := ih _ (sizes_next next) after rfl
          exact ⟨found, .go next ends⟩

/-- The name has been found, or is mentioned in what is pending. -/
def Promises (s : Search) (name : String) : Prop :=
  name ∈ s.found ∨ ∃ field ∈ s.pending, field.Mentions name

theorem promises_next (next : s.next? = some after) : after.Promises name ↔ s.Promises name := by
  obtain ⟨field, rest, pending, ⟨ident, here, rfl⟩ | ⟨other, rfl⟩⟩ := next_cases next
  · simp only [Promises, pending, List.mem_insert_iff, List.exists_mem_cons_iff,
      Field.mentions_ident here]
    tauto
  · simp only [Promises, pending, List.mem_append, List.mem_reverse, or_and_right, exists_or,
      List.exists_mem_cons_iff, Field.mentions_parts other]

/-- A search ends with the names that it promises. -/
theorem Ends.mem_iff (ends : Ends s found) : name ∈ found ↔ s.Promises name := by
  induction ends with
  | finished => simp [Promises]
  | go next _ ih => rw [ih, promises_next next]

/-- A search of some fields ends with the names that are mentioned in them. -/
theorem Ends.mem_iff_mentions {fields : List Field} (ends : Ends { pending := fields.reverse } found) :
    name ∈ found ↔ ∃ field ∈ fields, field.Mentions name := by
  rw [ends.mem_iff]
  simp [Promises]

end Search

end BorrowLang
