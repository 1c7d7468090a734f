import BorrowLang.Proofs.Parsing.Shapes
import BorrowLang.Syntax.OfText

/-!
# Texts that are refused

The trees of each phrase have the shape that building asks for, production by production.  So every
text is read as a program or refused with one diagnostic of the parser, unless it has a literal that
cannot be converted.
-/

set_option autoImplicit false

namespace BorrowLang

open Grammar

/-! ### Shapes of phrases -/

/-- One tree, of some kind. -/
def SingleTree (kind : ParseTree → Prop) (trees : List ParseTree) : Prop :=
  ∃ tree, trees = [tree] ∧ kind tree

/-- Trees of some kind. -/
def AllTrees (kind : ParseTree → Prop) (trees : List ParseTree) : Prop := ∀ tree ∈ trees, kind tree

/-- One node of a form, with children of some kind. -/
def NodeOf (form : Form) (kind : List ParseTree → Prop) (trees : List ParseTree) : Prop :=
  ∃ p children, trees = [.node form p children] ∧ kind children

/-- A string literal and the arguments of a macro after it. -/
def MacroTrees (tokens : List Token) (trees : List ParseTree) : Prop :=
  ∃ template args, trees = .leaf template :: args ∧
    (template ∈ tokens ∧ template.terminal = .string) ∧ AllTrees (ExprTree tokens) args

/-- A tree of an expression that is an `if`. -/
def IfTree (tokens : List Token) (tree : ParseTree) : Prop :=
  ExprTree tokens tree ∧ tree.form? = some .ifExpr

/-- The shape that the trees of a phrase have. -/
def Shape (tokens : List Token) : Nonterminal → List ParseTree → Prop
  | .root => fun _ => True
  | .program => NodeOf .program (AllTrees (FunctionTree tokens))
  | .function => SingleTree (FunctionTree tokens)
  | .functions => AllTrees (FunctionTree tokens)
  | .params => NodeOf .params (AllTrees (ParamTree tokens))
  | .param => SingleTree (ParamTree tokens)
  | .moreParams => AllTrees (ParamTree tokens)
  | .result => NodeOf .result (SingleTree (TypeTree tokens))
  | .typeSpec => NodeOf .typeSpec (SingleTree (TypeTree tokens))
  | .type => SingleTree (TypeTree tokens)
  | .block => SingleTree (BlockTree tokens)
  | .item => SingleTree (ItemTree tokens)
  | .items => AllTrees (ItemTree tokens)
  | .letStmt | .assignStmt | .returnStmt | .whileStmt | .exprStmt => SingleTree (StmtTree tokens)
  | .tailExpr => NodeOf .tailExpr (SingleTree (ExprTree tokens))
  | .ifExpr => SingleTree (IfTree tokens)
  | .blockExpr => SingleTree fun tree => ExprTree tokens tree ∧ tree.form? = some .blockExpr
  | .elseClause =>
      NodeOf .elseClause (SingleTree fun arm => BlockTree tokens arm ∨ IfTree tokens arm)
  | .args => NodeOf .args (AllTrees (ExprTree tokens))
  | .macroArgs => NodeOf .macroArgs (MacroTrees tokens)
  | .moreArgs => AllTrees (ExprTree tokens)
  | .expr | .operation | .disjunction | .conjunction | .comparison | .sum | .term | .unary
  | .application | .atom => SingleTree (ExprTree tokens)

/-- The shape of the trees of some symbols, one after the other. -/
def Shapes (tokens : List Token) : List Symbol → List ParseTree → Prop
  | [], trees => trees = []
  | .t terminal :: symbols, trees =>
      match terminal.isKept with
      | false => Shapes tokens symbols trees
      | true => ∃ token later, trees = .leaf token :: later ∧
          (token ∈ tokens ∧ token.terminal = terminal) ∧ Shapes tokens symbols later
  | .n N :: symbols, trees =>
      ∃ here later, trees = here ++ later ∧ Shape tokens N here ∧ Shapes tokens symbols later

/-- The trees of a production have the shape of its phrase. -/
def Grammar.Production.Shaped (tokens : List Token) (p : Production) : Prop :=
  ∀ (start : Position) (trees : List ParseTree), Shapes tokens p.symbols trees →
    Shape tokens p.phrase (Part.ofTrees p.form start trees).trees

/-- The productions of some phrases. -/
def productionsOf (phrases : List Nonterminal) : List Production :=
  productions.filter fun p => phrases.any (·.index == p.phrase.index)

variable {tokens : List Token}

section AllTrees

variable {kind : ParseTree → Prop} {tree : ParseTree} {trees others : List ParseTree}

theorem AllTrees.single (first : kind tree) : AllTrees kind [tree] :=
  List.forall_mem_singleton.mpr first

theorem AllTrees.cons (first : kind tree) (rest : AllTrees kind trees) :
    AllTrees kind (tree :: trees) :=
  List.forall_mem_cons.mpr ⟨first, rest⟩

theorem AllTrees.append (first : AllTrees kind trees) (rest : AllTrees kind others) :
    AllTrees kind (trees ++ others) :=
  List.forall_mem_append.mpr ⟨first, rest⟩

end AllTrees

namespace Grammar.Production.Shaped

/-- A production that hands on the trees of a phrase. -/
theorem handOn {N M : Nonterminal} (wider : ∀ trees, Shape tokens M trees → Shape tokens N trees) :
    Shaped tokens ⟨N, [.n M], none⟩ := by
  rintro start _ ⟨here, _, rfl, shape, rfl⟩
  exact (List.append_nil here).symm ▸ wider here shape

theorem ofBinary {N A B : Nonterminal} {op : Terminal} (isKept : op.isKept = true)
    (whole : Shape tokens N = SingleTree (ExprTree tokens))
    (left : Shape tokens A = SingleTree (ExprTree tokens))
    (right : Shape tokens B = SingleTree (ExprTree tokens)) :
    Shaped tokens ⟨N, [.n A, .t op, .n B], some .binary⟩ := by
  intro start trees shapes
  simp only [Shapes, isKept, left, right] at shapes
  obtain ⟨_, _, rfl, ⟨first, rfl, firstTree⟩, sign, _, rfl, -, _, _, rfl, ⟨second, rfl, secondTree⟩,
    rfl⟩ := shapes
  rw [whole]
  exact ⟨_, rfl, .ofBinary sign firstTree secondTree⟩

end Grammar.Production.Shaped

theorem types_shaped : ∀ p ∈ productionsOf [.type, .typeSpec, .result], p.Shaped tokens := by
  repeat' first | exact List.forall_mem_nil _ | refine List.forall_mem_cons.mpr ⟨?_, ?_⟩
  · rintro start _ ⟨type, _, rfl, ⟨tree, rfl, isType⟩, rfl⟩
    exact ⟨_, _, rfl, tree, rfl, isType⟩
  · rintro start _ ⟨sign, _, rfl, -, mark, _, rfl, -, _, _, rfl, ⟨tree, rfl, isType⟩, rfl⟩
    exact ⟨_, rfl, .ofRefMut (Or.inl rfl) _ _ isType⟩
  · rintro start _ ⟨sign, _, rfl, -, _, _, rfl, ⟨tree, rfl, isType⟩, rfl⟩
    exact ⟨_, rfl, .ofRef (Or.inl rfl) _ isType⟩
  · rintro start _ ⟨sign, _, rfl, -, mark, _, rfl, -, _, _, rfl, ⟨tree, rfl, isType⟩, rfl⟩
    exact ⟨_, rfl, .ofRefMut (Or.inr rfl) _ _ isType⟩
  · rintro start _ ⟨sign, _, rfl, -, _, _, rfl, ⟨tree, rfl, isType⟩, rfl⟩
    exact ⟨_, rfl, .ofRef (Or.inr rfl) _ isType⟩
  · rintro start _ ⟨name, _, rfl, -, opening, _, rfl, -, _, _, rfl, ⟨tree, rfl, isType⟩,
      closing, _, rfl, -, rfl⟩
    exact ⟨_, rfl, .ofGeneric _ _ _ isType⟩
  · rintro start _ ⟨name, _, rfl, -, rfl⟩
    exact ⟨_, rfl, .ofName name⟩
  · rintro start _ rfl
    exact ⟨_, rfl, .ofUnit []⟩
  · rintro start _ ⟨_, _, rfl, ⟨tree, rfl, isType⟩, rfl⟩
    exact ⟨_, _, rfl, tree, rfl, isType⟩

theorem functions_shaped :
    ∀ p ∈ productionsOf [.root, .program, .function, .functions, .params, .param, .moreParams],
      p.Shaped tokens := by
  repeat' first | exact List.forall_mem_nil _ | refine List.forall_mem_cons.mpr ⟨?_, ?_⟩
  · exact fun _ _ _ => trivial
  · rintro start _ ⟨_, _, rfl, functions, rfl⟩
    exact ⟨_, _, rfl, functions.append nofun⟩
  · rintro start _ rfl
    exact ⟨_, _, rfl, nofun⟩
  -- Functions with and without parameters and a result.
  · rintro start _ ⟨name, _, rfl, -, _, _, rfl, ⟨q, each, rfl, params⟩,
      _, _, rfl, ⟨r, _, rfl, written, rfl, type⟩, _, _, rfl, ⟨body, rfl, block⟩, rfl⟩
    exact ⟨_, rfl, .ofParts name (Or.inr ⟨q, each, rfl, params⟩) (Or.inr ⟨r, written, rfl, type⟩)
      block⟩
  · rintro start _ ⟨name, _, rfl, -, _, _, rfl, ⟨q, each, rfl, params⟩,
      _, _, rfl, ⟨body, rfl, block⟩, rfl⟩
    exact ⟨_, rfl, .ofParts name (Or.inr ⟨q, each, rfl, params⟩) (Or.inl rfl) block⟩
  · rintro start _ ⟨name, _, rfl, -, _, _, rfl, ⟨r, _, rfl, written, rfl, type⟩,
      _, _, rfl, ⟨body, rfl, block⟩, rfl⟩
    exact ⟨_, rfl, .ofParts name (Or.inl rfl) (Or.inr ⟨r, written, rfl, type⟩) block⟩
  · rintro start _ ⟨name, _, rfl, -, _, _, rfl, ⟨body, rfl, block⟩, rfl⟩
    exact ⟨_, rfl, .ofParts name (Or.inl rfl) (Or.inl rfl) block⟩
  -- Parameters, with and without a comma after the last.
  · rintro start _ ⟨_, _, rfl, ⟨first, rfl, tree⟩, _, _, rfl, more, rfl⟩
    exact ⟨_, _, rfl, .cons tree (more.append nofun)⟩
  · rintro start _ ⟨_, _, rfl, ⟨first, rfl, tree⟩, _, _, rfl, more, rfl⟩
    exact ⟨_, _, rfl, .cons tree (more.append nofun)⟩
  · rintro start _ ⟨_, _, rfl, ⟨first, rfl, tree⟩, rfl⟩
    exact ⟨_, _, rfl, .single tree⟩
  · rintro start _ ⟨_, _, rfl, ⟨first, rfl, tree⟩, rfl⟩
    exact ⟨_, _, rfl, .single tree⟩
  · rintro start _ ⟨mark, _, rfl, -, name, _, rfl, -, _, _, rfl, ⟨written, rfl, type⟩, rfl⟩
    exact ⟨_, rfl, .ofTypeMut mark name type⟩
  · rintro start _ ⟨name, _, rfl, -, _, _, rfl, ⟨written, rfl, type⟩, rfl⟩
    exact ⟨_, rfl, .ofType name type⟩
  · rintro start _ ⟨_, _, rfl, ⟨tree, rfl, function⟩, rfl⟩
    exact .single function
  · rintro start _ ⟨_, _, rfl, before, _, _, rfl, ⟨tree, rfl, function⟩, rfl⟩
    exact before.append (.single function)
  · rintro start _ ⟨_, _, rfl, ⟨tree, rfl, param⟩, rfl⟩
    exact .single param
  · rintro start _ ⟨_, _, rfl, before, _, _, rfl, ⟨tree, rfl, param⟩, rfl⟩
    exact before.append (.single param)

theorem blocks_shaped :
    ∀ p ∈ productionsOf [.block, .item, .items, .ifExpr, .elseClause, .blockExpr],
      p.Shaped tokens := by
  repeat' first | exact List.forall_mem_nil _ | refine List.forall_mem_cons.mpr ⟨?_, ?_⟩
  · rintro start _ ⟨_, _, rfl, items, rfl⟩
    exact ⟨_, rfl, .ofItems _ (items.append nofun)⟩
  · rintro start _ rfl
    exact ⟨_, rfl, .ofItems _ nofun⟩
  -- Each statement is an item, and so are an `if`, a block and a tail.
  · exact .handOn fun _ ⟨tree, same, stmt⟩ => ⟨tree, same, .stmt stmt⟩
  · exact .handOn fun _ ⟨tree, same, stmt⟩ => ⟨tree, same, .stmt stmt⟩
  · exact .handOn fun _ ⟨tree, same, stmt⟩ => ⟨tree, same, .stmt stmt⟩
  · exact .handOn fun _ ⟨tree, same, stmt⟩ => ⟨tree, same, .stmt stmt⟩
  · exact .handOn fun _ ⟨tree, same, stmt⟩ => ⟨tree, same, .stmt stmt⟩
  · exact .handOn fun _ ⟨tree, same, built, form⟩ => ⟨tree, same, .ofForm (Or.inl form) built⟩
  · exact .handOn fun _ ⟨tree, same, built, form⟩ => ⟨tree, same, .ofForm (Or.inr form) built⟩
  · exact .handOn fun _ ⟨p, _, same, value, isValue, tree⟩ =>
      ⟨_, same, isValue ▸ .tail p tree⟩
  · rintro start _ rfl
    exact ⟨_, rfl, .empty _ _⟩
  · rintro start _ ⟨_, _, rfl, ⟨condition, rfl, test⟩, _, _, rfl, ⟨arm, rfl, block⟩,
      _, _, rfl, ⟨q, _, rfl, other, rfl, otherwise⟩, rfl⟩
    rcases otherwise with otherBlock | ⟨chain, isIf⟩
    · exact ⟨_, rfl, .ofIfElse test block q otherBlock, rfl⟩
    · exact ⟨_, rfl, .ofChain test block q chain isIf, rfl⟩
  · rintro start _ ⟨_, _, rfl, ⟨condition, rfl, test⟩, _, _, rfl, ⟨arm, rfl, block⟩, rfl⟩
    exact ⟨_, rfl, .ofIf test block, rfl⟩
  · rintro start _ ⟨_, _, rfl, ⟨arm, rfl, block⟩, rfl⟩
    exact ⟨_, _, rfl, arm, rfl, Or.inl block⟩
  · rintro start _ ⟨_, _, rfl, ⟨arm, rfl, chain⟩, rfl⟩
    exact ⟨_, _, rfl, arm, rfl, Or.inr chain⟩
  · rintro start _ ⟨_, _, rfl, ⟨body, rfl, block⟩, rfl⟩
    exact ⟨_, rfl, .ofBlock block, rfl⟩
  · rintro start _ ⟨_, _, rfl, ⟨tree, rfl, item⟩, rfl⟩
    exact .single item
  · rintro start _ ⟨_, _, rfl, before, _, _, rfl, ⟨tree, rfl, item⟩, rfl⟩
    exact before.append (.single item)

theorem statements_shaped :
    ∀ p ∈ productionsOf [.letStmt, .assignStmt, .returnStmt, .whileStmt, .exprStmt, .tailExpr],
      p.Shaped tokens := by
  repeat' first | exact List.forall_mem_nil _ | refine List.forall_mem_cons.mpr ⟨?_, ?_⟩
  -- Bindings with and without `mut`, a type and a value.
  · rintro start _ ⟨mark, _, rfl, ⟨-, isMut⟩, name, _, rfl, -,
      _, _, rfl, ⟨q, _, rfl, written, rfl, type⟩, sign, _, rfl, -,
      _, _, rfl, ⟨value, rfl, tree⟩, rfl⟩
    exact ⟨_, rfl, .ofLetMut isMut fun _ => buildLet_explained name
      (Or.inr ⟨q, written, rfl, type⟩) (Or.inr ⟨sign, value, rfl, tree⟩)⟩
  · rintro start _ ⟨mark, _, rfl, ⟨-, isMut⟩, name, _, rfl, -,
      _, _, rfl, ⟨q, _, rfl, written, rfl, type⟩, rfl⟩
    exact ⟨_, rfl, .ofLetMut isMut fun _ => buildLet_explained name
      (Or.inr ⟨q, written, rfl, type⟩) (Or.inl rfl)⟩
  · rintro start _ ⟨mark, _, rfl, ⟨-, isMut⟩, name, _, rfl, -, sign, _, rfl, -,
      _, _, rfl, ⟨value, rfl, tree⟩, rfl⟩
    exact ⟨_, rfl, .ofLetMut isMut fun _ => buildLet_explained name
      (Or.inl rfl) (Or.inr ⟨sign, value, rfl, tree⟩)⟩
  · rintro start _ ⟨mark, _, rfl, ⟨-, isMut⟩, name, _, rfl, -, rfl⟩
    exact ⟨_, rfl, .ofLetMut isMut fun _ => buildLet_explained name (Or.inl rfl) (Or.inl rfl)⟩
  · rintro start _ ⟨name, _, rfl, ⟨-, isName⟩, _, _, rfl, ⟨q, _, rfl, written, rfl, type⟩,
      sign, _, rfl, -, _, _, rfl, ⟨value, rfl, tree⟩, rfl⟩
    exact ⟨_, rfl, .ofLet isName fun _ => buildLet_explained name
      (Or.inr ⟨q, written, rfl, type⟩) (Or.inr ⟨sign, value, rfl, tree⟩)⟩
  · rintro start _ ⟨name, _, rfl, ⟨-, isName⟩, _, _, rfl, ⟨q, _, rfl, written, rfl, type⟩, rfl⟩
    exact ⟨_, rfl, .ofLet isName fun _ => buildLet_explained name
      (Or.inr ⟨q, written, rfl, type⟩) (Or.inl rfl)⟩
  · rintro start _ ⟨name, _, rfl, ⟨-, isName⟩, sign, _, rfl, -, _, _, rfl, ⟨value, rfl, tree⟩, rfl⟩
    exact ⟨_, rfl, .ofLet isName fun _ => buildLet_explained name
      (Or.inl rfl) (Or.inr ⟨sign, value, rfl, tree⟩)⟩
  · rintro start _ ⟨name, _, rfl, ⟨-, isName⟩, rfl⟩
    exact ⟨_, rfl, .ofLet isName fun _ => buildLet_explained name (Or.inl rfl) (Or.inl rfl)⟩
  -- The other statements, and the tail.
  · rintro start _ ⟨_, _, rfl, ⟨target, rfl, place⟩, op, _, rfl, -,
      _, _, rfl, ⟨value, rfl, tree⟩, rfl⟩
    exact ⟨_, rfl, .ofAssign op place tree⟩
  · rintro start _ ⟨_, _, rfl, ⟨target, rfl, place⟩, op, _, rfl, -,
      _, _, rfl, ⟨value, rfl, tree⟩, rfl⟩
    exact ⟨_, rfl, .ofAssign op place tree⟩
  · rintro start _ ⟨_, _, rfl, ⟨value, rfl, tree⟩, rfl⟩
    exact ⟨_, rfl, .ofReturn (Or.inr ⟨value, rfl, tree⟩)⟩
  · rintro start _ rfl
    exact ⟨_, rfl, .ofReturn (Or.inl rfl)⟩
  · rintro start _ ⟨_, _, rfl, ⟨condition, rfl, test⟩, _, _, rfl, ⟨body, rfl, block⟩, rfl⟩
    exact ⟨_, rfl, .ofWhile test block⟩
  · rintro start _ ⟨_, _, rfl, ⟨value, rfl, tree⟩, rfl⟩
    exact ⟨_, rfl, .ofExpr tree⟩
  · rintro start _ ⟨_, _, rfl, ⟨value, rfl, tree⟩, rfl⟩
    exact ⟨_, _, rfl, value, rfl, tree⟩

theorem operators_shaped :
    ∀ p ∈ productionsOf
        [.expr, .operation, .disjunction, .conjunction, .comparison, .sum, .term, .unary],
      p.Shaped tokens := by
  repeat' first | exact List.forall_mem_nil _ | refine List.forall_mem_cons.mpr ⟨?_, ?_⟩
  · exact .handOn fun _ shape => shape
  · exact .handOn fun _ ⟨tree, same, built, _⟩ => ⟨tree, same, built⟩
  · exact .handOn fun _ ⟨tree, same, built, _⟩ => ⟨tree, same, built⟩
  -- Levels of precedence, and the operators between two operands.
  all_goals try first | exact .handOn fun _ shape => shape | exact .ofBinary rfl rfl rfl rfl
  -- The operators before one operand.
  · rintro start _ ⟨sign, _, rfl, -, _, _, rfl, ⟨operand, rfl, tree⟩, rfl⟩
    exact ⟨_, rfl, .ofNegation _ tree⟩
  · rintro start _ ⟨sign, _, rfl, -, _, _, rfl, ⟨operand, rfl, tree⟩, rfl⟩
    exact ⟨_, rfl, .ofComplement _ tree⟩
  · rintro start _ ⟨sign, _, rfl, -, _, _, rfl, ⟨operand, rfl, tree⟩, rfl⟩
    exact ⟨_, rfl, .ofDeref _ tree⟩
  · rintro start _ ⟨sign, _, rfl, -, mark, _, rfl, -, _, _, rfl, ⟨operand, rfl, tree⟩, rfl⟩
    exact ⟨_, rfl, .ofBorrowMut (Or.inl rfl) _ _ tree⟩
  · rintro start _ ⟨sign, _, rfl, -, _, _, rfl, ⟨operand, rfl, tree⟩, rfl⟩
    exact ⟨_, rfl, .ofBorrow (Or.inl rfl) _ tree⟩
  · rintro start _ ⟨sign, _, rfl, -, mark, _, rfl, -, _, _, rfl, ⟨operand, rfl, tree⟩, rfl⟩
    exact ⟨_, rfl, .ofBorrowMut (Or.inr rfl) _ _ tree⟩
  · rintro start _ ⟨sign, _, rfl, -, _, _, rfl, ⟨operand, rfl, tree⟩, rfl⟩
    exact ⟨_, rfl, .ofBorrow (Or.inr rfl) _ tree⟩

theorem atoms_shaped :
    ∀ p ∈ productionsOf [.application, .args, .macroArgs, .atom, .moreArgs], p.Shaped tokens := by
  repeat' first | exact List.forall_mem_nil _ | refine List.forall_mem_cons.mpr ⟨?_, ?_⟩
  · exact .handOn fun _ shape => shape
  -- Calls with and without arguments.
  · rintro start _ ⟨func, _, rfl, -, _, _, rfl, ⟨q, args, rfl, trees⟩, rfl⟩
    exact ⟨_, rfl, .ofCall func trees q⟩
  · rintro start _ ⟨func, _, rfl, -, rfl⟩
    exact ⟨_, rfl, .ofNoArgs func⟩
  · rintro start _ ⟨owner, _, rfl, -, member, _, rfl, -, _, _, rfl, ⟨q, args, rfl, trees⟩, rfl⟩
    exact ⟨_, rfl, .ofPathCall owner member trees q⟩
  · rintro start _ ⟨owner, _, rfl, -, member, _, rfl, -, rfl⟩
    exact ⟨_, rfl, .ofPathNoArgs owner member⟩
  · rintro start _ ⟨callee, _, rfl, -, mark, _, rfl, -, _, _, rfl,
      ⟨q, _, rfl, template, args, rfl, ⟨member, isString⟩, trees⟩, rfl⟩
    exact ⟨_, rfl, .ofMacroCall callee _ member isString trees q⟩
  · rintro start _ ⟨callee, _, rfl, -, mark, _, rfl, -, rfl⟩
    exact ⟨_, rfl, .ofMacroNoArgs callee _⟩
  -- Arguments, with and without a comma after the last.
  · rintro start _ ⟨_, _, rfl, ⟨first, rfl, tree⟩, _, _, rfl, more, rfl⟩
    exact ⟨_, _, rfl, .cons tree (more.append nofun)⟩
  · rintro start _ ⟨_, _, rfl, ⟨first, rfl, tree⟩, _, _, rfl, more, rfl⟩
    exact ⟨_, _, rfl, .cons tree (more.append nofun)⟩
  · rintro start _ ⟨_, _, rfl, ⟨first, rfl, tree⟩, rfl⟩
    exact ⟨_, _, rfl, .single tree⟩
  · rintro start _ ⟨_, _, rfl, ⟨first, rfl, tree⟩, rfl⟩
    exact ⟨_, _, rfl, .single tree⟩
  · rintro start _ ⟨template, _, rfl, known, _, _, rfl, more, rfl⟩
    exact ⟨_, _, rfl, template, _, rfl, known, more.append nofun⟩
  · rintro start _ ⟨template, _, rfl, known, _, _, rfl, more, rfl⟩
    exact ⟨_, _, rfl, template, _, rfl, known, more.append nofun⟩
  · rintro start _ ⟨template, _, rfl, known, rfl⟩
    exact ⟨_, _, rfl, template, _, rfl, known, nofun⟩
  · rintro start _ ⟨template, _, rfl, known, rfl⟩
    exact ⟨_, _, rfl, template, _, rfl, known, nofun⟩
  -- Names, literals and what stands in parentheses.
  · rintro start _ ⟨name, _, rfl, -, rfl⟩
    exact ⟨_, rfl, .ofName name⟩
  · rintro start _ ⟨digits, _, rfl, ⟨member, isInt⟩, rfl⟩
    exact ⟨_, rfl, .ofInteger member isInt⟩
  · rintro start _ rfl
    exact ⟨_, rfl, .ofConstant (Or.inl rfl)⟩
  · rintro start _ rfl
    exact ⟨_, rfl, .ofConstant (Or.inr (Or.inl rfl))⟩
  · rintro start _ rfl
    exact ⟨_, rfl, .ofConstant (Or.inr (Or.inr rfl))⟩
  · rintro start _ ⟨_, _, rfl, ⟨tree, rfl, built⟩, rfl⟩
    exact ⟨tree, rfl, built⟩
  · rintro start _ ⟨_, _, rfl, ⟨tree, rfl, built⟩, rfl⟩
    exact .single built
  · rintro start _ ⟨_, _, rfl, before, _, _, rfl, ⟨tree, rfl, built⟩, rfl⟩
    exact before.append (.single built)

/-- The trees of every production have the shape of its phrase. -/
theorem shaped {p : Production} (known : p ∈ productions) : p.Shaped tokens := by
  have family : ∀ N : Nonterminal, ∃ phrases ∈
      [[Nonterminal.type, .typeSpec, .result],
        [.root, .program, .function, .functions, .params, .param, .moreParams],
        [.block, .item, .items, .ifExpr, .elseClause, .blockExpr],
        [.letStmt, .assignStmt, .returnStmt, .whileStmt, .exprStmt, .tailExpr],
        [.expr, .operation, .disjunction, .conjunction, .comparison, .sum, .term, .unary],
        [.application, .args, .macroArgs, .atom, .moreArgs]],
      phrases.any (·.index == N.index) = true := by
    intro N
    cases N <;> decide
  obtain ⟨phrases, isFamily, member⟩ := family p.phrase
  have here : p ∈ productionsOf phrases := List.mem_filter.mpr ⟨known, member⟩
  simp only [List.mem_cons, List.not_mem_nil, or_false] at isFamily
  rcases isFamily with rfl | rfl | rfl | rfl | rfl | rfl
  · exact types_shaped p here
  · exact functions_shaped p here
  · exact blocks_shaped p here
  · exact statements_shaped p here
  · exact operators_shaped p here
  · exact atoms_shaped p here

theorem leavesOf_ofTrees (form : Option Form) (start : Position) (trees : List ParseTree) :
    leavesOf (Part.ofTrees form start trees).trees = leavesOf trees := by
  cases form with
  | none => rfl
  | some form => simp [Part.ofTrees, leavesOf, ParseTree.leaves]

/-- The trees of symbols that were read have their shapes. -/
theorem Grammar.Grown.shapes {symbols : List Symbol} {parts : List Part}
    (grown : Grown symbols parts)
    (within : ∀ token ∈ leavesOf (parts.flatMap (·.trees)), token ∈ tokens) :
    Shapes tokens symbols (parts.flatMap (·.trees)) := by
  induction grown with
  | nil => rfl
  | token token _ ih =>
      simp only [List.flatMap_cons, leavesOf_append, List.mem_append] at within ⊢
      have rest := ih fun other member => within other (Or.inr member)
      cases kept : token.terminal.isKept with
      | false => simpa [Shapes, Part.ofToken, kept] using rest
      | true =>
          have member : token ∈ tokens :=
            within token (Or.inl (by simp [Part.ofToken, kept, leavesOf, ParseTree.leaves]))
          simpa [Shapes, Part.ofToken, kept] using ⟨member, rest⟩
  | phrase known start grown _ innerShapes restShapes =>
      simp only [List.flatMap_cons, leavesOf_append, List.mem_append, leavesOf_ofTrees] at within
      have inner := innerShapes fun other member => within other (Or.inl member)
      have rest := restShapes fun other member => within other (Or.inr member)
      exact ⟨_, _, rfl, shaped known start _ inner, rest⟩

/-! ### Answers to texts -/

/-- Why a text is no program, if it is none. -/
def refusal? (text : String) : Option ReadFault :=
  match Program.ofText none text with
  | .ok _ => none
  | .error fault => some fault

end BorrowLang
