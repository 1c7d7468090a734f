import BorrowLang.Proofs.Locations.Trees
import BorrowLang.Proofs.Parsing.Roundtrip
import BorrowLang.Proofs.Syntax.Nodes
import BorrowLang.Proofs.Syntax.Spelled

/-!
# Nodes where they begin

Each node of the program of a text is at the first character of a token, and no node under it is
before it: what is built from a tree is where the tree begins, also where one tree makes several
nodes.
-/

set_option autoImplicit false

namespace BorrowLang

open Grammar

namespace Node

/-- A node is at an anchor, and none right under it is before it. -/
def Located (anchor : Position → Prop) (node : Node) : Prop :=
  ∃ p, node.loc = some p ∧ anchor p ∧ ∀ child ∈ node.children, ∃ q, child.loc = some q ∧ p ≤ q

variable {anchor : Position → Prop}

/-- A node is at a position or after it, and all nodes within it are located. -/
structure From (anchor : Position → Prop) (p : Position) (node : Node) : Prop where
  loc : ∃ q, node.loc = some q ∧ p ≤ q
  within : ∀ inner : Node, inner.Within node → inner.Located anchor

theorem From.mono {p q : Position} {node : Node} (isFrom : node.From anchor q) (le : p ≤ q) :
    node.From anchor p := by
  obtain ⟨r, loc, later⟩ := isFrom.loc
  exact ⟨⟨r, loc, le.trans later⟩, isFrom.within⟩

/-- What a node has to be like, from its place and the nodes right under it. -/
theorem from_of_children {p q : Position} {node : Node} (le : p ≤ q) (loc : node.loc = some q)
    (known : anchor q) (under : ∀ child ∈ node.children, child.From anchor q) :
    node.From anchor p := by
  refine ⟨⟨q, loc, le⟩, fun inner within => ?_⟩
  rcases Relation.ReflTransGen.cases_head within with rfl | ⟨child, member, later⟩
  · exact ⟨q, loc, known, fun child member => (under child member).loc⟩
  · exact (under child member).within inner later

theorem from_borrow {p q : Position} (le : p ≤ q) (known : anchor q) (isMut : Bool) {operand : Expr}
    (isFrom : (expr operand).From anchor q) :
    (expr (.borrow (some q) operand isMut)).From anchor p := by
  refine from_of_children le rfl known fun child member => ?_
  obtain rfl := List.mem_singleton.mp member
  exact isFrom

/-- An `if` with an `else`, and the block of that. -/
theorem from_ifElse {p q : Position} (le : p ≤ q) (known : anchor q) {test : Expr}
    {arm last : Block} (testFrom : (expr test).From anchor q) (armFrom : (block arm).From anchor q)
    (lastFrom : (block last).From anchor q) :
    (expr (.ifElse (some q) test arm (some last))).From anchor p := by
  refine from_of_children le rfl known ?_
  simpa [children] using ⟨testFrom, armFrom, lastFrom⟩

/-- Where a node is, it is not before itself. -/
theorem From.at_loc {p : Position} {node : Node} (isFrom : node.From anchor p) :
    ∃ q, node.loc = some q ∧ p ≤ q ∧ anchor q ∧ node.From anchor q := by
  obtain ⟨q, loc, le⟩ := isFrom.loc
  obtain ⟨_, same, known, -⟩ := isFrom.within node .refl
  obtain rfl := Option.some.inj (loc.symm.trans same)
  exact ⟨q, loc, le, known, ⟨q, loc, le_rfl⟩, isFrom.within⟩

end Node

/-! ### Building -/

section Building

variable {anchor : Position → Prop}

@[simp] theorem treeLoc_leaf (token : Token) : treeLoc (.leaf token) = token.position := rfl

@[simp] theorem treeLoc_node (form : Form) (start : Position) (children : List ParseTree) :
    treeLoc (.node form start children) = start := rfl

theorem buildInteger_from {p loc : Position} (le : p ≤ loc) (known : anchor loc) (negative : Bool)
    (text : String) :
    Answers (buildInteger negative text loc) fun e => (Node.expr e).From anchor p := by
  have literal : ∀ n : Int, Answers
      (if n < minInt ∨ maxInt < n then .error (BuildFault.integerTooLarge loc)
        else .ok (Expr.literal (some loc) (.int n))) fun e => (Node.expr e).From anchor p := by
    intro n
    split
    · exact answers_error _ _
    · rw [answers_ok]
      exact Node.from_of_children le rfl known (List.forall_mem_nil _)
  unfold buildInteger
  simp only
  split
  · exact answers_error _ _
  · exact literal _

theorem buildPathCall_from {p loc : Position} (le : p ≤ loc) (known : anchor loc)
    (owner member : String) {args : List Expr}
    (each : ∀ arg ∈ args, (Node.expr arg).From anchor loc) :
    Answers (buildPathCall loc owner member args) fun e => (Node.expr e).From anchor p := by
  unfold buildPathCall
  split
  · split
    · rw [answers_ok]
      refine Node.from_of_children le rfl known ?_
      simpa [Node.children] using each
    · exact answers_error _ _
  · exact answers_error _ _

/-- The statements and the tail of a block are at a position or after it. -/
def ItemsFrom (anchor : Position → Prop) (p : Position) (items : List Stmt × Option Expr) : Prop :=
  (∀ s ∈ items.1, (Node.stmt s).From anchor p) ∧ ∀ e ∈ items.2, (Node.expr e).From anchor p

theorem ItemsFrom.block {p loc : Position} {items : List Stmt × Option Expr} (le : p ≤ loc)
    (known : anchor loc) (isFrom : ItemsFrom anchor loc items) :
    (Node.block (.mk items.1 items.2 (some loc))).From anchor p := by
  refine Node.from_of_children le rfl known fun child member => ?_
  rcases List.mem_append.mp member with inStatements | inTail
  · obtain ⟨s, isStatement, rfl⟩ := List.mem_map.mp inStatements
    exact isFrom.1 s isStatement
  · obtain ⟨e, isTail, rfl⟩ := List.mem_map.mp inTail
    exact isFrom.2 e (Option.mem_toList.mp isTail)

/-- An `if` or a block that is an item is where its tree begins. -/
theorem blockLike?_anchored {item : ParseTree} {p : Position} (isBlock : blockLike? item = some p)
    (anchored : item.Anchored anchor) : treeLoc item = p ∧ anchor p := by
  unfold blockLike? at isBlock
  split at isBlock
  · obtain rfl := Option.some.inj isBlock
    exact ⟨rfl, anchored.1 Form.noConfusion⟩
  · obtain rfl := Option.some.inj isBlock
    exact ⟨rfl, anchored.1 Form.noConfusion⟩
  · exact nomatch isBlock

/-- What is built from an anchored tree is located, and not before the tree. -/
theorem build_from :
    (∀ tree : ParseTree, ∀ p, p ≤ treeLoc tree → tree.Anchored anchor →
      Answers (buildExpr tree) fun e => (Node.expr e).From anchor p) ∧
    (∀ trees, ∀ p, ParseTree.AllFrom anchor p trees →
      Answers (buildItems trees) (ItemsFrom anchor p)) ∧
    (∀ tree : ParseTree, ∀ p, p ≤ treeLoc tree → tree.Anchored anchor →
      Answers (buildStmt tree) fun s => (Node.stmt s).From anchor p) ∧
    (∀ tree : ParseTree, ∀ p, p ≤ treeLoc tree → tree.Anchored anchor →
      Answers (buildBlock tree) fun b => (Node.block b).From anchor p) ∧
    (∀ loc isMut trees, ∀ p, p ≤ loc → anchor loc → ParseTree.AllFrom anchor loc trees →
      Answers (buildLet loc isMut trees) fun s => (Node.stmt s).From anchor p) ∧
    (∀ trees, ∀ p, ParseTree.AllFrom anchor p trees →
      Answers (buildExprs trees) fun exprs => ∀ e ∈ exprs, (Node.expr e).From anchor p) := by
  apply buildExpr.mutual_induct
  all_goals
    intros
    first
      | rw [buildExpr]
      | rw [buildExprs]
      | rw [buildBlock]
      | rw [buildItems]
      | rw [buildStmt]
      | rw [buildLet]
  all_goals try assumption
  all_goals try simp only [ParseTree.Anchored, ParseTree.AllFrom, and_true, treeLoc_leaf,
    treeLoc_node, answers_bind, answers_pure, answers_ok, answers_error, unsupported, ne_eq,
    reduceCtorEq, not_false_eq_true, forall_const] at *
  case case4 =>
    rename_i isDigits p le anchored
    rw [isDigits]
    exact buildInteger_from le anchored.1 _ _
  case case5 =>
    rename_i notDigits built p le anchored
    rw [notDigits]
    simp only [answers_bind, answers_pure]
    obtain ⟨known, -, here, operandAnchored⟩ := anchored
    refine (built _ here operandAnchored).mono fun operand isFrom => ?_
    exact Node.from_of_children le rfl known (by simpa [Node.children] using isFrom)
  case case14 =>
    rename_i built p le anchored
    obtain ⟨known, -, here, operandAnchored⟩ := anchored
    exact (built _ here operandAnchored).mono fun operand isFrom =>
      Node.from_borrow le known false (Node.from_borrow le_rfl known false isFrom)
  case case15 =>
    rename_i built p le anchored
    obtain ⟨known, -, -, here, operandAnchored⟩ := anchored
    exact (built _ here operandAnchored).mono fun operand isFrom =>
      Node.from_borrow le known false (Node.from_borrow le_rfl known true isFrom)
  case case18 =>
    rename_i built p le anchored
    obtain ⟨known, -, here, -, args⟩ := anchored
    refine (built _ (args.mono here)).mono fun values each => ?_
    exact Node.from_of_children le rfl known (by simpa [Node.children] using each)
  case case20 =>
    rename_i p le anchored
    exact buildPathCall_from le anchored.1 _ _ (List.forall_mem_nil _)
  case case21 =>
    rename_i built p le anchored
    obtain ⟨known, -, -, here, -, args⟩ := anchored
    exact (built _ (args.mono here)).mono fun values each => buildPathCall_from le known _ _ each
  case case24 =>
    rename_i built p le anchored
    obtain ⟨known, -, -, here, -, -, args⟩ := anchored
    refine fun template _ => (built _ (args.mono here)).mono fun values each => ?_
    exact Node.from_of_children le rfl known (by simpa [Node.children] using each)
  case case27 =>
    rename_i testBuilt thenBuilt elseBuilt p le anchored
    obtain ⟨known, ⟨test, testAnchored⟩, ⟨arm, armAnchored⟩, clause, -, other, otherKnown, items⟩ :=
      anchored
    refine (testBuilt _ test testAnchored).mono fun test testFrom => ?_
    refine (thenBuilt _ arm armAnchored).mono fun arm armFrom => ?_
    exact (elseBuilt _ items).mono fun items itemsFrom =>
      Node.from_ifElse le known testFrom armFrom (itemsFrom.block (clause.trans other) otherKnown)
  case case28 =>
    rename_i testBuilt thenBuilt chainBuilt p le anchored
    obtain ⟨known, ⟨test, testAnchored⟩, ⟨arm, armAnchored⟩, clause, -, other, otherAnchored⟩ :=
      anchored
    refine (testBuilt _ test testAnchored).mono fun test testFrom => ?_
    refine (thenBuilt _ arm armAnchored).mono fun arm armFrom => ?_
    refine (chainBuilt _ (clause.trans other) otherAnchored).mono fun chained chainFrom => ?_
    -- The block that is made for the second `if` is where that is.
    obtain ⟨q, loc, later, chainKnown, here⟩ := chainFrom.at_loc
    have items : ItemsFrom anchor q ([], some chained) :=
      ⟨List.forall_mem_nil _, by simpa using here⟩
    have last := items.block later chainKnown
    rw [← loc] at last
    exact Node.from_ifElse le known testFrom armFrom last
  case case34 =>
    rename_i p le anchored
    exact buildInteger_from le anchored.1 _ _
  case case41 =>
    rename_i built p le anchored
    exact built p le anchored.1 anchored.2.2
  case case42 =>
    rename_i built p le anchored
    exact built p le anchored.1 anchored.2
  case case54 =>
    rename_i built p le anchored
    exact (built _ anchored.2).mono fun items itemsFrom => itemsFrom.block le anchored.1
  case case56 => exact ⟨List.forall_mem_nil _, by simp⟩
  case case57 =>
    rename_i built p anchored
    exact built p anchored.2
  case case58 =>
    rename_i onlyEmpty built p anchored
    obtain ⟨⟨le, -, here, valueAnchored⟩, -⟩ := anchored
    rw [if_pos onlyEmpty]
    simp only [answers_bind, answers_pure]
    exact (built _ (le.trans here) valueAnchored).mono fun value isFrom =>
      ⟨List.forall_mem_nil _, by simpa using isFrom⟩
  case case59 =>
    rename_i notEmpty _ _
    rw [if_neg notEmpty]
    exact answers_error _ _
  case case60 =>
    rename_i isBlock itemBuilt restBuilt p anchored
    obtain ⟨⟨le, itemAnchored⟩, rest⟩ := anchored
    obtain ⟨rfl, known⟩ := blockLike?_anchored isBlock itemAnchored
    rw [isBlock]
    simp only [answers_bind, answers_pure]
    refine (itemBuilt _ le_rfl itemAnchored).mono fun value valueFrom => ?_
    refine (restBuilt _ rest).mono fun items itemsFrom => ?_
    split
    · exact ⟨List.forall_mem_nil _, by simpa using valueFrom.mono le⟩
    · have first : (Node.stmt (.expr (some _) value)).From anchor p :=
        Node.from_of_children le rfl known (by simpa [Node.children] using valueFrom)
      exact ⟨List.forall_mem_cons.mpr ⟨first, itemsFrom.1⟩, itemsFrom.2⟩
  case case61 =>
    rename_i notBlock itemBuilt restBuilt p anchored
    obtain ⟨⟨le, itemAnchored⟩, rest⟩ := anchored
    rw [notBlock]
    simp only [answers_bind, answers_pure]
    refine (itemBuilt _ le itemAnchored).mono fun first firstFrom => ?_
    exact (restBuilt _ rest).mono fun items itemsFrom =>
      ⟨List.forall_mem_cons.mpr ⟨firstFrom, itemsFrom.1⟩, itemsFrom.2⟩
  case case67 => exact List.forall_mem_nil _
  case case68 =>
    rename_i firstBuilt restBuilt p anchored
    obtain ⟨⟨le, firstAnchored⟩, rest⟩ := anchored
    refine (firstBuilt _ le firstAnchored).mono fun first firstFrom => ?_
    exact (restBuilt _ rest).mono fun others each => List.forall_mem_cons.mpr ⟨firstFrom, each⟩
  -- In the other cases the nodes under the one that is built are those of its parts.
  all_goals
    try simp only [Answers]
    intros
    refine Node.from_of_children (by assumption) ?_ ?_ ?_
    · rfl
    · simp_all
    · simp_all [Node.children, Answers]

theorem buildParam_from {tree : ParseTree} {p : Position} (le : p ≤ treeLoc tree)
    (anchored : tree.Anchored anchor) :
    Answers (buildParam tree) fun param => (Node.param param).From anchor p := by
  unfold buildParam
  split
  · simp only [answers_bind, answers_pure]
    exact fun written _ => Node.from_of_children le rfl (anchored.1 Form.noConfusion)
      (List.forall_mem_nil _)
  · simp only [answers_bind, answers_pure]
    exact fun written _ => Node.from_of_children le rfl (anchored.1 Form.noConfusion)
      (List.forall_mem_nil _)
  · exact answers_error _ _

theorem buildParams_from {trees : List ParseTree} {p : Position}
    (allFrom : ParseTree.AllFrom anchor p trees) :
    Answers (trees.mapM buildParam) fun params =>
      ∀ param ∈ params, (Node.param param).From anchor p := by
  refine answers_mapM fun tree member => ?_
  obtain ⟨le, anchored⟩ := ParseTree.allFrom_iff.mp allFrom tree member
  exact buildParam_from le anchored

/-- A function is where its tree begins, and its parameters and its body are not before it. -/
theorem buildFunction_from {tree : ParseTree} (anchored : tree.Anchored anchor) :
    Answers (buildFunction tree) fun f => (Node.function f).From anchor (treeLoc tree) := by
  have whole : ∀ {q : Position} {name : String} {params : List Param} {written : Option TypeExpr}
      {body : Block}, anchor q → (∀ param ∈ params, (Node.param param).From anchor q) →
      (Node.block body).From anchor q →
      (Node.function ⟨name, params, written, body, some q⟩).From anchor q := by
    intro q name params written body known each isFrom
    refine Node.from_of_children le_rfl rfl known fun child member => ?_
    rcases List.mem_append.mp member with inParams | isBody
    · obtain ⟨param, isParam, rfl⟩ := List.mem_map.mp inParams
      exact each param isParam
    · obtain rfl := List.mem_singleton.mp isBody
      exact isFrom
  have built := (@build_from anchor).2.2.2.1
  have none : ∀ q, ∀ param ∈ ([] : List Param), (Node.param param).From anchor q :=
    fun _ => List.forall_mem_nil _
  unfold buildFunction
  split
  case h_5 => exact answers_error _ _
  all_goals
    obtain ⟨known, parts⟩ := anchored
    have isAnchor := known Form.noConfusion
    simp only [ParseTree.AllFrom, and_true] at parts
    simp only [answers_bind, answers_pure]
  · obtain ⟨-, here, body⟩ := parts
    exact (built _ _ here body).mono fun body isFrom => whole isAnchor (none _) isFrom
  · obtain ⟨-, ⟨at_params, -, params⟩, here, body⟩ := parts
    refine (buildParams_from (params.mono at_params)).mono fun params each => ?_
    exact (built _ _ here body).mono fun body isFrom => whole isAnchor each isFrom
  · obtain ⟨-, -, here, body⟩ := parts
    exact fun written _ =>
      (built _ _ here body).mono fun body isFrom => whole isAnchor (none _) isFrom
  · obtain ⟨-, ⟨at_params, -, params⟩, -, here, body⟩ := parts
    refine (buildParams_from (params.mono at_params)).mono fun params each => ?_
    exact fun written _ =>
      (built _ _ here body).mono fun body isFrom => whole isAnchor each isFrom

end Building

/-! ### Programs of texts -/

theorem Program.ofText_from {file : Option String} {text : String} {program : Program}
    (read : Program.ofText file text = .ok program) :
    ∀ f ∈ program.functions, ∃ p,
      (Node.function f).From (fun p => ∃ token ∈ tokensOf text, token.position = p) p := by
  obtain ⟨start, functions, parsed, built⟩ := Program.exists_tree_of_ofText read
  have anchored := ParseTree.ofText_anchored parsed _ List.mem_cons_self
  have each := ParseTree.allFrom_iff.mp anchored.2
  exact answers_mapM (fun tree member =>
    (buildFunction_from (each tree member).2).mono fun f isFrom => ⟨_, isFrom⟩)
    program.functions built

/-- Each node of the program of a text is at the first character of a token of the text, and no node
right under it is before it. -/
theorem Program.ofText_located {file : Option String} {text : String} {program : Program}
    (read : Program.ofText file text = .ok program) {f : FunctionDef}
    (isFunction : f ∈ program.functions) {node : Node} (within : node.Within (.function f)) :
    ∃ token ∈ tokensOf text, token.StandsIn text ∧ token.position.Counted ∧
      node.loc = some token.position ∧
      ∀ child ∈ node.children, ∃ q, child.loc = some q ∧ token.position ≤ q := by
  obtain ⟨p, isFrom⟩ := Program.ofText_from read f isFunction
  obtain ⟨_, loc, ⟨token, isToken, rfl⟩, under⟩ := isFrom.within node within
  have stands := standsIn_of_mem_tokensOf isToken
  exact ⟨token, isToken, stands, stands.counted, loc, under⟩

theorem Program.ofText_located_manyReadings :
    ∃ program f, Program.ofText none manyReadings.text = .ok program ∧ f ∈ program.functions ∧
      (Node.block f.body).Within (.function f) ∧
      ∃ token ∈ tokensOf manyReadings.text, token.StandsIn manyReadings.text ∧
        token.position.Counted ∧ (Node.block f.body).loc = some token.position ∧
        ∀ child ∈ (Node.block f.body).children, ∃ q, child.loc = some q ∧ token.position ≤ q := by
  have isText : manyReadings.text.toList = textOf manyReadings.words :=
    toList_intercalate manyReadings.words
  obtain ⟨trees, parsed, program, builds, same⟩ :=
    ParseTree.ofText_of_parses isText (manyReadings.parses (by decide) (List.cons_ne_nil _ _))
  have read : Program.ofText none manyReadings.text = .ok program :=
    ofText_of_build none parsed builds
  obtain ⟨f, isFunction⟩ : ∃ f, f ∈ program.functions := by
    refine List.exists_mem_of_ne_nil _ fun none => ?_
    simp [bare, manyReadings, none] at same
  have within : (Node.block f.body).Within (.function f) :=
    .single (List.mem_append_right _ List.mem_cons_self)
  exact ⟨program, f, read, isFunction, within, ofText_located read isFunction within⟩

end BorrowLang
