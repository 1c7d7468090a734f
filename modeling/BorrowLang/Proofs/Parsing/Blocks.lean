import BorrowLang.Proofs.Parsing.Expressions

/-!
# Blocks that are read back

The items of a block are parsed from the left, each after those before it.  A statement is one item,
or two where an `if` or a block has a semicolon after it.  With blocks, every expression and
statement is read back.
-/

set_option autoImplicit false

namespace BorrowLang

open Grammar

/-! ### Optional parts -/

def optional (present : Bool) (X : Symbol) : List Symbol := if present then [X] else []

/-- The trees of `mut`, where it is written. -/
def MutTrees (isMut : Bool) (trees : List ParseTree) : Prop :=
  ∃ token : Token, token.terminal = .kwMut ∧ trees = if isMut then [.leaf token] else []

theorem parses_mut (isMut : Bool) {symbols : List Symbol} {words : List Word}
    {after : List Terminal} {Good : List ParseTree → Prop}
    (rest : ∀ trees, MutTrees isMut trees →
      Parses symbols words after fun later => Good (trees ++ later)) :
    Parses (optional isMut (.t .kwMut) ++ symbols) (mutWords isMut ++ words) after Good := by
  cases isMut with
  | true => exact .token rfl fun token isToken _ => rest [.leaf token] ⟨token, isToken, rfl⟩
  | false => exact rest [] ⟨⟨.kwMut, "", .start⟩, rfl, rfl⟩

/-- The trees of a type after a mark, where it is written. -/
def WrittenTrees (form : Form) (written : Option TypeExpr) (trees : List ParseTree) : Prop :=
  match written with
  | none => trees = []
  | some t => ∃ start tree, trees = [.node form start [tree]] ∧ buildType tree = .ok t

theorem parses_written {N : Nonterminal} (form : Form) {sign : Terminal}
    (known : (⟨N, [.t sign, .n .type], some form⟩ : Production) ∈ productions)
    (within : ∀ a ∈ sequels N, a ∈ sequels .type) (isMark : sign.isMark = true)
    {written : Option TypeExpr} (normal : written.all TypeExpr.normal) {symbols : List Symbol} {words : List Word} {w : Word}
    {after : List Terminal} {Good : List ParseTree → Prop} (comes : w.terminal ∈ sequels N)
    (rest : ∀ trees, WrittenTrees form written trees →
      Parses symbols (w :: words) after fun later => Good (trees ++ later)) :
    Parses (optional written.isSome (.n N) ++ symbols)
      (written.elim [] (.of sign :: ·.words) ++ w :: words) after Good := by
  cases written with
  | none => exact rest [] rfl
  | some t =>
      have parses : Parses [.n N] (.of sign :: t.words) (sequels N)
          (WrittenTrees form (some t)) := by
        refine .node form [.t sign, .n .type] ⟨known, by simp, fun a => id⟩
          (.mark isMark (.last within (t.parses normal) ?_))
        rintro _ ⟨tree, rfl, built⟩ start
        exact ⟨start, tree, rfl, built⟩
      exact .before comes parses rest

/-- The type of a binding. -/
theorem parses_spec {written : Option TypeExpr} (normal : written.all TypeExpr.normal)
    {symbols : List Symbol} {words : List Word} {w : Word} {after : List Terminal}
    {Good : List ParseTree → Prop} (comes : w.terminal ∈ sequels .typeSpec)
    (rest : ∀ trees, WrittenTrees .typeSpec written trees →
      Parses symbols (w :: words) after fun later => Good (trees ++ later)) :
    Parses (optional written.isSome (.n .typeSpec) ++ symbols)
      (written.elim [] (.of .colon :: ·.words) ++ w :: words) after Good :=
  parses_written .typeSpec (by decide) (by decide) rfl normal comes rest

/-! ### Items -/

/-- Words are parsed as items, or there are none. -/
def Items (words : List Word) (after : List Terminal) (Good : List ParseTree → Prop) : Prop :=
  words = [] ∧ Good [] ∨ Parses [.n .items] words after Good

theorem Items.mono {words : List Word} {after : List Terminal} {Good Better : List ParseTree → Prop}
    (items : Items words after Better) (imp : ∀ trees, Better trees → Good trees) :
    Items words after Good :=
  items.imp (And.imp_right (imp [])) (·.mono imp)

/-- One more item, after those that may come before it. -/
theorem Items.add {words rest : List Word} {w : Word} {before after : List Terminal}
    {Good Item : List ParseTree → Prop} (items : Items words before Good)
    (parses : Parses [.n .item] (w :: rest) after Item) (comes : w.terminal ∈ before)
    (follow : ∀ a ∈ after, a ∈ sequels .items) :
    Items (words ++ w :: rest) after fun trees =>
      ∃ earlier item, trees = earlier ++ item ∧ Good earlier ∧ Item item := by
  rcases items with ⟨rfl, none⟩ | items
  · exact Or.inr (.hand [.n .item] ⟨by decide, by simp, follow⟩
      (.last (fun a => id) parses fun item good => ⟨[], item, rfl, none, good⟩))
  · refine Or.inr (.hand [.n .items, .n .item] ⟨by decide, by simp, follow⟩
      (.before comes items fun earlier good => ?_))
    exact .last (fun a => id) parses fun item isItem => ⟨earlier, item, rfl, good, isItem⟩

/-- A tree stands for a block, positions aside. -/
def Block.Builds (b : Block) (trees : List ParseTree) : Prop :=
  ∃ start items statements tail, trees = [.node .block start items] ∧
    buildItems items = .ok (statements, tail) ∧
    ∀ loc, (Block.mk statements tail loc).bare = b.bare

/-! ### Statements -/

/-- Trees of items stand for a statement, positions aside, whatever comes after them. -/
def Stmt.Builds (s : Stmt) (trees : List ParseTree) : Prop :=
  ∃ built : Stmt, built.bare = s.bare ∧ ∀ later statements tail,
    buildItems later = .ok (statements, tail) →
      buildItems (trees ++ later) = .ok (built :: statements, tail)

/-- The words of a statement are read back after those of other items. -/
def Stmt.Reads (s : Stmt) : Prop :=
  ∀ (words : List Word) (Good : List ParseTree → Prop), Items words (sequels .items) Good →
    Items (words ++ s.words) (sequels .items) fun trees =>
      ∃ earlier here, trees = earlier ++ here ∧ Good earlier ∧ s.Builds here

theorem exprStarts_sequels : ∀ a ∈ exprStarts, a ∈ sequels .items := by decide

/-- The forms of the trees of statements. -/
def stmtForms : List Form := [.letStmt, .assignStmt, .returnStmt, .whileStmt, .exprStmt]

/-- A tree of a statement stands for it among the items of a block. -/
theorem Stmt.Builds.ofTree {s : Stmt} (built : Stmt) {form : Form} {start : Position}
    {children : List ParseTree} (isStmt : form ∈ stmtForms)
    (builds : buildStmt (.node form start children) = .ok built) (same : built.bare = s.bare) :
    s.Builds [.node form start children] := by
  refine ⟨built, same, fun later statements tail builtLater => ?_⟩
  simp only [stmtForms, List.mem_cons, List.not_mem_nil, or_false] at isStmt
  rcases isStmt with rfl | rfl | rfl | rfl | rfl <;>
    simp [buildItems, blockLike?, builds, builtLater, bind, Except.bind, pure, Except.pure]

namespace Stmt.Reads

/-- A statement that is one item. -/
theorem ofItem {s : Stmt} {w : Word} {rest : List Word} (begins : s.words = w :: rest)
    (isStart : w.terminal ∈ sequels .items)
    (parses : Parses [.n .item] s.words (sequels .item) s.Builds) : s.Reads := by
  intro words Good items
  rw [begins] at parses ⊢
  exact items.add parses isStart fun a => id

theorem let_table :
    ∀ isMut isTyped hasValue : Bool,
      Production.Comes ⟨.letStmt, .t .kwLet :: (optional isMut (.t .kwMut) ++ .t .name ::
        (optional isTyped (.n .typeSpec) ++ if hasValue then [.t .equal, .n .expr, .t .semicolon]
          else [.t .semicolon])), some .letStmt⟩ (sequels .letStmt) := by decide

theorem buildStmt_let {isMut : Bool} {marks parts : List ParseTree} {token : Token}
    {start : Position} (isMarks : MutTrees isMut marks) (isName : token.terminal = .name) :
    buildStmt (.node .letStmt start (marks ++ .leaf token :: parts)) =
      buildLet start isMut (.leaf token :: parts) := by
  obtain ⟨mark, isMark, rfl⟩ := isMarks
  obtain ⟨terminal, text, position⟩ := mark
  obtain ⟨tokenTerminal, tokenText, tokenPosition⟩ := token
  obtain rfl : terminal = .kwMut := isMark
  obtain rfl : tokenTerminal = .name := isName
  cases isMut <;> rfl

theorem ofLet (loc : Option Position) {ident : String} (identifier : isIdentifier ident)
    {written : Option TypeExpr} (normal : written.all TypeExpr.normal) (isMut : Bool) :
    Reads (.letVar loc ident written none isMut) := by
  have parses : Parses [.n .letStmt] (Stmt.letVar loc ident written none isMut).words
      (sequels .letStmt) (Stmt.letVar loc ident written none isMut).Builds := by
    refine .node .letStmt _ (let_table isMut written.isSome false)
      (.mark rfl (parses_mut isMut fun marks isMarks => .name identifier fun token text isName =>
        parses_spec normal (by decide) fun specs isSpecs => .mark rfl (.done fun start => ?_)))
    refine .ofTree (.letVar (some start) ident written none isMut) (by decide) ?_ rfl
    rw [buildStmt_let isMarks isName]
    cases written with
    | none =>
        obtain rfl := isSpecs
        rw [← text]
        rfl
    | some t =>
        obtain ⟨begin, tree, rfl, built⟩ := isSpecs
        simp [buildLet, built, text, bind, Except.bind, pure, Except.pure]
  exact ofItem rfl (by decide) (.unit (by decide) (by decide) parses)

theorem ofLetValue (loc : Option Position) {ident : String} (identifier : isIdentifier ident)
    {written : Option TypeExpr} (normal : written.all TypeExpr.normal) (isMut : Bool)
    {value : Expr} (reads : value.Reads) :
    Reads (.letVar loc ident written (some value) isMut) := by
  have parses : Parses [.n .letStmt] (Stmt.letVar loc ident written (some value) isMut).words
      (sequels .letStmt) (Stmt.letVar loc ident written (some value) isMut).Builds := by
    refine .node .letStmt _ (let_table isMut written.isSome true)
      (.mark rfl (parses_mut isMut fun marks isMarks => .name identifier fun token text isName =>
        parses_spec normal (by decide) fun specs isSpecs =>
          .token rfl fun equal _ _ => .before (by decide) reads.value ?_))
    rintro _ ⟨tree, built, rfl, -, builds, same⟩
    refine .mark rfl (.done fun start => .ofTree
      (.letVar (some start) ident written (some built) isMut) (by decide) ?_ (by
        simp [bare, same]))
    rw [buildStmt_let isMarks isName]
    cases written with
    | none =>
        obtain rfl := isSpecs
        simp [buildLet, builds, text, bind, Except.bind, pure, Except.pure]
    | some t =>
        obtain ⟨begin, typeTree, rfl, isType⟩ := isSpecs
        simp [buildLet, isType, builds, text, bind, Except.bind, pure, Except.pure]
  exact ofItem rfl (by decide) (.unit (by decide) (by decide) parses)

theorem compound_table (op : ArithOp) :
    op.text ++ "=" ∈ Terminal.compoundOp.spellings ∧
      BinaryOp.ofText ((op.text ++ "=").dropEnd 1).copy = .arith op := by
  cases op <;> decide +kernel

theorem ofAssign (loc : Option Position) {target value : Expr} {op : Option BinaryOp}
    (isArith : op.all BinaryOp.isArith) (reads : target.Reads) (readsValue : value.Reads) :
    Reads (.assign loc target value op) := by
  have place := reads.operand (show 1 ≤ 9 by decide)
  have parses : Parses [.n .assignStmt] (Stmt.assign loc target value op).words
      (sequels .assignStmt) (Stmt.assign loc target value op).Builds := by
    cases op with
    | none =>
        refine .node .assignStmt [.n .operation, .t .equal, .n .expr, .t .semicolon] (by decide)
          (.before (by decide) place ?_)
        rintro _ ⟨tree, built, rfl, -, builds, same⟩
        refine .token rfl fun equal isEqual _ => .before (by decide) readsValue.value ?_
        rintro _ ⟨valueTree, builtValue, rfl, -, buildsValue, sameValue⟩
        refine .mark rfl (.done fun start => .ofTree (.assign (some start) built builtValue none)
          (by decide) ?_ (by simp [bare, same, sameValue]))
        simp [buildStmt, builds, buildsValue, isEqual, bind, Except.bind, pure, Except.pure]
    | some op =>
        obtain ⟨arith, rfl⟩ : ∃ arith, op = .arith arith := by
          cases op with
          | arith arith => exact ⟨arith, rfl⟩
          | _ => exact nomatch isArith
        obtain ⟨isSpelling, isOp⟩ := compound_table arith
        have fits : (assignWord (some (.arith arith))).Fits := isSpelling
        have isText : (assignWord (some (.arith arith))).text = arith.text ++ "=" := rfl
        have isCompound : (assignWord (some (.arith arith))).terminal = .compoundOp := rfl
        have comes : Terminal.compoundOp ∈ sequels (rung 1) := by decide
        refine .node .assignStmt [.n .operation, .t .compoundOp, .n .expr, .t .semicolon] (by decide)
          (.before comes place ?_)
        rintro _ ⟨tree, built, rfl, -, builds, same⟩
        refine .keep fits rfl fun position => .before (by decide) readsValue.value ?_
        rintro _ ⟨valueTree, builtValue, rfl, -, buildsValue, sameValue⟩
        refine .mark rfl (.done fun start => .ofTree
          (.assign (some start) built builtValue (some (.arith arith))) (by decide) ?_ (by
            simp [bare, same, sameValue]))
        simp [buildStmt, builds, buildsValue, isText, isCompound, isOp, bind, Except.bind, pure,
          Except.pure]
  obtain ⟨w, rest, begins, isStart⟩ := reads.starts_operand 1
  exact ofItem (by rw [words, begins]; rfl) (exprStarts_sequels _ isStart)
    (.unit (by decide) (by decide) parses)

theorem ofRet (loc : Option Position) : Reads (.ret loc none) := by
  have parses : Parses [.n .returnStmt] [.of .kwReturn, .of .semicolon] (sequels .returnStmt)
      (Stmt.ret loc none).Builds :=
    .node .returnStmt [.t .kwReturn, .t .semicolon] (by decide) (.mark rfl (.mark rfl (.done fun start =>
      .ofTree (.ret (some start) none) (by decide) rfl rfl)))
  exact ofItem rfl (by decide) (.unit (by decide) (by decide) parses)

theorem ofRetValue (loc : Option Position) {value : Expr} (reads : value.Reads) :
    Reads (.ret loc (some value)) := by
  have parses : Parses [.n .returnStmt] (Stmt.ret loc (some value)).words (sequels .returnStmt)
      (Stmt.ret loc (some value)).Builds := by
    refine .node .returnStmt [.t .kwReturn, .n .expr, .t .semicolon] (by decide)
      (.mark rfl (.before (by decide) reads.value ?_))
    rintro _ ⟨tree, built, rfl, -, builds, same⟩
    refine .mark rfl (.done fun start => .ofTree (.ret (some start) (some built)) (by decide) ?_ (by
      simp [bare, same]))
    simp [buildStmt, builds, bind, Except.bind, pure, Except.pure]
  exact ofItem rfl (by decide) (.unit (by decide) (by decide) parses)

end Stmt.Reads

/-! ### Expressions among items -/

/-- Is an expression an item by itself? -/
def Expr.isBlockLike : Expr → Bool
  | .ifElse .. | .block .. => true
  | _ => false

namespace Expr

variable {e : Expr}

theorem one_le_level (notBlock : e.isBlockLike = false) : 1 ≤ e.level := by
  cases e with
  | literal loc value =>
      cases value with
      | int n => rw [level]; split <;> decide
      | bool b => exact (by decide : 1 ≤ 9)
      | unit => exact (by decide : 1 ≤ 9)
  | binary loc op left right =>
      cases op with
      | arith op => cases op <;> simp [level, BinaryOp.level]
      | _ => simp [level, BinaryOp.level]
  | ifElse loc condition thenBlock elseBlock => cases notBlock
  | block loc body => cases notBlock
  | _ => simp [level]

theorem blockLike?_of_form {tree : ParseTree} (isForm : tree.form? = some e.form)
    (isBlock : e.isBlockLike) : ∃ p, blockLike? tree = some p := by
  cases tree with
  | leaf token => cases isForm
  | node form start children =>
      obtain rfl : form = e.form := by simpa [ParseTree.form?] using isForm
      cases e with
      | ifElse loc condition thenBlock elseBlock => exact ⟨start, rfl⟩
      | block loc body => exact ⟨start, rfl⟩
      | _ => cases isBlock

namespace Reads

/-- An expression of operators is parsed as one. -/
theorem operation (reads : e.Reads) (notBlock : e.isBlockLike = false) :
    Parses [.n .operation] e.words (sequels .operation) e.Builds := by
  have whole := reads.operand (show 1 ≤ 9 by decide)
  rwa [enclosed, if_neg (Nat.not_lt.mpr (one_le_level notBlock))] at whole

/-- An `if` or a block is parsed as an item. -/
theorem item (reads : e.Reads) (isBlock : e.isBlockLike) :
    Parses [.n .item] e.words [.semicolon, .rbrace] e.Builds := by
  cases e with
  | ifElse loc condition thenBlock elseBlock =>
      have parses : Parses [.n .ifExpr] _ (sequels .ifExpr) _ := reads.parses
      exact .unit (by decide) (by decide) parses
  | block loc body =>
      have parses : Parses [.n .blockExpr] _ (sequels .blockExpr) _ := reads.parses
      exact .unit (by decide) (by decide) parses
  | _ => exact nomatch isBlock

end Reads

/-- An `if` or a block is the tail when nothing comes after it, and a statement otherwise. -/
theorem buildItems_blockLike {tree : ParseTree} {later : List ParseTree} {p : Position}
    {value : Expr} {statements : List Stmt} {tail : Option Expr} (isBlock : blockLike? tree = some p)
    (built : buildExpr tree = .ok value) (builtLater : buildItems later = .ok (statements, tail)) :
    buildItems (tree :: later) =
      .ok (if later.isEmpty then ([], some value) else (.expr (some p) value :: statements, tail)) := by
  unfold blockLike? at isBlock
  split at isBlock
  · obtain rfl := Option.some.inj isBlock
    simp [buildItems, blockLike?, built, builtLater, bind, Except.bind, pure, Except.pure]
  · obtain rfl := Option.some.inj isBlock
    simp [buildItems, blockLike?, built, builtLater, bind, Except.bind, pure, Except.pure]
  · exact nomatch isBlock

/-- Trees stand for the tail of a block, positions aside. -/
def BuildsTail (e : Expr) (trees : List ParseTree) : Prop :=
  ∃ value : Expr, value.bare = e.bare ∧ buildItems trees = .ok ([], some value)

/-- An expression at the end of a block is parsed as its tail. -/
theorem Reads.tail (reads : e.Reads) : Parses [.n .item] e.words [.rbrace] e.BuildsTail := by
  by_cases isBlock : e.isBlockLike
  · refine ((reads.item isBlock).narrow (by decide)).mono ?_
    rintro _ ⟨tree, value, rfl, isForm, built, same⟩
    obtain ⟨p, isBlockTree⟩ := blockLike?_of_form isForm isBlock
    exact ⟨value, same, buildItems_blockLike isBlockTree built rfl⟩
  · have notBlock : e.isBlockLike = false := by simpa using isBlock
    have parses : Parses [.n .tailExpr] e.words (sequels .tailExpr) e.BuildsTail := by
      refine .node .tailExpr [.n .operation] (by decide) (.last (by decide) (reads.operation notBlock) ?_)
      rintro _ ⟨tree, value, rfl, -, built, same⟩ start
      refine ⟨value, same, ?_⟩
      simp [buildItems, built, bind, Except.bind, pure, Except.pure]
    exact .unit (by decide) (by decide) parses

end Expr

namespace Stmt.Reads

theorem ofExpr (loc : Option Position) {value : Expr} (reads : value.Reads) :
    Reads (.expr loc value) := by
  obtain ⟨w, rest, begins, isStart⟩ := reads.starts
  by_cases isBlock : value.isBlockLike
  · -- Two items: the expression, and the semicolon.
    intro words Good items
    have semicolon : Parses [.n .item] [.of .semicolon] (sequels .items) fun trees =>
        ∃ start, trees = [.node .emptyStmt start []] :=
      .node .emptyStmt [.t .semicolon] (by decide) (.mark rfl (.done fun start => ⟨start, rfl⟩))
    have parses : Parses [.n .item] value.words [.semicolon] value.Builds :=
      (reads.item isBlock).narrow (by decide)
    rw [begins] at parses
    have both := (items.add parses (exprStarts_sequels _ isStart) (by decide)).add semicolon
      List.mem_cons_self fun a => id
    rw [Stmt.words, ← List.append_assoc, begins]
    refine both.mono ?_
    rintro _ ⟨_, _, rfl, ⟨earlier, here, rfl, good, tree, built, rfl, isForm, builds, same⟩, start,
      rfl⟩
    obtain ⟨p, isBlockTree⟩ := Expr.blockLike?_of_form isForm isBlock
    refine ⟨earlier, _, List.append_assoc .., good, .expr (some p) built, by simp [bare, same], ?_⟩
    intro later statements tail builtLater
    have afterSemicolon : buildItems (.node .emptyStmt start [] :: later) = .ok (statements, tail) := by
      rw [buildItems, builtLater]
    exact Expr.buildItems_blockLike isBlockTree builds afterSemicolon
  · have notBlock : value.isBlockLike = false := by simpa using isBlock
    have parses : Parses [.n .exprStmt] (value.words ++ [.of .semicolon]) (sequels .exprStmt)
        (Stmt.expr loc value).Builds := by
      refine .node .exprStmt [.n .operation, .t .semicolon] (by decide)
        (.before (by decide) (reads.operation notBlock) ?_)
      rintro _ ⟨tree, built, rfl, -, builds, same⟩
      refine .mark rfl (.done fun start => .ofTree (.expr (some start) built) (by decide) ?_ (by
        simp [bare, same]))
      simp [buildStmt, builds, bind, Except.bind, pure, Except.pure]
    exact ofItem (by rw [words, begins]; rfl) (exprStarts_sequels _ isStart)
      (.unit (by decide) (by decide) parses)

/-- A loop is read back when its block is. -/
theorem ofWhile (loc : Option Position) {condition : Expr} {body : Block}
    (reads : condition.Reads)
    (readsBody : Parses [.n .block] (braced body.inner) (sequels .block) body.Builds) :
    Reads (.whileLoop loc condition body) := by
  have parses : Parses [.n .whileStmt] (Stmt.whileLoop loc condition body).words
      (sequels .whileStmt) (Stmt.whileLoop loc condition body).Builds := by
    refine .node .whileStmt [.t .kwWhile, .n .operation, .n .block] (by decide)
      (.mark rfl (.before (by decide) (reads.operand (show 1 ≤ 9 by decide)) ?_))
    rintro _ ⟨tree, built, rfl, -, builds, same⟩
    refine .last (by decide) readsBody ?_
    rintro _ ⟨begin, items, statements, tail, rfl, builtItems, sameBody⟩ start
    refine .ofTree (.whileLoop (some start) built (.mk statements tail (some begin))) (by decide) ?_
      (by simp [bare, same, sameBody])
    simp [buildStmt, buildBlock, builds, builtItems, bind, Except.bind, pure, Except.pure]
  exact ofItem rfl (by decide) (.unit (by decide) (by decide) parses)

end Stmt.Reads

/-! ### Blocks -/

theorem wordsOfStmts_append (statements more : List Stmt) :
    wordsOfStmts (statements ++ more) = wordsOfStmts statements ++ wordsOfStmts more := by
  induction statements with
  | nil => rfl
  | cons s statements ih => simp [wordsOfStmts, ih]

theorem bareStmts_append (statements more : List Stmt) :
    bareStmts (statements ++ more) = bareStmts statements ++ bareStmts more := by
  induction statements with
  | nil => rfl
  | cons s statements ih => simp [bareStmts, ih]

/-- Trees of items stand for statements, positions aside, whatever comes after them. -/
def BuildsStmts (statements : List Stmt) (trees : List ParseTree) : Prop :=
  ∃ built, bareStmts built = bareStmts statements ∧ ∀ later more tail,
    buildItems later = .ok (more, tail) → buildItems (trees ++ later) = .ok (built ++ more, tail)

theorem parses_stmts {statements : List Stmt} (reads : ∀ s ∈ statements, s.Reads) :
    Items (wordsOfStmts statements) (sequels .items) (BuildsStmts statements) := by
  induction statements using List.reverseRecOn with
  | nil => exact Or.inl ⟨rfl, [], rfl, fun later more tail built => built⟩
  | append_singleton statements s ih =>
      have before := ih fun other member => reads other (by simp [member])
      have whole := reads s (by simp) _ _ before
      rw [wordsOfStmts_append, wordsOfStmts, wordsOfStmts, List.append_nil]
      refine whole.mono ?_
      rintro _ ⟨earlier, here, rfl, ⟨built, same, builds⟩, one, sameOne, buildsOne⟩
      refine ⟨built ++ [one], by simp [bareStmts_append, bareStmts, same, sameOne], ?_⟩
      intro later more tail builtLater
      rw [List.append_assoc, builds _ _ _ (buildsOne _ _ _ builtLater), List.append_assoc]
      rfl

/-- What the items of a block have to be. -/
def Block.BuildsItems (b : Block) (trees : List ParseTree) : Prop :=
  ∃ statements tail, buildItems trees = .ok (statements, tail) ∧
    ∀ loc, (Block.mk statements tail loc).bare = b.bare

theorem parses_inner {statements : List Stmt} {tail : Option Expr} (loc : Option Position)
    (reads : ∀ s ∈ statements, s.Reads) (readsTail : ∀ e ∈ tail, e.Reads) :
    Items (Block.mk statements tail loc).inner [.rbrace]
      (Block.mk statements tail loc).BuildsItems := by
  have items := parses_stmts reads
  cases tail with
  | none =>
      have ended : Items (wordsOfStmts statements) [.rbrace] (BuildsStmts statements) :=
        items.imp_right (·.narrow (by decide))
      refine ended.mono ?_
      rintro trees ⟨built, same, builds⟩
      refine ⟨built, none, ?_, by simp [Block.bare, same]⟩
      simpa using builds [] [] none rfl
  | some tail =>
      obtain ⟨w, rest, begins, isStart⟩ := (readsTail tail rfl).starts
      have parses := (readsTail tail rfl).tail
      rw [begins] at parses
      have ended := items.add parses (exprStarts_sequels _ isStart) (by decide)
      rw [Block.inner, begins]
      refine ended.mono ?_
      rintro _ ⟨earlier, here, rfl, ⟨built, same, builds⟩, value, sameTail, buildsTail⟩
      refine ⟨built, some value, ?_, by simp [Block.bare, same, sameTail]⟩
      simpa using builds _ _ _ buildsTail

theorem parses_braced {b : Block} (items : Items b.inner [.rbrace] b.BuildsItems) :
    Parses [.n .block] (braced b.inner) (sequels .block) b.Builds := by
  rcases items with ⟨none, statements, tail, built, same⟩ | parses
  · rw [none]
    exact .node .block [.t .lbrace, .t .rbrace] (by decide) (.mark rfl (.mark rfl (.done fun start =>
      ⟨start, [], statements, tail, rfl, built, same⟩)))
  · refine .node .block [.t .lbrace, .n .items, .t .rbrace] (by decide) (.mark rfl (.before (by decide) parses ?_))
    rintro trees ⟨statements, tail, built, same⟩
    refine .mark rfl (.done fun start => ⟨start, _, statements, tail, rfl, ?_, same⟩)
    rwa [List.append_nil]

/-- The words of a block are read back, between braces or, where it is an `if`, as that. -/
structure Block.Reads (b : Block) : Prop where
  parses : Parses [.n .block] (braced b.inner) (sequels .block) b.Builds
  chained : b.isChained → Parses [.n .ifExpr] b.inner (sequels .ifExpr) fun trees =>
    ∃ tree value, trees = [tree] ∧ tree.form? = some .ifExpr ∧ buildExpr tree = .ok value ∧
      ∀ loc, (Block.mk [] (some value) loc).bare = b.bare

theorem Block.Reads.ofParts {statements : List Stmt} {tail : Option Expr} (loc : Option Position)
    (reads : ∀ s ∈ statements, s.Reads) (readsTail : ∀ e ∈ tail, e.Reads) :
    Reads (.mk statements tail loc) := by
  refine ⟨parses_braced (parses_inner loc reads readsTail), fun chained => ?_⟩
  unfold isChained at chained
  split at chained
  · rename_i same
    obtain ⟨rfl, rfl, -⟩ := Block.mk.inj same
    have parses := (readsTail _ rfl).parses
    rw [inner, wordsOfStmts, List.nil_append]
    refine Parses.mono parses ?_
    rintro _ ⟨tree, value, rfl, isForm, built, sameValue⟩
    exact ⟨tree, value, rfl, isForm, built, by simp [bare, sameValue]⟩
  · exact nomatch chained

namespace Expr.Reads

theorem ofBlock (loc : Option Position) {body : Block} (reads : body.Reads) :
    Reads (.block loc body) := by
  have parses : Parses [.n .blockExpr] (braced body.inner) (sequels .blockExpr)
      (Expr.block loc body).Builds := by
    refine .node .blockExpr [.n .block] (by decide) (.last (by decide) reads.parses ?_)
    rintro _ ⟨begin, items, statements, tail, rfl, built, same⟩ start
    refine ⟨_, .block (some start) (.mk statements tail (some begin)), rfl, rfl, ?_, by
      simp [bare, same]⟩
    simp [buildExpr, buildBlock, built, bind, Except.bind, pure, Except.pure]
  exact ⟨⟨_, _, rfl, by decide⟩, parses⟩

theorem ofIf (loc : Option Position) {condition : Expr} {thenBlock : Block}
    (reads : condition.Reads) (readsThen : thenBlock.Reads) :
    Reads (.ifElse loc condition thenBlock none) := by
  have parses : Parses [.n .ifExpr] (Expr.ifElse loc condition thenBlock none).words
      (sequels .ifExpr) (Expr.ifElse loc condition thenBlock none).Builds := by
    refine .node .ifExpr [.t .kwIf, .n .operation, .n .block] (by decide)
      (.mark rfl (.before (by decide) (reads.operand (show 1 ≤ 9 by decide)) ?_))
    rintro _ ⟨tree, built, rfl, -, builds, same⟩
    refine .last (by decide) readsThen.parses ?_
    rintro _ ⟨begin, items, statements, tail, rfl, builtItems, sameThen⟩ start
    refine ⟨_, .ifElse (some start) built (.mk statements tail (some begin)) none, rfl, rfl, ?_, by
      simp [bare, same, sameThen]⟩
    simp [buildExpr, buildBlock, builds, builtItems, bind, Except.bind, pure, Except.pure]
  exact ⟨⟨_, _, rfl, by decide⟩, parses⟩

/-- The tree of an `else` stands for the block that comes after it. -/
def BuildsElse (elseBlock : Block) (trees : List ParseTree) : Prop :=
  ∃ start child, trees = [.node .elseClause start [child]] ∧
    ((∃ begin items statements tail, child = .node .block begin items ∧
        buildItems items = .ok (statements, tail) ∧
        ∀ loc, (Block.mk statements tail loc).bare = elseBlock.bare) ∨
      ∃ value, child.form? = some .ifExpr ∧ buildExpr child = .ok value ∧
        ∀ loc, (Block.mk [] (some value) loc).bare = elseBlock.bare)

theorem parses_else {elseBlock : Block} (reads : elseBlock.Reads) :
    Parses [.n .elseClause]
      (.of .kwElse :: if elseBlock.isChained then elseBlock.inner else braced elseBlock.inner)
      (sequels .elseClause) (BuildsElse elseBlock) := by
  by_cases isChained : elseBlock.isChained
  · rw [if_pos isChained]
    refine .node .elseClause [.t .kwElse, .n .ifExpr] (by decide) (.mark rfl (.last (by decide) (reads.chained isChained) ?_))
    rintro _ ⟨tree, value, rfl, isForm, built, same⟩ start
    exact ⟨start, tree, rfl, Or.inr ⟨value, isForm, built, same⟩⟩
  · rw [if_neg isChained]
    refine .node .elseClause [.t .kwElse, .n .block] (by decide) (.mark rfl (.last (by decide) reads.parses ?_))
    rintro _ ⟨begin, items, statements, tail, rfl, built, same⟩ start
    exact ⟨start, _, rfl, Or.inl ⟨begin, items, statements, tail, rfl, built, same⟩⟩

theorem ofIfElse (loc : Option Position) {condition : Expr} {thenBlock elseBlock : Block}
    (reads : condition.Reads) (readsThen : thenBlock.Reads) (readsElse : elseBlock.Reads) :
    Reads (.ifElse loc condition thenBlock (some elseBlock)) := by
  have parses : Parses [.n .ifExpr] (Expr.ifElse loc condition thenBlock (some elseBlock)).words
      (sequels .ifExpr) (Expr.ifElse loc condition thenBlock (some elseBlock)).Builds := by
    refine .node .ifExpr [.t .kwIf, .n .operation, .n .block, .n .elseClause] (by decide)
      (.mark rfl (.before (by decide) (reads.operand (show 1 ≤ 9 by decide)) ?_))
    rintro _ ⟨tree, built, rfl, -, builds, same⟩
    refine .before (by decide) readsThen.parses ?_
    rintro _ ⟨begin, items, statements, tail, rfl, builtItems, sameThen⟩
    refine .last (by decide) (parses_else readsElse) ?_
    rintro _ ⟨elseStart, child, rfl, isElse⟩ start
    rcases isElse with ⟨elseBegin, elseItems, elseStatements, elseTail, rfl, builtElse, sameElse⟩ |
      ⟨value, isForm, builtElse, sameElse⟩
    · refine ⟨_, .ifElse (some start) built (.mk statements tail (some begin))
        (some (.mk elseStatements elseTail (some elseBegin))), rfl, rfl, ?_, by
          simp [bare, same, sameThen, sameElse]⟩
      simp [buildExpr, buildBlock, builds, builtItems, builtElse, bind, Except.bind, pure,
        Except.pure]
    · cases child with
      | leaf token => cases isForm
      | node form q children =>
          obtain rfl : form = .ifExpr := by simpa [ParseTree.form?] using isForm
          refine ⟨_, .ifElse (some start) built (.mk statements tail (some begin))
            (some (.mk [] (some value) value.loc)), rfl, rfl, ?_, by
              simp [bare, same, sameThen, sameElse]⟩
          simp only [List.cons_append, List.nil_append]
          rw [buildExpr]
          · simp [buildBlock, builds, builtItems, builtElse, bind, Except.bind, pure, Except.pure]
          · rintro _ _ ⟨⟩
  exact ⟨⟨_, _, rfl, by decide⟩, parses⟩

end Expr.Reads

/-! ### All expressions, statements and blocks -/

mutual

/-- Every expression in normal form is read back. -/
theorem Expr.reads : (e : Expr) → e.normal → e.Reads
  | .literal loc (.int n), normal => by
      simp only [Expr.normal, Bool.and_eq_true, decide_eq_true_eq] at normal
      exact .ofInt loc normal.1 normal.2
  | .literal loc (.bool b), _ => .ofBool loc b
  | .literal loc .unit, _ => .ofUnit loc
  | .name loc _, normal => .ofName loc normal
  | .unary loc op operand, normal => by
      simp only [Expr.normal, Bool.and_eq_true] at normal
      obtain ⟨⟨known, notNatural⟩, normal⟩ := normal
      cases op with
      | neg => exact .ofNeg loc (operand.reads normal) (by simpa using notNatural)
      | not => exact .ofNot loc (operand.reads normal)
      | unknown text => exact nomatch known
  | .deref loc operand, normal => .ofDeref loc (operand.reads normal)
  | .borrow loc operand isMut, normal => .ofBorrow loc (operand.reads normal) isMut
  | .binary loc op left right, normal => by
      simp only [Expr.normal, Bool.and_eq_true] at normal
      exact .ofBinary loc normal.1.1 (left.reads normal.1.2) (right.reads normal.2)
  | .call loc func args, normal => by
      simp only [Expr.normal, Bool.and_eq_true] at normal
      exact .ofCall loc normal.1 (reads_args args normal.2)
  | .boxNew loc value, normal => .ofBoxNew loc (value.reads normal)
  | .macroCall loc callee template args, normal => by
      simp only [Expr.normal, Bool.and_eq_true] at normal
      exact .ofMacroCall loc normal.1 template (reads_args args normal.2)
  | .ifElse loc condition thenBlock none, normal => by
      simp only [Expr.normal, Bool.and_eq_true] at normal
      exact .ofIf loc (condition.reads normal.1) (thenBlock.reads normal.2)
  | .ifElse loc condition thenBlock (some elseBlock), normal => by
      simp only [Expr.normal, Bool.and_eq_true] at normal
      exact .ofIfElse loc (condition.reads normal.1.1) (thenBlock.reads normal.1.2)
        (elseBlock.reads normal.2)
  | .block loc body, normal => .ofBlock loc (body.reads normal)

theorem reads_args : (args : List Expr) → normalArgs args → ∀ arg ∈ args, arg.Reads
  | [], _ => by simp
  | first :: rest, normal => by
      simp only [normalArgs, Bool.and_eq_true] at normal
      exact List.forall_mem_cons.mpr ⟨first.reads normal.1, reads_args rest normal.2⟩

/-- Every statement in normal form is read back. -/
theorem Stmt.reads : (s : Stmt) → s.normal → s.Reads
  | .letVar loc ident written none isMut, normal => by
      simp only [Stmt.normal, Bool.and_eq_true] at normal
      exact .ofLet loc normal.1 normal.2 isMut
  | .letVar loc ident written (some value) isMut, normal => by
      simp only [Stmt.normal, Bool.and_eq_true] at normal
      exact .ofLetValue loc normal.1.1 normal.1.2 isMut (value.reads normal.2)
  | .assign loc target value op, normal => by
      simp only [Stmt.normal, Bool.and_eq_true] at normal
      exact .ofAssign loc normal.2 (target.reads normal.1.1) (value.reads normal.1.2)
  | .ret loc none, _ => .ofRet loc
  | .ret loc (some value), normal => .ofRetValue loc (value.reads normal)
  | .whileLoop loc condition body, normal => by
      simp only [Stmt.normal, Bool.and_eq_true] at normal
      exact .ofWhile loc (condition.reads normal.1) (body.reads normal.2).parses
  | .expr loc value, normal => .ofExpr loc (value.reads normal)

theorem reads_stmts : (statements : List Stmt) → normalStmts statements →
    ∀ s ∈ statements, s.Reads
  | [], _ => by simp
  | first :: rest, normal => by
      simp only [normalStmts, Bool.and_eq_true] at normal
      exact List.forall_mem_cons.mpr ⟨first.reads normal.1, reads_stmts rest normal.2⟩

/-- Every block in normal form is read back. -/
theorem Block.reads : (b : Block) → b.normal → b.Reads
  | .mk statements none loc, normal => .ofParts loc (reads_stmts statements normal) (by simp)
  | .mk statements (some tail) loc, normal => by
      simp only [Block.normal, Bool.and_eq_true] at normal
      refine .ofParts loc (reads_stmts statements normal.1) ?_
      rintro e ⟨⟩
      exact tail.reads normal.2

end

end BorrowLang
