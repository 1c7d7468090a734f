import BorrowLang.Proofs.Answers
import BorrowLang.Proofs.Syntax.Regular
import BorrowLang.Syntax.OfText

/-!
# Trees of texts

The tokens of a text are spelled as their terminals are, so an operator before `=` is one of
arithmetic in each program that was read from a text.  A condition on trees that each node passes on
from its parts holds of all the trees that are built; so the programs of texts are regular.
-/

set_option autoImplicit false

namespace BorrowLang

open Grammar

namespace Grammar

/-! ### Spelled tokens -/

/-- A token of an operator before `=` has one of its texts. -/
def Token.Spelled (token : Token) : Prop :=
  token.terminal = .compoundOp → token.text ∈ Terminal.compoundOp.spellings

mutual

/-- The tokens of a tree are spelled. -/
def ParseTree.Spelled : ParseTree → Prop
  | .leaf token => token.Spelled
  | .node _ _ children => ParseTree.AllSpelled children

/-- The tokens of some trees are spelled. -/
def ParseTree.AllSpelled : List ParseTree → Prop
  | [] => True
  | tree :: rest => tree.Spelled ∧ ParseTree.AllSpelled rest

end

theorem ParseTree.allSpelled_iff {trees : List ParseTree} :
    ParseTree.AllSpelled trees ↔ ∀ tree ∈ trees, tree.Spelled := by
  induction trees with
  | nil => simp [AllSpelled]
  | cons tree rest ih => simp [AllSpelled, ih]

/-! ### Reading -/

theorem lexeme?_spelled {chars text : List Char}
    (found : lexeme? .compoundOp chars = some text) :
    String.ofList text ∈ Terminal.compoundOp.spellings := by
  unfold lexeme? at found
  split at found
  · rename_i spelling isFound
    obtain rfl := Option.some.inj found
    obtain ⟨known, member, rfl⟩ := List.mem_map.mp (List.mem_of_find?_eq_some isFound)
    simpa using member
  · simp [openLexeme?] at found

theorem firstToken?_spelled {possible : TerminalSet} {chars text : List Char} {terminal : Terminal}
    (found : firstToken? possible chars = some (terminal, text)) (isCompound : terminal = .compoundOp) :
    String.ofList text ∈ Terminal.compoundOp.spellings := by
  obtain ⟨⟨first, lexeme⟩, isFound, same⟩ := Option.map_eq_some_iff.mp found
  obtain ⟨tried, -, matched⟩ := List.exists_of_findSome?_eq_some isFound
  obtain ⟨known, isLexeme, pair⟩ := Option.map_eq_some_iff.mp matched
  obtain ⟨rfl, rfl⟩ := Prod.mk.inj pair
  simp only at same
  split at same
  · -- A word is a name or a keyword.
    obtain ⟨keyword, rfl⟩ := Prod.mk.inj same
    rw [isCompound] at keyword
    cases word : keywordOf? possible known with
    | none => simp [word] at keyword
    | some other =>
        have isKeyword := List.find?_some word
        simp [word] at keyword
        simp [keyword, Terminal.isKeyword] at isKeyword
  · obtain ⟨rfl, rfl⟩ := Prod.mk.inj same
    exact lexeme?_spelled (isCompound ▸ isLexeme)

theorem Reading.next_spelled {reading : Reading} {possible : TerminalSet} :
    Answers (reading.next possible) fun answer => answer.1.Spelled := by
  rintro ⟨token, rest⟩ found
  unfold Reading.next at found
  simp only at found
  split at found
  · obtain ⟨rfl, -⟩ := Prod.mk.inj (Except.ok.inj found)
    exact fun impossible => by simp at impossible
  · split at found
    · rename_i terminal text first
      obtain ⟨rfl, -⟩ := Prod.mk.inj (Except.ok.inj found)
      exact firstToken?_spelled first
    · split at found <;> simp at found

/-- The trees on a stack are spelled. -/
def StackSpelled (stack : List StackEntry) : Prop :=
  ∀ entry ∈ stack, ∀ tree ∈ entry.trees, tree.Spelled

theorem reduce?_spelled {production : Production} {nextToken : Position}
    {stack after : List StackEntry} (spelled : StackSpelled stack)
    (reduced : reduce? production nextToken stack = some after) : StackSpelled after := by
  simp only [reduce?] at reduced
  split at reduced
  · obtain ⟨state, -, same⟩ := Option.bind_eq_some_iff.mp reduced
    obtain rfl := Option.some.inj same
    have below : ∀ entry ∈ stack.drop production.symbols.length, ∀ tree ∈ entry.trees,
        tree.Spelled := fun entry member => spelled entry (List.mem_of_mem_drop member)
    have children : ∀ tree ∈ (stack.take production.symbols.length).reverse.flatMap (·.trees),
        tree.Spelled := by
      intro tree member
      obtain ⟨entry, inTaken, inTrees⟩ := List.mem_flatMap.mp member
      exact spelled entry (List.mem_of_mem_take (List.mem_reverse.mp inTaken)) tree inTrees
    refine List.forall_mem_cons.mpr ⟨?_, below⟩
    unfold phraseEntry
    cases production.form with
    | none => exact children
    | some form =>
        intro tree member
        obtain rfl := List.mem_singleton.mp member
        exact ParseTree.allSpelled_iff.mpr children
  · simp at reduced

theorem feed_spelled {token : Token} (isSpelled : token.Spelled) (fuel : Nat)
    {stack : List StackEntry} (spelled : StackSpelled stack) :
    Answers (feed token fuel stack) StackSpelled := by
  induction fuel generalizing stack with
  | zero => exact answers_error _ _
  | succ fuel ih =>
      unfold feed
      split
      · exact answers_error _ _
      · rw [answers_ok]
        refine List.forall_mem_cons.mpr ⟨?_, spelled⟩
        unfold tokenEntry
        split
        · intro tree member
          obtain rfl := List.mem_singleton.mp member
          exact isSpelled
        · simp
      · split
        · exact answers_error _ _
        · rename_i reduced
          exact ih (reduce?_spelled spelled reduced)

theorem readTrees_spelled (fuel : Nat) {reading : Reading} {stack : List StackEntry}
    (spelled : StackSpelled stack) :
    Answers (readTrees fuel reading stack) ParseTree.AllSpelled := by
  induction fuel generalizing reading stack with
  | zero => exact answers_error _ _
  | succ fuel ih =>
      simp only [readTrees, answers_bind]
      refine Reading.next_spelled.mono ?_
      rintro ⟨token, rest⟩ isSpelled
      simp only
      refine (feed_spelled isSpelled _ spelled).mono fun after afterSpelled => ?_
      split
      · rw [answers_pure, ParseTree.allSpelled_iff]
        intro tree member
        obtain ⟨entry, inStack, inTrees⟩ := List.mem_flatMap.mp member
        exact afterSpelled entry (List.mem_reverse.mp inStack) tree inTrees
      · exact ih afterSpelled

end Grammar

/-! ### Building -/

theorem ofText_compound {token : Token} (spelled : token.Spelled)
    (isCompound : token.terminal = .compoundOp) :
    ∃ op, BinaryOp.ofText (token.text.dropEnd 1).copy = .arith op := by
  have known := spelled isCompound
  simp only [Terminal.spellings, List.mem_cons, List.not_mem_nil, or_false] at known
  rcases known with same | same | same | same | same <;> rw [same]
  · exact ⟨.add, by decide +kernel⟩
  · exact ⟨.sub, by decide +kernel⟩
  · exact ⟨.mul, by decide +kernel⟩
  · exact ⟨.div, by decide +kernel⟩
  · exact ⟨.rem, by decide +kernel⟩

/-- The program of a text has the functions under the tree of the text. -/
theorem Program.exists_tree_of_ofText {file : Option String} {text : String} {program : Program}
    (read : Program.ofText file text = .ok program) :
    ∃ start functions, ParseTree.ofText text = .ok [.node .program start functions] ∧
      functions.mapM buildFunction = .ok program.functions := by
  unfold Program.ofText at read
  split at read
  · contradiction
  rename_i trees parsed
  split at read
  · contradiction
  rename_i built
  obtain rfl := Except.ok.inj read
  unfold buildProgram at built
  split at built
  · obtain ⟨functions, each, same⟩ := bind_eq_ok.mp built
    obtain rfl := Except.ok.inj same
    exact ⟨_, _, parsed, each⟩
  · contradiction

/-- Conditions that hold of each tree that is built, as long as they hold of its parts.  What is
known of a node is what building makes sure of. -/
structure TreeRule where
  expr : Expr → Prop
  stmt : Stmt → Prop
  block : Block → Prop
  integer {p : Option Position} {n : Int} : minInt ≤ n → n ≤ maxInt → expr (.literal p (.int n))
  flag {p : Option Position} {b : Bool} : expr (.literal p (.bool b))
  unit {p : Option Position} : expr (.literal p .unit)
  name {p : Option Position} {ident : String} : expr (.name p ident)
  neg {p : Option Position} {operand : Expr} : expr operand → expr (.unary p .neg operand)
  not {p : Option Position} {operand : Expr} : expr operand → expr (.unary p .not operand)
  deref {p : Option Position} {operand : Expr} : expr operand → expr (.deref p operand)
  borrow {p : Option Position} {operand : Expr} {isMut : Bool} :
    expr operand → expr (.borrow p operand isMut)
  binary {p : Option Position} {op : BinaryOp} {left right : Expr} :
    expr left → expr right → expr (.binary p op left right)
  call {p : Option Position} {func : String} {args : List Expr} :
    (∀ arg ∈ args, expr arg) → expr (.call p func args)
  boxNew {p : Option Position} {value : Expr} : expr value → expr (.boxNew p value)
  macroCall {p : Option Position} {callee template : String} {args : List Expr} :
    (∀ arg ∈ args, expr arg) → expr (.macroCall p callee template args)
  ifElse {p : Option Position} {condition : Expr} {thenBlock : Block} {elseBlock : Option Block} :
    expr condition → block thenBlock → (∀ arm ∈ elseBlock, block arm) →
    expr (.ifElse p condition thenBlock elseBlock)
  blockExpr {p : Option Position} {body : Block} : block body → expr (.block p body)
  letVar {p : Option Position} {ident : String} {typeExpr : Option TypeExpr} {value : Option Expr}
    {isMut : Bool} : (∀ known ∈ value, expr known) → stmt (.letVar p ident typeExpr value isMut)
  assign {p : Option Position} {target value : Expr} {op : Option BinaryOp} :
    expr target → expr value → (∀ known ∈ op, ∃ arith, known = .arith arith) →
    stmt (.assign p target value op)
  ret {p : Option Position} {value : Option Expr} :
    (∀ known ∈ value, expr known) → stmt (.ret p value)
  whileLoop {p : Option Position} {condition : Expr} {body : Block} :
    expr condition → block body → stmt (.whileLoop p condition body)
  exprStmt {p : Option Position} {value : Expr} : expr value → stmt (.expr p value)
  body {p : Option Position} {statements : List Stmt} {tail : Option Expr} :
    (∀ one ∈ statements, stmt one) → (∀ last ∈ tail, expr last) → block (.mk statements tail p)

namespace TreeRule

variable (rule : TreeRule)

theorem buildInteger_follows (negative : Bool) (text : String) (loc : Position) :
    Answers (buildInteger negative text loc) rule.expr := by
  have value : ∀ n : Int, Answers
      (if n < minInt ∨ maxInt < n then .error (BuildFault.integerTooLarge loc)
        else .ok (Expr.literal (some loc) (.int n))) rule.expr := by
    intro n
    split
    · exact answers_error _ _
    · rename_i inside
      rw [not_or, Int.not_lt, Int.not_lt] at inside
      exact (answers_ok _ _).mpr (rule.integer inside.1 inside.2)
  unfold buildInteger
  simp only
  split
  · exact answers_error _ _
  · exact value _

theorem buildPathCall_follows (loc : Position) (owner member : String) {args : List Expr}
    (follows : ∀ arg ∈ args, rule.expr arg) :
    Answers (buildPathCall loc owner member args) rule.expr := by
  unfold buildPathCall
  split
  · split
    · exact (answers_ok _ _).mpr (rule.boxNew (follows _ List.mem_cons_self))
    · exact answers_error _ _
  · exact answers_error _ _

/-- The statements and the tail of a block follow a rule. -/
def Items (items : List Stmt × Option Expr) : Prop :=
  (∀ one ∈ items.1, rule.stmt one) ∧ ∀ tail ∈ items.2, rule.expr tail

/-- Each part that is built from a spelled tree follows a rule. -/
theorem build_follows :
    (∀ tree : ParseTree, tree.Spelled → Answers (buildExpr tree) rule.expr) ∧
    (∀ trees, ParseTree.AllSpelled trees → Answers (buildItems trees) rule.Items) ∧
    (∀ tree : ParseTree, tree.Spelled → Answers (buildStmt tree) rule.stmt) ∧
    (∀ tree : ParseTree, tree.Spelled → Answers (buildBlock tree) rule.block) ∧
    (∀ loc isMut trees, ParseTree.AllSpelled trees →
      Answers (buildLet loc isMut trees) rule.stmt) ∧
    (∀ trees, ParseTree.AllSpelled trees →
      Answers (buildExprs trees) fun exprs => ∀ one ∈ exprs, rule.expr one) := by
  apply buildExpr.mutual_induct
  all_goals
    intros
    first
      | rw [buildExpr]
      | rw [buildExprs]
      | rw [buildBlock]
      | rw [buildItems]
      | rw [buildStmt]
      | rw [buildLet]
  all_goals try assumption
  all_goals try simp only [ParseTree.Spelled, ParseTree.AllSpelled, and_true] at *
  case case4 =>
    rename_i isDigits _
    rw [isDigits]
    exact rule.buildInteger_follows _ _ _
  case case5 =>
    rename_i notDigits built spelled
    rw [notDigits]
    simp only [answers_bind, answers_pure]
    exact (built spelled.2).mono fun operand follows => rule.neg follows
  case case14 =>
    rename_i built spelled
    simp only [answers_bind, answers_pure]
    exact (built spelled.2).mono fun operand follows => rule.borrow (rule.borrow follows)
  case case15 =>
    rename_i built spelled
    simp only [answers_bind, answers_pure]
    exact (built spelled.2.2).mono fun operand follows => rule.borrow (rule.borrow follows)
  case case20 => exact rule.buildPathCall_follows _ _ _ (List.forall_mem_nil _)
  case case21 =>
    rename_i built spelled
    rw [answers_bind]
    exact (built spelled.2.2).mono fun args follows => rule.buildPathCall_follows _ _ _ follows
  case case27 =>
    rename_i testBuilt thenBuilt elseBuilt spelled
    simp only [answers_bind, answers_pure]
    refine (testBuilt spelled.1).mono fun test testFollows => ?_
    refine (thenBuilt spelled.2.1).mono fun arm armFollows => ?_
    exact (elseBuilt spelled.2.2).mono fun items follows =>
      rule.ifElse testFollows armFollows (by simpa using rule.body follows.1 follows.2)
  case case28 =>
    rename_i testBuilt thenBuilt chainBuilt spelled
    simp only [answers_bind, answers_pure]
    refine (testBuilt spelled.1).mono fun test testFollows => ?_
    refine (thenBuilt spelled.2.1).mono fun arm armFollows => ?_
    refine (chainBuilt spelled.2.2).mono fun chained follows => ?_
    have last : rule.block (.mk [] (some chained) chained.loc) :=
      rule.body (List.forall_mem_nil _) (by simpa using follows)
    exact rule.ifElse testFollows armFollows (by simpa using last)
  case case34 => exact rule.buildInteger_follows _ _ _
  case case43 =>
    rename_i leftBuilt rightBuilt spelled
    simp only [answers_bind, answers_pure]
    refine (leftBuilt spelled.1).mono fun left leftFollows => ?_
    refine (rightBuilt spelled.2.2).mono fun right rightFollows =>
      rule.assign leftFollows rightFollows ?_
    split
    · rename_i isCompound
      rintro known ⟨rfl⟩
      exact ofText_compound spelled.2.1 isCompound
    · simp
  case case54 =>
    rename_i built spelled
    simp only [answers_bind, answers_pure]
    exact (built spelled).mono fun items follows => rule.body follows.1 follows.2
  case case57 =>
    rename_i built spelled
    exact built spelled.2
  case case58 =>
    rename_i onlyEmpty built spelled
    rw [if_pos onlyEmpty]
    simp only [answers_bind, answers_pure]
    exact (built spelled.1).mono fun value follows =>
      ⟨List.forall_mem_nil _, by simpa using follows⟩
  case case59 =>
    rename_i notEmpty _
    rw [if_neg notEmpty]
    exact answers_error _ _
  case case60 =>
    rename_i isBlock itemBuilt restBuilt spelled
    rw [isBlock]
    simp only [answers_bind, answers_pure]
    refine (itemBuilt spelled.1).mono fun value valueFollows => ?_
    refine (restBuilt spelled.2).mono fun items follows => ?_
    split
    · exact ⟨List.forall_mem_nil _, by simpa using valueFollows⟩
    · exact ⟨List.forall_mem_cons.mpr ⟨rule.exprStmt valueFollows, follows.1⟩, follows.2⟩
  case case61 =>
    rename_i notBlock itemBuilt restBuilt spelled
    rw [notBlock]
    simp only [answers_bind, answers_pure]
    refine (itemBuilt spelled.1).mono fun first firstFollows => ?_
    exact (restBuilt spelled.2).mono fun items follows =>
      ⟨List.forall_mem_cons.mpr ⟨firstFollows, follows.1⟩, follows.2⟩
  -- In the other cases the parts are built one after another, or the shape is none of any text.
  all_goals try simp only [unsupported, answers_ok, answers_error, answers_bind, answers_pure]
  all_goals simp_all [Answers, Items, rule.flag, rule.unit, rule.name, rule.not, rule.deref,
    rule.borrow, rule.binary, rule.call, rule.macroCall, rule.ifElse, rule.blockExpr, rule.letVar,
    rule.ret, rule.whileLoop, rule.exprStmt]

theorem buildFunction_follows {tree : ParseTree} (spelled : tree.Spelled) :
    Answers (buildFunction tree) fun f => rule.block f.body := by
  have built : ∀ {body : ParseTree}, body.Spelled → Answers (buildBlock body) rule.block :=
    fun {body} => rule.build_follows.2.2.2.1 body
  unfold buildFunction
  split <;> try simp only [answers_bind, answers_pure]
  · exact built spelled.2.1
  · exact fun params _ => built spelled.2.2.1
  · exact fun written _ => built spelled.2.2.1
  · exact fun params _ written _ => built spelled.2.2.2.1
  · exact answers_error _ _

/-- Each function of a program that was read from a text follows a rule. -/
theorem ofText_follows {file : Option String} {text : String} {program : Program}
    (read : Program.ofText file text = .ok program) :
    ∀ f ∈ program.functions, rule.block f.body := by
  obtain ⟨start, functions, parsed, built⟩ := Program.exists_tree_of_ofText read
  have spelled : ParseTree.AllSpelled [.node .program start functions] :=
    readTrees_spelled _ (fun entry impossible => by simp at impossible) _ parsed
  have eachSpelled := ParseTree.allSpelled_iff.mp spelled.1
  exact answers_mapM (fun tree member => rule.buildFunction_follows (eachSpelled tree member))
    program.functions built

end TreeRule

/-! ### Regular trees -/

theorem Expr.allRegular_iff {exprs : List Expr} :
    Expr.AllRegular exprs ↔ ∀ expr ∈ exprs, expr.Regular := by
  induction exprs with
  | nil => simp [AllRegular]
  | cons expr rest ih => simp [AllRegular, ih]

theorem Stmt.allRegular_iff {stmts : List Stmt} :
    Stmt.AllRegular stmts ↔ ∀ stmt ∈ stmts, stmt.Regular := by
  induction stmts with
  | nil => simp [AllRegular]
  | cons stmt rest ih => simp [AllRegular, ih]

/-- The rule of regular trees. -/
def TreeRule.regular : TreeRule where
  expr := Expr.Regular
  stmt := Stmt.Regular
  block := Block.Regular
  integer _ _ := trivial
  flag := trivial
  unit := trivial
  name := trivial
  neg operand := ⟨Or.inl rfl, operand⟩
  not operand := ⟨Or.inr rfl, operand⟩
  deref operand := operand
  borrow operand := operand
  binary left right := ⟨left, right⟩
  call args := Expr.allRegular_iff.mpr args
  boxNew value := value
  macroCall args := Expr.allRegular_iff.mpr args
  ifElse {_ _ _ elseBlock} condition thenBlock arms := by
    cases elseBlock with
    | none => exact ⟨condition, thenBlock⟩
    | some arm => exact ⟨condition, thenBlock, arms arm rfl⟩
  blockExpr body := body
  letVar {_ _ _ value _} known := by
    cases value with
    | none => trivial
    | some value => exact known value rfl
  assign target value op := ⟨target, value, op⟩
  ret {_ value} known := by
    cases value with
    | none => trivial
    | some value => exact known value rfl
  whileLoop condition body := ⟨condition, body⟩
  exprStmt value := value
  body {_ _ tail} statements last := by
    cases tail with
    | none => exact Stmt.allRegular_iff.mpr statements
    | some tail => exact ⟨Stmt.allRegular_iff.mpr statements, last tail rfl⟩

theorem ofText_regular {file : Option String} {text : String} {program : Program}
    (read : Program.ofText file text = .ok program) : program.Regular :=
  TreeRule.regular.ofText_follows read

end BorrowLang
