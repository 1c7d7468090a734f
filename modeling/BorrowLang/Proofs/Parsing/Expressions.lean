import BorrowLang.Proofs.Answers
import BorrowLang.Proofs.Parsing.Literals
import BorrowLang.Proofs.Parsing.Phrases

/-!
# Expressions that are read back

The words of an expression are parsed as its phrase, and the tree stands for the expression; the
words around it do not matter but for what may come after it.  Each form of expression is taken by
itself, with its parts read back.
-/

set_option autoImplicit false

namespace BorrowLang

open Grammar

attribute [local simp] buildExpr buildExprs buildType

/-! ### Types -/

/-- The words of a type are parsed as it. -/
theorem TypeExpr.parses (written : TypeExpr) (normal : written.normal) :
    Parses [.n .type] written.words (sequels .type) fun trees =>
      ∃ tree, trees = [tree] ∧ buildType tree = .ok written := by
  match written with
  | .mk name [] =>
      by_cases isUnit : name = "()"
      · subst isUnit
        exact .node .unitType [.t .lparen, .t .rparen] (by decide)
          (.mark rfl (.mark rfl (.done fun start => ⟨_, rfl, rfl⟩)))
      · have identifier : isIdentifier name := by simpa [TypeExpr.normal, isUnit] using normal
        rw [TypeExpr.words, if_neg isUnit]
        exact .node .namedType [.t .name] (by decide)
          (.name identifier fun token text _ => .done fun start => ⟨_, rfl, by rw [← text]; rfl⟩)
  | .mk name [arg] =>
      simp only [TypeExpr.normal, Bool.and_eq_true, Bool.or_eq_true, decide_eq_true_eq] at normal
      have parses := TypeExpr.parses arg normal.2
      by_cases shared : name = "&"
      · subst shared
        refine .node .refType [.t .amp, .n .type] (by decide) (.token rfl fun token _ _ => .last (by decide) parses ?_)
        rintro _ ⟨tree, rfl, built⟩ start
        exact ⟨_, rfl, by simp [built, bind, Except.bind, pure, Except.pure]⟩
      · by_cases exclusive : name = "&mut"
        · subst exclusive
          refine .node .refType [.t .amp, .t .kwMut, .n .type] (by decide)
            (.token rfl fun token _ _ => .token rfl fun isMut _ _ => .last (by decide) parses ?_)
          rintro _ ⟨tree, rfl, built⟩ start
          exact ⟨_, rfl, by simp [built, bind, Except.bind, pure, Except.pure]⟩
        · have identifier : isIdentifier name := by simpa [shared, exclusive] using normal.1
          rw [TypeExpr.words, if_neg shared, if_neg exclusive]
          refine .node .genericType [.t .name, .t .lt, .n .type, .t .gt] (by decide)
            (.name identifier fun token text _ => .token rfl fun less _ _ => .before (by decide) parses ?_)
          rintro _ ⟨tree, rfl, built⟩
          refine .token rfl fun greater _ _ => .done fun start => ⟨_, rfl, ?_⟩
          simp [built, text, bind, Except.bind, pure, Except.pure]
  | .mk _ (_ :: _ :: _) => simp [TypeExpr.normal] at normal

/-! ### Expressions -/

/-- The form of the tree of an expression. -/
def Expr.form : Expr → Form
  | .literal _ (.int n) => if n < 0 then .negation else .intLit
  | .literal _ (.bool b) => if b then .trueLit else .falseLit
  | .literal _ .unit => .unitLit
  | .name .. | .ofStmt _ | .ofBlock _ => .var
  | .unary _ .not _ => .complement
  | .unary .. => .negation
  | .deref .. => .deref
  | .borrow .. => .borrow
  | .binary .. => .binary
  | .call .. => .call
  | .boxNew .. => .pathCall
  | .macroCall .. => .macroCall
  | .ifElse .. => .ifExpr
  | .block .. => .blockExpr

/-- The phrase that an expression is. -/
def Expr.phrase : Expr → Nonterminal
  | .ifElse .. => .ifExpr
  | .block .. => .blockExpr
  | e => rung e.level

def Grammar.ParseTree.form? : ParseTree → Option Form
  | .leaf _ => none
  | .node form _ _ => some form

/-- A tree stands for an expression, positions aside. -/
def Expr.Builds (e : Expr) (trees : List ParseTree) : Prop :=
  ∃ tree value, trees = [tree] ∧ tree.form? = some e.form ∧
    buildExpr tree = .ok value ∧ value.bare = e.bare

/-- The terminals that an expression begins with. -/
def exprStarts : List Terminal :=
  [.name, .int, .kwTrue, .kwFalse, .lparen, .minus, .bang, .star, .amp, .kwIf, .lbrace]

/-- The words of an expression are read back. -/
structure Expr.Reads (e : Expr) : Prop where
  starts : ∃ w rest, e.words = w :: rest ∧ w.terminal ∈ exprStarts
  parses : Parses [.n e.phrase] e.words (sequels e.phrase) e.Builds

namespace Expr

theorem level_le (e : Expr) : e.level ≤ 9 := by
  cases e with
  | literal loc value =>
      cases value with
      | int n => rw [level]; split <;> decide
      | bool b => exact le_rfl
      | unit => exact le_rfl
  | binary loc op left right =>
      cases op with
      | arith op => cases op <;> simp [level, BinaryOp.level]
      | _ => simp [level, BinaryOp.level]
  | _ => simp [level]

namespace Reads

variable {e : Expr}

/-- An expression is read back at its level. -/
theorem atLevel (reads : e.Reads) :
    Parses [.n (rung e.level)] e.words (sequels (rung e.level)) e.Builds := by
  cases e with
  | ifElse loc condition thenBlock elseBlock =>
      have parses : Parses [.n .ifExpr] _ (sequels .ifExpr) _ := reads.parses
      have whole : Parses [.n .expr] _ (sequels .expr) _ :=
        .unit (by decide) (by decide) parses
      exact whole
  | block loc body =>
      have parses : Parses [.n .blockExpr] _ (sequels .blockExpr) _ := reads.parses
      have whole : Parses [.n .expr] _ (sequels .expr) _ :=
        .unit (by decide) (by decide) parses
      exact whole
  | _ => exact reads.parses

/-- An expression is read back as one without limits. -/
theorem value (reads : e.Reads) : Parses [.n .expr] e.words (sequels .expr) e.Builds :=
  .climb (Nat.zero_le _) e.level_le reads.atLevel

/-- An expression is read back at a level that is needed, perhaps in parentheses. -/
theorem operand (reads : e.Reads) {needed : Nat} (isLevel : needed ≤ 9) :
    Parses [.n (rung needed)] (enclosed needed e.level e.words) (sequels (rung needed))
      e.Builds := by
  unfold enclosed
  split
  · refine .climb isLevel le_rfl (.hand [.t .lparen, .n .expr, .t .rparen] (by decide)
      (.mark rfl (.before (by decide) reads.value fun trees built => .mark rfl (.done ?_))))
    rwa [List.append_nil]
  · rename_i enough
    exact .climb (Nat.not_lt.mp enough) e.level_le reads.atLevel

theorem starts_operand (reads : e.Reads) (needed : Nat) :
    ∃ w rest, enclosed needed e.level e.words = w :: rest ∧ w.terminal ∈ exprStarts := by
  unfold enclosed
  split
  · exact ⟨_, _, rfl, by decide⟩
  · exact reads.starts

/-! #### Names and literals -/

theorem ofName (loc : Option Position) {ident : String} (identifier : isIdentifier ident) :
    Reads (.name loc ident) := by
  have parses : Parses [.n .atom] [.named ident] (sequels .atom) (Expr.name loc ident).Builds :=
    .node .var [.t .name] (by decide) (.name identifier fun token text _ => .done fun start =>
      ⟨_, _, rfl, rfl, rfl, by rw [text]; rfl⟩)
  exact ⟨⟨_, _, rfl, List.mem_cons_self⟩, parses⟩

theorem ofBool (loc : Option Position) (b : Bool) : Reads (.literal loc (.bool b)) := by
  cases b with
  | true =>
      have parses : Parses [.n .atom] [.of .kwTrue] (sequels .atom)
          (Expr.literal loc (.bool true)).Builds :=
        .node .trueLit [.t .kwTrue] (by decide) (.mark rfl (.done fun start => ⟨_, _, rfl, rfl, rfl, rfl⟩))
      exact ⟨⟨_, _, rfl, by decide⟩, parses⟩
  | false =>
      have parses : Parses [.n .atom] [.of .kwFalse] (sequels .atom)
          (Expr.literal loc (.bool false)).Builds :=
        .node .falseLit [.t .kwFalse] (by decide) (.mark rfl (.done fun start => ⟨_, _, rfl, rfl, rfl, rfl⟩))
      exact ⟨⟨_, _, rfl, by decide⟩, parses⟩

theorem ofUnit (loc : Option Position) : Reads (.literal loc .unit) := by
  have parses : Parses [.n .atom] [.of .lparen, .of .rparen] (sequels .atom)
      (Expr.literal loc .unit).Builds :=
    .node .unitLit [.t .lparen, .t .rparen] (by decide)
      (.mark rfl (.mark rfl (.done fun start => ⟨_, _, rfl, rfl, rfl, rfl⟩)))
  exact ⟨⟨_, _, rfl, by decide⟩, parses⟩

/-- The digits of a number are parsed as a literal. -/
theorem parses_number (n : Nat) :
    Parses [.n .atom] [numberWord n] (sequels .atom) fun trees =>
      ∃ start token, trees = [.node .intLit start [.leaf token]] ∧ token.text = toString n :=
  .node .intLit [.t .int] (by decide) (.keep (numberWord_fits n) rfl fun _ => .done fun start =>
    ⟨start, _, rfl, rfl⟩)

/-- An integer is read back, a negative one as digits after a minus. -/
theorem ofInt (loc : Option Position) {n : Int} (small : minInt ≤ n) (large : n ≤ maxInt) :
    Reads (.literal loc (.int n)) := by
  by_cases negative : n < 0
  · have parses : Parses [.n .unary] [.of .minus, numberWord n.natAbs] (sequels .unary)
        (Expr.literal loc (.int n)).Builds := by
      have digits : Parses [.n (rung 7)] _ (sequels (rung 7)) _ :=
        .climb (by decide) le_rfl (parses_number n.natAbs)
      refine .node .negation [.t .minus, .n .unary] (by decide) (.token rfl fun token _ _ => .last (by decide) digits ?_)
      rintro _ ⟨begin, leaf, rfl, text⟩ start
      have isValue : n = if true then -(n.natAbs : Int) else n.natAbs := by
        rw [if_pos rfl]
        omega
      refine ⟨_, .literal (some start) (.int n), rfl, by simp [form, negative, ParseTree.form?], ?_,
        rfl⟩
      simpa [digits?, text] using buildInteger_toString isValue small large
    refine ⟨⟨.of .minus, [numberWord n.natAbs], by simp [words, negative], by decide⟩, ?_⟩
    simpa [words, phrase, level, negative, rung, ladder] using parses
  · have parses : Parses [.n .atom] [numberWord n.natAbs] (sequels .atom)
        (Expr.literal loc (.int n)).Builds := by
      refine (parses_number n.natAbs).mono ?_
      rintro _ ⟨start, leaf, rfl, text⟩
      have isValue : n = if false then -(n.natAbs : Int) else n.natAbs := by
        rw [if_neg Bool.false_ne_true]
        omega
      refine ⟨_, .literal (some start) (.int n), rfl, by simp [form, negative, ParseTree.form?], ?_,
        rfl⟩
      simpa [text] using buildInteger_toString isValue small large
    refine ⟨⟨numberWord n.natAbs, [], by simp [words, negative], ?_⟩, ?_⟩
    · simp [numberWord, exprStarts]
    · simpa [words, phrase, level, negative, rung, ladder] using parses

/-! #### Operators -/

/-- An operator before its operand. -/
theorem ofPrefix {whole : Expr} (form : Form) (op : Terminal) (isForm : whole.form = form)
    (isPhrase : whole.phrase = .unary)
    (isWords : whole.words = .of op :: enclosed 7 e.level e.words)
    (comes : Production.Comes ⟨.unary, [.t op, .n .unary], some form⟩ (sequels .unary))
    (isSign : op.isSign = true) (isStart : op ∈ exprStarts) (reads : e.Reads)
    (builds : ∀ token tree value start, tree.form? = some e.form → buildExpr tree = .ok value →
      value.bare = e.bare → ∃ built, buildExpr (.node form start [.leaf token, tree]) = .ok built ∧
        built.bare = whole.bare) : Reads whole := by
  refine ⟨⟨_, _, isWords, isStart⟩, ?_⟩
  rw [isPhrase, isWords]
  refine .node form [.t op, .n .unary] comes (.token isSign fun token _ _ =>
    .last (by decide) (reads.operand (show 7 ≤ 9 by decide)) ?_)
  rintro _ ⟨tree, value, rfl, operandForm, built, same⟩ start
  obtain ⟨result, isBuilt, sameResult⟩ := builds token tree value start operandForm built same
  exact ⟨_, result, rfl, by rw [isForm]; rfl, isBuilt, sameResult⟩

theorem ofDeref (loc : Option Position) (reads : e.Reads) : Reads (.deref loc e) := by
  refine .ofPrefix .deref .star rfl rfl rfl (by decide) rfl (by decide) reads
    fun token tree value start _ built same =>
      ⟨.deref (some start) value, ?_, by simp [bare, same]⟩
  simp [built, bind, Except.bind, pure, Except.pure]

theorem ofNot (loc : Option Position) (reads : e.Reads) : Reads (.unary loc .not e) := by
  refine .ofPrefix .complement .bang rfl rfl rfl (by decide) rfl (by decide) reads
    fun token tree value start _ built same =>
      ⟨.unary (some start) .not value, ?_, by simp [bare, same]⟩
  simp [built, bind, Except.bind, pure, Except.pure]

/-- Only a literal without a minus has the tree of digits. -/
theorem form_ne_intLit (notNatural : e.isNatural = false) : e.form ≠ .intLit := by
  cases e with
  | literal loc value =>
      cases value with
      | int n =>
          have negative : n < 0 := by simpa [isNatural] using notNatural
          simp [form, negative]
      | bool b => cases b <;> simp [form]
      | unit => simp [form]
  | unary loc op operand => cases op <;> simp [form]
  | _ => simp [form]

theorem digits?_eq_none {tree : ParseTree} (notLiteral : tree.form? ≠ some .intLit) :
    digits? tree = none := by
  unfold digits?
  split
  · exact absurd rfl notLiteral
  · rfl

theorem ofNeg (loc : Option Position) (reads : e.Reads) (notNatural : e.isNatural = false) :
    Reads (.unary loc .neg e) := by
  refine .ofPrefix .negation .minus rfl rfl rfl (by decide) rfl (by decide) reads
    fun token tree value start isForm built same =>
      ⟨.unary (some start) .neg value, ?_, by simp [bare, same]⟩
  have noDigits : digits? tree = none :=
    digits?_eq_none (by simpa [isForm] using form_ne_intLit notNatural)
  simp [noDigits, built, bind, Except.bind, pure, Except.pure]

theorem ofBorrow (loc : Option Position) (reads : e.Reads) (isMut : Bool) :
    Reads (.borrow loc e isMut) := by
  cases isMut with
  | false =>
      refine .ofPrefix .borrow .amp rfl rfl rfl (by decide) rfl (by decide)
        reads fun token tree value start _ built same =>
          ⟨.borrow (some start) value false, ?_, by simp [bare, same]⟩
      simp [built, bind, Except.bind, pure, Except.pure]
  | true =>
      have parses : Parses [.n .unary] (Expr.borrow loc e true).words (sequels .unary)
          (Expr.borrow loc e true).Builds := by
        refine .node .borrow [.t .amp, .t .kwMut, .n .unary] (by decide) (.token rfl fun token _ _ =>
          .token rfl fun mark _ _ => .last (by decide) (reads.operand (by decide)) ?_)
        rintro _ ⟨tree, value, rfl, -, built, same⟩ start
        refine ⟨_, .borrow (some start) value true, rfl, rfl, ?_, by simp [bare, same]⟩
        simp [built, bind, Except.bind, pure, Except.pure]
      exact ⟨⟨_, _, rfl, by decide⟩, parses⟩

/-- What is known of the operators of the language with two operands. -/
theorem binary_table {op : BinaryOp} (known : op.known) :
    (⟨rung op.level, [.n (rung op.leftLevel), .t op.terminal, .n (rung (op.level + 1))],
      some .binary⟩ : Production) ∈ productions ∧
    op.terminal.isSign = true ∧ op.terminal ∈ sequels (rung op.leftLevel) ∧
    (∀ a ∈ sequels (rung op.level), a ∈ sequels (rung (op.level + 1))) ∧
    op.leftLevel ≤ 9 ∧ op.level + 1 ≤ 9 ∧
    BinaryOp.ofText (Word.of op.terminal).text = op := by
  cases op with
  | arith op => cases op <;> decide
  | order op => cases op <;> decide
  | unknown text => exact nomatch known
  | _ => decide

theorem ofBinary (loc : Option Position) {op : BinaryOp} (isKnown : op.known) {left right : Expr}
    (reads : left.Reads) (readsRight : right.Reads) : Reads (.binary loc op left right) := by
  obtain ⟨known, isSign, comes, within, leftBound, rightBound, isOp⟩ :=
    binary_table isKnown
  have parses : Parses [.n (rung op.level)] (Expr.binary loc op left right).words
      (sequels (rung op.level)) (Expr.binary loc op left right).Builds := by
    rw [words]
    refine .node .binary _ ⟨known, by simp, fun a => id⟩
      (.before comes (reads.operand leftBound) ?_)
    rintro _ ⟨tree, value, rfl, -, built, same⟩
    refine .token isSign fun token _ text => .last within (readsRight.operand rightBound) ?_
    rintro _ ⟨rightTree, rightValue, rfl, -, rightBuilt, rightSame⟩ start
    refine ⟨_, .binary (some start) op value rightValue, rfl, rfl, ?_, by
      simp [bare, same, rightSame]⟩
    simp [built, rightBuilt, text, isOp, bind, Except.bind, pure, Except.pure]
  obtain ⟨w, rest, begins, isStart⟩ := reads.starts_operand op.leftLevel
  exact ⟨⟨w, _, by rw [words, begins]; rfl, isStart⟩, parses⟩

/-! #### Arguments -/

end Reads

end Expr

/-- Trees stand for arguments, positions aside. -/
def BuildsArgs (args : List Expr) (trees : List ParseTree) : Prop :=
  ∃ values, buildExprs trees = .ok values ∧ bareArgs values = bareArgs args

theorem buildExprs_append {trees others : List ParseTree} {values more : List Expr}
    (built : buildExprs trees = .ok values) (builtMore : buildExprs others = .ok more) :
    buildExprs (trees ++ others) = .ok (values ++ more) := by
  induction trees generalizing values with
  | nil =>
      obtain rfl : [] = values := by simpa using built
      exact builtMore
  | cons tree trees ih =>
      rw [buildExprs] at built
      obtain ⟨first, isFirst, rest⟩ := bind_eq_ok.mp built
      obtain ⟨later, isLater, whole⟩ := bind_eq_ok.mp rest
      obtain rfl : first :: later = values := by simpa [pure, Except.pure] using whole
      simp [isFirst, ih isLater, bind, Except.bind, pure, Except.pure]

theorem bareArgs_append (args more : List Expr) :
    bareArgs (args ++ more) = bareArgs args ++ bareArgs more := by
  induction args with
  | nil => rfl
  | cons arg args ih => simp [bareArgs, ih]

theorem wordsOfMoreArgs_eq (args : List Expr) :
    wordsOfMoreArgs args = args.flatMap fun arg => .of .comma :: arg.words := by
  induction args with
  | nil => rfl
  | cons arg args ih => simp [wordsOfMoreArgs, ih]

theorem BuildsArgs.append {args more : List Expr} {trees others : List ParseTree}
    (builds : BuildsArgs args trees) (buildsMore : BuildsArgs more others) :
    BuildsArgs (args ++ more) (trees ++ others) := by
  obtain ⟨values, built, same⟩ := builds
  obtain ⟨moreValues, builtMore, sameMore⟩ := buildsMore
  exact ⟨_, buildExprs_append built builtMore, by rw [bareArgs_append, bareArgs_append, same,
    sameMore]⟩

theorem Expr.Builds.single {e : Expr} {trees : List ParseTree} (builds : e.Builds trees) :
    BuildsArgs [e] trees := by
  obtain ⟨tree, value, rfl, -, built, same⟩ := builds
  refine ⟨[value], ?_, by simp [bareArgs, same]⟩
  simp [built, bind, Except.bind, pure, Except.pure]

theorem parses_moreArgs (args : List Expr) (reads : ∀ arg ∈ args, arg.Reads) (some : args ≠ []) :
    Parses [.n .moreArgs] (wordsOfMoreArgs args) (sequels .moreArgs) (BuildsArgs args) := by
  rw [wordsOfMoreArgs_eq]
  exact .each [.t .comma, .n .expr] some (by simp) (by decide) (by decide)
    (fun _ _ _ _ builds built => builds.append built)
    (fun arg member => .mark rfl (.last (by decide) (reads arg member).value fun _ => (·.single)))
    fun arg _ => ⟨_, _, rfl, by decide⟩

/-- Arguments are parsed with a node of their own. -/
theorem parses_args (args : List Expr) (reads : ∀ arg ∈ args, arg.Reads) (some : args ≠ []) :
    Parses [.n .args] (wordsOfArgs args) (sequels .args) fun trees =>
      ∃ start children, trees = [.node .args start children] ∧ BuildsArgs args children := by
  obtain ⟨first, rest, rfl⟩ := List.exists_cons_of_ne_nil some
  have readsFirst := (reads first (by simp)).value
  rw [wordsOfArgs]
  cases rest with
  | nil =>
      rw [wordsOfMoreArgs, List.append_nil]
      exact .node .args [.n .expr] (by decide) (.last (by decide) readsFirst fun _ built start => ⟨_, _, rfl, built.single⟩)
  | cons second rest =>
      have more := parses_moreArgs (second :: rest)
        (fun arg member => reads arg (List.mem_cons_of_mem _ member)) (by simp)
      refine .node .args [.n .expr, .n .moreArgs] (by decide) (.before (by decide) readsFirst fun trees builds =>
        .last (by decide) more fun later built start => ⟨_, _, rfl, ?_⟩)
      exact builds.single.append built

namespace Expr.Reads

theorem ofCall (loc : Option Position) {func : String} (identifier : isIdentifier func)
    {args : List Expr} (reads : ∀ arg ∈ args, arg.Reads) : Reads (.call loc func args) := by
  have parses : Parses [.n .application]
      (.named func :: .of .lparen :: (wordsOfArgs args ++ [.of .rparen])) (sequels .application)
      (Expr.call loc func args).Builds := by
    by_cases none : args = []
    · subst none
      refine .node .call [.t .name, .t .lparen, .t .rparen] (by decide) (.name identifier fun token text _ =>
        .mark rfl (.mark rfl (.done fun start => ⟨_, .call (some start) func [], rfl, rfl, ?_, rfl⟩)))
      simp [text]
    · refine .node .call [.t .name, .t .lparen, .n .args, .t .rparen] (by decide)
        (.name identifier fun token text _ => .mark rfl (.before (by decide) (parses_args args reads none) ?_))
      rintro _ ⟨begin, children, rfl, values, built, same⟩
      refine .mark rfl (.done fun start =>
        ⟨_, .call (some start) func values, rfl, rfl, ?_, by simp [bare, same]⟩)
      simp [text, built, bind, Except.bind, pure, Except.pure]
  exact ⟨⟨_, _, rfl, List.mem_cons_self⟩, parses⟩

theorem ofBoxNew (loc : Option Position) {value : Expr} (reads : value.Reads) :
    Reads (.boxNew loc value) := by
  have parses : Parses [.n .application] (Expr.boxNew loc value).words (sequels .application)
      (Expr.boxNew loc value).Builds := by
    have args := parses_args [value] (by simpa using reads) (by simp)
    rw [wordsOfArgs, wordsOfMoreArgs, List.append_nil] at args
    refine .node .pathCall [.t .name, .t .pathSep, .t .name, .t .lparen, .n .args, .t .rparen] (by decide)
      (.name (by decide) fun owner ownerText _ => .mark rfl (.name (by decide)
        fun member memberText _ => .mark rfl (.before (by decide) args ?_)))
    rintro _ ⟨begin, children, rfl, values, built, same⟩
    obtain ⟨only, rfl, sameOnly⟩ : ∃ only, values = [only] ∧ only.bare = value.bare := by
      match values, same with
      | [only], same => exact ⟨only, rfl, by simpa [bareArgs] using same⟩
      | _ :: _ :: _, same => simp [bareArgs] at same
      | [], same => simp [bareArgs] at same
    refine .mark rfl (.done fun start =>
      ⟨_, .boxNew (some start) only, rfl, rfl, ?_, by simp [bare, sameOnly]⟩)
    simp [ownerText, memberText, built, buildPathCall, bind, Except.bind]
  exact ⟨⟨_, _, rfl, List.mem_cons_self⟩, parses⟩

theorem ofMacroCall (loc : Option Position) {callee : String} (identifier : isIdentifier callee)
    (template : String) {args : List Expr} (reads : ∀ arg ∈ args, arg.Reads) :
    Reads (.macroCall loc callee template args) := by
  have inside : Parses [.n .macroArgs] (templateWord template :: wordsOfMoreArgs args)
      (sequels .macroArgs) fun trees => ∃ start token children,
        trees = [.node .macroArgs start (.leaf token :: children)] ∧
          buildString token.text = .ok template ∧ BuildsArgs args children := by
    by_cases none : args = []
    · subst none
      exact .node .macroArgs [.t .string] (by decide) (.keep (templateWord_fits template) rfl fun _ =>
        .done fun start => ⟨_, _, _, rfl, buildString_templateWord template, [], rfl, rfl⟩)
    · exact .node .macroArgs [.t .string, .n .moreArgs] (by decide) (.keep (templateWord_fits template) rfl
        fun _ => .last (by decide) (parses_moreArgs args reads none) fun trees builds start =>
          ⟨_, _, _, rfl, buildString_templateWord template, builds⟩)
  have parses : Parses [.n .application] (Expr.macroCall loc callee template args).words
      (sequels .application) (Expr.macroCall loc callee template args).Builds := by
    refine .node .macroCall [.t .name, .t .bang, .t .lparen, .n .macroArgs, .t .rparen] (by decide)
      (.name identifier fun token text _ => .token rfl fun bang _ _ => .mark rfl (.before (by decide) inside ?_))
    rintro _ ⟨begin, leaf, children, rfl, isTemplate, values, built, same⟩
    refine .mark rfl (.done fun start => ⟨_, .macroCall (some start) callee template values, rfl, rfl,
      ?_, by simp [bare, same]⟩)
    simp [text, isTemplate, built, bind, Except.bind, pure, Except.pure]
  exact ⟨⟨_, _, rfl, List.mem_cons_self⟩, parses⟩

end Expr.Reads

end BorrowLang
