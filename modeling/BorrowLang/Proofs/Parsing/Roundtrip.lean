import BorrowLang.Proofs.Parsing.Blocks
import BorrowLang.Syntax.OfText

/-!
# Programs that are read back

The text of a program in normal form is read, and the program that it stands for is the same but for
the positions.
-/

set_option autoImplicit false

namespace BorrowLang

open Grammar

/-! ### One tree for each part -/

/-- Trees stand for values, one for each, positions aside. -/
def BuildsEach {α : Type} (build : ParseTree → Except BuildFault α) (bare : α → α)
    (values : List α) (trees : List ParseTree) : Prop :=
  ∃ built, trees.mapM build = .ok built ∧ built.map bare = values.map bare

namespace BuildsEach

variable {α : Type} {build : ParseTree → Except BuildFault α} {bare : α → α}

theorem single {x : α} (built : α) {tree : ParseTree} (builds : build tree = .ok built)
    (same : bare built = bare x) : BuildsEach build bare [x] [tree] :=
  ⟨[built], by simp [builds, bind, Except.bind, pure, Except.pure], by simp [same]⟩

theorem append {xs ys : List α} {trees others : List ParseTree}
    (builds : BuildsEach build bare xs trees) (buildsMore : BuildsEach build bare ys others) :
    BuildsEach build bare (xs ++ ys) (trees ++ others) := by
  obtain ⟨values, built, same⟩ := builds
  obtain ⟨more, builtMore, sameMore⟩ := buildsMore
  refine ⟨values ++ more, ?_, by rw [List.map_append, List.map_append, same, sameMore]⟩
  rw [List.mapM_append, built, builtMore]
  rfl

end BuildsEach

/-! ### Parameters -/

theorem Param.parses (p : Param) (normal : p.normal) :
    Parses [.n .param] p.words (sequels .param) (BuildsEach buildParam bare [p]) := by
  obtain ⟨ident, written, loc, isMut⟩ := p
  simp only [Param.normal, Bool.and_eq_true] at normal
  refine .node .param (optional isMut (.t .kwMut) ++ [.t .name, .t .colon, .n .type])
    (by cases isMut <;> decide) (parses_mut isMut fun marks isMarks =>
      .name normal.1 fun token text _ => .mark rfl (.last (by decide) (written.parses normal.2) ?_))
  rintro _ ⟨tree, rfl, built⟩ start
  obtain ⟨mark, -, rfl⟩ := isMarks
  refine .single ⟨ident, written, some start, isMut⟩ ?_ rfl
  cases isMut <;> simp [buildParam, text, built, bind, Except.bind, pure, Except.pure]

theorem parses_moreParams {params : List Param} (normal : params.all Param.normal)
    (isSome : params ≠ []) :
    Parses [.n .moreParams] (params.flatMap fun p => .of .comma :: p.words) (sequels .moreParams)
      (BuildsEach buildParam Param.bare params) :=
  .each [.t .comma, .n .param] isSome (by simp) (by decide) (by decide)
    (fun _ _ _ _ builds built => builds.append built)
    (fun p member => .mark rfl ((p.parses (List.all_eq_true.mp normal p member)).narrow (by decide)))
    fun p _ => ⟨_, _, rfl, by decide⟩

/-- The trees of the parameters, where there are any. -/
def ParamsTrees (params : List Param) (trees : List ParseTree) : Prop :=
  params = [] ∧ trees = [] ∨ params ≠ [] ∧
    ∃ start children, trees = [.node .params start children] ∧
      BuildsEach buildParam Param.bare params children

theorem parses_params {params : List Param} (normal : params.all Param.normal)
    {symbols : List Symbol} {words : List Word} {after : List Terminal}
    {Good : List ParseTree → Prop}
    (rest : ∀ trees, ParamsTrees params trees →
      Parses symbols (.of .rparen :: words) after fun later => Good (trees ++ later)) :
    Parses (optional (!params.isEmpty) (.n .params) ++ symbols)
      (wordsOfParams params ++ .of .rparen :: words) after Good := by
  cases params with
  | nil => exact rest [] (Or.inl ⟨rfl, rfl⟩)
  | cons first others =>
      obtain ⟨normalFirst, normalOthers⟩ : first.normal ∧ others.all Param.normal := by
        simpa using normal
      have parsesFirst := first.parses normalFirst
      have parses : Parses [.n .params] (wordsOfParams (first :: others)) (sequels .params)
          (ParamsTrees (first :: others)) := by
        by_cases alone : others = []
        · subst alone
          rw [wordsOfParams, List.flatMap_nil, List.append_nil]
          exact .node .params [.n .param] (by decide) (.last (by decide) parsesFirst
            fun _ builds start => Or.inr ⟨by simp, start, _, rfl, builds⟩)
        · have more := parses_moreParams normalOthers alone
          have begins : ∀ a, upcomingWord (others.flatMap fun p => .of .comma :: p.words) a =
              .comma := by
            obtain ⟨second, later, rfl⟩ := List.exists_cons_of_ne_nil alone
            exact fun a => rfl
          refine .node .params [.n .param, .n .moreParams] (by decide) (.phrase parsesFirst ?_
            fun trees builds => .last (by decide) more fun later buildsLater start =>
              Or.inr ⟨by simp, start, _, rfl, builds.append buildsLater⟩)
          intro a _
          rw [begins]
          decide
      exact .before (by decide) parses rest

/-! ### Functions -/

theorem function_table :
    ∀ hasParams hasResult : Bool,
      Production.Comes ⟨.function, .t .kwFn :: .t .name :: .t .lparen ::
        (optional hasParams (.n .params) ++ .t .rparen ::
          (optional hasResult (.n .result) ++ [.n .block])), some .function⟩
        (sequels .function) := by decide

theorem FunctionDef.parses (f : FunctionDef) (normal : f.normal) :
    Parses [.n .function] f.words (sequels .function) (BuildsEach buildFunction bare [f]) := by
  obtain ⟨ident, params, result, body, loc⟩ := f
  simp only [FunctionDef.normal, Bool.and_eq_true] at normal
  obtain ⟨⟨⟨identifier, normalParams⟩, normalResult⟩, normalBody⟩ := normal
  refine .node .function _ (function_table (!params.isEmpty) result.isSome)
    (.mark rfl (.name identifier fun token text _ => .mark rfl
      (parses_params normalParams fun paramTrees isParams => .mark rfl
        (parses_written .result (by decide) (by decide) rfl normalResult (by decide)
          fun resultTrees isResult => .last (by decide) (body.reads normalBody).parses ?_))))
  rintro _ ⟨begin, items, statements, tail, rfl, built, same⟩ start
  have builtBody : buildBlock (.node .block begin items) =
      .ok (.mk statements tail (some begin)) := by
    simp [buildBlock, built, bind, Except.bind, pure, Except.pure]
  obtain ⟨values, sameParams, builds⟩ : ∃ values : List Param,
      values.map Param.bare = params.map Param.bare ∧
        buildFunction (.node .function start (.leaf token :: (paramTrees ++ (resultTrees ++
          [.node .block begin items])))) =
          .ok ⟨ident, values, result, .mk statements tail (some begin), some start⟩ := by
    rcases isParams with ⟨rfl, rfl⟩ | ⟨-, paramsStart, children, rfl, values, isValues, same⟩
    · refine ⟨[], rfl, ?_⟩
      cases result with
      | none =>
          obtain rfl := isResult
          simp [buildFunction, builtBody, text, bind, Except.bind, pure, Except.pure]
      | some t =>
          obtain ⟨resultStart, tree, rfl, isType⟩ := isResult
          simp [buildFunction, builtBody, isType, text, bind, Except.bind, pure, Except.pure]
    · refine ⟨values, same, ?_⟩
      cases result with
      | none =>
          obtain rfl := isResult
          simp [buildFunction, builtBody, isValues, text, bind, Except.bind, pure, Except.pure]
      | some t =>
          obtain ⟨resultStart, tree, rfl, isType⟩ := isResult
          simp [buildFunction, builtBody, isValues, isType, text, bind, Except.bind, pure,
            Except.pure]
  exact .single _ builds (by simp [bare, sameParams, same])

/-! ### Programs -/

theorem Program.parses (program : Program) (normal : program.normal)
    (isSome : program.functions ≠ []) :
    Parses [.n .program] program.words [.endOfInput] fun trees =>
      ∃ built, buildProgram trees = .ok built ∧ built.bare = program.bare := by
  have functions : Parses [.n .functions] program.words (sequels .functions)
      (BuildsEach buildFunction FunctionDef.bare program.functions) :=
    .each [.n .function] isSome (by simp) (by decide) (by decide)
      (fun _ _ _ _ builds built => builds.append built)
      (fun f member => (f.parses (List.all_eq_true.mp normal f member)).narrow (by decide))
      fun f _ => ⟨_, _, rfl, by decide⟩
  refine .node .program [.n .functions] (by decide) (.last (by decide) functions ?_)
  rintro trees ⟨values, built, same⟩ start
  refine ⟨⟨values⟩, ?_, congrArg Program.mk same⟩
  simp [buildProgram, built, bind, Except.bind, pure, Except.pure]

theorem Program.ofText_of_build {text : String} {trees : List ParseTree} {program : Program}
    (file : Option String) (parsed : ParseTree.ofText text = .ok trees)
    (builds : buildProgram trees = .ok program) : Program.ofText file text = .ok program := by
  simp [ofText, parsed, builds]

/-- A text without a word is the program without a function. -/
theorem Program.ofText_empty (file : Option String) : Program.ofText file "" = .ok ⟨[]⟩ := by
  have read : ((ParseTree.ofText "").toOption.bind fun trees => (buildProgram trees).toOption).any
      (·.functions.isEmpty) := by decide +kernel
  cases parsed : ParseTree.ofText "" with
  | error fault => simp [parsed, Except.toOption] at read
  | ok trees =>
      cases builds : buildProgram trees with
      | error fault => simp [parsed, builds, Except.toOption] at read
      | ok program =>
          obtain ⟨functions⟩ := program
          obtain rfl : functions = [] := by simpa [parsed, builds, Except.toOption] using read
          exact ofText_of_build file parsed builds

/-- The text of a program in normal form is read as that program, positions aside. -/
theorem Program.ofText_text (file : Option String) (program : Program) (normal : program.normal) :
    ∃ read, Program.ofText file program.text = .ok read ∧ read.bare = program.bare := by
  by_cases isEmpty : program.functions = []
  · obtain ⟨functions⟩ := program
    obtain rfl : functions = [] := isEmpty
    exact ⟨_, ofText_empty file, rfl⟩
  · have isText : program.text.toList = textOf program.words := toList_intercalate program.words
    obtain ⟨trees, parsed, built, builds, same⟩ :=
      ParseTree.ofText_of_parses isText (program.parses normal isEmpty)
    exact ⟨built, ofText_of_build file parsed builds, same⟩

/-- A program whose words have more than one reading: `&` after `&&`, a minus before a negative number,
a statement that begins with an `if`, an `else` with another `if`, and a quote inside a template. -/
def manyReadings : Program where
  functions := [{
    name := "f", loc := none, returnType := some (.mk "Box" [.mk "Box" [.mk "i32" []]])
    params := [⟨"x", .mk "&mut" [.mk "&" [.mk "()" []]], none, true⟩,
      ⟨"y", .mk "i32" [], none, false⟩]
    body := .mk [
      .letVar none "z" none (some (.binary none .and (.literal none (.bool true)) (.borrow none
        (.borrow none (.name none "x") false) true))) true,
      .expr none (.unary none .neg (.literal none (.int minInt))),
      .expr none (.binary none (.order .lt) (.ifElse none (.name none "y") (.mk [] none none) none)
        (.binary none (.arith .sub) (.name none "y") (.binary none (.arith .sub) (.name none "y")
          (.literal none (.int (-1)))))),
      .assign none (.deref none (.name none "x")) (.literal none .unit) (some (.arith .rem)),
      .whileLoop none (.block none (.mk [.ret none none] none none)) (.mk [] none none),
      .expr none (.macroCall none "println" "\\\"\n\x7b\x7d" [.name none "z"])]
      (some (.ifElse none (.unary none .not (.name none "z")) (.mk [] none none) (some (.mk []
        (some (.ifElse none (.name none "z") (.mk [] (some (.call none "f" [])) none) (some (.mk []
          (some (.boxNew none (.name none "y"))) none)))) none)))) none }]

theorem Program.ofText_text_manyReadings :
    manyReadings.normal = true ∧
      ∃ read, Program.ofText (some "main") manyReadings.text = .ok read ∧
        read.bare = manyReadings.bare :=
  have normal : manyReadings.normal = true := by decide
  ⟨normal, Program.ofText_text (some "main") manyReadings normal⟩

end BorrowLang
