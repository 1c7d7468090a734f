import BorrowLang.Proofs.Syntax.Regular
import BorrowLang.Proofs.Typing.Passes

/-!
# What is checked is typed

Each form of expression and statement that passes the check is typed by the rule of its form, in
every environment of the types that may become known until the function has been checked.
-/

set_option autoImplicit false

namespace BorrowLang.Checker

open Typing

variable {ctx : Context} {s : State}

/-- The signature of a function of the program or a built-in one. -/
def Context.callable? (ctx : Context) (func : String) : Option Signature :=
  ctx.signature? func <|> builtin? func

/-! ### Places -/

/-- An expression denotes a place, of whatever type that will have. -/
structure Denotes (s after : State) (e : Expr) (place : PlaceId) : Prop extends Grown s after where
  isThere : place < after.arena.size
  typed : ∀ {arena : Arena} {ty : Ty}, after.arena.Extends arena → arena.ty? place = some ty →
    PlaceTyped (envOf arena s.scopes) e ty

theorem placeOf_passes (sound : s.Sound) (e : Expr) :
    Passes (placeOf ctx e) s fun place after => Denotes s after e place := by
  induction e using placeOf.induct with
  | case1 loc ident =>
      simp only [placeOf]
      refine (lookup_passes loc ident).mono ?_
      intro place after met
      obtain ⟨rfl, found⟩ := met
      refine ⟨(Aside.refl _).grown sound, lt_size_of_lookup? sound found, ?_⟩
      intro arena ty _ known
      refine .name ?_
      rw [type?_envOf, found, Option.map_some, known, Option.getD_some]
  | case2 loc inner operand isMut ih =>
      have allowed : ∀ place mid, Denotes s mid operand place → Passes (do
          guard ctx inner (mid.tracker.checkBorrow mid.arena place (.ofMut isMut))
          return place) mid fun place after =>
            Denotes s after (.deref loc (.borrow inner operand isMut)) place := by
        intro place mid denotes
        simp only [meets_bind, meets_pure]
        refine (guard_passes inner _).mono ?_
        rintro - after rfl
        exact ⟨denotes.toGrown, denotes.isThere, fun later known =>
          .ofBorrow (denotes.typed later known)⟩
      simp only [placeOf]
      rw [Passes, meets_bind]
      refine ih.mono fun place mid denotes => ?_
      rw [meets_bind, meets_get]
      split
      · rw [meets_bind]
        refine (guard_passes inner _).mono ?_
        rintro - after rfl
        exact allowed place _ denotes
      · exact allowed place mid denotes
  | case3 loc operand notBorrow ih =>
      simp only [placeOf, meets_bind]
      refine ih.mono fun base mid denotes => ?_
      refine (typeOf_passes operand.loc base).mono ?_
      intro pointer after met
      obtain ⟨rfl, known⟩ := met
      split
      · trivial
      · rename_i inner points
        refine (target_passes denotes.sound known points _).mono ?_
        intro place after met
        obtain ⟨named, here⟩ := met
        refine ⟨denotes.toGrown.trans named, Arena.lt_size_of_ty? here, ?_⟩
        intro arena ty later tyKnown
        obtain rfl := Option.some.inj ((later.ty here).symm.trans tyKnown)
        exact .deref (denotes.typed (named.known.trans later) (later.ty (named.known.ty known)))
          points
  | case4 e notName notBorrow notDeref =>
      rw [placeOf]
      · trivial
      · exact notName
      · exact notBorrow
      · exact notDeref

theorem usePlace_passes (loc : Option Position) (place : PlaceId) :
    Passes (usePlace ctx loc place) s fun value after =>
      Aside s after ∧ s.arena.ty? place = some value.ty ∧ value.diverges = false := by
  simp only [usePlace, meets_bind]
  refine (typeOf_passes loc place).mono ?_
  intro ty after met
  obtain ⟨rfl, known⟩ := met
  split
  · simp only [meets_bind]
    refine (requireRead_passes loc place).mono ?_
    rintro - after rfl
    split
    · exact ⟨⟨rfl, rfl⟩, known, rfl⟩
    · exact ⟨.refl _, known, rfl⟩
  · simp only [meets_bind, meets_get, meets_set, meets_pure]
    refine (guard_passes loc _).mono ?_
    rintro - after rfl
    exact ⟨⟨rfl, rfl⟩, known, trivial⟩

theorem usePlaceOf_passes (sound : s.Sound) (loc : Option Position) (e : Expr) :
    Passes (do usePlace ctx loc (← placeOf ctx e)) s fun value after =>
      Checked s after fun env => PlaceTyped env e value.ty ∧ value.outcome = some value.ty := by
  simp only [meets_bind]
  refine (placeOf_passes sound e).mono fun place mid denotes => ?_
  refine (usePlace_passes loc place).mono ?_
  intro value after met
  obtain ⟨aside, known, arrives⟩ := met
  refine ⟨denotes.toGrown.aside aside, fun arena later => ?_⟩
  rw [aside.arena] at later
  exact ⟨denotes.typed later (later.ty known), Operand.outcome_of_arrives arrives⟩

/-- A reference that is borrowed anew is of the type of its place. -/
theorem reborrow?_passes (sound : s.Sound) (arg : Expr) (param : Ty) :
    Passes (reborrow? ctx arg param) s fun found after => Grown s after ∧
      ∀ value, found = some value → Checked s after fun env =>
        PlaceTyped env arg value.ty ∧ value.outcome = some value.ty := by
  have plain : ∀ after, Grown s after → Grown s after ∧
      ∀ value, (none : Option Operand) = some value → Checked s after fun env =>
        PlaceTyped env arg value.ty ∧ value.outcome = some value.ty :=
    fun after grown => ⟨grown, fun value impossible => by simp at impossible⟩
  unfold reborrow?
  split
  · split
    · simp only [meets_bind, meets_get]
      refine (placeOf_passes sound arg).mono fun place mid denotes => ?_
      split
      · rename_i inner known
        simp only [meets_bind, meets_pure]
        refine (requireRead_passes arg.loc place).mono ?_
        rintro - after rfl
        refine (target_passes denotes.sound known rfl _).mono ?_
        intro id named met
        obtain ⟨grownNamed, -⟩ := met
        refine (borrow_passes arg.loc id .exclusive).mono ?_
        intro loan last aside
        have whole := denotes.toGrown.trans (grownNamed.aside aside)
        refine ⟨whole, ?_⟩
        intro value met
        obtain ⟨rfl⟩ := met
        refine ⟨whole, fun arena later => ⟨?_, rfl⟩⟩
        have sinceHere := (grownNamed.aside aside).known.trans later
        exact denotes.typed sinceHere (sinceHere.ty known)
      · exact plain _ denotes.toGrown
    · exact plain s ((Aside.refl s).grown sound)
  · exact plain s ((Aside.refl s).grown sound)

/-! ### Expressions -/

/-- An expression that passes is typed. -/
def ExprChecks (ctx : Context) (e : Expr) : Prop :=
  e.Regular → ∀ s : State, s.Sound → Passes (checkExpr ctx e) s fun value after =>
    Checked s after fun env => Typed ctx.callable? ctx.result env e value.outcome

def BlockChecks (ctx : Context) (body : Block) : Prop :=
  body.Regular → ∀ (isBody : Bool) (s : State), s.Sound →
    Passes (checkBlock ctx isBody body) s fun value after =>
      Checked s after fun env => BlockTyped ctx.callable? ctx.result env body value.outcome

theorem Checked.imp {after : State} {holds holds' : Env → Prop} (checked : Checked s after holds)
    (weaker : ∀ env, holds env → holds' env) : Checked s after holds' :=
  ⟨checked.toGrown, fun arena later => weaker _ (checked.typed arena later)⟩

/-- What was checked in turn holds of one environment. -/
theorem Checked.both {mid after : State} {first second : Env → Prop} (left : Checked s mid first)
    (right : Checked mid after second) : Checked s after fun env => first env ∧ second env :=
  ⟨left.toGrown.trans right.toGrown, fun arena later =>
    ⟨left.typed arena (right.known.trans later),
      left.scopes ▸ right.typed arena later⟩⟩

theorem Checked.aside {mid after : State} {holds : Env → Prop} (checked : Checked s mid holds)
    (aside : Aside mid after) : Checked s after holds :=
  checked.grow (aside.grown checked.sound)

theorem literal_checks (loc : Option Position) (value : Literal) :
    ExprChecks ctx (.literal loc value) := by
  intro _ s sound
  refine ⟨(Aside.refl s).grown sound, fun arena _ => ?_⟩
  cases value <;> exact .literal

example : checkExpr {} (.literal none (.int 1)) {} = (.ok { ty := .i32 }, {}) := by cbv

theorem name_checks (loc : Option Position) (ident : String) :
    ExprChecks ctx (.name loc ident) := by
  intro _ s sound
  refine (usePlaceOf_passes sound loc (.name loc ident)).mono fun value after checked => ?_
  exact checked.imp fun env known => known.2 ▸ .place known.1

theorem deref_checks (loc : Option Position) {operand : Expr} (inner : ExprChecks ctx operand) :
    ExprChecks ctx (.deref loc operand) := by
  intro regular s sound
  rw [checkExpr]
  split
  · refine (usePlaceOf_passes sound loc (.deref loc operand)).mono fun value after checked => ?_
    exact checked.imp fun env known => known.2 ▸ .place known.1
  · rename_i isValue
    rw [Passes, meets_bind]
    refine (inner (by simpa [Expr.Regular] using regular) s sound).mono fun value after checked => ?_
    unfold derefValue
    split
    · trivial
    · rename_i target points
      split
      · trivial
      · exact checked.imp fun env typed =>
          .derefValue (by simpa using isValue) typed value.suits_ty points

/-- The operand of a unary operator is of the type of its value. -/
theorem unaryOperand_passes (loc : Option Position) {op : UnaryOp} (known : op = .neg ∨ op = .not)
    (value : Operand) : Passes (unaryOperand ctx loc op value) s fun result after =>
      after = s ∧ unaryType? op = some value.ty ∧ result.outcome = some value.ty := by
  rcases known with rfl | rfl <;> simp only [unaryOperand, if_true, reduceCtorEq, if_false]
  all_goals
    split
    · rename_i same
      exact ⟨rfl, same ▸ rfl, same ▸ rfl⟩
    · trivial

theorem unary_checks (loc : Option Position) {op : UnaryOp} {operand : Expr}
    (inner : ExprChecks ctx operand) : ExprChecks ctx (.unary loc op operand) := by
  intro regular s sound
  obtain ⟨known, regular⟩ : (op = .neg ∨ op = .not) ∧ operand.Regular := by
    simpa [Expr.Regular] using regular
  simp only [checkExpr, meets_bind]
  refine (inner regular s sound).mono fun value mid checked => ?_
  refine (unaryOperand_passes loc known value).mono ?_
  intro result after met
  obtain ⟨rfl, type, outcome⟩ := met
  exact checked.imp fun env typed => outcome ▸ .unary type typed value.suits_ty

/-- The operands and the value of an operator that evaluates both operands. -/
theorem binaryOperand_passes (loc : Option Position) (op : BinaryOp) (first second : Operand)
    (leftLoc rightLoc : Option Position) :
    Passes (binaryOperand ctx op first second leftLoc rightLoc) s fun result after => after = s ∧
      ∀ env left right, Typed ctx.callable? ctx.result env left first.outcome →
        Typed ctx.callable? ctx.result env right second.outcome →
        Typed ctx.callable? ctx.result env (.binary loc op left right) result.outcome := by
  have int : ∀ (value : Operand) (valueLoc : Option Position) (s : State),
      Passes (expectInt ctx op value valueLoc) s fun _ after =>
        after = s ∧ value.outcome.Suits (some .i32) := by
    intro value valueLoc s
    unfold expectInt
    split
    · rename_i same
      exact ⟨rfl, same ▸ value.suits_ty⟩
    · trivial
  unfold binaryOperand
  split
  · simp only [meets_bind, meets_pure]
    refine (int first leftLoc s).mono ?_
    intro _ after met
    obtain ⟨rfl, leftInt⟩ := met
    refine (int second rightLoc _).mono ?_
    intro _ after met
    obtain ⟨rfl, rightInt⟩ := met
    exact ⟨rfl, fun env left right leftTyped rightTyped => .arith leftTyped leftInt rightTyped rightInt⟩
  · simp only [meets_bind, meets_pure]
    refine (int first leftLoc s).mono ?_
    intro _ after met
    obtain ⟨rfl, leftInt⟩ := met
    refine (int second rightLoc _).mono ?_
    intro _ after met
    obtain ⟨rfl, rightInt⟩ := met
    exact ⟨rfl, fun env left right leftTyped rightTyped => .order leftTyped leftInt rightTyped rightInt⟩
  all_goals first
    | trivial
    | split
      · rename_i plain
        simp only [meets_bind, meets_pure]
        refine (expect_passes first.ty second rightLoc).mono ?_
        intro _ after met
        obtain ⟨rfl, suits⟩ := met
        exact ⟨rfl, fun env left right leftTyped rightTyped =>
          .equality (by simp) plain leftTyped first.suits_ty rightTyped suits⟩
      · trivial

theorem binary_checks (loc : Option Position) {op : BinaryOp} {left right : Expr}
    (first : ExprChecks ctx left) (second : ExprChecks ctx right) :
    ExprChecks ctx (.binary loc op left right) := by
  intro regular s sound
  obtain ⟨leftRegular, rightRegular⟩ : left.Regular ∧ right.Regular := by
    simpa [Expr.Regular] using regular
  simp only [checkExpr, meets_bind]
  refine (first leftRegular s sound).mono fun leftValue mid leftChecked => ?_
  split
  · rename_i isLogic
    simp only [meets_bind, meets_get, meets_pure]
    refine (expect_passes .bool leftValue left.loc).mono ?_
    intro _ after met
    obtain ⟨rfl, leftBool⟩ := met
    refine (second rightRegular _ leftChecked.sound).mono fun rightValue mid rightChecked => ?_
    refine (expect_passes .bool rightValue right.loc).mono ?_
    intro _ after met
    obtain ⟨rfl, rightBool⟩ := met
    refine (modifyTracker_passes _).mono fun _ after aside => ?_
    exact ((leftChecked.both rightChecked).aside aside).imp fun env typed =>
      .logic isLogic typed.1 leftBool typed.2 rightBool
  · simp only [meets_bind]
    refine (second rightRegular _ leftChecked.sound).mono fun rightValue mid rightChecked => ?_
    refine (binaryOperand_passes loc op leftValue rightValue left.loc right.loc).mono ?_
    intro result after met
    obtain ⟨rfl, typed⟩ := met
    exact (leftChecked.both rightChecked).imp fun env known =>
      typed env left right known.1 known.2

theorem borrow_checks (loc : Option Position) {operand : Expr} (isMut : Bool)
    (inner : ExprChecks ctx operand) : ExprChecks ctx (.borrow loc operand isMut) := by
  intro regular s sound
  simp only [checkExpr]
  split
  · simp only [meets_bind, borrowPlace, meets_get]
    refine (placeOf_passes sound operand).mono fun place mid denotes => ?_
    have taken : ∀ ty after, mid.arena.ty? place = some ty → Aside mid after →
        Checked s after fun env =>
          Typed ctx.callable? ctx.result env (.borrow loc operand isMut) (some (.ref isMut ty)) := by
      intro ty after known aside
      refine ⟨denotes.toGrown.aside aside, fun arena later => .borrowPlace ?_⟩
      rw [aside.arena] at later
      exact denotes.typed later (later.ty known)
    split
    · simp only [meets_bind]
      refine (guard_passes loc _).mono ?_
      rintro - after rfl
      refine (borrow_passes loc place _).mono fun loan after aside => ?_
      split
      · trivial
      · exact taken _ after ‹_› aside
    · simp only [meets_bind]
      refine (borrow_passes loc place _).mono fun loan after aside => ?_
      split
      · trivial
      · exact taken _ after ‹_› aside
  · rename_i isValue
    simp only [meets_bind, meets_pure]
    refine (inner (by simpa [Expr.Regular] using regular) s sound).mono fun value after checked => ?_
    exact checked.imp fun env typed =>
      .borrowValue (by simpa using isValue) typed value.suits_ty

theorem boxNew_checks (loc : Option Position) {value : Expr} (inner : ExprChecks ctx value) :
    ExprChecks ctx (.boxNew loc value) := by
  intro regular s sound
  simp only [checkExpr, meets_bind, meets_pure]
  refine (inner (by simpa [Expr.Regular] using regular) s sound).mono fun operand after checked => ?_
  exact checked.imp fun env typed => .boxNew typed operand.suits_ty

/-! ### Calls -/

/-- The arguments of a call that pass are typed. -/
def ArgsCheck (ctx : Context) (args : List Expr) : Prop :=
  Expr.AllRegular args → ∀ (params : List Ty) (s : State), args.length = params.length →
    s.Sound → Passes (checkArgs ctx args params) s fun _ after =>
      Checked s after fun env => ArgsTyped ctx.callable? ctx.result env args params

/-- The arguments of a macro that pass are typed. -/
def ShownCheck (ctx : Context) (args : List Expr) : Prop :=
  Expr.AllRegular args → ∀ s : State, s.Sound →
    Passes (checkShown ctx args) s fun _ after =>
      Checked s after fun env => ShownTyped ctx.callable? ctx.result env args

theorem noArgs_check : ArgsCheck ctx [] := by
  intro _ params s sameLength sound
  obtain rfl : params = [] := List.eq_nil_of_length_eq_zero sameLength.symm
  exact ⟨(Aside.refl s).grown sound, fun _ _ => .nil⟩

theorem moreArgs_check {arg : Expr} {args : List Expr} (first : ExprChecks ctx arg)
    (others : ArgsCheck ctx args) : ArgsCheck ctx (arg :: args) := by
  intro regular params s sameLength sound
  obtain ⟨argRegular, othersRegular⟩ : arg.Regular ∧ Expr.AllRegular args := by
    simpa [Expr.AllRegular] using regular
  cases params with
  | nil => simp at sameLength
  | cons param params =>
      have rest : ∀ value mid, Checked s mid (fun env =>
            Typed ctx.callable? ctx.result env arg value.outcome) →
          Passes (do
            expect ctx param value arg.loc
            let rest ← checkArgs ctx args params
            return value.loans :: rest) mid fun _ after => Checked s after fun env =>
              ArgsTyped ctx.callable? ctx.result env (arg :: args) (param :: params) := by
        intro value mid checked
        simp only [meets_bind, meets_pure]
        refine (expect_passes param value arg.loc).mono ?_
        intro _ after met
        obtain ⟨rfl, suits⟩ := met
        refine (others othersRegular params _ (Nat.succ.inj sameLength) checked.sound).mono ?_
        intro loans after checkedRest
        exact (checked.both checkedRest).imp fun env typed => .cons typed.1 suits typed.2
      simp only [checkArgs]
      rw [Passes, meets_bind]
      refine (reborrow?_passes sound arg param).mono ?_
      intro found mid met
      obtain ⟨grown, reborrowed⟩ := met
      split
      · rename_i value
        exact rest value mid ((reborrowed value rfl).imp fun env known => known.2 ▸ .place known.1)
      · rw [meets_bind]
        refine (first argRegular mid grown.sound).mono fun value after checked => ?_
        exact rest value after (checked.since grown)

theorem call_checks (loc : Option Position) (func : String) {args : List Expr}
    (inner : ArgsCheck ctx args) : ExprChecks ctx (.call loc func args) := by
  intro regular s sound
  have found : Passes (signatureOf ctx loc func) s fun signature after =>
      after = s ∧ ctx.callable? func = some signature := by
    unfold signatureOf
    split
    · rename_i signature known
      exact ⟨rfl, known⟩
    · trivial
  simp only [checkExpr, meets_bind]
  refine found.mono ?_
  intro signature after met
  obtain ⟨rfl, known⟩ := met
  split
  · trivial
  · rename_i sameLength
    simp only [meets_bind, meets_pure]
    refine (inner (by simpa [Expr.Regular] using regular) signature.params _
      (by simpa using sameLength) sound).mono fun loans mid checked => ?_
    refine (storeArguments_passes loans _).mono fun _ after aside => ?_
    exact (checked.aside aside).imp fun env typed => .call known typed

theorem noShown_check : ShownCheck ctx [] := fun _ s sound =>
  ⟨(Aside.refl s).grown sound, fun _ _ => .nil⟩

theorem showPlace_passes (loc : Option Position) (place : PlaceId) :
    Passes (showPlace ctx loc place) s fun _ after =>
      after = s ∧ ∃ ty, s.arena.ty? place = some ty := by
  simp only [showPlace, meets_bind, meets_get]
  refine (guard_passes loc _).mono ?_
  rintro - after rfl
  unfold expectDisplayable
  cases known : after.arena.ty? place with
  | none => trivial
  | some ty =>
      split
      · exact ⟨rfl, ty, rfl⟩
      · trivial

theorem moreShown_check {arg : Expr} {args : List Expr} (first : ExprChecks ctx arg)
    (others : ShownCheck ctx args) : ShownCheck ctx (arg :: args) := by
  intro regular s sound
  obtain ⟨argRegular, othersRegular⟩ : arg.Regular ∧ Expr.AllRegular args := by
    simpa [Expr.AllRegular] using regular
  have rest : ∀ mid, (Checked s mid fun env => ∃ out, Typed ctx.callable? ctx.result env arg out) →
      Passes (checkShown ctx args) mid fun _ after => Checked s after fun env =>
        ShownTyped ctx.callable? ctx.result env (arg :: args) := by
    intro mid checked
    refine (others othersRegular mid checked.sound).mono fun _ after checkedRest => ?_
    exact (checked.both checkedRest).imp fun env typed => .cons typed.1.choose_spec typed.2
  simp only [checkShown]
  split
  · simp only [meets_bind]
    refine (placeOf_passes sound arg).mono fun place mid denotes => ?_
    refine (showPlace_passes arg.loc place).mono ?_
    intro _ after met
    obtain ⟨rfl, ty, known⟩ := met
    exact rest _ ⟨denotes.toGrown, fun arena later =>
      ⟨some ty, .place (denotes.typed later (later.ty known))⟩⟩
  · simp only [meets_bind]
    refine (first argRegular s sound).mono fun value mid checked => ?_
    unfold expectDisplayable
    split
    · exact rest mid (checked.imp fun env typed => ⟨_, typed⟩)
    · trivial

theorem checkTemplate_passes (loc : Option Position) (callee template : String) (given : Nat) :
    Passes (checkTemplate ctx loc callee template given) s fun _ after =>
      after = s ∧ ∃ pieces, Template.split template = .ok pieces := by
  unfold checkTemplate
  split
  · split
    · trivial
    · rename_i holes known
      split
      · cases split : Template.split template with
        | error fault => simp [Template.holes, split, Except.map] at known
        | ok pieces => exact ⟨rfl, pieces, rfl⟩
      · trivial
  · trivial

theorem macroCall_checks (loc : Option Position) (callee template : String) {args : List Expr}
    (inner : ShownCheck ctx args) : ExprChecks ctx (.macroCall loc callee template args) := by
  intro regular s sound
  simp only [checkExpr, meets_bind, meets_pure]
  refine (checkTemplate_passes loc callee template args.length).mono ?_
  intro _ after met
  obtain ⟨rfl, pieces, split⟩ := met
  refine (inner (by simpa [Expr.Regular] using regular) _ sound).mono fun _ mid checked => ?_
  exact checked.imp fun env typed => .macroCall split typed

end BorrowLang.Checker
