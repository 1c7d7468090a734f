import BorrowLang.Proofs.Code.Rules
import BorrowLang.Proofs.Lifetimes.Stores
import BorrowLang.Proofs.Parts

/-!
# Expressions beside each other

An expression without blocks is checked alike on both sides: no borrow ends in it, and none that has
been released is looked up.
-/

set_option autoImplicit false

namespace BorrowLang

namespace CodeRule

/-- No block stands in the code. -/
def flat : CodeRule where
  blocks := false

end CodeRule

namespace Checker

attribute [local simp] checkExpr checkArgs checkShown

variable {gone : Released} {s t : State} {ctx : Context} {loose : Settings}

/-- The same context under other settings. -/
def Context.under (ctx : Context) (settings : Settings) : Context := { ctx with settings }

/-! ### Checks that do not look at borrows -/

theorem expect_follows (expected : Ty) (value : Operand) (loc : Option Position) :
    Follows (expect (ctx.under loose) expected value loc) (expect ctx expected value loc) s t
      fun _ s' t' => s = s' ∧ t = t' := by
  have stateless : Stateless (expect ctx expected value loc) := by
    unfold expect
    split
    · exact stateless_pure _
    · exact stateless_throw _
  exact stateless.follows

theorem expectInt_stateless (op : BinaryOp) (operand : Operand) (loc : Option Position) :
    Stateless (expectInt ctx op operand loc) := by
  unfold expectInt
  split
  · exact stateless_pure _
  · exact stateless_throw _

theorem signatureOf_follows (loc : Option Position) (func : String) :
    Follows (signatureOf (ctx.under loose) loc func) (signatureOf ctx loc func) s t
      fun _ s' t' => s = s' ∧ t = t' := by
  have stateless : Stateless (signatureOf ctx loc func) := by
    unfold signatureOf
    split
    · exact stateless_pure _
    · exact stateless_throw _
  exact stateless.follows

theorem unaryOperand_follows (loc : Option Position) (op : UnaryOp) (operand : Operand) :
    Follows (unaryOperand (ctx.under loose) loc op operand) (unaryOperand ctx loc op operand) s t
      fun value s' t' => value.loans = [] ∧ s = s' ∧ t = t' := by
  by_cases same : operand.ty = if op = .neg then .i32 else .bool
  · simp only [unaryOperand, if_pos same]
    exact ⟨s, rfl, rfl, rfl, rfl⟩
  · simp only [unaryOperand, if_neg same]
    exact follows_throw _ _ _

theorem binaryOperand_follows (op : BinaryOp) (left right : Operand)
    (leftLoc rightLoc : Option Position) :
    Follows (binaryOperand (ctx.under loose) op left right leftLoc rightLoc)
      (binaryOperand ctx op left right leftLoc rightLoc) s t
      fun value s' t' => value.loans = [] ∧ s = s' ∧ t = t' := by
  have int : ∀ (operand : Operand) (loc : Option Position) {s t : State},
      Follows (expectInt (ctx.under loose) op operand loc) (expectInt ctx op operand loc) s t
        fun _ s' t' => s = s' ∧ t = t' :=
    fun operand loc => (expectInt_stateless op operand loc).follows
  have both : ∀ ty : Ty, Follows (do
        expectInt (ctx.under loose) op left leftLoc
        expectInt (ctx.under loose) op right rightLoc
        return ({ ty } : Operand)) (do
        expectInt ctx op left leftLoc
        expectInt ctx op right rightLoc
        return ({ ty } : Operand)) s t
      fun value s' t' => value.loans = [] ∧ s = s' ∧ t = t' := by
    intro ty
    refine (int left leftLoc).bind ?_
    rintro _ _ _ ⟨rfl, rfl⟩
    refine (int right rightLoc).bind ?_
    rintro _ _ _ ⟨rfl, rfl⟩
    exact (follows_pure _ _).mpr ⟨rfl, rfl, rfl⟩
  have equal : Follows (if left.ty = .i32 ∨ left.ty = .bool then do
        expect (ctx.under loose) left.ty right rightLoc
        return ({ ty := .bool } : Operand)
      else throw ((ctx.under loose).fault .typeMismatch
        ("binary operation `" ++ op.text ++ "` cannot be applied to type `" ++ left.ty.text ++ "`")
        leftLoc)) (if left.ty = .i32 ∨ left.ty = .bool then do
        expect ctx left.ty right rightLoc
        return ({ ty := .bool } : Operand)
      else throw (ctx.fault .typeMismatch
        ("binary operation `" ++ op.text ++ "` cannot be applied to type `" ++ left.ty.text ++ "`")
        leftLoc)) s t
      fun value s' t' => value.loans = [] ∧ s = s' ∧ t = t' := by
    by_cases plain : left.ty = .i32 ∨ left.ty = .bool
    · rw [if_pos plain, if_pos plain]
      refine (expect_follows left.ty right rightLoc).bind ?_
      rintro _ _ _ ⟨rfl, rfl⟩
      exact (follows_pure _ _).mpr ⟨rfl, rfl, rfl⟩
    · rw [if_neg plain, if_neg plain]
      exact follows_throw _ _ _
  cases op with
  | arith | order => exact both _
  | eq | ne => exact equal
  | and | or | unknown => exact follows_throw _ _ _

theorem expectDisplayable_follows (loc : Option Position) (ty : Option Ty) :
    Follows (expectDisplayable (ctx.under loose) loc ty) (expectDisplayable ctx loc ty) s t
      fun _ s' t' => s = s' ∧ t = t' := by
  have stateless : Stateless (expectDisplayable ctx loc ty) := by
    unfold expectDisplayable
    split
    · exact stateless_pure _
    · exact stateless_throw _
  exact stateless.follows

theorem checkTemplate_follows (loc : Option Position) (callee template : String) (given : Nat) :
    Follows (checkTemplate (ctx.under loose) loc callee template given)
      (checkTemplate ctx loc callee template given) s t fun _ s' t' => s = s' ∧ t = t' := by
  have stateless : Stateless (checkTemplate ctx loc callee template given) := by
    unfold checkTemplate
    split
    · split
      · exact stateless_throw _
      · split
        · exact stateless_pure _
        · exact stateless_throw _
    · exact stateless_throw _
  exact stateless.follows

/-! ### Paths that meet -/

/-- A record whose number is known already changes pins only. -/
theorem joinRecord_unpinned {records : List BorrowRecord} {record : BorrowRecord}
    (known : ∃ other ∈ records, other.id = record.id) :
    (Tracker.joinRecord records record).map BorrowRecord.unpinned =
      records.map BorrowRecord.unpinned := by
  have there : records.any (·.id = record.id) = true := by
    simpa [List.any_eq_true] using known
  rw [Tracker.joinRecord, if_pos there, List.map_map]
  refine List.map_congr_left fun mine _ => ?_
  exact (apply_ite BorrowRecord.unpinned _ _ _).trans (ite_self _)

/-- A path that knows all borrows of another knows the same when the other meets it, but for pins. -/
theorem foldl_joinRecord_unpinned {before records : List BorrowRecord}
    (last : Last before records) :
    (before.foldl Tracker.joinRecord records).map BorrowRecord.unpinned =
      records.map BorrowRecord.unpinned := by
  induction before generalizing records with
  | nil => rfl
  | cons record rest ih =>
      have same := joinRecord_unpinned (last record List.mem_cons_self)
      rw [List.foldl_cons, ih, same]
      intro later member
      obtain ⟨other, inRecords, id⟩ := last later (List.mem_cons_of_mem _ member)
      obtain ⟨joined, inJoined, sameId⟩ := Last.repin same other inRecords
      exact ⟨joined, inJoined, sameId.trans id⟩

/-- A path on which no borrow has ended meets the state before it. -/
theorem Along.join {s' t' : State} (before : Trails gone s t) (along : Along gone s t s' t') :
    Along gone s t { s' with tracker := s'.tracker.join s.tracker }
      { t' with tracker := t'.tracker.join t.tracker } := by
  have mine := foldl_joinRecord_unpinned along.mine
  have theirs := foldl_joinRecord_unpinned along.theirs
  refine along.trans (.next along.ledger { along.trails with
    states := ?_, borrows := along.trails.borrows.repin mine theirs } rfl rfl rfl (Nat.le_refl _)
    (along.ledger.records.repin theirs) (.repin mine) (.repin theirs))
  simp only [Tracker.join, before.states, along.trails.states]

/-! ### Expressions -/

/-- An expression of which the strict check finds a value has the same value for the loose one. -/
def ExprFollows (ctx : Context) (loose : Settings) (e : Expr) : Prop :=
  e.obeys .flat = true → ∀ {gone : Released} {s t : State}, Trails gone s t → Ledger gone t →
    Unreleased gone t.arena e.names →
    Follows (checkExpr (ctx.under loose) e) (checkExpr ctx e) s t
      fun value s' t' => Along gone s t s' t' ∧ Free gone value.loans

theorem free_nil : Free gone [] := fun id impossible => by simp at impossible

theorem literal_follows (loc : Option Position) (value : Literal) :
    ExprFollows ctx loose (.literal loc value) := by
  intro _ gone s t trails ledger _
  simp only [checkExpr]
  refine (follows_pure _ _).mpr ⟨.refl trails ledger, ?_⟩
  cases value <;> exact free_nil

/-- What a place is used for follows when the place has been found. -/
theorem usePlaceOf_follows (trails : Trails gone s t) (ledger : Ledger gone t) (loc : Option Position)
    (e : Expr) (unreleased : Unreleased gone t.arena e.names) :
    Follows (do usePlace (ctx.under loose) loc (← placeOf (ctx.under loose) e))
      (do usePlace ctx loc (← placeOf ctx e)) s t
      fun value s' t' => Along gone s t s' t' ∧ Free gone value.loans := by
  refine (placeOf_follows e trails ledger unreleased).bind ?_
  rintro place s' t' ⟨along, reached⟩
  refine (usePlace_follows along.trails along.ledger reached loc).mono ?_
  rintro value s'' t'' ⟨used, free⟩
  exact ⟨along.trans used, free⟩

theorem name_follows (loc : Option Position) (ident : String) :
    ExprFollows ctx loose (.name loc ident) := by
  intro _ gone s t trails ledger unreleased
  exact usePlaceOf_follows trails ledger loc (.name loc ident) unreleased

theorem deref_follows (loc : Option Position) {operand : Expr}
    (inner : ExprFollows ctx loose operand) : ExprFollows ctx loose (.deref loc operand) := by
  intro flat gone s t trails ledger unreleased
  rw [checkExpr, checkExpr]
  split
  · exact usePlaceOf_follows trails ledger loc (.deref loc operand) unreleased
  · refine (inner flat trails ledger unreleased).bind ?_
    rintro value s' t' ⟨along, free⟩
    unfold derefValue
    split
    · exact follows_throw _ _ _
    · split
      · exact follows_throw _ _ _
      · refine (follows_pure _ _).mpr ⟨along, ?_⟩
        split
        · exact free
        · exact free_nil

theorem unary_follows (loc : Option Position) (op : UnaryOp) {operand : Expr}
    (inner : ExprFollows ctx loose operand) : ExprFollows ctx loose (.unary loc op operand) := by
  intro flat gone s t trails ledger unreleased
  simp only [checkExpr]
  refine (inner flat trails ledger unreleased).bind ?_
  rintro value s' t' ⟨along, -⟩
  refine (unaryOperand_follows loc op value).mono ?_
  rintro result _ _ ⟨noLoans, rfl, rfl⟩
  exact ⟨along, noLoans ▸ free_nil⟩

theorem binary_follows (loc : Option Position) (op : BinaryOp) {left right : Expr}
    (first : ExprFollows ctx loose left) (second : ExprFollows ctx loose right) :
    ExprFollows ctx loose (.binary loc op left right) := by
  intro flat gone s t trails ledger unreleased
  obtain ⟨leftFlat, rightFlat⟩ : left.obeys .flat = true ∧ right.obeys .flat = true := by
    simpa [Expr.obeys] using flat
  have leftNames : Unreleased gone t.arena left.names :=
    unreleased.subset fun name member => by simp [Expr.names, member]
  have rightNames : Unreleased gone t.arena right.names :=
    unreleased.subset fun name member => by simp [Expr.names, member]
  simp only [checkExpr]
  refine (first leftFlat trails ledger leftNames).bind ?_
  rintro leftValue s' t' ⟨along, -⟩
  have follows : Follows (checkExpr (ctx.under loose) right) (checkExpr ctx right) s' t'
      fun value s'' t'' => Along gone s' t' s'' t'' ∧ Free gone value.loans :=
    second rightFlat along.trails along.ledger (rightNames.rooted ledger along.rooted)
  split
  · refine (expect_follows .bool leftValue left.loc).bind ?_
    rintro _ _ _ ⟨rfl, rfl⟩
    refine follows_get _ ?_
    refine follows.bind ?_
    rintro rightValue s'' t'' ⟨more, -⟩
    refine (expect_follows .bool rightValue right.loc).bind ?_
    rintro _ _ _ ⟨rfl, rfl⟩
    -- The right operand may not be evaluated at all.
    exact follows_modify _ ((follows_pure _ _).mpr
      ⟨along.trans (more.join along.trails), free_nil⟩)
  · refine follows.bind ?_
    rintro rightValue s'' t'' ⟨more, -⟩
    refine (binaryOperand_follows op leftValue rightValue left.loc right.loc).mono ?_
    rintro result _ _ ⟨noLoans, rfl, rfl⟩
    exact ⟨along.trans more, noLoans ▸ free_nil⟩

theorem borrow_expr_follows (loc : Option Position) {operand : Expr} (isMut : Bool)
    (inner : ExprFollows ctx loose operand) : ExprFollows ctx loose (.borrow loc operand isMut) := by
  intro flat gone s t trails ledger unreleased
  simp only [checkExpr]
  split
  · refine (placeOf_follows operand trails ledger unreleased).bind ?_
    rintro place s' t' ⟨along, reached⟩
    rw [borrowPlace_eq, borrowPlace_eq]
    refine follows_get _ ?_
    have taken : Follows (borrowChecked (ctx.under loose) s' loc place isMut)
        (borrowChecked ctx t' loc place isMut) s' t'
        fun value s'' t'' => Along gone s t s'' t'' ∧ Free gone value.loans := by
      unfold borrowChecked
      rw [along.trails.arena]
      refine (borrow_follows along.trails along.ledger reached loc _).bind ?_
      rintro loan s'' t'' ⟨more, free⟩
      cases t'.arena.ty? place with
      | none => exact follows_throw _ _ _
      | some ty =>
          refine (follows_pure _ _).mpr ⟨along.trans more, fun id member => ?_⟩
          rw [List.mem_singleton.mp member]
          exact free
    cases isMut with
    | false => exact taken
    | true =>
        refine (guard_follows loc fun ok => along.trails.arena ▸ ok).bind ?_
        rintro _ _ _ ⟨rfl, rfl⟩
        exact taken
  · refine (inner flat trails ledger unreleased).bind ?_
    rintro value s' t' met
    exact (follows_pure _ _).mpr met

theorem boxNew_follows (loc : Option Position) {value : Expr} (inner : ExprFollows ctx loose value) :
    ExprFollows ctx loose (.boxNew loc value) := by
  intro flat gone s t trails ledger unreleased
  simp only [checkExpr]
  refine (inner flat trails ledger unreleased).bind ?_
  rintro operand s' t' met
  exact (follows_pure _ _).mpr met

/-! ### Calls -/

/-- Arguments of a call carry the same borrows on both sides. -/
def ArgsFollow (ctx : Context) (loose : Settings) (args : List Expr) : Prop :=
  (∀ arg ∈ args, arg.obeys .flat = true) → ∀ (params : List Ty) {gone : Released} {s t : State},
    Trails gone s t → Ledger gone t → Unreleased gone t.arena (namesOfArgs args) →
    Follows (checkArgs (ctx.under loose) args params) (checkArgs ctx args params) s t
      fun loans s' t' => Along gone s t s' t' ∧ ∀ part ∈ loans, Free gone part

def ShownFollow (ctx : Context) (loose : Settings) (args : List Expr) : Prop :=
  (∀ arg ∈ args, arg.obeys .flat = true) → ∀ {gone : Released} {s t : State}, Trails gone s t →
    Ledger gone t → Unreleased gone t.arena (namesOfArgs args) →
    Follows (checkShown (ctx.under loose) args) (checkShown ctx args) s t
      fun _ s' t' => Along gone s t s' t'

theorem noArgs_follow : ArgsFollow ctx loose [] := by
  intro _ params gone s t trails ledger _
  simp only [checkArgs]
  exact (follows_pure _ _).mpr ⟨.refl trails ledger, fun part impossible => by simp at impossible⟩

theorem moreArgs_follow {arg : Expr} {args : List Expr} (first : ExprFollows ctx loose arg)
    (others : ArgsFollow ctx loose args) : ArgsFollow ctx loose (arg :: args) := by
  intro flat params gone s t trails ledger unreleased
  have argNames : Unreleased gone t.arena arg.names :=
    unreleased.subset fun name member => by simp [namesOfArgs, member]
  have restNames : Unreleased gone t.arena (namesOfArgs args) :=
    unreleased.subset fun name member => by simp [namesOfArgs, member]
  cases params with
  | nil =>
      simp only [checkArgs]
      exact (follows_pure _ _).mpr ⟨.refl trails ledger, fun part impossible => by simp at impossible⟩
  | cons param params =>
      have rest : ∀ (value : Operand) {s' t' : State}, Along gone s t s' t' →
          Free gone value.loans → Follows (do
            expect (ctx.under loose) param value arg.loc
            let rest ← checkArgs (ctx.under loose) args params
            return value.loans :: rest) (do
            expect ctx param value arg.loc
            let rest ← checkArgs ctx args params
            return value.loans :: rest) s' t'
          fun loans s'' t'' => Along gone s t s'' t'' ∧ ∀ part ∈ loans, Free gone part := by
        intro value s' t' along free
        refine (expect_follows param value arg.loc).bind ?_
        rintro _ _ _ ⟨rfl, rfl⟩
        refine (others (fun other member => flat other (List.mem_cons_of_mem _ member)) params
          along.trails along.ledger (restNames.rooted ledger along.rooted)).bind ?_
        rintro loans s'' t'' ⟨more, freeRest⟩
        refine (follows_pure _ _).mpr ⟨along.trans more, fun part member => ?_⟩
        rcases List.mem_cons.mp member with rfl | later
        · exact free
        · exact freeRest part later
      simp only [checkArgs]
      refine (reborrow?_follows trails ledger argNames param).bind ?_
      rintro found s' t' ⟨along, free⟩
      cases found with
      | some value => exact rest value along (free value rfl)
      | none =>
          refine (first (flat arg List.mem_cons_self) along.trails along.ledger
            (argNames.rooted ledger along.rooted)).bind ?_
          rintro value s'' t'' ⟨more, free⟩
          exact rest value (along.trans more) free

theorem call_follows (loc : Option Position) (func : String) {args : List Expr}
    (inner : ArgsFollow ctx loose args) : ExprFollows ctx loose (.call loc func args) := by
  intro flat gone s t trails ledger unreleased
  have argsFlat : ∀ arg ∈ args, arg.obeys .flat = true := by
    simp only [Expr.obeys, Bool.and_eq_true, Expr.allObey_iff] at flat
    exact flat.2
  simp only [checkExpr]
  refine (signatureOf_follows loc func).bind ?_
  rintro signature _ _ ⟨rfl, rfl⟩
  split
  · exact follows_throw _ _ _
  · refine (inner argsFlat signature.params trails ledger unreleased).bind ?_
    rintro loans s' t' ⟨along, free⟩
    refine (storeArguments_follows along.trails along.ledger free _).bind fun _ s'' t'' more => ?_
    refine (follows_pure _ _).mpr ⟨along.trans more, ?_⟩
    unfold callOperand
    split
    · exact free_unionAll free
    · exact free_nil

theorem noShown_follow : ShownFollow ctx loose [] := by
  intro _ gone s t trails ledger _
  simp only [checkShown]
  exact (follows_pure _ _).mpr (.refl trails ledger)

theorem showPlace_follows (trails : Trails gone s t) (loc : Option Position) (place : PlaceId) :
    Follows (showPlace (ctx.under loose) loc place) (showPlace ctx loc place) s t
      fun _ s' t' => s = s' ∧ t = t' := by
  unfold showPlace
  refine follows_get _ ?_
  refine (guard_follows loc trails.checkBorrow).bind ?_
  rintro _ _ _ ⟨rfl, rfl⟩
  rw [trails.arena]
  exact expectDisplayable_follows loc _

theorem moreShown_follow {arg : Expr} {args : List Expr} (first : ExprFollows ctx loose arg)
    (others : ShownFollow ctx loose args) : ShownFollow ctx loose (arg :: args) := by
  intro flat gone s t trails ledger unreleased
  have argNames : Unreleased gone t.arena arg.names :=
    unreleased.subset fun name member => by simp [namesOfArgs, member]
  have restNames : Unreleased gone t.arena (namesOfArgs args) :=
    unreleased.subset fun name member => by simp [namesOfArgs, member]
  have rest : ∀ {s' t' : State}, Along gone s t s' t' →
      Follows (checkShown (ctx.under loose) args) (checkShown ctx args) s' t'
        fun _ s'' t'' => Along gone s t s'' t'' := fun along =>
    (others (fun other member => flat other (List.mem_cons_of_mem _ member)) along.trails
      along.ledger (restNames.rooted ledger along.rooted)).mono fun _ _ _ more => along.trans more
  simp only [checkShown]
  split
  · refine (placeOf_follows arg trails ledger argNames).bind ?_
    rintro place s' t' ⟨along, -⟩
    refine (showPlace_follows along.trails arg.loc place).bind ?_
    rintro _ _ _ ⟨rfl, rfl⟩
    exact rest along
  · refine (first (flat arg List.mem_cons_self) trails ledger argNames).bind ?_
    rintro value s' t' ⟨along, -⟩
    refine (expectDisplayable_follows arg.loc (some value.ty)).bind ?_
    rintro _ _ _ ⟨rfl, rfl⟩
    exact rest along

theorem macroCall_follows (loc : Option Position) (callee template : String) {args : List Expr}
    (inner : ShownFollow ctx loose args) :
    ExprFollows ctx loose (.macroCall loc callee template args) := by
  intro flat gone s t trails ledger unreleased
  have argsFlat : ∀ arg ∈ args, arg.obeys .flat = true := by
    simp only [Expr.obeys, Bool.and_eq_true, Expr.allObey_iff] at flat
    exact flat.2
  simp only [checkExpr]
  refine (checkTemplate_follows loc callee template args.length).bind ?_
  rintro _ _ _ ⟨rfl, rfl⟩
  refine (inner argsFlat trails ledger unreleased).bind fun _ s' t' along => ?_
  exact (follows_pure _ _).mpr ⟨along, free_nil⟩

/-- Blocks, and what holds blocks, are not flat. -/
theorem not_flat (body : Block) : body.obeys .flat = false := by
  cases body
  rfl

mutual

theorem expr_follows : (e : Expr) → ExprFollows ctx loose e
  | .literal loc value => literal_follows loc value
  | .name loc ident => name_follows loc ident
  | .deref loc operand => deref_follows loc (expr_follows operand)
  | .unary loc op operand => unary_follows loc op (expr_follows operand)
  | .binary loc op left right => binary_follows loc op (expr_follows left) (expr_follows right)
  | .borrow loc operand isMut => borrow_expr_follows loc isMut (expr_follows operand)
  | .call loc func args => call_follows loc func (args_follow args)
  | .boxNew loc value => boxNew_follows loc (expr_follows value)
  | .macroCall loc callee template args =>
      macroCall_follows loc callee template (shown_follow args)
  | .ifElse _ _ thenBlock _ => fun flat => by simp [Expr.obeys, not_flat thenBlock] at flat
  | .block _ body => fun flat => by simp [Expr.obeys, not_flat body] at flat
  | .ofStmt _ | .ofBlock _ => fun _ _ _ _ _ _ _ => trivial

theorem args_follow : (args : List Expr) → ArgsFollow ctx loose args
  | [] => noArgs_follow
  | arg :: args => moreArgs_follow (expr_follows arg) (args_follow args)

theorem shown_follow : (args : List Expr) → ShownFollow ctx loose args
  | [] => noShown_follow
  | arg :: args => moreShown_follow (expr_follows arg) (shown_follow args)

end

end Checker

end BorrowLang
