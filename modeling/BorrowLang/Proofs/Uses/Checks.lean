import BorrowLang.Proofs.Meets
import BorrowLang.Proofs.Moves.Twice
import BorrowLang.Proofs.Typing.Rules

/-!
# What a check that passes says

The conditions of the bare check, taken out of a check that has passed; and an expression declares
nothing that is still in scope after it.
-/

set_option autoImplicit false

namespace BorrowLang.Moves

open Checker

variable {α β : Type} {o after : Outline}

theorem ensure_eq_some {holds : Outline → Prop} {u : Unit}
    (passed : Bare.ensure holds o = some (u, after)) : holds o ∧ after = o := by
  unfold Bare.ensure at passed
  split at passed
  · rename_i here
    obtain ⟨-, same⟩ := Prod.mk.inj (Option.some.inj passed)
    exact ⟨here, same.symm⟩
  · cases passed

theorem answer_eq_some {x : Check α} {a : α} (passed : Bare.answer x o = some (a, after)) :
    (x default).1 = .ok a ∧ after = o := by
  unfold Bare.answer at passed
  split at passed
  · rename_i answers
    obtain ⟨same, isHere⟩ := Prod.mk.inj (Option.some.inj passed)
    exact ⟨same ▸ answers, isHere.symm⟩
  · cases passed

theorem typeOf_eq_some {spot : Spot} {ty : Ty} (passed : typeOf spot o = some (ty, after)) :
    o.ty? spot = some ty ∧ after = o := by
  obtain ⟨_, known, same⟩ := Option.map_eq_some_iff.mp passed
  obtain ⟨rfl, rfl⟩ := Prod.mk.inj same
  exact ⟨known, rfl⟩

theorem ensure_bind {holds : Outline → Prop} {y : Unit → Bare α} {a : α}
    (passed : (Bare.ensure holds >>= y) o = some (a, after)) :
    holds o ∧ y () o = some (a, after) := by
  obtain ⟨_, mid, allowed, rest⟩ := bind_eq_some.mp passed
  obtain ⟨here, rfl⟩ := ensure_eq_some allowed
  exact ⟨here, rest⟩

theorem answer_bind {x : Check β} {y : β → Bare α} {a : α}
    (passed : (Bare.answer x >>= y) o = some (a, after)) :
    ∃ b, (x default).1 = .ok b ∧ y b o = some (a, after) := by
  obtain ⟨b, mid, answers, rest⟩ := bind_eq_some.mp passed
  obtain ⟨known, rfl⟩ := answer_eq_some answers
  exact ⟨b, known, rest⟩

theorem typeOf_bind {spot : Spot} {y : Ty → Bare α} {a : α}
    (passed : (typeOf spot >>= y) o = some (a, after)) :
    ∃ ty, o.ty? spot = some ty ∧ y ty o = some (a, after) := by
  obtain ⟨ty, mid, typed, rest⟩ := bind_eq_some.mp passed
  obtain ⟨known, rfl⟩ := typeOf_eq_some typed
  exact ⟨ty, known, rest⟩

theorem placeOf_bind {e : Expr} {y : Spot → Bare α} {a : α}
    (passed : (placeOf e >>= y) o = some (a, after)) :
    ∃ spot, placeOf e o = some (spot, o) ∧ y spot o = some (a, after) := by
  obtain ⟨spot, mid, found, rest⟩ := bind_eq_some.mp passed
  obtain rfl := Reads.placeOf e _ _ _ found
  exact ⟨spot, found, rest⟩

theorem mark_bind {change : Marks → Marks} {y : Unit → Bare α} {a : α}
    (passed : (Bare.mark change >>= y) o = some (a, after)) :
    y () { o with marks := change o.marks } = some (a, after) := by
  obtain ⟨_, mid, marked, rest⟩ := bind_eq_some.mp passed
  obtain ⟨-, rfl⟩ := Prod.mk.inj (Option.some.inj marked)
  exact rest

theorem inScope_eq_some {x : Bare α} {a : α} (passed : Bare.inScope x o = some (a, after)) :
    ∃ inner, x o = some (a, inner) ∧ after = inner.cut o.decls.length := by
  obtain ⟨⟨_, inner⟩, passes, same⟩ := Option.bind_eq_some_iff.mp passed
  obtain ⟨rfl, rfl⟩ := Prod.mk.inj (Option.some.inj same)
  exact ⟨inner, passes, rfl⟩

theorem orSkip_eq_some {x : Bare α} {a : α} (passed : Bare.orSkip x o = some (a, after)) :
    ∃ inner, x o = some (a, inner) ∧ after = { inner with marks := inner.marks.join o.marks } := by
  obtain ⟨⟨_, inner⟩, passes, same⟩ := Option.bind_eq_some_iff.mp passed
  obtain ⟨rfl, rfl⟩ := Prod.mk.inj (Option.some.inj same)
  exact ⟨inner, passes, rfl⟩

theorem fork_eq_some {x y : Bare Operand} {a b : Operand}
    (passed : Bare.fork x y o = some ((a, b), after)) :
    ∃ mid last, x o = some (a, mid) ∧ y { mid with marks := o.marks } = some (b, last) ∧
      after = { last with marks := mid.marks.meet a.diverges b.diverges last.marks } := by
  obtain ⟨⟨_, mid⟩, passes, passed⟩ := Option.bind_eq_some_iff.mp passed
  obtain ⟨⟨_, last⟩, passesOther, same⟩ := Option.bind_eq_some_iff.mp passed
  obtain ⟨pair, rfl⟩ := Prod.mk.inj (Option.some.inj same)
  obtain ⟨rfl, rfl⟩ := Prod.mk.inj pair
  exact ⟨mid, last, passes, passesOther, rfl⟩

theorem turn_eq_some {ctx : Checker.Context} {loc : Option Position}
    {condition body : Bare Operand} {u : Unit}
    (passed : turn ctx loc condition body o = some (u, after)) :
    ∃ test mid value, condition o = some (test, mid) ∧
      (expect ctx .bool test loc default).1 = .ok () ∧ body mid = some (value, after) ∧
      (value.diverges = true ∨ value.ty = .unit) := by
  obtain ⟨test, mid, begins, rest⟩ := bind_eq_some.mp passed
  obtain ⟨_, answers, rest⟩ := answer_bind rest
  obtain ⟨value, last, inner, ends⟩ := bind_eq_some.mp rest
  obtain ⟨plain, rfl⟩ := ensure_eq_some ends
  exact ⟨test, mid, value, begins, answers, inner, plain⟩

section Answers

variable {ctx : Checker.Context} {loc : Option Position} {value result : Operand}

theorem expect_eq_ok {expected : Ty} {u : Unit}
    (passed : (expect ctx expected value loc default).1 = .ok u) :
    value.diverges = true ∨ value.ty.coercesTo expected = true := by
  unfold expect at passed
  split at passed
  · rename_i here
    exact (Bool.or_eq_true _ _).mp here
  · cases passed

theorem derefValue_eq_ok (passed : (derefValue ctx loc value default).1 = .ok result) :
    ∃ target, value.ty.pointee? = some target ∧ result.ty = target ∧ result.diverges = false ∧
      (value.ty.isRef = true → target.isCopy = true) := by
  unfold derefValue at passed
  cases pointee : value.ty.pointee? with
  | none =>
      rw [pointee] at passed
      cases passed
  | some target =>
    rw [pointee] at passed
    simp only at passed
    split at passed
    · cases passed
    · rename_i allowed
      obtain rfl := Except.ok.inj passed
      refine ⟨target, rfl, rfl, rfl, fun isRef => ?_⟩
      simpa [isRef] using allowed

theorem unaryOperand_eq_ok {op : UnaryOp}
    (passed : (unaryOperand ctx loc op value default).1 = .ok result) :
    result.ty.pointee? = none ∧ result.diverges = false := by
  unfold unaryOperand at passed
  generalize isExpected : (if op = .neg then Ty.i32 else .bool) = expected at passed
  have plain : expected.pointee? = none := by
    subst isExpected
    split <;> rfl
  split at passed
  · obtain rfl := Except.ok.inj passed
    exact ⟨plain, rfl⟩
  · cases passed

theorem bind_eq_ok_of_default {x : Check α} {y : α → Check β} {b : β}
    (passed : ((x >>= y) default).1 = .ok b) :
    ∃ a mid, x default = (.ok a, mid) ∧ (y a mid).1 = .ok b := by
  rw [run_bind] at passed
  cases done : x default with
  | mk outcome mid =>
      rw [done] at passed
      cases outcome with
      | ok a => exact ⟨a, mid, rfl, passed⟩
      | error fault => cases passed

theorem binaryOperand_eq_ok {op : BinaryOp} {other : Operand} {rightLoc : Option Position}
    (passed : (binaryOperand ctx op value other loc rightLoc default).1 = .ok result) :
    result.ty.pointee? = none ∧ result.diverges = false := by
  unfold binaryOperand at passed
  cases op with
  | arith op =>
      obtain ⟨_, _, -, passed⟩ := bind_eq_ok_of_default passed
      rw [run_bind] at passed
      split at passed
      · obtain rfl := Except.ok.inj passed
        exact ⟨rfl, rfl⟩
      · cases passed
  | order op =>
      obtain ⟨_, _, -, passed⟩ := bind_eq_ok_of_default passed
      rw [run_bind] at passed
      split at passed
      · obtain rfl := Except.ok.inj passed
        exact ⟨rfl, rfl⟩
      · cases passed
  | eq | ne =>
      simp only at passed
      split at passed
      · obtain ⟨_, _, -, passed⟩ := bind_eq_ok_of_default passed
        obtain rfl := Except.ok.inj passed
        exact ⟨rfl, rfl⟩
      · cases passed
  | and | or | unknown => cases passed

theorem ifOnlyOperand_eq_ok (passed : (ifOnlyOperand ctx loc value default).1 = .ok result) :
    result.ty = .unit ∧ result.diverges = false ∧ (value.diverges = true ∨ value.ty = .unit) := by
  unfold ifOnlyOperand at passed
  split at passed
  · rename_i here
    obtain rfl := Except.ok.inj passed
    exact ⟨rfl, rfl, by simpa using here⟩
  · cases passed

/-- An `if` comes to a value from each arm that does, and of a type that stands for that arm's. -/
theorem ifOperand_eq_ok {other : Operand}
    (passed : (ifOperand ctx loc value other default).1 = .ok result) :
    (value.diverges = false → result.diverges = false ∧ result.ty = value.ty) ∧
      (other.diverges = false → result.diverges = false ∧ other.ty.coercesTo result.ty = true) := by
  unfold ifOperand at passed
  cases first : value.diverges <;> cases second : other.diverges <;>
    simp only [first, second, Bool.and_self, Bool.false_eq_true, if_true, if_false, Bool.and_false,
      Bool.false_and] at passed
  · split at passed
    · rename_i coerces
      obtain rfl := Except.ok.inj passed
      exact ⟨fun _ => ⟨rfl, rfl⟩, fun _ => ⟨rfl, coerces⟩⟩
    · cases passed
  · obtain rfl := Except.ok.inj passed
    exact ⟨fun _ => ⟨rfl, rfl⟩, by rintro ⟨⟩⟩
  · obtain rfl := Except.ok.inj passed
    exact ⟨by rintro ⟨⟩, fun _ => ⟨rfl, Ty.coercesTo_iff.mpr (Or.inl rfl)⟩⟩
  · exact ⟨by rintro ⟨⟩, by rintro ⟨⟩⟩

end Answers

/-! ### What is in scope after an expression -/

/-- As many bindings are in scope after a check as before it. -/
def Closes (x : Bare α) : Prop :=
  ∀ o a after, x o = some (a, after) → after.decls.length = o.decls.length

namespace Closes

theorem bind {x : Bare α} {y : α → Bare β} (first : Closes x) (next : ∀ a, Closes (y a)) :
    Closes (x >>= y) := fun _ _ _ passed => by
  obtain ⟨a, mid, begins, ends⟩ := bind_eq_some.mp passed
  exact (next a _ _ _ ends).trans (first _ _ _ begins)

theorem of_reads {x : Bare α} (reads : Reads x) : Closes x := fun _ _ _ passed => by
  rw [reads _ _ _ passed]

theorem pure (a : α) : Closes (pure a : Bare α) := of_reads (.pure a)

theorem answer (x : Check α) : Closes (Bare.answer x) := fun _ _ _ passed => by
  rw [(answer_eq_some passed).2]

theorem mark (change : Marks → Marks) : Closes (Bare.mark change) := fun _ _ _ passed => by
  obtain ⟨-, rfl⟩ := Prod.mk.inj (Option.some.inj passed)
  rfl

theorem refuse : Closes (Bare.refuse : Bare α) := fun _ _ _ passed => by cases passed

theorem orSkip {x : Bare α} (inner : Closes x) : Closes (Bare.orSkip x) := fun o _ _ passed => by
  obtain ⟨result, passes, same⟩ := Option.bind_eq_some_iff.mp passed
  obtain ⟨-, rfl⟩ := Prod.mk.inj (Option.some.inj same)
  exact inner o result.1 result.2 passes

theorem fork {x y : Bare Operand} (first : Closes x) (other : Closes y) :
    Closes (Bare.fork x y) := fun o _ _ passed => by
  obtain ⟨⟨a, mid⟩, passes, passed⟩ := Option.bind_eq_some_iff.mp passed
  obtain ⟨⟨b, last⟩, passesOther, same⟩ := Option.bind_eq_some_iff.mp passed
  obtain ⟨-, rfl⟩ := Prod.mk.inj (Option.some.inj same)
  exact (other _ b last passesOther).trans (first o a mid passes)

/-- What is declared inside of a scope is not there after it. -/
theorem inScope {x : Bare α} (regular : Regular x) : Closes (Bare.inScope x) :=
  fun o _ _ passed => by
    obtain ⟨result, passes, same⟩ := Option.bind_eq_some_iff.mp passed
    obtain ⟨-, rfl⟩ := Prod.mk.inj (Option.some.inj same)
    have length := (regular.grows passes).length
    simp only [Outline.cut, List.length_take]
    omega

end Closes

variable (ctx : Checker.Context)

theorem usePlace_closes (spot : Spot) : Closes (usePlace spot) := by
  refine (Closes.of_reads (.typeOf spot)).bind fun ty => ?_
  split
  · exact (Closes.of_reads (.ensure _)).bind fun _ => .pure _
  · exact (Closes.of_reads (.ensure _)).bind fun _ => (Closes.mark _).bind fun _ => .pure _

theorem borrowPlace_reads (spot : Spot) (isMut : Bool) : Reads (borrowPlace spot isMut) := by
  have borrowed := (Reads.ensure (·.Whole spot.level)).bind fun _ =>
    (Reads.typeOf spot).bind fun ty => .pure { ty := .ref isMut ty : Operand }
  unfold borrowPlace
  split
  · exact (Reads.ensure _).bind fun _ => borrowed
  · exact borrowed

theorem argument_closes {arg : Expr} {value : Bare Operand} (inner : Closes value) (param : Ty) :
    Closes (argument arg param value) := by
  unfold argument
  split
  · split
    · refine (Closes.of_reads (.placeOf arg)).bind fun spot =>
        (Closes.of_reads (.typeOf spot)).bind fun ty => ?_
      split
      · exact (Closes.of_reads (.ensure _)).bind fun _ =>
          (Closes.of_reads (.ensure _)).bind fun _ => .pure _
      · exact inner
    · exact inner
  · exact inner

theorem block_closes (body : Block) : Closes (block ctx body) := by
  cases body with
  | mk statements tail loc =>
      cases tail with
      | none =>
          rw [block]
          exact .inScope ((stmts_regular statements).bind fun _ => .pure _)
      | some tail =>
          rw [block]
          exact .inScope ((stmts_regular statements).bind fun _ => (expr_regular tail).bind fun _ =>
            .pure _)

mutual

theorem expr_closes : (e : Expr) → Closes (expr ctx e)
  | .literal _ value => by
      rw [expr]
      exact .pure _
  | .name loc ident => by
      rw [expr]
      exact (Closes.of_reads (.placeOf _)).bind usePlace_closes
  | .deref loc operand => by
      rw [expr]
      split
      · exact (Closes.of_reads (.placeOf _)).bind usePlace_closes
      · exact (expr_closes operand).bind fun _ => .answer _
  | .unary loc op operand => by
      rw [expr]
      exact (expr_closes operand).bind fun _ => .answer _
  | .binary loc op left right => by
      rw [expr]
      refine (expr_closes left).bind fun _ => ?_
      split
      · refine (Closes.answer _).bind fun _ => Closes.bind (.orSkip ?_) fun _ => .pure _
        exact (expr_closes right).bind fun _ => .answer _
      · exact (expr_closes right).bind fun _ => .answer _
  | .borrow loc operand isMut => by
      rw [expr]
      split
      · exact (Closes.of_reads (.placeOf _)).bind fun _ => .of_reads (borrowPlace_reads _ _)
      · exact (expr_closes operand).bind fun _ => .pure _
  | .call loc func args => by
      rw [expr]
      refine (Closes.answer _).bind fun signature => (Closes.of_reads (.ensure _)).bind fun _ => ?_
      exact (arguments_closes args signature.params).bind fun _ => .pure _
  | .boxNew loc value => by
      rw [expr]
      exact (expr_closes value).bind fun _ => .pure _
  | .macroCall loc callee template args => by
      rw [expr]
      exact (Closes.answer _).bind fun _ => (shown_closes args).bind fun _ => .pure _
  | .ifElse loc condition thenBlock none => by
      rw [expr]
      refine (expr_closes condition).bind fun _ => (Closes.answer _).bind fun _ => ?_
      exact ((block_closes ctx thenBlock).fork (.pure _)).bind fun _ => .answer _
  | .ifElse loc condition thenBlock (some elseBlock) => by
      rw [expr]
      refine (expr_closes condition).bind fun _ => (Closes.answer _).bind fun _ => ?_
      exact ((block_closes ctx thenBlock).fork (block_closes ctx elseBlock)).bind fun _ => .answer _
  | .block _ body => by
      rw [expr]
      exact block_closes ctx body
  | .ofStmt _ | .ofBlock _ => by
      rw [expr]
      exact .refuse

theorem arguments_closes : (args : List Expr) → (params : List Ty) →
    Closes (arguments ctx args params)
  | [], params => by
      rw [arguments]
      · exact .pure _
      · exact fun arg args param rest impossible => by cases impossible
  | arg :: args, [] => by
      rw [arguments]
      · exact .pure _
      · exact fun arg args param rest _ impossible => by cases impossible
  | arg :: args, param :: params => by
      rw [arguments]
      refine (argument_closes (expr_closes arg) param).bind fun _ => (Closes.answer _).bind ?_
      exact fun _ => arguments_closes args params

theorem shown_closes : (args : List Expr) → Closes (shown ctx args)
  | [] => by
      rw [shown]
      exact .pure _
  | arg :: rest => by
      rw [shown]
      split
      · refine (Closes.of_reads (.placeOf arg)).bind fun _ => Closes.bind ?_ fun _ =>
          shown_closes rest
        exact (Closes.of_reads (.ensure _)).bind fun _ =>
          (Closes.of_reads (.typeOf _)).bind fun _ => .answer _
      · exact (expr_closes arg).bind fun _ => (Closes.answer _).bind fun _ => shown_closes rest

end

end BorrowLang.Moves
