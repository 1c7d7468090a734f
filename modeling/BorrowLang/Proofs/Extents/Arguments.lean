import BorrowLang.Proofs.Extents.Points

/-!
# How long the borrows of an argument last

A call carries every borrow that one of its arguments carries, if its result can carry any.  Whether
such a borrow is still there when the call has been checked is seen from the later arguments: each of
them has to spare the borrows from before it.
-/

set_option autoImplicit false

namespace BorrowLang

theorem Tracker.active_iff {t : Tracker} {id : BorrowId} :
    t.Active id ↔ id ∈ t.borrows.map (·.id) := List.mem_map.symm

namespace Checker

variable {ctx : Context} {s mid after : State} {earlier later : List Expr} {arg : Expr}

/-! ### Values of calls -/

theorem mem_unionLoans {loans others : List BorrowId} {id : BorrowId} :
    id ∈ unionLoans loans others ↔ id ∈ loans ∨ id ∈ others := by
  rw [unionLoans, List.mem_append, List.mem_filter]
  by_cases first : id ∈ loans <;> simp [first]

theorem mem_unionAll {loans : List (List BorrowId)} {id : BorrowId} :
    id ∈ unionAll loans ↔ ∃ carried ∈ loans, id ∈ carried := by
  suffices known : ∀ start, id ∈ loans.foldl unionLoans start ↔
      id ∈ start ∨ ∃ carried ∈ loans, id ∈ carried by
    exact (known []).trans (or_iff_right List.not_mem_nil)
  induction loans with
  | nil => simp
  | cons first rest ih =>
      intro start
      rw [List.foldl_cons, ih, mem_unionLoans, List.exists_mem_cons_iff, or_assoc]

/-- A result that can carry borrows carries those of each argument. -/
theorem callOperand_loans {result : Ty} (hasRef : result.hasRef = true)
    {loans : List (List BorrowId)} {carried : List BorrowId} (member : carried ∈ loans) :
    ∀ id ∈ carried, id ∈ (callOperand result loans).loans := by
  intro id isCarried
  simp only [callOperand, hasRef, if_true]
  exact mem_unionAll.mpr ⟨carried, member, isCarried⟩

/-! ### Arguments after one another -/

/-- An argument of a call after the earlier ones. -/
def checkUpTo (ctx : Context) (earlier : List Expr) (arg : Expr) (params : List Ty) (param : Ty) :
    Check Operand := do
  let _ ← checkArgs ctx earlier params
  checkArg ctx arg param

/-- How a check of arguments has gone up to one of them, and how it has gone on from there. -/
structure ReachedArg (ctx : Context) (earlier : List Expr) (arg : Expr) (later : List Expr)
    (params : List Ty) (s : State) (operand : Operand) (mid after : State) : Prop where
  checked : ∃ param, params[earlier.length]? = some param ∧
    checkUpTo ctx earlier arg params param s = (.ok operand, mid)
  numbered : mid.Numbered
  around : Around (allSpare later) mid after

/-- What is known of the end of a check that passes is known of the state that it has come to. -/
theorem Passes.ended {α : Type} {x : Check α} {ok : α → State → Prop} (passes : Passes x s ok) :
    Passes x s fun a after => x s = (.ok a, after) ∧ ok a after := by
  unfold Passes Meets at *
  cases ran : x s with
  | mk result after =>
      rw [ran] at passes
      cases result with
      | ok a => exact ⟨rfl, passes⟩
      | error fault => trivial

theorem args_reached (earlier : List Expr) (arg : Expr) (later : List Expr) {params : List Ty}
    (arity : (earlier ++ arg :: later).length = params.length) (numbered : s.Numbered) :
    Passes (checkArgs ctx (earlier ++ arg :: later) params) s fun loans after =>
      ∃ operand mid, ReachedArg ctx earlier arg later params s operand mid after ∧
        operand.loans ∈ loans := by
  induction earlier generalizing s params with
  | nil =>
      cases params with
      | nil => simp at arity
      | cons param params =>
          rw [List.nil_append, checkArgs_cons]
          simp only [meets_bind, meets_pure]
          refine (checkArg_around (expr_around arg) param).ended.mono ?_
          rintro operand mid ⟨ran, around, -⟩
          refine (args_around later params mid (Nat.succ.inj arity)).mono ?_
          rintro loans after ⟨rest, -⟩
          refine ⟨operand, mid, ⟨⟨param, rfl, ?_⟩, around.numbered numbered, rest⟩,
            List.mem_cons_self⟩
          rw [checkUpTo, checkArgs_nil, pure_bind]
          exact ran
  | cons first earlier ih =>
      cases params with
      | nil => simp at arity
      | cons param params =>
          rw [List.cons_append, checkArgs_cons]
          simp only [meets_bind, meets_pure]
          refine (checkArg_around (expr_around first) param).ended.mono ?_
          rintro value between ⟨ran, around, -⟩
          refine (ih (Nat.succ.inj arity) (around.numbered numbered)).mono ?_
          rintro loans after ⟨operand, mid, ⟨⟨its, isIts, checked⟩, given, rest⟩, member⟩
          refine ⟨operand, mid, ⟨⟨its, isIts, ?_⟩, given, rest⟩, List.mem_cons_of_mem _ member⟩
          rw [checkUpTo, checkArgs_cons, bind_assoc, run_bind, ran]
          simp only [bind_assoc, pure_bind]
          exact checked

/-- The check of a call goes through each of its arguments. -/
theorem call_reached (loc : Option Position) (func : String) (numbered : s.Numbered) :
    Passes (checkExpr ctx (.call loc func (earlier ++ arg :: later))) s fun value after =>
      ∃ signature operand mid, ctx.callable? func = some signature ∧
        ReachedArg ctx earlier arg later signature.params s operand mid after ∧
        (signature.result.hasRef = true → ∀ id ∈ operand.loans, id ∈ value.loans) := by
  simp only [checkExpr, meets_bind]
  refine (signatureOf_same loc func).mono ?_
  rintro signature _ ⟨rfl, callable⟩
  split
  · trivial
  · rename_i arity
    simp only [meets_bind, meets_pure]
    refine (args_reached earlier arg later (Decidable.not_not.mp arity) numbered).mono ?_
    rintro loans last ⟨operand, mid, reached, member⟩
    refine (storeArguments_around loans _).mono fun _ after stored => ?_
    exact ⟨signature, operand, mid, callable,
      ⟨reached.checked, reached.numbered, reached.around.spare stored⟩,
      fun hasRef => callOperand_loans hasRef member⟩

/-- The result of a call carries the borrows of each argument, if it can carry any.  A borrow that an
argument carries is still there when the call has been checked if the later arguments spare it; and only
then, if no binding holds it. -/
theorem argument_extent {f : FunctionDef} {start : State} {loc : Option Position} {func : String}
    (earlier : List Expr) (arg : Expr) (later : List Expr) {value : Operand}
    (visited : Visited ctx f start (.expr (.call loc func (earlier ++ arg :: later))) s)
    (checked : checkExpr (ctx.within f) (.call loc func (earlier ++ arg :: later)) s =
      (.ok value, after)) :
    ∃ signature param operand mid, (ctx.within f).callable? func = some signature ∧
      signature.params[earlier.length]? = some param ∧
      checkUpTo (ctx.within f) earlier arg signature.params param s = (.ok operand, mid) ∧
      (signature.result.hasRef = true → ∀ id ∈ operand.loans, id ∈ value.loans) ∧
      ∀ id ∈ operand.loans, mid.tracker.Active id →
        (allSpare later = true → after.tracker.Active id) ∧
        (mid.tracker.Unheld id → (after.tracker.Active id ↔ allSpare later = true)) := by
  obtain ⟨signature, operand, mid, callable, ⟨⟨param, isParam, upTo⟩, numbered, around⟩, carried⟩ :=
    Passes.of_ok (call_reached loc func visited.numbered) checked
  refine ⟨signature, param, operand, mid, callable, isParam, upTo, carried, ?_⟩
  intro id member active
  refine ⟨fun spare => around.kept spare id active, fun unheld => ⟨fun still => ?_, fun spare =>
    around.kept spare id active⟩⟩
  obtain ⟨record, there, rfl⟩ := active
  have temporary : mid.Temporary record.id := ⟨numbered record there, unheld⟩
  exact (Bool.not_eq_false _).mp fun ends => around.ended ends record.id temporary still

/-- The parameters of a function that borrows a box and takes a number and another box. -/
def lenderParams : List Ty := [.ref false (.box .i32), .i32, .box .i32]

def lendsContext : Context :=
  { settings := default
    functions := [("f", { params := lenderParams, result := .unit }),
      ("main", { params := [], result := .unit })] }

/-- A borrow of `b`. -/
def lent : Expr := .borrow none (.name none "b") false

def literalOne : Expr := .literal none (.int 1)

/-- The literal is the tail of a block. -/
def oneInBlock : Expr := .block none (.mk [] (some literalOne) none)

/-- The arguments of two calls, the first ones a number and a new box after the borrow. -/
def lendsOnce : List Expr := [literalOne, .boxNew none literalOne]

/-- The number is in a block, and the box is given away. -/
def lendsAndGives : List Expr := [oneInBlock, .name none "b"]

/-- A function that binds a box to `b` and lends it in two calls. -/
def lends : FunctionDef :=
  { name := "main", params := [], returnType := none, loc := none
    body := .mk [.letVar none "b" none (some (.boxNew none literalOne)) false,
      .expr none (.call none "f" (lent :: lendsOnce)),
      .expr none (.call none "f" (lent :: lendsAndGives))] none none }

/-- The check has come to a value of which this is known. -/
theorem exists_of_toOption {α β : Type} {x : Check α} {part : α → β} {b : β}
    (known : (x s).1.toOption.map part = some b) : ∃ a, x s = (.ok a, (x s).2) ∧ part a = b := by
  cases ended : x s with
  | mk result after =>
      rw [ended] at known
      cases result with
      | ok a => exact ⟨a, rfl, Option.some.inj known⟩
      | error fault => simp [Except.toOption] at known

/-- The first argument of a call carries one borrow, and some borrows are left after the call. -/
def LendsAt (later : List Expr) (id : BorrowId) (left : List BorrowId) (s : State) : Prop :=
  let ctx := lendsContext.within lends
  let upTo := checkUpTo ctx [] lent lenderParams (.ref false (.box .i32)) s
  let call := checkExpr ctx (.call none "f" (lent :: later)) s
  upTo.1.toOption.map (·.loans) = some [id] ∧ upTo.2.tracker.borrows.map (·.id) = [id] ∧
    call.1.toOption.map (·.loans) = some [] ∧ call.2.tracker.borrows.map (·.id) = left

theorem lends_calls : ∃ s next,
    Visited lendsContext lends {} (.expr (.call none "f" (lent :: lendsOnce))) s ∧
      LendsAt lendsOnce 1 [1] s ∧
      Visited lendsContext lends {} (.expr (.call none "f" (lent :: lendsAndGives))) next ∧
      LendsAt lendsAndGives 2 [] next := by
  have body : Visited lendsContext lends {} _ _ := .body (eq_ok_of_toBool (by decide +kernel))
  have stmts := body.within .statements (eq_ok_of_toBool (by decide +kernel))
  have second := stmts.within .moreStmts (eq_ok_of_toBool (by decide +kernel))
  have first := (second.within .stmt (eq_ok_of_toBool (by decide +kernel))).within
    (.start List.mem_cons_self) rfl
  have third := second.within .moreStmts (eq_ok_of_toBool (by decide +kernel))
  have last := (third.within .stmt (eq_ok_of_toBool (by decide +kernel))).within
    (.start List.mem_cons_self) rfl
  refine ⟨_, _, first, ?_, last, ?_⟩
  · exact ⟨by decide +kernel, by decide +kernel, by decide +kernel, by decide +kernel⟩
  · exact ⟨by decide +kernel, by decide +kernel, by decide +kernel, by decide +kernel⟩

theorem LendsAt.runs {later : List Expr} {id : BorrowId} {left : List BorrowId}
    (known : LendsAt later id left s) : ∃ value after operand mid,
      checkExpr (lendsContext.within lends) (.call none "f" (lent :: later)) s =
        (.ok value, after) ∧
      checkUpTo (lendsContext.within lends) [] lent lenderParams (.ref false (.box .i32)) s =
        (.ok operand, mid) ∧
      id ∈ operand.loans ∧ mid.tracker.Active id ∧ (after.tracker.Active id ↔ id ∈ left) := by
  obtain ⟨carried, given, passed, rfl⟩ := known
  obtain ⟨value, checked, -⟩ := exists_of_toOption passed
  obtain ⟨operand, upTo, loans⟩ := exists_of_toOption carried
  refine ⟨value, _, operand, _, checked, upTo, ?_, ?_, Tracker.active_iff⟩
  · exact loans ▸ List.mem_singleton_self id
  · exact Tracker.active_iff.mpr (given ▸ List.mem_singleton_self id)

/-- The borrow of the first argument is there after the first call. -/
theorem argument_extent_lends : ∃ s value after operand mid,
    Visited lendsContext lends {} (.expr (.call none "f" (lent :: lendsOnce))) s ∧
      checkExpr (lendsContext.within lends) (.call none "f" (lent :: lendsOnce)) s =
        (.ok value, after) ∧
      checkUpTo (lendsContext.within lends) [] lent lenderParams (.ref false (.box .i32)) s =
        (.ok operand, mid) ∧
      1 ∈ operand.loans ∧ mid.tracker.Active 1 ∧ after.tracker.Active 1 := by
  obtain ⟨s, -, visited, known, -⟩ := lends_calls
  obtain ⟨value, after, operand, mid, checked, upTo, member, active, -⟩ := known.runs
  obtain ⟨signature, param, same, between, callable, isParam, again, -, each⟩ :=
    argument_extent [] lent lendsOnce visited checked
  obtain rfl := Option.some.inj callable
  obtain rfl := Option.some.inj isParam
  obtain ⟨isSame, rfl⟩ := Prod.mk.inj (upTo.symm.trans again)
  obtain rfl := Except.ok.inj isSame
  exact ⟨s, value, after, operand, mid, visited, checked, upTo, member, active,
    (each 1 member active).1 rfl⟩

/-- In the second call the borrow of the first argument has ended with the block, and the box that it
borrows is given away. -/
theorem argument_extent_ended : ∃ s value after operand mid,
    Visited lendsContext lends {} (.expr (.call none "f" (lent :: lendsAndGives))) s ∧
      checkExpr (lendsContext.within lends) (.call none "f" (lent :: lendsAndGives)) s =
        (.ok value, after) ∧
      checkUpTo (lendsContext.within lends) [] lent lenderParams (.ref false (.box .i32)) s =
        (.ok operand, mid) ∧
      2 ∈ operand.loans ∧ mid.tracker.Active 2 ∧ ¬ after.tracker.Active 2 := by
  obtain ⟨-, s, -, -, visited, known⟩ := lends_calls
  obtain ⟨value, after, operand, mid, checked, upTo, member, active, left⟩ := known.runs
  exact ⟨s, value, after, operand, mid, visited, checked, upTo, member, active,
    fun still => List.not_mem_nil (left.mp still)⟩

end Checker

end BorrowLang
