import BorrowLang.Proofs.Extents.Points
import BorrowLang.Proofs.Tracking.Release

/-!
# Borrows last until the last statement that mentions their holder

At the end of a statement and at the end of a block the borrows end that no later mention needs.  The
binding that has held one of them is not mentioned in a later statement of a block around that point,
nor in its tail, nor in a loop around it.
-/

set_option autoImplicit false

namespace BorrowLang

/-- A borrow that is released was held by a binding that does not count as live. -/
theorem Tracker.exists_holder_of_released {t : Tracker} {arena : Arena} {isLive : PlaceId → Bool}
    {record : BorrowRecord} (active : record ∈ t.borrows)
    (released : record ∉ (t.releaseDead arena isLive).1.borrows) :
    ∃ holder, record.holder = some holder ∧ isLive holder = false := by
  have needed := (t.isLeast_releaseDead arena isLive).1
  cases held : record.holder with
  | none => exact absurd (needed.temporary record active held) released
  | some holder =>
      refine ⟨holder, rfl, (Bool.not_eq_true _).mp fun live => ?_⟩
      exact released (needed.live record active holder held live)

theorem LiveNames.contains_iff {live : LiveNames} {name : String} :
    live.contains name = true ↔ name ∈ live.scopes.flatten := by
  simp [LiveNames.contains]

namespace Checker

variable {ctx : Context} {s point : State}

/-- A part is checked up to a point where the borrows end that no later mention needs; these names are
mentioned in what the part has after it. -/
inductive Part.Releases (ctx : Context) : Part → Check Unit → List (List String) → Prop
  | statement {tailNames : List String} {stmt : Stmt} {rest : List Stmt} :
      Releases ctx (.stmts tailNames (stmt :: rest)) (do
        enterNames (namesOfStmts rest ++ tailNames)
        let _ ← checkStmt ctx stmt
        modifyTracker (·.endTemporaries [])) [namesOfStmts rest ++ tailNames]
  | body {isBody : Bool} {stmts : List Stmt} {loc : Option Position} :
      Releases ctx (.block isBody (.mk stmts none loc)) (do
        beginBlock
        let _ ← checkStmts ctx [] stmts
        modifyTracker (·.endTemporaries [])) []
  | tailed {isBody : Bool} {stmts : List Stmt} {tail : Expr} {loc : Option Position} :
      Releases ctx (.block isBody (.mk stmts (some tail) loc)) (do
        beginBlock
        let _ ← checkStmts ctx tail.names stmts
        let value ← checkExpr ctx tail
        if isBody then checkEscape ctx value.loans tail.loc false
        modifyTracker (·.endTemporaries value.loans)) []

theorem releaseUnused_eq (s : State) : ∃ log, releaseUnused s =
    (.ok (), { s with tracker := (s.tracker.releaseDead s.arena s.isLive).1, log }) := by
  have ran : releaseUnused s =
      (if !(s.tracker.releaseDead s.arena s.isLive).2.isEmpty then
        note (.released (s.tracker.releaseDead s.arena s.isLive).2.length)
      else pure () : Check Unit)
        { s with tracker := (s.tracker.releaseDead s.arena s.isLive).1 } := rfl
  rw [ran]
  split
  · exact ⟨_, rfl⟩
  · exact ⟨_, rfl⟩

namespace Part.Releases

variable {part : Part} {before : Check Unit} {names : List (List String)}

/-- At such a point the check of the part goes on as the borrows end. -/
theorem check_eq (releases : part.Releases ctx before names)
    (nll : ctx.settings.lexical = false) : ∃ release next : Check Unit,
      part.check ctx = (do
        before
        release
        next) ∧
      ∀ s, ∃ log, release s =
        (.ok (), { s with tracker := (s.tracker.releaseDead s.arena s.isLive).1, log }) := by
  have quietly : ∀ s : State, ∃ log,
      (modify fun s => { s with tracker := (s.tracker.releaseDead s.arena s.isLive).1 } :
        Check Unit) s =
        (.ok (), { s with tracker := (s.tracker.releaseDead s.arena s.isLive).1, log }) :=
    fun s => ⟨s.log, rfl⟩
  cases releases with
  | @statement tailNames stmt rest =>
      refine ⟨releaseUnused, do exitNames; (Part.stmts tailNames rest).check ctx, ?_,
        releaseUnused_eq⟩
      simp [check, checkStmts, endStatement_eq, nll, bind_assoc]
  | @body isBody stmts loc =>
      refine ⟨_, closeScope ctx loc, ?_, quietly⟩
      simp [check, checkBlock, endBlock_eq, nll, bind_assoc]
  | @tailed isBody stmts tail loc =>
      refine ⟨_, closeScope ctx loc, ?_, quietly⟩
      cases isBody
      · simp [check, checkBlock, endBlock_eq, nll, bind_assoc]
      · simp [check, checkBlock, endBlock_eq, nll, bind_assoc]

/-- Up to such a point just the names are announced that are mentioned after it. -/
theorem live (releases : part.Releases ctx before names) :
    Passes before s fun _ after => after.live.scopes = names ++ s.live.scopes := by
  cases releases with
  | @statement tailNames stmt rest =>
      simp only [enterNames, modifyTracker, meets_bind, meets_modify]
      refine (stmt_steady stmt _).mono fun _ after steady => ?_
      rw [steady.live]
      rfl
  | @body isBody stmts =>
      simp only [beginBlock, modifyTracker, meets_bind, meets_modify]
      refine (stmts_steady stmts [] _).mono fun _ after steady => ?_
      rw [steady.live]
      rfl
  | @tailed isBody stmts tail =>
      simp only [beginBlock, modifyTracker, meets_bind, meets_modify]
      refine (stmts_steady stmts tail.names _).mono fun _ mid steady => ?_
      refine (expr_around tail mid).mono ?_
      rintro value after ⟨around, -⟩
      have same : after.live.scopes = s.live.scopes := by rw [around.live, steady.live]
      split
      · rw [meets_bind]
        refine (checkEscape_passes value.loans tail.loc false).mono ?_
        rintro - _ rfl
        exact same
      · exact same

end Part.Releases

/-- Where the borrows end that no later mention needs, each of them was held by a binding whose name is
mentioned neither in a later statement of a block around that point, nor in the tail of one, nor in a
loop around it. -/
theorem released_unmentioned {f : FunctionDef} {start : State} {part : Part} {before : Check Unit}
    {around names : List (List String)} (announced : Announced ctx f start around part s)
    (releases : part.Releases (ctx.within f) before names) (passed : before s = (.ok (), point)) :
    ∀ record ∈ point.tracker.borrows,
      record ∉ (point.tracker.releaseDead point.arena point.isLive).1.borrows →
      ∃ holder, record.holder = some holder ∧
        point.arena.name holder ∉ (names ++ around).flatten := by
  intro record active released
  obtain ⟨holder, held, dead⟩ := Tracker.exists_holder_of_released active released
  refine ⟨holder, held, fun mentioned => ?_⟩
  have live : point.isLive holder = true := by
    rw [State.isLive, LiveNames.contains_iff, releases.live.of_ok passed, announced.live]
    exact mentioned
  rw [live] at dead
  simp at dead

/-! ### An operand -/

def firstStmt : Stmt := .expr none (.literal none (.int 1))

def assignsA : Stmt := .assign none (.name none "a") (.literal none (.int 2)) none

/-- A block that assigns to `a` on the way to its value. -/
def assignsFirst : Expr :=
  .block none (.mk [firstStmt, assignsA] (some (.literal none (.int 3))) none)

/-- What `r` points at. -/
def pointee : Expr := .deref none (.name none "r")

def sumWithPointee : Expr := .binary none (.arith .add) assignsFirst pointee

/-- A function that borrows `a` in `r`, and shows the sum of the block and of what `r` points at. -/
def addsPointee : FunctionDef :=
  { name := "main", params := [], returnType := none, loc := none
    body := .mk [.letVar none "a" none (some (.literal none (.int 1))) true,
      .letVar none "r" none (some (.borrow none (.name none "a") true)) false,
      .expr none (.call none "displayi32" [sumWithPointee])] none none }

/-- What is checked in the block up to the end of its first statement. -/
def afterFirst (ctx : Context) : Check Unit := do
  enterNames (namesOfStmts [assignsA] ++ [])
  let _ ← checkStmt ctx firstStmt
  modifyTracker (·.endTemporaries [])

/-- At the end of the first statement the borrow that `r` holds is released. -/
theorem addsPointee_releases : ∃ s next around,
    let ctx := Context.within {} addsPointee
    let point := (afterFirst ctx next).2
    Visited {} addsPointee {} (.expr sumWithPointee) s ∧
      Visited {} addsPointee {} (.expr pointee) ((Part.expr assignsFirst).check ctx s).2 ∧
      beginBlock s = (.ok (), next) ∧
      Announced {} addsPointee {} around (.stmts [] [firstStmt, assignsA]) next ∧
      (afterFirst ctx next).1.toBool = true ∧
      point.tracker.borrows.map (·.holder) = [some 1] ∧
      (point.tracker.releaseDead point.arena point.isLive).1.borrows.length = 0 ∧
      point.arena.name 1 = "r" := by
  have body : Announced {} addsPointee {} _ _ _ := .body (eq_ok_of_toBool (by decide +kernel))
  have stmts := body.within .statements (eq_ok_of_toBool (by decide +kernel))
  have second := stmts.within .moreStmts (eq_ok_of_toBool (by decide +kernel))
  have third := second.within .moreStmts (eq_ok_of_toBool (by decide +kernel))
  have stmt := third.within .stmt (eq_ok_of_toBool (by decide +kernel))
  have call := stmt.within (.start List.mem_cons_self) rfl
  have args := call.within (.start List.mem_cons_self) rfl
  have sum := args.within .arg (eq_ok_of_toBool (by decide +kernel))
  have left := sum.within (.start List.mem_cons_self) rfl
  have block := left.within (.start List.mem_cons_self) rfl
  have inner := block.within .statements (eq_ok_of_toBool (by decide +kernel))
  have right := sum.within .right (eq_ok_of_toBool (by decide +kernel))
  refine ⟨_, _, _, sum.visited, right.visited, rfl, inner, ?_, ?_, ?_, ?_⟩
  all_goals decide +kernel

/-- There `r` is not mentioned in any later statement. -/
theorem released_unmentioned_r : ∃ next around point record holder,
    Announced {} addsPointee {} around (.stmts [] [firstStmt, assignsA]) next ∧
      afterFirst (Context.within {} addsPointee) next = (.ok (), point) ∧
      record ∈ point.tracker.borrows ∧
      record ∉ (point.tracker.releaseDead point.arena point.isLive).1.borrows ∧
      record.holder = some holder ∧ point.arena.name holder = "r" ∧
      point.arena.name holder ∉ ([namesOfStmts [assignsA] ++ []] ++ around).flatten := by
  obtain ⟨s, next, around, -, -, -, announced, passed, holders, released, named⟩ :=
    addsPointee_releases
  obtain ⟨record, borrows, held⟩ := List.map_eq_singleton_iff.mp holders
  have active := borrows ▸ List.mem_singleton_self record
  have gone := List.length_eq_zero_iff.mp released ▸ List.not_mem_nil (a := record)
  obtain ⟨holder, isHeld, unmentioned⟩ :=
    released_unmentioned announced .statement (eq_ok_of_toBool passed) record active gone
  obtain rfl := Option.some.inj (held.symm.trans isHeld)
  exact ⟨next, around, _, record, 1, announced, eq_ok_of_toBool passed, active, gone, held, named,
    unmentioned⟩

/-- But it is mentioned in the second operand of the sum that the block stands in, and that operand is
checked after the block. -/
theorem released_before_operand : ∃ s next point record holder,
    let ctx := Context.within {} addsPointee
    Visited {} addsPointee {} (.expr sumWithPointee) s ∧
      Visited {} addsPointee {} (.expr pointee) ((Part.expr assignsFirst).check ctx s).2 ∧
      beginBlock s = (.ok (), next) ∧
      (Part.stmts [] [firstStmt, assignsA]).Releases ctx (afterFirst ctx)
        [namesOfStmts [assignsA] ++ []] ∧
      afterFirst ctx next = (.ok (), point) ∧
      record ∈ point.tracker.borrows ∧
      record ∉ (point.tracker.releaseDead point.arena point.isLive).1.borrows ∧
      record.holder = some holder ∧ point.arena.name holder ∈ pointee.names := by
  obtain ⟨s, next, around, sum, right, begun, -, passed, holders, released, named⟩ :=
    addsPointee_releases
  obtain ⟨record, borrows, held⟩ := List.map_eq_singleton_iff.mp holders
  have active := borrows ▸ List.mem_singleton_self record
  have gone := List.length_eq_zero_iff.mp released ▸ List.not_mem_nil (a := record)
  refine ⟨s, next, _, record, 1, sum, right, begun, .statement, eq_ok_of_toBool passed, active, gone,
    held, ?_⟩
  exact named ▸ List.mem_singleton_self "r"

end Checker

end BorrowLang
