import BorrowLang.Proofs.Extents.Points
import BorrowLang.Proofs.Syntax.Search

/-!
# The names that are mentioned after a statement

While a statement of a block is checked, the names that are mentioned in the statements after it and
in the tail of the block are put before those that are mentioned after the block.
-/

set_option autoImplicit false

namespace BorrowLang.Checker

variable {ctx : Context} {f : FunctionDef} {start s next : State} {stmt : Stmt} {stmts : List Stmt}
  {tailNames : List String} {name : String}

theorem Part.stmt_not_mem_starts {outer : Part} : Part.stmt stmt ∉ outer.starts ctx := by
  unfold Part.starts
  split <;> (try split) <;> simp

theorem Part.stmts_not_mem_starts {outer : Part} :
    Part.stmts tailNames stmts ∉ outer.starts ctx := by
  unfold Part.starts
  split <;> (try split) <;> simp

/-- The statements that are left in a block are checked with the same names live as the block. -/
theorem Visited.block_of_stmts (visited : Visited ctx f start (.stmts tailNames stmts) s) :
    ∃ isBody before tail loc point,
      Visited ctx f start (.block isBody (.mk (before ++ stmts) tail loc)) point ∧
        tailNames = tail.elim [] Expr.names ∧ s.live = point.live := by
  generalize left : Part.stmts tailNames stmts = part at visited
  induction visited generalizing tailNames stmts with
  | body => cases left
  | @within outer inner check point s visited leads passed ih =>
      subst left
      have steady := leads.steady.of_ok passed
      cases leads with
      | start member => exact absurd member Part.stmts_not_mem_starts
      | @moreStmts _ stmt =>
          obtain ⟨isBody, before, tail, loc, point, block, tailed, live⟩ := ih rfl
          refine ⟨isBody, before ++ [stmt], tail, loc, point, ?_, tailed, ?_⟩
          · rwa [List.append_assoc]
          · exact steady.live.trans live
      | @statements isBody _ tail loc =>
          exact ⟨isBody, [], tail, loc, point, visited, rfl, steady.live⟩

/-- A statement is checked as the first one of those that are left in a block. -/
theorem Visited.stmts_of_stmt (visited : Visited ctx f start (.stmt stmt) next) :
    ∃ tailNames rest s, Visited ctx f start (.stmts tailNames (stmt :: rest)) s ∧
      enterNames (namesOfStmts rest ++ tailNames) s = (.ok (), next) := by
  cases visited with
  | within visited leads passed =>
      cases leads with
      | start member => exact absurd member Part.stmt_not_mem_starts
      | stmt => exact ⟨_, _, _, visited, passed⟩

/-- The name is mentioned after a statement: in those that follow it in its block, or in the tail. -/
def MentionedAfter (rest : List Stmt) (tail : Option Expr) (name : String) : Prop :=
  (∃ stmt ∈ rest, (Node.stmt stmt).Mentions name) ∨ ∃ e ∈ tail, (Node.expr e).Mentions name

theorem mem_later_iff {rest : List Stmt} {tail : Option Expr} :
    name ∈ namesOfStmts rest ++ tail.elim [] Expr.names ↔ MentionedAfter rest tail name := by
  simp only [List.mem_append, mem_namesOfStmts, MentionedAfter, ← Node.mem_names_iff, Node.names]
  cases tail <;> simp

/-- Searches for names come to their end, and find what is mentioned; just those names are collected
from expressions, statements and blocks.  While a statement is checked, and until the borrows end
that it leaves, the names that are mentioned after it come first among those that count as live. -/
theorem names_eq_mentions :
    (∀ fields : List Field, (∃ found, Search.Ends { pending := fields.reverse } found) ∧
      ∀ found, Search.Ends { pending := fields.reverse } found →
        ∀ name, name ∈ found ↔ ∃ field ∈ fields, field.Mentions name) ∧
    (∀ (e : Expr) (name : String), name ∈ e.names ↔ (Node.expr e).Mentions name) ∧
    (∀ (stmt : Stmt) (name : String), name ∈ stmt.names ↔ (Node.stmt stmt).Mentions name) ∧
    (∀ (b : Block) (name : String), name ∈ b.names ↔ (Node.block b).Mentions name) ∧
    ∀ (ctx : Context) (f : FunctionDef) (start next : State) (stmt : Stmt),
      Visited ctx f start (.stmt stmt) next → ∃ isBody before rest tail loc point s later,
        Visited ctx f start (.block isBody (.mk (before ++ stmt :: rest) tail loc)) point ∧
        Visited ctx f start (.stmts (tail.elim [] Expr.names) (stmt :: rest)) s ∧
        s.live = point.live ∧ enterNames later s = (.ok (), next) ∧
        (∀ name, name ∈ later ↔ MentionedAfter rest tail name) ∧
        Passes (checkStmt (ctx.within f) stmt) next fun _ after => after.live = next.live := by
  refine ⟨fun fields => ⟨Search.exists_ends _, fun _ ends _ => ends.mem_iff_mentions⟩,
    fun e _ => @Node.mem_names_iff (.expr e) _, fun stmt _ => @Node.mem_names_iff (.stmt stmt) _,
    fun b _ => @Node.mem_names_iff (.block b) _, fun ctx f start next stmt visited => ?_⟩
  obtain ⟨tailNames, rest, s, left, entered⟩ := visited.stmts_of_stmt
  obtain ⟨isBody, before, tail, loc, point, block, rfl, live⟩ := left.block_of_stmts
  exact ⟨isBody, before, rest, tail, loc, point, s, _, block, left, live, entered,
    fun _ => mem_later_iff, (stmt_steady stmt next).mono fun _ _ steady => steady.live⟩

/-! ### Names deep in a function -/

/-- The statement `let x: Box<i32> = f(&a, *b);`. -/
def bindsCall : Stmt :=
  .letVar none "x" (some (.mk "Box" [.mk "i32" []]))
    (some (.call none "f" [.borrow none (.name none "a") false, .deref none (.name none "b")]))
    false

/-- The statement `while c { println!("{}", d); { e = 1; } }`. -/
def loopsOver : Stmt :=
  .whileLoop none (.name none "c")
    (.mk [.expr none (.macroCall none "println" "\x7b\x7d" [.name none "d"])]
      (some (.block none
        (.mk [.assign none (.name none "e") (.literal none (.int 1)) none] none none))) none)

def bindsThenLoops : FunctionDef :=
  { name := "main", params := [], returnType := none, loc := none
    body := .mk [bindsCall, loopsOver] none none }

/-- In the first statement `a` and `b` are mentioned, and neither `f` nor `x`; after it `e` is
mentioned, and `a` is not. -/
theorem names_eq_mentions_nested :
    (∃ found, Search.Ends { pending := [.stmt bindsCall] } found ∧
      "a" ∈ found ∧ "b" ∈ found ∧ "f" ∉ found ∧ "x" ∉ found) ∧
    ∃ s next rest tail later, Visited {} bindsThenLoops {} (.stmt bindsCall) next ∧
      Visited {} bindsThenLoops {} (.stmts (tail.elim [] Expr.names) (bindsCall :: rest)) s ∧
      enterNames later s = (.ok (), next) ∧
      MentionedAfter rest tail "e" ∧ ¬ MentionedAfter rest tail "a" := by
  obtain ⟨search, -, inStmt, -, inBlock⟩ := names_eq_mentions
  constructor
  · obtain ⟨⟨found, ends⟩, finds⟩ := search [.stmt bindsCall]
    have names : ∀ name, name ∈ found ↔ name ∈ bindsCall.names := by simp [finds found ends, inStmt]
    refine ⟨found, ends, ?_⟩
    simp only [names]
    decide +kernel
  · have body : Visited {} bindsThenLoops {} _ _ := .body (eq_ok_of_toBool (by decide +kernel))
    have whole := body.within .statements (eq_ok_of_toBool (by decide +kernel))
    have first := whole.within .stmt (eq_ok_of_toBool (by decide +kernel))
    obtain ⟨_, _, rest, tail, _, _, s, later, -, left, -, entered, after, -⟩ :=
      inBlock _ _ _ _ _ first
    have scopes := congrArg (·.2.live.scopes.head?) entered
    obtain rfl : later = loopsOver.names := Option.some.inj (scopes.trans (by decide +kernel))
    refine ⟨s, _, rest, tail, _, first, left, entered, (after "e").mp ?_, mt (after "a").mpr ?_⟩
    all_goals decide +kernel

end BorrowLang.Checker
