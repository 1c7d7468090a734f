import BorrowLang.Proofs.Accepted
import BorrowLang.Proofs.Lifetimes.Statements
import BorrowLang.Proofs.Typing.Program

/-!
# The strict lifetimes

With lexical lifetimes, a borrow that a binding holds lasts until the binding leaves its scope.  A
program whose functions are straight-line code, and that passes the check with lexical lifetimes,
passes it with lifetimes that end at the last use.  Blocks inside statements make a difference: at
the end of a statement inside, the names that the statement around it mentions are not known.
-/

set_option autoImplicit false

namespace BorrowLang

/-- The statements of a function, and the value after them, hold no blocks. -/
def FunctionDef.straight (f : FunctionDef) : Bool :=
  Stmt.allObey .flat f.body.statements && Expr.ifAnyObeys .flat f.body.tail

def Program.straight (program : Program) : Bool := program.functions.all FunctionDef.straight

namespace Checker

attribute [local simp] checkBlock

variable {gone : Released} {s t : State} {ctx : Context} {loose : Settings}

/-! ### Leaving scopes -/

/-- The first state knows no borrow that the second does not. -/
structure Within (s t : State) : Prop where
  arena : s.arena = t.arena
  frames : s.tracker.frames = t.tracker.frames
  part : Among s.tracker.borrows t.tracker.borrows

theorem Trails.within (trails : Trails gone s t) : Within s t :=
  ⟨trails.arena, trails.frames, trails.borrows.part⟩

theorem danglingBorrow?_none {mine theirs : Tracker} {arena : Arena} {dying : List PlaceId}
    (among : Among mine.borrows theirs.borrows)
    (free : theirs.danglingBorrow? arena dying = none) : mine.danglingBorrow? arena dying = none := by
  rw [Tracker.danglingBorrow?_eq_none] at free ⊢
  intro record member owned
  obtain ⟨other, inTheirs, unpinned⟩ := among record member
  have place := (BorrowRecord.fields_of_unpinned unpinned).2.1
  rw [← place] at owned ⊢
  exact free other inTheirs owned

/-- A scope that the strict check can leave, the loose one can leave too. -/
theorem Within.popFrame (within : Within s t) {tracker : Tracker} {ids : List BorrowId}
    (popped : t.tracker.popFrame t.arena = (tracker, .ok ids)) :
    ∃ mine own, s.tracker.popFrame s.arena = (mine, .ok own) ∧
      mine.frames = tracker.frames ∧ Among mine.borrows tracker.borrows := by
  unfold Tracker.popFrame at popped ⊢
  rw [within.arena, within.frames]
  split at popped
  · rename_i dying outer rest frames
    have among := within.part.filter (p := fun record => !record.holder.any dying.contains)
      fun _ => rfl
    dsimp only at popped ⊢
    split at popped
    · simp at popped
    · rename_i free
      obtain ⟨rfl, -⟩ := Prod.mk.inj popped
      rw [danglingBorrow?_none among free]
      exact ⟨_, _, rfl, rfl, among⟩
  · simp at popped

/-- The end of a block, on which the strict check does not end borrows of bindings. -/
theorem endBlock_follows (strict : ctx.settings.lexical = true) (within : Within s t)
    (loc : Option Position) (keep : List BorrowId) :
    Follows (endBlock (ctx.under loose) loc keep) (endBlock ctx loc keep) s t
      fun _ s' t' => Within s' t' := by
  -- What the loose check ends first does not matter.
  have left : ∀ {s t : State}, Within s t →
      Follows (closeScope (ctx.under loose) loc) (closeScope ctx loc) s t
        fun _ s' t' => Within s' t' := by
    intro s t within
    unfold closeScope
    refine follows_get _ ?_
    cases popped : t.tracker.popFrame t.arena with
    | mk tracker answer =>
        cases answer with
        | ok ids =>
            obtain ⟨mine, own, poppedMine, frames, among⟩ := within.popFrame popped
            rw [poppedMine]
            exact ⟨_, rfl, within.arena, frames, among⟩
        | error fault => cases fault <;> trivial
  rw [endBlock_eq, endBlock_eq]
  refine follows_modify _ ?_
  have ended : Within { s with tracker := s.tracker.endTemporaries keep }
      { t with tracker := t.tracker.endTemporaries keep } :=
    ⟨within.arena, within.frames, within.part.filter fun _ => rfl⟩
  rw [strict]
  simp only [Bool.not_true, Bool.false_eq_true, if_false]
  by_cases same : loose.lexical = true
  · have same : (ctx.under loose).settings.lexical = true := same
    simp only [same, Bool.not_true, Bool.false_eq_true, if_false]
    exact left ended
  · have differs : (ctx.under loose).settings.lexical = false := Bool.eq_false_iff.mpr same
    simp only [differs, Bool.not_false, if_true]
    refine follows_modify_left _ (left ⟨ended.arena, ended.frames, fun record member => ?_⟩)
    exact ended.part record (List.mem_of_mem_filter member)

/-! ### Bodies -/

theorem unreleased_none (arena : Arena) (names : List String) : Unreleased .none arena names := by
  intro holder released
  simp [Released.none] at released

/-- Both checks enter a scope. -/
theorem beginBlock_follows (trails : Trails gone s t) (ledger : Ledger gone t) :
    Follows beginBlock beginBlock s t fun _ s' t' => Trails gone s' t' ∧ Ledger gone t' := by
  refine ⟨_, rfl, { trails with scopes := ?_, frames := ?_ }, { ledger with bound := ?_ }⟩
  · simp only [trails.scopes]
  · simp only [Tracker.pushFrame, trails.frames]
  · intro scope member
    rcases List.mem_cons.mp member with rfl | old
    · exact fun binding impossible => by simp at impossible
    · exact ledger.bound scope old

/-- The body of a function without blocks in it has the same value on both sides. -/
theorem body_follows (strict : ctx.settings.lexical = true) {body : Block}
    (statementsFlat : Stmt.allObey .flat body.statements = true)
    (tailFlat : Expr.ifAnyObeys .flat body.tail = true) (trails : Trails .none s t)
    (ledger : Ledger .none t) :
    Follows (checkBlock (ctx.under loose) true body) (checkBlock ctx true body) s t
      fun _ s' t' => Within s' t' := by
  obtain ⟨stmts, tail, loc⟩ := body
  have flat : ∀ stmt ∈ stmts, stmt.obeys .flat = true := (Stmt.allObey_iff stmts).mp statementsFlat
  cases tail with
  | none =>
      simp only [checkBlock]
      refine (beginBlock_follows trails ledger).bind ?_
      rintro _ s' t' ⟨trails, ledger⟩
      refine (stmts_follow strict [] flat trails ledger (unreleased_none _ _)).bind ?_
      rintro leaves s' t' ⟨more, trails, -, -⟩
      refine (endBlock_follows strict trails.within loc []).bind fun _ s' t' within => ?_
      exact (follows_pure _ _).mpr within
  | some tail =>
      simp only [checkBlock, if_true]
      refine (beginBlock_follows trails ledger).bind ?_
      rintro _ s' t' ⟨trails, ledger⟩
      refine (stmts_follow strict tail.names flat trails ledger (unreleased_none _ _)).bind ?_
      rintro leaves s' t' ⟨more, trails, ledger, unreleased⟩
      refine (expr_follows tail tailFlat trails ledger unreleased).bind ?_
      rintro value s' t' ⟨along, free⟩
      refine (checkEscape_follows along.trails free tail.loc false).bind ?_
      rintro _ _ _ ⟨rfl, rfl⟩
      refine (endBlock_follows strict along.trails.within loc value.loans).bind
        fun _ s' t' within => ?_
      exact (follows_pure _ _).mpr within

/-! ### Functions -/

theorem bindParams_follows (trails : Trails gone s t) (ledger : Ledger gone t)
    (params : List (Param × Ty)) :
    Follows (bindParams (ctx.under loose) params) (bindParams ctx params) s t
      fun _ s' t' => Trails gone s' t' ∧ Ledger gone t' := by
  induction params generalizing s t with
  | nil => exact (follows_pure _ _).mpr ⟨trails, ledger⟩
  | cons slot rest ih =>
      obtain ⟨param, ty⟩ := slot
      simp only [bindParams]
      refine follows_get _ ?_
      rw [trails.scopes]
      split
      · exact follows_throw _ _ _
      · refine (bind_follows trails ledger param.name (some ty) param.isMut true true).bind ?_
        rintro _ s' t' ⟨onward, -⟩
        exact ih onward.trails onward.ledger

/-- Before the parameters are bound, the two checks know nothing. -/
theorem trails_initial (log log' : List LogEvent) :
    Trails .none { log, tracker := Tracker.pushFrame {} } { log := log', tracker := Tracker.pushFrame {} } ∧
      Ledger .none { log := log', tracker := Tracker.pushFrame {} } := by
  refine ⟨⟨rfl, rfl, rfl, rfl, rfl, rfl, .refl _ _⟩, Arena.linked_empty, ?_, ⟨.nil, ?_⟩, ?_, ?_⟩
  · intro scope member binding inScope
    obtain rfl : scope = [] := by simpa using member
    simp at inScope
  · intro record impossible
    simp [Tracker.pushFrame] at impossible
  · intro holder released
    simp [Released.none] at released
  · intro id released
    simp [Released.none] at released

/-- A function of straight-line code that the strict check allows, the loose one allows too. -/
theorem checkFunction_follows (strict : ctx.settings.lexical = true) {f : FunctionDef}
    (straight : f.straight = true) :
    Follows (checkFunction (ctx.under loose) f) (checkFunction ctx f) s t fun _ _ _ => True := by
  obtain ⟨statementsFlat, tailFlat⟩ := Bool.and_eq_true_iff.mp straight
  have known : (ctx.under loose).signature? f.name = ctx.signature? f.name := rfl
  unfold checkFunction
  rw [known]
  refine follows_modify _ (follows_modify _ ?_)
  generalize (ctx.signature? f.name).getD default = signature
  obtain ⟨trails, ledger⟩ := trails_initial (.checking f.name loose.lifetimes :: s.log)
    (.checking f.name ctx.settings.lifetimes :: t.log)
  refine (bindParams_follows trails ledger _).bind ?_
  rintro _ s' t' ⟨trails, ledger⟩
  have strict : ({ ctx with result := signature.result } : Context).settings.lexical = true := strict
  refine (body_follows strict statementsFlat tailFlat trails ledger).bind ?_
  intro value s' t' within
  split
  · exact follows_throw _ _ _
  · refine follows_get _ ?_
    cases popped : t'.tracker.popFrame t'.arena with
    | mk tracker answer =>
        cases answer with
        | ok ids =>
            obtain ⟨mine, own, poppedMine, -, -⟩ := within.popFrame popped
            rw [poppedMine]
            exact ⟨_, rfl, trivial⟩
        | error fault => cases fault <;> trivial

theorem checkFunctions_follows (strict : ctx.settings.lexical = true) {fs : List FunctionDef}
    (straight : ∀ f ∈ fs, f.straight = true) :
    Follows (checkFunctions (ctx.under loose) fs) (checkFunctions ctx fs) s t fun _ _ _ => True := by
  induction fs generalizing s t with
  | nil => exact ⟨s, rfl, trivial⟩
  | cons f rest ih =>
      simp only [checkFunctions]
      refine (checkFunction_follows strict (straight f List.mem_cons_self)).bind fun _ s' t' _ => ?_
      exact ih fun g member => straight g (List.mem_cons_of_mem f member)

/-! ### Programs -/

/-- The settings do not matter for the signatures. -/
theorem collectSignatures_under (fs : List FunctionDef) (known : List (String × Signature)) :
    collectSignatures (ctx.under loose) fs known = collectSignatures ctx fs known := by
  induction fs generalizing known with
  | nil => rfl
  | cons f rest ih =>
      simp only [collectSignatures, ih]
      rfl

/-- A program of straight-line code that passes with lexical lifetimes passes with any. -/
theorem check_strict {program : Program} {strict : Settings} {file : Option String}
    {signatures : List (String × Signature)} (lexical : strict.lifetimes = .lexical)
    (straight : program.straight = true) (passed : program.check strict file = .ok signatures)
    (entry : loose.entry = strict.entry) :
    program.check loose file = .ok signatures := by
  obtain ⟨collected, entryOk, after, checked⟩ := check_parts passed
  let ctx : Context := { settings := strict, file, functions := signatures }
  have collected : collectSignatures { settings := loose, file } program.functions [] =
      .ok signatures :=
    (@collectSignatures_under { settings := strict, file } loose _ _).trans collected
  have entryOk : checkEntry { settings := loose, file, functions := signatures } program =
      .ok () := by
    rw [← entryOk]
    simp only [checkEntry, entry]
    rfl
  have follows : Follows (checkFunctions (ctx.under loose) program.functions)
      (checkFunctions ctx program.functions) {} {} fun _ _ _ => True :=
    checkFunctions_follows (by simp [ctx, Settings.lexical, lexical]) (List.all_eq_true.mp straight)
  unfold Follows Passes Meets at follows
  rw [checked] at follows
  obtain ⟨mine, done, -⟩ := follows
  have done : (checkFunctions { settings := loose, file, functions := signatures }
      program.functions).run.run {} = (.ok (), mine) := done
  simp [Program.check, Checker.run, collected, entryOk, done]

/-- The text of a program that stores a reference through another. -/
def storeThrough : String :=
  "fn main()\x7blet a=1;let b=2;let mut r=&a;let p=&mut r;*p=&b;displayi32(**p);\x7d"

/-- `storeThrough` passes with lexical lifetimes, so it passes with those that end at the last use. -/
theorem check_strict_storeThrough :
    ∃ program signatures, Program.ofText none storeThrough = .ok program ∧
      program.straight = true ∧
      program.check { lifetimes := .lexical } none = .ok signatures ∧
      program.check default none = .ok signatures := by
  have accepted : (accepted? storeThrough { lifetimes := .lexical }).any Program.straight = true := by
    decide +kernel
  obtain ⟨program, found, straight⟩ := (Option.any_eq_true _ _).mp accepted
  obtain ⟨signatures, read, passed⟩ := parts_of_accepted found
  exact ⟨program, signatures, read, straight, passed, check_strict rfl straight passed rfl⟩

/-- The text of a program whose last statement has a block in it. -/
def storeFromBlock : String :=
  "fn f(mut p:&mut &i32,mut r:&i32,y:i32)\x7bp=&mut r;*p=\x7b1;&y\x7d;\x7dfn main()\x7b\x7d"

/-- With blocks, lexical lifetimes are not the stricter ones: at the end of the statement in the block
of `storeFromBlock`, only they still know what `p` points at. -/
theorem check_not_strict :
    ∃ program signatures diagnostic, Program.ofText none storeFromBlock = .ok program ∧
      program.check { lifetimes := .lexical } none = .ok signatures ∧
      program.check default none = .error (.reported diagnostic) ∧
      diagnostic.kind = .danglingBorrow := by
  have refused : (accepted? storeFromBlock { lifetimes := .lexical }).any (fun program =>
      refusal? (program.check default none) = some .danglingBorrow) = true := by decide +kernel
  obtain ⟨program, found, isRefused⟩ := (Option.any_eq_true _ _).mp refused
  obtain ⟨signatures, read, passed⟩ := parts_of_accepted found
  obtain ⟨diagnostic, ends, kind⟩ := reported_of_refusal? (of_decide_eq_true isRefused)
  exact ⟨program, signatures, diagnostic, read, passed, ends, kind⟩

end Checker

end BorrowLang
