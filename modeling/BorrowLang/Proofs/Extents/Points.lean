import BorrowLang.Proofs.Extents.Statements
import BorrowLang.Proofs.Scoping.Points

/-!
# What is mentioned later at a point of a function

On the way to a part of a function its statements and loops announce the names that are mentioned in
later statements, in tails and in the other passes over a loop.  At every point the numbers of the
borrows have been given out, and the names that count as live are those that have been announced.
-/

set_option autoImplicit false

namespace BorrowLang.Checker

variable {ctx : Context} {s mid after : State} {f : FunctionDef} {start : State}

namespace Part

/-- The names that a part announces for another one: those of the statements after a statement and of
the tail of its block, and those of a loop for each pass over it. -/
def announced : Part → Part → List (List String)
  | .stmts tailNames (_ :: rest), .stmt _ => [namesOfStmts rest ++ tailNames]
  | .stmt (.whileLoop _ condition body), .pass _ _ _ => [condition.names ++ body.names]
  | _, _ => []

/-- Nothing is announced for what a part begins with. -/
theorem announced_starts {outer inner : Part} (member : inner ∈ outer.starts ctx) :
    outer.announced inner = [] := by
  unfold announced
  split
  · simp [starts] at member
  · simp [starts] at member
  · rfl

/-- What is checked of a part before another one announces the names for it, and is steady. -/
theorem Leads.steady {outer inner : Part} {before : Check Unit}
    (leads : outer.Leads ctx before inner) :
    Passes before s fun _ after =>
      Steady { s with live := ⟨outer.announced inner ++ s.live.scopes⟩ } after := by
  cases leads with
  | start member =>
      rw [announced_starts member]
      exact .refl s
  | @right loc op left right =>
      simp only [meets_bind, meets_pure]
      exact (expr_around left s).mono fun _ _ met => met.1.toSteady
  | @thenArm loc condition =>
      exact (condition_around (expr_around condition) condition.loc).mono
        fun _ _ around => around.toSteady
  | @elseArm loc condition thenBlock elseBlock =>
      have tested := condition_around (s := s) (@expr_around ctx condition) condition.loc
      simp only [modifyTracker, meets_bind, meets_get, meets_modify] at tested ⊢
      refine tested.onOk fun cond mid fits => fits.onOk fun _ before around => ?_
      refine (blocks_around thenBlock false before).mono ?_
      rintro first thenEnd ⟨thenAround, -⟩
      exact around.toSteady.trans thenAround.toSteady.swap.toSteady
  | @arg arg args param =>
      simp only [meets_bind, meets_pure]
      exact (reborrow?_around arg param).mono fun _ _ met => met.1.toSteady
  | @moreArgs arg args param =>
      have checked := checkArg_around (s := s) (@expr_around ctx arg) param
      simp only [checkArg, meets_bind] at checked ⊢
      refine checked.onOk fun found mid known => ?_
      cases found with
      | some value =>
          simp only [meets_bind, meets_pure] at known ⊢
          exact known.onOk fun _ after met => met.1.toSteady
      | none =>
          simp only [meets_bind, meets_pure] at known ⊢
          exact known.onOk fun value after fits => fits.onOk fun _ _ met => met.1.toSteady
  | @moreShown arg =>
      split <;> rename_i isPlace <;> simp only [meets_bind]
      · refine (placeOf_around arg).mono fun place mid named => ?_
        refine (showPlace_passes arg.loc place).mono ?_
        rintro _ _ ⟨rfl, -⟩
        exact named.toSteady
      · refine (expr_around arg s).mono ?_
        rintro value mid ⟨around, -⟩
        refine (expectDisplayable_same arg.loc _).mono ?_
        rintro _ _ rfl
        exact around.toSteady
  | @assigned loc target value =>
      simp only [meets_bind, meets_pure]
      exact (expr_around value s).mono fun _ _ met => met.1.toSteady
  | firstPass => exact .refl _
  | @secondPass loc condition body =>
      simp only [enterNames, meets_bind, meets_modify]
      exact loopPass_steady (expr_around condition) (blocks_around body) _ _
  | @loopBody loc condition => exact loopCondition_steady (expr_around condition) condition.loc
  | stmt => exact .refl _
  | @moreStmts tailNames stmt rest => exact stmtsFirst_steady (stmt_steady stmt) _
  | statements => exact beginBlock_around.toSteady
  | @tail isBody stmts tail =>
      simp only [beginBlock, meets_bind, meets_modify, meets_pure]
      exact (stmts_steady stmts tail.names _).mono fun _ _ steady =>
        beginBlock_around.toSteady.trans steady

end Part

/-! ### Functions -/

/-- At first there is no borrow, and no name is mentioned later. -/
theorem bindParams_around (params : List (Param × Ty)) :
    Passes (bindParams ctx params) s fun _ after => Around true s after := by
  induction params generalizing s with
  | nil => exact .refl s
  | cons slot rest ih =>
      obtain ⟨param, ty⟩ := slot
      simp only [bindParams, meets_bind, meets_get]
      split
      · trivial
      simp only [meets_bind]
      refine (bind_around param.name (some ty) param.isMut true true).mono fun _ mid first => ?_
      exact ih.mono fun _ _ later => first.spare later

theorem enterBody_fresh (f : FunctionDef) :
    Passes (enterBody ctx f) s fun _ after => after.Numbered ∧ after.live.scopes = [] := by
  simp only [enterBody, note, meets_bind, meets_modify]
  refine (bindParams_around _).mono fun _ after around => ⟨around.numbered ?_, ?_⟩
  · exact fun _ impossible => by simp [Tracker.pushFrame] at impossible
  · rw [around.live]

/-- While a function is checked, a part of it is checked from a state, and some names are mentioned in
later statements of the blocks around it, in their tails and in the loops around it. -/
inductive Announced (ctx : Context) (f : FunctionDef) (start : State) :
    List (List String) → Part → State → Prop
  | body {s : State} (entered : enterBody ctx f start = (.ok (), s)) :
      Announced ctx f start [] (.block true f.body) s
  | within {names : List (List String)} {outer inner : Part} {before : Check Unit} {s next : State}
      (announced : Announced ctx f start names outer s)
      (leads : outer.Leads (ctx.within f) before inner) (passed : before s = (.ok (), next)) :
      Announced ctx f start (outer.announced inner ++ names) inner next

namespace Announced

variable {names : List (List String)} {part : Part}

theorem visited (announced : Announced ctx f start names part s) : Visited ctx f start part s := by
  induction announced with
  | body entered => exact .body entered
  | within announced leads passed ih => exact ih.within leads passed

/-- The names that count as live are those that have been announced. -/
theorem live (announced : Announced ctx f start names part s) : s.live.scopes = names := by
  induction announced with
  | body entered => exact ((enterBody_fresh f).of_ok entered).2
  | within announced leads passed ih =>
      have steady := leads.steady.of_ok passed
      rw [steady.live, ih]

end Announced

theorem Visited.announced {part : Part} (visited : Visited ctx f start part s) :
    ∃ names, Announced ctx f start names part s := by
  induction visited with
  | body entered => exact ⟨_, .body entered⟩
  | within visited leads passed ih =>
      obtain ⟨names, announced⟩ := ih
      exact ⟨_, announced.within leads passed⟩

/-- At every point the numbers of the borrows have been given out. -/
theorem Visited.numbered {part : Part} (visited : Visited ctx f start part s) : s.Numbered := by
  induction visited with
  | body entered => exact ((enterBody_fresh f).of_ok entered).1
  | within visited leads passed ih => exact (leads.steady.of_ok passed).numbered ih

end BorrowLang.Checker
