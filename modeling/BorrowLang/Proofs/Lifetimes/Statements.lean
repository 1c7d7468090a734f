import BorrowLang.Proofs.Lifetimes.Expressions
import BorrowLang.Proofs.Lifetimes.Release

/-!
# Statements beside each other

A statement without blocks is checked alike on both sides.  At its end the loose check may end borrows
that the strict one keeps, but only those of bindings that no later statement mentions.
-/

set_option autoImplicit false

namespace BorrowLang.Checker

attribute [local simp] checkStmt checkStmts

variable {gone : Released} {s t : State} {ctx ctx' : Context} {loose : Settings}

/-- Both checks have gone on side by side; bindings may have been made and borrows have ended. -/
structure Onward (gone : Released) (t s' t' : State) : Prop where
  trails : Trails gone s' t'
  ledger : Ledger gone t'
  rooted : t.arena.Rooted t'.arena
  live : t'.live = t.live

theorem Along.onward {s' t' : State} (along : Along gone s t s' t') : Onward gone t s' t' :=
  ⟨along.trails, along.ledger, along.rooted, along.live⟩

theorem Onward.refl (trails : Trails gone s t) (ledger : Ledger gone t) : Onward gone t s t :=
  ⟨trails, ledger, .refl _, rfl⟩

theorem Onward.trans {s' t' s'' t'' : State} (first : Onward gone t s' t')
    (second : Onward gone t' s'' t'') : Onward gone t s'' t'' :=
  ⟨second.trails, second.ledger, first.rooted.trans second.rooted, second.live.trans first.live⟩

/-! ### Bindings -/

/-- Both checks make the same binding. -/
theorem bind_follows (trails : Trails gone s t) (ledger : Ledger gone t) (name : String)
    (ty : Option Ty) (isMut isParam initialized : Bool) :
    Follows (bind name ty isMut isParam initialized) (bind name ty isMut isParam initialized) s t
      fun place s' t' => Onward gone t s' t' ∧ Present gone t' place := by
  unfold bind
  refine follows_get _ ?_
  obtain ⟨linked, rooted, isRoot, named⟩ :=
    Arena.addLocal_rooted ledger.linked name ty isMut isParam
  have size : t.arena.size < (t.arena.addLocal name ty isMut isParam).1.size := by
    simp [Arena.addLocal, Arena.size]
  rw [trails.arena, trails.scopes]
  have isNew : (t.arena.addLocal name ty isMut isParam).2 = t.arena.size := rfl
  generalize t.arena.addLocal name ty isMut isParam = added at linked rooted isRoot named size isNew ⊢
  obtain ⟨arena, place⟩ := added
  obtain rfl : place = t.arena.size := isNew
  refine follows_set _ ((follows_pure _ _).mpr ⟨⟨{ trails with
    arena := rfl, scopes := rfl, states := ?_, frames := ?_ }, ?_, rooted, rfl⟩, size, ?_⟩)
  · simp only [Tracker.declare, trails.states]
  · simp only [Tracker.declare, trails.frames]
  · have old : ∀ scope ∈ t.scopes, ∀ binding ∈ scope, binding.2 < arena.size ∧
        arena.root binding.2 = binding.2 ∧ arena.name binding.2 = binding.1 := by
      intro scope member binding inScope
      obtain ⟨bound, wasRoot, wasNamed⟩ := ledger.bound scope member binding inScope
      exact ⟨Nat.lt_of_lt_of_le bound rooted.size, (rooted.root bound).trans wasRoot,
        (rooted.name bound).trans wasNamed⟩
    refine ⟨linked, ?_, ledger.records.rooted rooted, fun holder released =>
      Nat.lt_of_lt_of_le (ledger.holders holder released) rooted.size, ledger.ids⟩
    intro scope member binding inScope
    have new : (name, t.arena.size).2 < arena.size ∧
        arena.root (name, t.arena.size).2 = (name, t.arena.size).2 ∧
        arena.name (name, t.arena.size).2 = (name, t.arena.size).1 := ⟨size, isRoot, named⟩
    cases scopes : t.scopes with
    | nil =>
        obtain rfl : scope = [(name, t.arena.size)] := by simpa [scopes] using member
        obtain rfl : binding = (name, t.arena.size) := by simpa using inScope
        exact new
    | cons first rest =>
        simp only [scopes] at member old
        rcases List.mem_cons.mp member with rfl | later
        · rcases List.mem_cons.mp inScope with rfl | inFirst
          · exact new
          · exact old first List.mem_cons_self binding inFirst
        · exact old scope (List.mem_cons_of_mem _ later) binding inScope
  · cases released : gone.holders t.arena.size with
    | false => rfl
    | true => exact absurd (ledger.holders _ released) (Nat.lt_irrefl _)

theorem resolve_follows (written : TypeExpr) (loc : Option Position) :
    Follows ((ctx.under loose).resolve written loc : Except Fault Ty)
      (ctx.resolve written loc : Except Fault Ty) s t fun _ s' t' => s = s' ∧ t = t' := by
  have stateless : Stateless (ctx.resolve written loc : Except Fault Ty) :=
    ⟨ctx.resolve written loc, fun _ => rfl⟩
  exact stateless.follows

theorem letUnset_follows (trails : Trails gone s t) (ledger : Ledger gone t) (loc : Option Position)
    (ident : String) (written : Option TypeExpr) (isMut : Bool) :
    Follows (checkStmt (ctx.under loose) (.letVar loc ident written none isMut))
      (checkStmt ctx (.letVar loc ident written none isMut)) s t
      fun _ s' t' => Onward gone t s' t' := by
  have bound : ∀ declared : Option Ty, Follows (do
      let _ ← bind ident declared isMut false false
      return false) (do
      let _ ← bind ident declared isMut false false
      return false) s t fun _ s' t' => Onward gone t s' t' := by
    intro declared
    refine (bind_follows trails ledger ident declared isMut false false).bind ?_
    rintro place s' t' ⟨onward, -⟩
    exact (follows_pure _ _).mpr onward
  cases written with
  | none =>
      simp only [checkStmt]
      exact bound none
  | some written =>
      simp only [checkStmt]
      refine (resolve_follows written loc).bind ?_
      rintro declared _ _ ⟨rfl, rfl⟩
      exact bound (some declared)

theorem letVar_follows (trails : Trails gone s t) (ledger : Ledger gone t) (loc : Option Position)
    (ident : String) (written : Option TypeExpr) {value : Expr} (isMut : Bool)
    (flat : value.obeys .flat = true) (unreleased : Unreleased gone t.arena value.names) :
    Follows (checkStmt (ctx.under loose) (.letVar loc ident written (some value) isMut))
      (checkStmt ctx (.letVar loc ident written (some value) isMut)) s t
      fun _ s' t' => Onward gone t s' t' := by
  have bound : ∀ (ty : Option Ty) (operand : Operand) {s' t' : State}, Along gone s t s' t' →
      Free gone operand.loans → Follows (do
      let place ← bind ident ty isMut false true
      if !operand.loans.isEmpty then storeLoans (ctx.under loose) place operand.loans
      return false) (do
      let place ← bind ident ty isMut false true
      if !operand.loans.isEmpty then storeLoans ctx place operand.loans
      return false) s' t' fun _ s' t' => Onward gone t s' t' := by
    intro ty operand s' t' along free
    refine (bind_follows along.trails along.ledger ident ty isMut false true).bind ?_
    rintro place s'' t'' ⟨onward, present⟩
    split
    · refine (storeLoans_follows onward.trails onward.ledger present free).bind ?_
      intro _ last final more
      exact (follows_pure _ _).mpr (along.onward.trans (onward.trans more.onward))
    · exact (follows_pure _ _).mpr (along.onward.trans onward)
  have checked := fun {gone : Released} {s t : State} (trails : Trails gone s t) =>
    @expr_follows ctx loose value flat gone s t trails
  cases written with
  | none =>
      simp only [checkStmt]
      refine (checked trails ledger unreleased).bind ?_
      rintro operand s' t' ⟨along, free⟩
      exact bound _ operand along free
  | some written =>
      simp only [checkStmt]
      refine (resolve_follows written loc).bind ?_
      rintro declared _ _ ⟨rfl, rfl⟩
      refine (checked trails ledger unreleased).bind ?_
      rintro operand s' t' ⟨along, free⟩
      refine (expect_follows declared operand value.loc).bind ?_
      rintro _ _ _ ⟨rfl, rfl⟩
      exact bound _ operand along free

/-! ### Assignments -/

theorem assignType_follows (trails : Trails gone s t) (ledger : Ledger gone t)
    (loc valueLoc targetLoc : Option Position) (place : PlaceId) (value : Operand)
    (op : Option BinaryOp) :
    Follows (assignType (ctx.under loose) loc valueLoc targetLoc place value op)
      (assignType ctx loc valueLoc targetLoc place value op) s t
      fun _ s' t' => Onward gone t s' t' := by
  have still : Onward gone t s t := .refl trails ledger
  unfold assignType
  refine follows_get _ ?_
  rw [trails.arena]
  cases op with
  | some op =>
      refine (requireRead_follows trails targetLoc place).bind ?_
      rintro _ _ _ ⟨rfl, rfl⟩
      split
      · exact follows_throw _ _ _
      · exact (follows_pure _ _).mpr still
  | none =>
      cases t.arena.ty? place with
      | some ty =>
          refine (expect_follows ty value valueLoc).mono ?_
          rintro _ _ _ ⟨rfl, rfl⟩
          exact still
      | none =>
          obtain ⟨linked, rooted⟩ := Arena.setTy_rooted ledger.linked place (some value.ty)
          refine ⟨_, rfl, { trails with arena := rfl }, ⟨linked, ?_, ledger.records.rooted rooted,
            fun holder released => Nat.lt_of_lt_of_le (ledger.holders holder released) rooted.size,
            ledger.ids⟩, rooted, rfl⟩
          intro scope member binding inScope
          obtain ⟨bound, isRoot, named⟩ := ledger.bound scope member binding inScope
          exact ⟨Nat.lt_of_lt_of_le bound rooted.size, (rooted.root bound).trans isRoot,
            (rooted.name bound).trans named⟩

/-- The value that is overwritten is gone on both sides, with the borrows that it carried. -/
theorem endHeldBy_onward (trails : Trails gone s t) (ledger : Ledger gone t) (holder : PlaceId) :
    Onward gone t { s with tracker := s.tracker.endHeldBy holder }
      { t with tracker := t.tracker.endHeldBy holder } :=
  ⟨{ trails with borrows := trails.borrows.filter fun _ => rfl },
    ⟨ledger.linked, ledger.bound, ledger.records.filter _, ledger.holders, ledger.ids⟩, .refl _, rfl⟩

/-- A place has a new value on both sides. -/
theorem markLive_onward (trails : Trails gone s t) (ledger : Ledger gone t) (arena : Arena)
    (place : PlaceId) :
    Onward gone t { s with tracker := s.tracker.markLive arena place }
      { t with tracker := t.tracker.markLive arena place } := by
  refine ⟨{ trails with states := ?_ }, { ledger with }, .refl _, rfl⟩
  simp only [Tracker.markLive, trails.states]

/-- The borrows of an assigned value go where the value is stored. -/
theorem storeValue_follows (trails : Trails gone s t) (ledger : Ledger gone t) (arena : Arena)
    (loc : Option Position) {place : PlaceId} (reached : Reached gone t place)
    (present : Present gone t (arena.root place)) {loans : List BorrowId} (free : Free gone loans) :
    Follows (do
      if !loans.isEmpty then
        if (arena.innermostRef place).isNone then storeLoans ctx' (arena.root place) loans
        else if !(← storeInto ctx' [place] loans loc) then
          storeLoans ctx' (arena.root place) loans) (do
      if !loans.isEmpty then
        if (arena.innermostRef place).isNone then storeLoans ctx (arena.root place) loans
        else if !(← storeInto ctx [place] loans loc) then
          storeLoans ctx (arena.root place) loans) s t
      fun _ s' t' => Onward gone t s' t' := by
  split
  · split
    · exact (storeLoans_follows trails ledger present free).mono fun _ _ _ along => along.onward
    · have reachedAll : ∀ other ∈ [place], Reached gone t other := by
        intro other member
        rw [List.mem_singleton.mp member]
        exact reached
      refine (storeInto_follows trails ledger reachedAll free loc).bind fun found s' t' along => ?_
      split
      · refine (storeLoans_follows along.trails along.ledger (present.rooted along.rooted) free).mono ?_
        exact fun _ _ _ more => (along.trans more).onward
      · exact (follows_pure _ _).mpr along.onward
  · exact (follows_pure _ _).mpr (.refl trails ledger)

theorem assignPlace_follows (trails : Trails gone s t) (ledger : Ledger gone t)
    (targetLoc valueLoc : Option Position) {place : PlaceId} (reached : Reached gone t place)
    {value : Operand} (free : Free gone value.loans) :
    Follows (assignPlace (ctx.under loose) targetLoc valueLoc place value)
      (assignPlace ctx targetLoc valueLoc place value) s t fun _ s' t' => Onward gone t s' t' := by
  unfold assignPlace
  refine follows_get _ ?_
  refine (guard_follows targetLoc trails.canWrite).bind ?_
  rintro _ _ _ ⟨rfl, rfl⟩
  rw [trails.arena]
  have stored : ∀ {s' t' : State}, Onward gone t s' t' → Follows (do
        modifyTracker (·.markLive t.arena place)
        if !value.loans.isEmpty then
          if (t.arena.innermostRef place).isNone then
            storeLoans (ctx.under loose) (t.arena.root place) value.loans
          else if !(← storeInto (ctx.under loose) [place] value.loans valueLoc) then
            storeLoans (ctx.under loose) (t.arena.root place) value.loans) (do
        modifyTracker (·.markLive t.arena place)
        if !value.loans.isEmpty then
          if (t.arena.innermostRef place).isNone then storeLoans ctx (t.arena.root place) value.loans
          else if !(← storeInto ctx [place] value.loans valueLoc) then
            storeLoans ctx (t.arena.root place) value.loans) s' t'
      fun _ s'' t'' => Onward gone t s'' t'' := by
    intro s' t' onward
    have marked := markLive_onward onward.trails onward.ledger t.arena place
    refine follows_modify _ ((storeValue_follows marked.trails marked.ledger t.arena valueLoc
      (reached.rooted onward.rooted) (reached.root.rooted onward.rooted) free).mono ?_)
    exact fun _ _ _ more => onward.trans (marked.trans more)
  dsimp only
  by_cases isRoot : place = t.arena.root place
  · rw [if_pos isRoot, if_pos isRoot]
    exact follows_modify _ (stored (endHeldBy_onward trails ledger place))
  · rw [if_neg isRoot, if_neg isRoot]
    exact stored (.refl trails ledger)

theorem assign_follows (trails : Trails gone s t) (ledger : Ledger gone t) (loc : Option Position)
    {target value : Expr} (op : Option BinaryOp) (flat : value.obeys .flat = true)
    (unreleased : Unreleased gone t.arena (target.names ++ value.names)) :
    Follows (checkStmt (ctx.under loose) (.assign loc target value op))
      (checkStmt ctx (.assign loc target value op)) s t fun _ s' t' => Onward gone t s' t' := by
  have valueNames : Unreleased gone t.arena value.names :=
    unreleased.subset fun name member => by simp [member]
  have targetNames : Unreleased gone t.arena target.names :=
    unreleased.subset fun name member => by simp [member]
  simp only [checkStmt]
  split
  · exact follows_throw _ _ _
  · refine (expr_follows value flat trails ledger valueNames).bind ?_
    rintro operand s' t' ⟨along, free⟩
    refine (placeOf_follows target along.trails along.ledger
      (targetNames.rooted ledger along.rooted)).bind ?_
    rintro place s' t' ⟨named, reached⟩
    refine (assignType_follows named.trails named.ledger loc value.loc target.loc place operand
      op).bind fun _ s' t' typed => ?_
    refine (assignPlace_follows typed.trails typed.ledger target.loc value.loc
      (reached.rooted typed.rooted) free).bind fun _ s' t' assigned => ?_
    exact (follows_pure _ _).mpr
      (along.onward.trans (named.onward.trans (typed.trans assigned)))

/-! ### Statements -/

theorem returnValue_follows (trails : Trails gone s t) (ledger : Ledger gone t) {value : Operand}
    (free : Free gone value.loans) (loc : Option Position) :
    Follows (returnValue (ctx.under loose) value loc) (returnValue ctx value loc) s t
      fun _ s' t' => Onward gone t s' t' := by
  refine (expect_follows ctx.result value loc).bind ?_
  rintro _ _ _ ⟨rfl, rfl⟩
  refine (checkEscape_follows trails free loc false).mono ?_
  rintro _ _ _ ⟨rfl, rfl⟩
  exact .refl trails ledger

/-- A statement without blocks that the strict check allows, the loose one allows too. -/
theorem stmt_follows {stmt : Stmt} (flat : stmt.obeys .flat = true) (trails : Trails gone s t)
    (ledger : Ledger gone t) (unreleased : Unreleased gone t.arena stmt.names) :
    Follows (checkStmt (ctx.under loose) stmt) (checkStmt ctx stmt) s t
      fun _ s' t' => Onward gone t s' t' := by
  cases stmt with
  | letVar loc ident written value isMut =>
      cases value with
      | none => exact letUnset_follows trails ledger loc ident written isMut
      | some value => exact letVar_follows trails ledger loc ident written isMut flat unreleased
  | assign loc target value op =>
      obtain ⟨-, valueFlat⟩ : target.obeys .flat = true ∧ value.obeys .flat = true := by
        simpa [Stmt.obeys] using flat
      exact assign_follows trails ledger loc op valueFlat unreleased
  | ret loc value =>
      cases value with
      | none =>
          simp only [checkStmt]
          refine (returnValue_follows trails ledger free_nil loc).bind fun _ s' t' onward => ?_
          exact (follows_pure _ _).mpr onward
      | some value =>
          simp only [checkStmt]
          refine (expr_follows value flat trails ledger unreleased).bind ?_
          rintro operand s' t' ⟨along, free⟩
          refine (returnValue_follows along.trails along.ledger free value.loc).bind
            fun _ s'' t'' onward => ?_
          exact (follows_pure _ _).mpr (along.onward.trans onward)
  | whileLoop loc condition body => simp [Stmt.obeys, not_flat body] at flat
  | expr loc value =>
      simp only [checkStmt]
      refine (expr_follows value flat trails ledger unreleased).bind ?_
      rintro operand s' t' ⟨along, -⟩
      exact (follows_pure _ _).mpr along.onward
  | ofExpr | ofBlock => exact follows_throw _ _ _

/-- At the end of a statement the loose check may end more borrows, but none of a binding that is
mentioned later. -/
theorem endStatement_follows (strict : ctx.settings.lexical = true) (trails : Trails gone s t)
    (ledger : Ledger gone t) :
    Follows (endStatement (ctx.under loose)) (endStatement ctx) s t fun _ s' t' =>
      t'.arena = t.arena ∧ t'.live = t.live ∧ ∃ more, Trails more s' t' ∧ Ledger more t' ∧
        ∀ holder, more.holders holder = true →
          gone.holders holder = true ∨ t.isLive holder = false := by
  rw [endStatement_eq, endStatement_eq]
  refine follows_modify _ ?_
  have ended : Trails gone { s with tracker := s.tracker.endTemporaries [] }
      { t with tracker := t.tracker.endTemporaries [] } :=
    { trails with borrows := trails.borrows.filter fun _ => rfl }
  have known : Ledger gone { t with tracker := t.tracker.endTemporaries [] } :=
    ⟨ledger.linked, ledger.bound, ledger.records.filter _, ledger.holders, ledger.ids⟩
  have stored : ∀ record ∈ (t.tracker.endTemporaries []).borrows, record.holder.isSome := by
    intro record member
    simpa using (List.mem_filter.mp member).2
  rw [strict]
  simp only [Bool.not_true, Bool.false_eq_true, if_false]
  by_cases same : loose.lexical = true
  · have same : (ctx.under loose).settings.lexical = true := same
    simp only [same, Bool.not_true, Bool.false_eq_true, if_false]
    exact (follows_pure _ _).mpr ⟨rfl, rfl, gone, ended, known, fun holder old => Or.inl old⟩
  · have differs : (ctx.under loose).settings.lexical = false := Bool.eq_false_iff.mpr same
    simp only [differs, Bool.not_false, if_true]
    obtain ⟨more, trailsMore, ledgerMore, dead⟩ := release_trails ended known stored
    have released : Meets releaseUnused
        { s with tracker := s.tracker.endTemporaries [] }
        (fun _ mine => Trails more mine { t with tracker := t.tracker.endTemporaries [] })
        fun _ _ => False := by
      simp only [releaseUnused, meets_bind, meets_get, meets_set]
      split
      · simp only [note, meets_modify]
        exact { trailsMore with }
      · exact trailsMore
    obtain ⟨_, mine, done, trailsMine⟩ := released.completes
    exact ⟨mine, done, rfl, rfl, more, trailsMine, ledgerMore, dead⟩

/-- Statements without blocks, one after another: what is released is not mentioned after them. -/
theorem stmts_follow (strict : ctx.settings.lexical = true) (tailNames : List String)
    {stmts : List Stmt} (flat : ∀ stmt ∈ stmts, stmt.obeys .flat = true) (trails : Trails gone s t)
    (ledger : Ledger gone t)
    (unreleased : Unreleased gone t.arena (namesOfStmts stmts ++ tailNames)) :
    Follows (checkStmts (ctx.under loose) tailNames stmts) (checkStmts ctx tailNames stmts) s t
      fun _ s' t' => ∃ more, Trails more s' t' ∧ Ledger more t' ∧
        Unreleased more t'.arena tailNames := by
  induction stmts generalizing gone s t with
  | nil =>
      simp only [checkStmts]
      exact (follows_pure _ _).mpr ⟨gone, trails, ledger, unreleased⟩
  | cons stmt rest ih =>
      have stmtNames : Unreleased gone t.arena stmt.names :=
        unreleased.subset fun name member => by simp [namesOfStmts, member]
      have restNames : Unreleased gone t.arena (namesOfStmts rest ++ tailNames) :=
        unreleased.subset fun name member => by
          rcases List.mem_append.mp member with inRest | inTail
          · simp [namesOfStmts, inRest]
          · simp [inTail]
      simp only [checkStmts]
      refine follows_modify _ ?_
      have entered : Trails gone
          { s with live := s.live.enter (namesOfStmts rest ++ tailNames) }
          { t with live := t.live.enter (namesOfStmts rest ++ tailNames) } :=
        { trails with live := by rw [trails.live] }
      refine (stmt_follows (flat stmt List.mem_cons_self) entered { ledger with } stmtNames).bind ?_
      intro leaves s' t' onward
      refine (endStatement_follows strict onward.trails onward.ledger).bind ?_
      rintro _ s'' t'' ⟨arena, live, more, trailsMore, ledgerMore, dead⟩
      refine follows_modify _ ?_
      have exited : Trails more { s'' with live := (s''.live.exit?).getD s''.live }
          { t'' with live := (t''.live.exit?).getD t''.live } :=
        { trailsMore with live := by rw [trailsMore.live] }
      have later : Unreleased more t''.arena (namesOfStmts rest ++ tailNames) := by
        intro holder released
        rw [arena]
        rcases dead holder released with old | notLive
        · exact restNames.rooted ledger onward.rooted holder old
        · intro member
          rw [State.isLive, onward.live] at notLive
          simp [LiveNames.enter, LiveNames.contains, member] at notLive
      refine (ih (fun other member => flat other (List.mem_cons_of_mem _ member)) exited
        { ledgerMore with } later).bind ?_
      intro leavesLater final last known
      exact (follows_pure _ _).mpr known

end BorrowLang.Checker
