import BorrowLang.Proofs.Naming.Together

/-!
# Uses of places side by side

Each operation of the check on places and borrows does the same to two states that are alike.
-/

set_option autoImplicit false

namespace BorrowLang.Checker

variable {α : Type} {s t : State} {r : Renaming} {env : Bindings} {ctx ctx' : Context}

/-! ### Answers of the tracker -/

theorem guard_together (alike : Alike r env s t) (loc : Option Position)
    (answer : Except Violation α) :
    Together (guard ctx loc answer) (guard ctx' loc answer) s t (Alike r env) := by
  cases answer with
  | ok a => exact together_pure a alike
  | error violation => exact together_get (together_throw _ _)

theorem modifyTracker_together (alike : Alike r env s t) (f : Tracker → Tracker) :
    Together (modifyTracker f) (modifyTracker f) s t (Alike r env) := by
  refine together_modify ?_
  rw [alike.tracker]
  exact alike.track _

theorem requireRead_together (alike : Alike r env s t) (loc : Option Position) (place : PlaceId) :
    Together (requireRead ctx loc place) (requireRead ctx' loc place) s t (Alike r env) := by
  refine together_get ?_
  rw [alike.tracker, alike.blind (f := fun arena => s.tracker.canRead arena place) (by simp)]
  exact guard_together alike loc _

theorem borrow_together (alike : Alike r env s t) (loc : Option Position) (place : PlaceId)
    (kind : BorrowKind) :
    Together (borrow ctx loc place kind) (borrow ctx' loc place kind) s t (Alike r env) := by
  refine together_get ?_
  rw [alike.tracker, alike.next, alike.blind (f := fun arena =>
    s.tracker.beginBorrow arena s.nextBorrow place kind none false loc) (by simp)]
  refine (guard_together alike loc _).bind fun tracker s' t' _ => ?_
  exact (together_set (alike.trackNext tracker _)).bind fun _ _ _ after => together_pure _ after

theorem expect_together (alike : Alike r env s t) (expected : Ty) (value : Operand)
    (loc : Option Position) :
    Together (expect ctx expected value loc) (expect ctx' expected value loc) s t
      (Alike r env) := by
  unfold expect
  split
  · exact together_pure _ alike
  · exact together_throw _ _

/-! ### Where borrows go -/

theorem checkEscape_together (alike : Alike r env s t) (loans : List BorrowId)
    (loc : Option Position) (stored : Bool) :
    Together (checkEscape ctx loans loc stored) (checkEscape ctx' loans loc stored) s t
      (Alike r env) := by
  refine together_get ?_
  simp only [alike.tracker, alike.innermostRef]
  split
  · exact together_pure _ alike
  · exact together_throw _ _

theorem shareWith_together (like : Like r ctx ctx') (alike : Alike r env s t)
    (loans : List BorrowId) (holders : List PlaceId) :
    Together (shareWith ctx loans holders) (shareWith ctx' loans holders) s t (Alike r env) := by
  induction holders generalizing s t with
  | nil => exact together_pure _ alike
  | cons holder rest ih =>
      refine together_get ?_
      rw [alike.tracker, alike.next, alike.pins like]
      exact (together_set (alike.trackNext _ _)).bind fun _ _ _ after => ih after

theorem storeInto_together (like : Like r ctx ctx') (alike : Alike r env s t)
    (places : List PlaceId) (loans : List BorrowId) (loc : Option Position) :
    Together (storeInto ctx places loans loc) (storeInto ctx' places loans loc) s t
      (Alike r env) := by
  refine together_get ?_
  rw [alike.referents]
  cases unionReferents s.referents places with
  | error fault => exact together_throw _ _
  | ok found =>
      cases found with
      | none =>
          exact (checkEscape_together alike loans loc true).bind fun _ _ _ after =>
            together_pure _ after
      | some holders =>
          exact (shareWith_together like alike loans _).bind fun _ _ _ after =>
            together_pure _ after

theorem storeLoans_together (like : Like r ctx ctx') (alike : Alike r env s t) (holder : PlaceId)
    (loans : List BorrowId) :
    Together (storeLoans ctx holder loans) (storeLoans ctx' holder loans) s t (Alike r env) := by
  refine together_modify ?_
  rw [alike.tracker, alike.pins like]
  exact alike.track _

/-! ### Places -/

theorem lookup_together (alike : Alike r env s t) (loc : Option Position) {x y : String}
    (links : Links env.flatten x y) :
    Together (lookup ctx loc x) (lookup ctx' loc y) s t (Alike r env) := by
  refine together_get ?_
  rw [alike.scopes.lookup? links]
  cases lookup? s.scopes x with
  | some place => exact together_pure _ alike
  | none => exact together_throw _ _

theorem name_addLocal (arena : Arena) (name : String) (ty : Option Ty) (isMut isParam : Bool)
    (place : PlaceId) :
    (arena.addLocal name ty isMut isParam).1.name place =
      if place = arena.size then name else arena.name place := by
  unfold Arena.addLocal Arena.name Arena.place? Arena.size
  rw [Array.getElem?_push]
  by_cases new : place = arena.places.size
  · simp [new, Place.name]
  · simp [new]

/-- Scopes with another binding in the innermost. -/
def bound (scopes : List (List (String × PlaceId))) (name : String) (place : PlaceId) :
    List (List (String × PlaceId)) :=
  match scopes with
  | [] => [[(name, place)]]
  | scope :: rest => ((name, place) :: scope) :: rest

theorem Scoped.bound {ss ts : List (List (String × PlaceId))} (known : Scoped env ss ts)
    (x y : String) (place : PlaceId) :
    Scoped (env.bind x y) (Checker.bound ss x place) (Checker.bound ts y place) := by
  cases known with
  | nil => exact .bind x y place (.enter .nil)
  | enter outer => exact .bind x y place (.enter outer)
  | bind a b other before => exact .bind x y place (.bind a b other before)

theorem bind_together (alike : Alike r env s t) {x y : String} (paired : r.pairs x y)
    (ty : Option Ty) (isMut isParam initialized : Bool) :
    Together (bind x ty isMut isParam initialized) (bind y ty isMut isParam initialized) s t
      (Alike r (env.bind x y)) := by
  refine together_get ?_
  have place : t.arena.addLocal y ty isMut isParam =
      ((t.arena.addLocal y ty isMut isParam).1, s.arena.size) := Prod.ext rfl alike.size
  have arena : (t.arena.addLocal y ty isMut isParam).1.unnamed =
      (s.arena.addLocal x ty isMut isParam).1.unnamed := by
    rw [Arena.addLocal_unnamed, Arena.addLocal_unnamed, alike.arena]
  have names : ∀ place, r.pairs ((s.arena.addLocal x ty isMut isParam).1.name place)
      ((t.arena.addLocal y ty isMut isParam).1.name place) := fun place => by
    rw [name_addLocal, name_addLocal, alike.size]
    by_cases new : place = s.arena.size
    · simpa [new] using paired
    · simpa [new] using alike.names place
  rw [alike.tracker, place]
  refine (together_set ⟨rfl, alike.next, arena, names, alike.live, ?_⟩).bind
    fun _ _ _ after => together_pure _ after
  exact alike.scopes.bound x y s.arena.size

theorem typeOf_together (alike : Alike r env s t) (loc : Option Position) (place : PlaceId) :
    Together (typeOf ctx loc place) (typeOf ctx' loc place) s t (Alike r env) := by
  refine together_get ?_
  rw [alike.ty?]
  cases s.arena.ty? place with
  | some ty => exact together_pure _ alike
  | none =>
      exact (requireRead_together alike loc place).bind fun _ _ _ _ => together_throw _ _

/-- A target has no name, whatever was there before. -/
theorem name_target (arena : Arena) (parent : PlaceId) (via : Via) (ty : Option Ty)
    (place : PlaceId) :
    (arena.target parent via ty).1.name place =
      if (arena.target parent via ty).2 = place then "" else arena.name place := by
  unfold Arena.target
  cases arena.child? parent with
  | some child =>
      simp only [Arena.name, Arena.place?, Array.getElem?_modify]
      by_cases here : child = place
      · cases arena.places[place]? <;> simp [here, Place.name]
      · simp [here]
  | none =>
      simp only [Arena.name, Arena.place?, Array.getElem?_push, Array.getElem?_modify,
        Array.size_modify]
      by_cases new : place = arena.places.size
      · simp [new, Arena.size, Place.name]
      · have old : arena.size ≠ place := fun same => new same.symm
        have name : ∀ before : Place, Place.name { before with child := some arena.size } =
            before.name := fun before => rfl
        by_cases here : parent = place
        · simp [new, old, here, Function.comp_def, name]
        · simp [new, old, here]

theorem target_together (alike : Alike r env s t) (place : PlaceId) (via : Via) (ty : Ty) :
    Together (target place via ty) (target place via ty) s t (Alike r env) := by
  refine together_get ?_
  have same : t.arena.unnamed.target place via (some ty) =
      s.arena.unnamed.target place via (some ty) := by rw [alike.arena]
  have mine := name_target s.arena place via (some ty)
  have theirs := name_target t.arena place via (some ty)
  rw [Arena.target_unnamed, Arena.target_unnamed] at same
  revert same mine theirs
  cases s.arena.target place via (some ty) with
  | mk first id =>
      cases t.arena.target place via (some ty) with
      | mk second id' =>
          intro same mine theirs
          obtain ⟨arena, rfl⟩ := Prod.mk.inj same
          have names : ∀ other, r.pairs (first.name other) (second.name other) := fun other => by
            rw [mine, theirs]
            by_cases here : id' = other
            · simpa [here] using r.nameless
            · simpa [here] using alike.names other
          exact (together_set ⟨alike.tracker, alike.next, arena, names, alike.live,
            alike.scopes⟩).bind fun _ _ _ after => together_pure _ after

theorem placeOf_deref {loc : Option Position} {operand : Expr}
    (notBorrow : ∀ at' inner isMut, operand ≠ .borrow at' inner isMut) :
    placeOf ctx (.deref loc operand) = (do
      let base ← placeOf ctx operand
      let ty ← typeOf ctx operand.loc base
      match ty.pointee? with
      | none => throw (ctx.fault .typeMismatch (notPointerText ty) loc)
      | some inner => target base (viaOf ty) inner) :=
  placeOf.eq_3 ctx loc operand fun at' inner isMut => notBorrow at' inner isMut

/-- An expression that denotes a place denotes the same place under other names. -/
theorem placeOf_together (alike : Alike r env s t) {e e' : Expr}
    (renamed : Expr.Renamed r env e e') :
    Together (placeOf ctx e) (placeOf ctx' e') s t (Alike r env) := by
  fun_induction placeOf ctx e generalizing e' with
  | case1 loc x =>
      cases renamed with
      | name _ links => exact lookup_together alike loc links
  | case2 _ loc operand isMut ih =>
      cases renamed with
      | deref _ borrowed =>
          cases borrowed with
          | borrow _ _ renamed =>
              refine (ih renamed).bind fun place s' t' alike => together_get ?_
              rw [alike.tracker, alike.blind (f := fun arena =>
                Tracker.checkMutable arena place true) (by simp), alike.blind (f := fun arena =>
                s'.tracker.checkBorrow arena place (.ofMut isMut)) (by simp)]
              cases isMut with
              | true =>
                  refine (guard_together alike loc _).bind fun _ _ _ alike => ?_
                  refine (guard_together alike loc _).bind fun _ _ _ alike => ?_
                  exact together_pure place alike
              | false =>
                  refine (guard_together alike loc _).bind fun _ _ _ alike => ?_
                  exact together_pure place alike
  | case3 loc operand notBorrow ih =>
      cases renamed with
      | @deref _ _ _ other renamed =>
          have isOther : ∀ at' inner isMut, other ≠ .borrow at' inner isMut := by
            intro at' inner isMut same
            obtain ⟨_, _, _, mine⟩ := renamed.borrow_iff.mp ⟨at', inner, isMut, same⟩
            exact notBorrow _ _ _ mine
          rw [placeOf_deref isOther, renamed.loc]
          refine (ih renamed).bind fun base _ _ alike => ?_
          refine (typeOf_together alike _ base).bind fun ty _ _ alike => ?_
          cases ty.pointee? with
          | none => exact together_throw _ _
          | some inner => exact target_together alike base _ inner
  | case4 e notName notBorrowed notDeref =>
      cases renamed <;> first | exact together_throw _ _ | simp_all

theorem usePlace_together (alike : Alike r env s t) (loc : Option Position) (place : PlaceId) :
    Together (usePlace ctx loc place) (usePlace ctx' loc place) s t (Alike r env) := by
  refine (typeOf_together alike loc place).bind fun ty s' t' alike => ?_
  by_cases copies : ty.isCopy
  · simp only [copies, if_true]
    refine (requireRead_together alike loc place).bind fun _ s' t' alike => ?_
    by_cases refers : ty.hasRef
    · simp only [refers, if_true]
      refine together_get ?_
      rw [alike.tracker, alike.next, alike.root]
      exact (together_set (alike.trackNext _ _)).bind fun _ _ _ after => together_pure _ after
    · simp only [refers]
      exact together_pure _ alike
  · simp only [copies]
    refine together_get ?_
    rw [alike.tracker, alike.blind (f := fun arena => s'.tracker.canMove arena place) (by simp),
      alike.blind (f := fun arena => (arena.parent? place).isNone) (by simp)]
    refine (guard_together alike loc _).bind fun _ _ _ _ => ?_
    exact (together_set (alike.track _)).bind fun _ _ _ after => together_pure _ after

theorem reborrow?_together (alike : Alike r env s t) {e e' : Expr}
    (renamed : Expr.Renamed r env e e') (param : Ty) :
    Together (reborrow? ctx e param) (reborrow? ctx' e' param) s t (Alike r env) := by
  unfold reborrow?
  split
  · rw [renamed.isPlace, renamed.loc]
    by_cases isPlace : e.isPlace
    · simp only [isPlace, if_true]
      refine (placeOf_together alike renamed).bind fun place _ _ alike => together_get ?_
      rw [alike.ty?]
      split
      · refine (requireRead_together alike _ place).bind fun _ _ _ alike => ?_
        refine (target_together alike place _ _).bind fun reborrowed _ _ alike => ?_
        refine (borrow_together alike _ reborrowed _).bind fun loan _ _ alike => ?_
        exact together_pure _ alike
      · exact together_pure _ alike
    · simp only [isPlace]
      exact together_pure _ alike
  · exact together_pure _ alike

theorem borrowPlace_together (alike : Alike r env s t) (loc : Option Position) (place : PlaceId)
    (isMut : Bool) :
    Together (borrowPlace ctx loc place isMut) (borrowPlace ctx' loc place isMut) s t
      (Alike r env) := by
  refine together_get ?_
  rw [alike.ty?, alike.blind (f := fun arena => Tracker.checkMutable arena place true) (by simp)]
  cases isMut with
  | true =>
      refine (guard_together alike loc _).bind fun _ _ _ alike => ?_
      refine (borrow_together alike loc place _).bind fun loan _ _ alike => ?_
      split
      · exact together_throw _ _
      · exact together_pure _ alike
  | false =>
      refine (borrow_together alike loc place _).bind fun loan _ _ alike => ?_
      split
      · exact together_throw _ _
      · exact together_pure _ alike

/-! ### Operands -/

theorem derefValue_together (alike : Alike r env s t) (loc : Option Position) (inner : Operand) :
    Together (derefValue ctx loc inner) (derefValue ctx' loc inner) s t (Alike r env) := by
  unfold derefValue
  split
  · exact together_throw _ _
  · split
    · exact together_throw _ _
    · exact together_pure _ alike

theorem unaryOperand_together (alike : Alike r env s t) (loc : Option Position) (op : UnaryOp)
    (operand : Operand) :
    Together (unaryOperand ctx loc op operand) (unaryOperand ctx' loc op operand) s t
      (Alike r env) := by
  unfold unaryOperand
  generalize (if op = .neg then Ty.i32 else .bool) = expected
  dsimp only
  split
  · exact together_pure _ alike
  · exact together_throw _ _

theorem expectInt_together (alike : Alike r env s t) (op : BinaryOp) (operand : Operand)
    (loc : Option Position) :
    Together (expectInt ctx op operand loc) (expectInt ctx' op operand loc) s t (Alike r env) := by
  unfold expectInt
  split
  · exact together_pure _ alike
  · exact together_throw _ _

theorem binaryOperand_together (alike : Alike r env s t) (op : BinaryOp) (left right : Operand)
    (leftLoc rightLoc : Option Position) :
    Together (binaryOperand ctx op left right leftLoc rightLoc)
      (binaryOperand ctx' op left right leftLoc rightLoc) s t (Alike r env) := by
  cases op with
  | arith op | order op =>
      refine (expectInt_together alike _ left leftLoc).bind fun _ _ _ alike => ?_
      refine (expectInt_together alike _ right rightLoc).bind fun _ _ _ alike => ?_
      exact together_pure _ alike
  | eq | ne =>
      simp only [binaryOperand]
      split
      · refine (expect_together alike _ right rightLoc).bind fun _ _ _ alike => ?_
        exact together_pure _ alike
      · exact together_throw _ _
  | and | or | unknown text => exact together_throw _ _

theorem ifOperand_together (alike : Alike r env s t) (loc : Option Position)
    (first other : Operand) :
    Together (ifOperand ctx loc first other) (ifOperand ctx' loc first other) s t
      (Alike r env) := by
  unfold ifOperand
  split
  · exact together_pure _ alike
  · split
    · exact together_pure _ alike
    · split
      · exact together_pure _ alike
      · split
        · exact together_pure _ alike
        · exact together_throw _ _

theorem ifOnlyOperand_together (alike : Alike r env s t) (loc : Option Position) (first : Operand) :
    Together (ifOnlyOperand ctx loc first) (ifOnlyOperand ctx' loc first) s t (Alike r env) := by
  unfold ifOnlyOperand
  split
  · exact together_pure _ alike
  · exact together_throw _ _

/-! ### Calls -/

theorem signatureOf_together (like : Like r ctx ctx') (alike : Alike r env s t)
    (loc : Option Position) (func : String) :
    Together (signatureOf ctx loc func) (signatureOf ctx' loc func) s t (Alike r env) := by
  unfold signatureOf
  rw [like.signature]
  split
  · exact together_pure _ alike
  · exact together_throw _ _

theorem storeArguments_together (like : Like r ctx ctx') (alike : Alike r env s t)
    (loans : List (List BorrowId)) (slots : List (Nat × Ty × Option Position)) :
    Together (storeArguments ctx loans slots) (storeArguments ctx' loans slots) s t
      (Alike r env) := by
  induction slots generalizing s t with
  | nil => exact together_pure _ alike
  | cons slot rest ih =>
      obtain ⟨index, param, loc⟩ := slot
      simp only [storeArguments]
      split
      · split
        · refine together_get ?_
          rw [alike.tracker]
          split
          · exact (storeInto_together like alike _ _ loc).bind fun _ _ _ alike => ih alike
          · exact ih alike
        · exact ih alike
      · exact ih alike

theorem expectDisplayable_together (alike : Alike r env s t) (loc : Option Position)
    (ty : Option Ty) :
    Together (expectDisplayable ctx loc ty) (expectDisplayable ctx' loc ty) s t (Alike r env) := by
  unfold expectDisplayable
  split
  · exact together_pure _ alike
  · exact together_throw _ _

theorem checkTemplate_together (alike : Alike r env s t) (loc : Option Position)
    (callee template : String) (given : Nat) :
    Together (checkTemplate ctx loc callee template given)
      (checkTemplate ctx' loc callee template given) s t (Alike r env) := by
  unfold checkTemplate
  split
  · split
    · exact together_throw _ _
    · split
      · exact together_pure _ alike
      · exact together_throw _ _
  · exact together_throw _ _

theorem showPlace_together (alike : Alike r env s t) (loc : Option Position) (place : PlaceId) :
    Together (showPlace ctx loc place) (showPlace ctx' loc place) s t (Alike r env) := by
  refine together_get ?_
  rw [alike.tracker, alike.ty?, alike.blind (f := fun arena =>
    s.tracker.checkBorrow arena place .shared) (by simp)]
  exact (guard_together alike loc _).bind fun _ _ _ alike =>
    expectDisplayable_together alike loc _

/-! ### Assignments and returns -/

theorem name_setTy (arena : Arena) (id : PlaceId) (ty : Option Ty) (place : PlaceId) :
    (arena.setTy id ty).name place = arena.name place := by
  have name : ∀ before : Place, Place.name { before with ty } = before.name := fun before => rfl
  simp only [Arena.setTy, Arena.name, Arena.place?, Array.getElem?_modify]
  by_cases here : id = place
  · simp [here, Function.comp_def, name]
  · simp [here]

theorem assignType_together (alike : Alike r env s t) (loc valueLoc targetLoc : Option Position)
    (place : PlaceId) (value : Operand) (op : Option BinaryOp) :
    Together (assignType ctx loc valueLoc targetLoc place value op)
      (assignType ctx' loc valueLoc targetLoc place value op) s t (Alike r env) := by
  refine together_get ?_
  rw [alike.ty?]
  cases op with
  | some op =>
      refine (requireRead_together alike targetLoc place).bind fun _ _ _ alike => ?_
      split
      · exact together_throw _ _
      · exact together_pure _ alike
  | none =>
      dsimp only
      split
      · have arena : (t.arena.setTy place (some value.ty)).unnamed =
            (s.arena.setTy place (some value.ty)).unnamed := by
          rw [Arena.setTy_unnamed, Arena.setTy_unnamed, alike.arena]
        have names : ∀ other, r.pairs ((s.arena.setTy place (some value.ty)).name other)
            ((t.arena.setTy place (some value.ty)).name other) := fun other => by
          rw [name_setTy, name_setTy]
          exact alike.names other
        exact together_set ⟨alike.tracker, alike.next, arena, names, alike.live, alike.scopes⟩
      · exact expect_together alike _ value valueLoc

/-- The borrows of an assigned value go to the binding, or behind it. -/
theorem assignLoans_together (like : Like r ctx ctx') (alike : Alike r env s t)
    (behind : Bool) (place root : PlaceId) (loans : List BorrowId) (loc : Option Position) :
    Together
      (if !loans.isEmpty then
        if behind then storeLoans ctx root loans
        else do if !(← storeInto ctx [place] loans loc) then storeLoans ctx root loans
      else pure ())
      (if !loans.isEmpty then
        if behind then storeLoans ctx' root loans
        else do if !(← storeInto ctx' [place] loans loc) then storeLoans ctx' root loans
      else pure ()) s t (Alike r env) := by
  split
  · split
    · exact storeLoans_together like alike root loans
    · refine (storeInto_together like alike [place] loans loc).bind fun stored _ _ alike => ?_
      split
      · exact storeLoans_together like alike root loans
      · exact together_pure _ alike
  · exact together_pure _ alike

theorem assignPlace_together (like : Like r ctx ctx') (alike : Alike r env s t)
    (targetLoc valueLoc : Option Position) (place : PlaceId) (value : Operand) :
    Together (assignPlace ctx targetLoc valueLoc place value)
      (assignPlace ctx' targetLoc valueLoc place value) s t (Alike r env) := by
  refine together_get ?_
  have marked : (fun tracker : Tracker => tracker.markLive t.arena place) =
      fun tracker => tracker.markLive s.arena place := by
    funext tracker
    exact alike.blind (f := fun arena => tracker.markLive arena place) (by simp)
  simp only [alike.root, alike.innermostRef, marked]
  rw [alike.tracker, alike.blind (f := fun arena => s.tracker.canWrite arena place) (by simp)]
  refine (guard_together alike targetLoc _).bind fun _ _ _ alike => ?_
  split
  · refine (modifyTracker_together alike _).bind fun _ _ _ alike => ?_
    refine (modifyTracker_together alike _).bind fun _ _ _ alike => ?_
    exact assignLoans_together like alike _ place _ value.loans valueLoc
  · refine (modifyTracker_together alike _).bind fun _ _ _ alike => ?_
    exact assignLoans_together like alike _ place _ value.loans valueLoc

theorem returnValue_together (like : Like r ctx ctx') (alike : Alike r env s t) (value : Operand)
    (loc : Option Position) :
    Together (returnValue ctx value loc) (returnValue ctx' value loc) s t (Alike r env) := by
  unfold returnValue
  rw [like.result]
  exact (expect_together alike _ value loc).bind fun _ _ _ alike =>
    checkEscape_together alike _ loc false

/-! ### Expressions without a place -/

theorem literal_together (alike : Alike r env s t) (loc : Option Position) (value : Literal) :
    Together (checkExpr ctx (.literal loc value)) (checkExpr ctx' (.literal loc value)) s t
      (Alike r env) := by
  simp only [checkExpr]
  exact together_pure _ alike

theorem ofStmt_together (stmt : Stmt) :
    Together (checkExpr ctx (.ofStmt stmt)) (checkExpr ctx' (.ofStmt stmt)) s t (Alike r env) := by
  simp only [checkExpr]
  exact together_throw _ _

theorem ofBlock_together (body : Block) :
    Together (checkExpr ctx (.ofBlock body)) (checkExpr ctx' (.ofBlock body)) s t
      (Alike r env) := by
  simp only [checkExpr]
  exact together_throw _ _

end BorrowLang.Checker
