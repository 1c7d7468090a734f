import BorrowLang.Proofs.Meets
import BorrowLang.Proofs.Monitoring.Watch

/-!
# Computations that are not watched

An unwatched computation shadows a watched one: from states that differ in what the borrow stacks
have noted only, it comes to the same, unless the watched one ends in a violation.  What does not
look at the stacks shadows itself; the uses of cells are shadowed by the same uses without a watch.
-/

set_option autoImplicit false

namespace BorrowLang.Evaluator

/-- A fault is the report of a violation of the borrow stacks. -/
def Fault.OfStacks (fault : Fault) : Prop :=
  ∃ ended subject span,
    fault = .reported (Violation.reportRunning (.invalidated ended) subject span)

def Interrupt.OfStacks : Interrupt → Prop
  | .failed fault => fault.OfStacks
  | .returned _ => False

/-- Two states differ in their stacks and ended tags only: the next tag is the same. -/
def Alike (s t : State) : Prop :=
  ∃ borrows : BorrowStacks, borrows.nextTag = s.borrows.nextTag ∧ t = { s with borrows }

variable {α β : Type} {s t : State}

/-- The second computation comes to what the first comes to, if that is not a violation. -/
def Shadows (x y : Eval α) (s t : State) : Prop :=
  Meets x s (fun a after => ∃ mine, y t = (.ok a, mine) ∧ Alike after mine)
    fun interrupt after =>
      interrupt.OfStacks ∨ ∃ mine, y t = (.error interrupt, mine) ∧ Alike after mine

/-- The computation does not look at what the stacks have noted. -/
def Unaware (x : Eval α) : Prop := ∀ ⦃s t⦄, Alike s t → Shadows x x s t

/-! ### Rules -/

section Rules

theorem shadows_of_ok {x y : Eval α} {a : α} {after mine : State} (ended : x s = (.ok a, after))
    (ended' : y t = (.ok a, mine)) (alike : Alike after mine) : Shadows x y s t := by
  unfold Shadows Meets
  rw [ended]
  exact ⟨mine, ended', alike⟩

theorem shadows_violation {x y : Eval α} {fault : Fault} {after : State}
    (ended : x s = (.error (.failed fault), after)) (violates : fault.OfStacks) :
    Shadows x y s t := by
  unfold Shadows Meets
  rw [ended]
  exact Or.inl violates

theorem Shadows.bind {x y : Eval β} {f g : β → Eval α} (first : Shadows x y s t)
    (next : ∀ b s t, Alike s t → Shadows (f b) (g b) s t) :
    Shadows (x >>= f) (y >>= g) s t := by
  unfold Shadows
  rw [meets_bind]
  refine Meets.mono first ?_ ?_
  · rintro b after ⟨mine, ended, alike⟩
    refine Meets.mono (next b after mine alike) ?_ ?_
    · rintro a last ⟨final, ended', alike'⟩
      exact ⟨final, by rw [run_bind, ended]; exact ended', alike'⟩
    · rintro interrupt last (violates | ⟨final, ended', alike'⟩)
      · exact Or.inl violates
      · exact Or.inr ⟨final, by rw [run_bind, ended]; exact ended', alike'⟩
  · rintro interrupt after (violates | ⟨mine, ended, alike⟩)
    · exact Or.inl violates
    · exact Or.inr ⟨mine, by rw [run_bind, ended], alike⟩

theorem shadows_get {f g : State → Eval α} (next : Shadows (f s) (g t) s t) :
    Shadows (get >>= f) (get >>= g) s t := next

theorem shadows_set {s' t' : State} (alike : Alike s' t') :
    Shadows (set s' : Eval Unit) (set t') s t := shadows_of_ok rfl rfl alike

theorem unaware_pure (a : α) : Unaware (pure a) := fun _ _ => shadows_of_ok rfl rfl

theorem unaware_throw (interrupt : Interrupt) : Unaware (throw interrupt : Eval α) :=
  fun _ t alike => Or.inr ⟨t, rfl, alike⟩

/-- What comes after an interrupt is not done. -/
theorem shadows_throw_bind {f g : β → Eval α} (interrupt : Interrupt) (alike : Alike s t) :
    Shadows (throw interrupt >>= f) (throw interrupt >>= g) s t := Or.inr ⟨t, rfl, alike⟩

theorem unaware_ofHeap (result : Except HeapFault α) : Unaware (ofHeap result) := by
  cases result with
  | ok a => exact unaware_pure a
  | error fault => exact unaware_throw _

theorem Unaware.bind {x : Eval β} {f : β → Eval α} (first : Unaware x)
    (next : ∀ b, Unaware (f b)) : Unaware (x >>= f) :=
  fun _ _ alike => (first alike).bind fun b _ _ => @next b _ _

/-- What is got from the state is looked at but for the stacks. -/
theorem unaware_get {f : State → Eval α}
    (next : ∀ s borrows, borrows.nextTag = s.borrows.nextTag →
      Shadows (f s) (f { s with borrows }) s { s with borrows }) : Unaware (get >>= f) := by
  rintro s _ ⟨borrows, tags, rfl⟩
  exact next s borrows tags

theorem unaware_modify {f : State → State} (keeps : ∀ s t, Alike s t → Alike (f s) (f t)) :
    Unaware (modify f) := fun s t alike => shadows_of_ok rfl rfl (keeps s t alike)

theorem unaware_report (ctx : Context) (kind : DiagnosticKind) (message : String)
    (loc : Option Position) (subject : Option String) :
    Unaware (report ctx kind message loc subject : Eval α) := unaware_throw _

end Rules

/-! ### Cells and scopes -/

theorem unaware_alloc (value : Value) (initialized : Bool) : Unaware (alloc value initialized) :=
  unaware_get fun _ borrows tags => shadows_of_ok rfl rfl ⟨borrows, tags, rfl⟩

theorem unaware_modifyScope (f : Scope → Scope) : Unaware (modifyScope f) := by
  refine unaware_modify ?_
  rintro ⟨heap, borrowed, _ | ⟨⟨_ | ⟨scope, scopes⟩⟩, rest⟩, outputs⟩ _ ⟨borrows, tags, rfl⟩ <;>
    exact ⟨borrows, tags, rfl⟩

theorem unaware_bind (name : String) (value : Value) (initialized : Bool) :
    Unaware (bind name value initialized) :=
  (unaware_alloc value initialized).bind fun _ => unaware_modifyScope _

theorem unaware_materialize (value : Value) : Unaware (materialize value) :=
  (unaware_alloc value true).bind fun addr =>
    (unaware_modifyScope _).bind fun _ => unaware_pure addr

theorem unaware_lookup (name : String) : Unaware (lookup name) := by
  refine unaware_get fun s borrows tags => ?_
  have alike : Alike s { s with borrows } := ⟨borrows, tags, rfl⟩
  simp only
  cases ((s.frames.head?.map (·.scopes)).getD []).findSome?
      fun scope => (scope.names.find? (·.1 = name)).map (·.2) with
  | some addr => exact unaware_pure addr alike
  | none => exact unaware_throw _ alike

theorem unaware_freeCell (addr : Addr) : Unaware (freeCell addr) :=
  unaware_get fun s borrows tags =>
    (unaware_ofHeap (s.heap.free addr) ⟨borrows, tags, rfl⟩).bind fun _ _ _ _ =>
      shadows_set ⟨borrows.forget addr, tags, rfl⟩

theorem unaware_freeCells (addrs : List Addr) : Unaware (freeCells addrs) := by
  induction addrs with
  | nil => exact unaware_pure ()
  | cons addr rest ih => exact (unaware_freeCell addr).bind fun _ => ih

theorem unaware_dropValue (value : Value) : Unaware (dropValue value) :=
  unaware_get fun s borrows tags =>
    (unaware_ofHeap (s.heap.owned value) ⟨borrows, tags, rfl⟩).bind fun _ _ _ alike =>
      unaware_freeCells _ alike

theorem unaware_dropCells (addrs : List Addr) : Unaware (dropCells addrs) := by
  induction addrs with
  | nil => exact unaware_pure ()
  | cons addr rest ih => exact (unaware_dropValue (.box addr)).bind fun _ => ih

theorem unaware_dropValues (values : List Value) : Unaware (dropValues values) := by
  induction values with
  | nil => exact unaware_pure ()
  | cons value rest ih => exact (unaware_dropValue value).bind fun _ => ih

theorem unaware_pushScope : Unaware pushScope := by
  refine unaware_modify ?_
  rintro ⟨heap, borrowed, _ | ⟨⟨scopes⟩, rest⟩, outputs⟩ _ ⟨borrows, tags, rfl⟩ <;>
    exact ⟨borrows, tags, rfl⟩

theorem unaware_popScope : Unaware popScope := by
  refine unaware_get ?_
  rintro ⟨heap, borrowed, _ | ⟨⟨_ | ⟨scope, scopes⟩⟩, rest⟩, outputs⟩ borrows tags
  · exact unaware_throw _ ⟨borrows, tags, rfl⟩
  · exact unaware_throw _ ⟨borrows, tags, rfl⟩
  · refine Shadows.bind ?_ fun _ _ _ alike => unaware_dropCells scope.cells alike
    exact shadows_set ⟨borrows, tags, rfl⟩

theorem unaware_popScopes (count : Nat) : Unaware (popScopes count) := by
  induction count with
  | zero => exact unaware_pure ()
  | succ count ih => exact unaware_popScope.bind fun _ => ih

theorem unaware_popFrame : Unaware popFrame := by
  refine unaware_get fun s borrows tags => ?_
  refine (unaware_popScopes _ ⟨borrows, tags, rfl⟩).bind fun _ _ _ alike => ?_
  refine unaware_modify ?_ alike
  rintro s _ ⟨borrows, tags, rfl⟩
  exact ⟨borrows, tags, rfl⟩

theorem unaware_emit (text : String) : Unaware (emit text) := by
  refine unaware_modify ?_
  rintro s _ ⟨borrows, tags, rfl⟩
  exact ⟨borrows, tags, rfl⟩

theorem unaware_format (template : String) (texts : List String) :
    Unaware (format template texts) := by
  unfold format
  cases Template.split template with
  | error fault => exact unaware_throw _
  | ok pieces => exact unaware_pure _

/-! ### Operators and calls -/

variable (ctx : Context)

theorem unaware_ofArith (loc : Option Position) (result : Except ArithFault Int) :
    Unaware (ofArith ctx loc result) := by
  cases result with
  | ok n => exact unaware_pure _
  | error fault => exact unaware_report ..

theorem unaware_arith (loc : Option Position) (op : BinaryOp) (left right : Value) :
    Unaware (arith ctx loc op left right) := by
  unfold arith
  split
  · split
    · exact unaware_ofArith ..
    · exact unaware_throw _
  · exact unaware_throw _

theorem unaware_binary (loc : Option Position) (op : BinaryOp) (left right : Value) :
    Unaware (binary ctx loc op left right) := by
  cases op with
  | eq | ne => exact unaware_pure _
  | order op =>
      simp only [binary]
      split
      · exact unaware_pure _
      · exact unaware_throw _
  | _ =>
      simp only [binary]
      exact unaware_arith ..

theorem unaware_unary (loc : Option Position) (op : UnaryOp) (operand : Value) :
    Unaware (unary ctx loc op operand) := by
  unfold unary
  split
  · exact unaware_pure _
  · split
    · exact unaware_ofArith ..
    · exact unaware_throw _

/-- A reference gets the same tag, whatever the stacks have noted. -/
theorem unaware_pushTag (addr : Addr) (isMut : Bool) : Unaware (pushTag addr isMut) := by
  refine unaware_get fun s borrows tags => ?_
  refine shadows_of_ok rfl ?_ ⟨(borrows.push addr (.ofMut isMut)).1, ?_, rfl⟩
  · simp only [BorrowStacks.push, tags]
    rfl
  · simp only [BorrowStacks.push, tags]

theorem unaware_pointee (base : Option Location) (pointer : Value) (source : Expr) :
    Unaware (pointee base pointer source) := by
  cases pointer with
  | ref => exact unaware_pure _
  | box => cases base <;> exact unaware_pure _
  | _ => exact unaware_throw _

theorem unaware_dropHeld (cell : Cell) : Unaware (dropHeld cell) := by
  unfold dropHeld
  split
  · exact unaware_dropValue _
  · exact unaware_pure ()

theorem unaware_storeAt (addr : Addr) (value : Value) : Unaware (storeAt addr value) :=
  unaware_get fun s borrows tags =>
    (unaware_ofHeap (s.heap.store addr value) ⟨borrows, tags, rfl⟩).bind fun _ _ _ _ =>
      shadows_set ⟨borrows, tags, rfl⟩

theorem unaware_bindArgs (args : List (Param × Value)) : Unaware (bindArgs args) := by
  induction args with
  | nil => exact unaware_pure ()
  | cons arg rest ih => exact (unaware_bind arg.1.name arg.2 true).bind fun _ => ih

theorem unaware_pushFrame (f : FunctionDef) (loc : Option Position) :
    Unaware (pushFrame ctx f loc) := by
  refine unaware_get fun s borrows tags => ?_
  by_cases full : ctx.settings.maxCallDepth ≤ s.frames.length
  · simp only [if_pos full]
    exact shadows_throw_bind _ ⟨borrows, tags, rfl⟩
  · simp only [if_neg full]
    exact shadows_set ⟨borrows, tags, rfl⟩

/-! ### Uses of cells -/

theorem access_keeps {borrows after : BorrowStacks} {addr : Addr} {tag : Option Tag}
    {isWrite : Bool} {cause : DiagnosticKind}
    (fine : borrows.access addr tag isWrite cause = .ok after) :
    after.nextTag = borrows.nextTag := by
  unfold BorrowStacks.access at fine
  split at fine
  · exact nomatch fine
  · obtain rfl := Except.ok.inj fine
    rfl

theorem access_violates {borrows : BorrowStacks} {addr : Addr} {tag : Option Tag}
    {isWrite : Bool} {cause : DiagnosticKind} {violation : Violation}
    (broken : borrows.access addr tag isWrite cause = .error violation) :
    ∃ ended, violation.rule = .invalidated ended := by
  unfold BorrowStacks.access at broken
  split at broken
  · obtain rfl := Except.error.inj broken
    exact ⟨_, rfl⟩
  · exact nomatch broken

/-- The owner of a cell can always use it. -/
theorem access_owner (borrows : BorrowStacks) (addr : Addr) (isWrite : Bool)
    (cause : DiagnosticKind) : ∃ after, borrows.access addr none isWrite cause = .ok after :=
  ⟨_, rfl⟩

theorem accessOwned_keeps {isWrite : Bool} {cause : DiagnosticKind} {addrs : List Addr}
    {borrows after : BorrowStacks} (fine : accessOwned isWrite cause borrows addrs = .ok after) :
    after.nextTag = borrows.nextTag := by
  induction addrs generalizing borrows with
  | nil =>
      obtain rfl := Except.ok.inj fine
      rfl
  | cons addr rest ih =>
      cases first : borrows.access addr none isWrite cause with
      | error violation =>
          rw [accessOwned, first] at fine
          cases fine
      | ok middle =>
          rw [accessOwned, first] at fine
          exact (ih fine).trans (access_keeps first)

theorem accessOwned_violates {isWrite : Bool} {cause : DiagnosticKind} {addrs : List Addr}
    {borrows : BorrowStacks} {violation : Violation}
    (broken : accessOwned isWrite cause borrows addrs = .error violation) :
    ∃ ended, violation.rule = .invalidated ended := by
  induction addrs generalizing borrows with
  | nil => exact nomatch broken
  | cons addr rest ih =>
      cases first : borrows.access addr none isWrite cause with
      | error other =>
          rw [accessOwned, first] at broken
          obtain rfl := Except.error.inj broken
          exact access_violates first
      | ok middle =>
          rw [accessOwned, first] at broken
          exact ih broken

theorem off_accessOwned (isWrite : Bool) (cause : DiagnosticKind) (borrows : BorrowStacks)
    (addrs : List Addr) : Watch.off.accessOwned isWrite cause borrows addrs = .ok borrows := by
  induction addrs with
  | nil => rfl
  | cons addr rest ih => exact ih

theorem failRule_violates (rule : Rule) (ended : DiagnosticKind) (same : rule = .invalidated ended)
    (l : Location) (expr : Expr) (y : Eval α) : Shadows (failRule ctx rule l expr) y s t :=
  shadows_violation rfl ⟨ended, _, _, by rw [same]⟩

theorem access_shadows (l : Location) (expr : Expr) (isWrite : Bool) (cause : DiagnosticKind)
    (alike : Alike s t) :
    Shadows (access ctx l expr isWrite cause) (Watch.off.access ctx l expr isWrite cause) s t := by
  obtain ⟨borrows, tags, rfl⟩ := alike
  refine shadows_get ?_
  cases present : s.heap.contains l.first with
  | false => exact shadows_throw_bind _ ⟨borrows, tags, rfl⟩
  | true =>
      simp only [Bool.not_true, Bool.false_eq_true, if_false, Watch.off, off_accessOwned]
      cases first : s.borrows.access l.first l.tag isWrite cause with
      | error violation =>
          obtain ⟨ended, rule⟩ := access_violates first
          exact failRule_violates ctx violation.rule ended rule l expr _
      | ok middle =>
          cases others : accessOwned isWrite cause middle l.inner with
          | error violation =>
              obtain ⟨ended, rule⟩ := accessOwned_violates others
              simp only [others]
              exact failRule_violates ctx violation.rule ended rule l expr _
          | ok after =>
              simp only [others]
              have kept := (accessOwned_keeps others).trans (access_keeps first)
              exact shadows_set ⟨borrows, tags.trans kept.symm, rfl⟩

theorem load_shadows (l : Location) (expr : Expr) (alike : Alike s t) :
    Shadows (load ctx l expr) (Watch.off.load ctx l expr) s t := by
  refine (access_shadows ctx l expr false .conflictingBorrow alike).bind ?_
  rintro _ s _ ⟨borrows, tags, rfl⟩
  refine shadows_get ?_
  refine (unaware_ofHeap (s.heap.cell l.addr) ⟨borrows, tags, rfl⟩).bind fun cell s t alike => ?_
  cases cell.state with
  | live => exact unaware_pure _ alike
  | moved | uninit => exact unaware_report _ _ _ _ _ alike

theorem endOwned_shadows (fuel : Nat) (value : Value) (alike : Alike s t) :
    Shadows (endOwned fuel value) (Watch.off.endOwned fuel value) s t := by
  induction fuel generalizing value s t with
  | zero =>
      cases value with
      | box addr => exact unaware_throw _ alike
      | _ => exact unaware_pure () alike
  | succ fuel ih =>
      cases value with
      | box addr =>
          obtain ⟨borrows, tags, rfl⟩ := alike
          obtain ⟨after, used⟩ := access_owner s.borrows addr true .moveWhileBorrowed
          have kept := access_keeps used
          refine shadows_get ?_
          simp only [used, Watch.off]
          refine Shadows.bind (shadows_set ⟨borrows, tags.trans kept.symm, rfl⟩) ?_
          intro _ _ _ alike
          refine (unaware_ofHeap (s.heap.cell addr) alike).bind fun cell _ _ alike => ?_
          cases cell.liveValue? with
          | none => exact unaware_pure () alike
          | some inner => exact ih inner alike
      | _ => exact unaware_pure () alike

theorem read_shadows (l : Location) (expr : Expr) (alike : Alike s t) :
    Shadows (read ctx l expr) (Watch.off.read ctx l expr) s t := by
  refine (load_shadows ctx l expr alike).bind fun value s t alike => ?_
  cases value with
  | box addr =>
      refine (access_shadows ctx l expr true .moveWhileBorrowed alike).bind ?_
      rintro _ s _ ⟨borrows, tags, rfl⟩
      refine shadows_get ?_
      refine (endOwned_shadows (s.heap.live + 1) _ ⟨borrows, tags, rfl⟩).bind ?_
      rintro _ s _ ⟨borrows, tags, rfl⟩
      refine shadows_get ?_
      refine (unaware_ofHeap (s.heap.take l.addr) ⟨borrows, tags, rfl⟩).bind fun taken _ _ _ => ?_
      refine Shadows.bind (shadows_set ⟨borrows, tags, rfl⟩) fun _ _ _ alike => ?_
      exact unaware_pure taken.2 alike
  | _ => exact unaware_pure _ alike

theorem follow_shadows (expr : Expr) (value : Value) (alike : Alike s t) :
    Shadows (follow ctx expr value) (Watch.off.follow ctx expr value) s t := by
  cases value with
  | ref addr isMut tag =>
      exact (load_shadows ctx _ expr alike).bind fun value _ _ alike =>
        unaware_pure (some value) alike
  | box addr =>
      obtain ⟨borrows, tags, rfl⟩ := alike
      refine shadows_get ?_
      exact (unaware_ofHeap (s.heap.load addr) ⟨borrows, tags, rfl⟩).bind fun value _ _ alike =>
        unaware_pure (some value) alike
  | _ => exact unaware_pure none alike

theorem assign_shadows (l : Location) (target : Expr) (value : Value) (alike : Alike s t) :
    Shadows (assign ctx l target value) (Watch.off.assign ctx l target value) s t := by
  refine (access_shadows ctx l target true .assignWhileBorrowed alike).bind ?_
  rintro _ s _ ⟨borrows, tags, rfl⟩
  refine shadows_get ?_
  refine (unaware_ofHeap (s.heap.cell l.addr) ⟨borrows, tags, rfl⟩).bind fun cell s t alike => ?_
  exact (unaware_dropHeld cell alike).bind fun _ _ _ alike => unaware_storeAt l.addr value alike

theorem combine_shadows (loc : Option Position) (l : Location) (target : Expr) (op : BinaryOp)
    (value : Value) (alike : Alike s t) :
    Shadows (combine ctx loc l target op value) (Watch.off.combine ctx loc l target op value) s t :=
  (load_shadows ctx l target alike).bind fun current _ _ alike =>
    (unaware_arith ctx loc op current value alike).bind fun result _ _ alike =>
      (access_shadows ctx l target true .assignWhileBorrowed alike).bind fun _ _ _ alike =>
        unaware_storeAt l.addr result alike

end BorrowLang.Evaluator
