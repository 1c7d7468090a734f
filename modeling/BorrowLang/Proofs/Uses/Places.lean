import BorrowLang.Proofs.Moves.Uses
import BorrowLang.Proofs.Uses.Checks
import BorrowLang.Proofs.Uses.Safe

/-!
# Places on the way

The location that a place expression comes to is that of its place in the outline: as many boxes
behind the cell of the binding, or behind a reference on the way.  If nothing is gone up to there, the
cell holds a value.
-/

set_option autoImplicit false

namespace BorrowLang

open Ownership Moves

namespace Moves

variable {o : Outline} {spot : Spot}

theorem ty?_behind (o : Outline) (spot : Spot) :
    o.ty? spot.behind = (o.ty? spot).bind Ty.pointee? := by
  unfold Outline.ty? Spot.behind
  cases o.decls[spot.level]? <;> rfl

theorem steps_behind {ty : Ty} (known : o.ty? spot = some ty) :
    o.steps spot.behind = o.steps spot ++ [Checker.viaOf ty] := by
  obtain ⟨decl, isDecl, isTy⟩ := Option.bind_eq_some_iff.mp known
  simp only [Outline.steps, Spot.behind, isDecl, Option.map_some, Option.getD_some, Decl.steps,
    List.range_succ, List.filterMap_append]
  simp [isTy]

/-- A place behind one that is not owned is not owned, and none is behind a reference. -/
theorem not_owned_behind {ty : Ty} (known : o.ty? spot = some ty)
    (notOwned : ¬ o.Owned spot ∨ ty.isRef = true) : ¬ o.Owned spot.behind := by
  unfold Outline.Owned at *
  rw [steps_behind known, List.reverse_append, List.reverse_singleton, List.singleton_append,
    List.find?_cons]
  cases isRef : (Checker.viaOf ty).isRef with
  | true => simp
  | false =>
      rcases notOwned with notOwned | ref
      · exact notOwned
      · cases ty with
        | ref isMut target => cases isMut <;> cases isRef
        | _ => cases ref

theorem isPlace_of_placeOf {e : Expr} {o after : Outline} {spot : Spot}
    (found : placeOf e o = some (spot, after)) : e.isPlace = true := by
  induction e using placeOf.induct generalizing o after spot with
  | case1 loc ident => rfl
  | case2 loc inner operand isMut ih =>
      rw [placeOf] at found
      obtain ⟨_, _, begins, -⟩ := bind_eq_some.mp found
      exact ih begins
  | case3 loc operand notBorrow ih =>
      rw [placeOf] at found
      · obtain ⟨_, _, begins, -⟩ := bind_eq_some.mp found
        rw [Expr.isPlace]
        · exact ih begins
        · exact notBorrow
      · exact notBorrow
  | case4 e notName notBorrow notDeref =>
      rw [placeOf] at found
      · cases found
      · exact notName
      · exact notBorrow
      · exact notDeref

theorem level?_lt {decls : List Decl} {name : String} {level : Nat}
    (found : level? decls name = some level) : level < decls.length := by
  induction decls generalizing level with
  | nil => cases found
  | cons decl later ih =>
      rw [level?] at found
      split at found
      · rename_i inner isInner
        obtain rfl := Option.some.inj found
        exact Nat.succ_lt_succ (ih isInner)
      · split at found
        · obtain rfl := Option.some.inj found
          exact Nat.succ_pos _
        · cases found

/-- What a borrow that is looked through at once denotes is its operand. -/
theorem placeOf_borrow {loc inner : Option Position} {operand : Expr} {isMut : Bool}
    {after : Outline}
    (found : placeOf (.deref loc (.borrow inner operand isMut)) o = some (spot, after)) :
    placeOf operand o = some (spot, o) := by
  rw [placeOf] at found
  obtain ⟨base, mid, begins, ends⟩ := bind_eq_some.mp found
  obtain rfl := Reads.placeOf operand _ _ _ begins
  have same : base = spot := by
    split at ends
    · obtain ⟨_, _, -, last⟩ := bind_eq_some.mp ends
      obtain ⟨_, _, -, last⟩ := bind_eq_some.mp last
      exact (pure_eq_some.mp last).1
    · obtain ⟨_, _, -, last⟩ := bind_eq_some.mp ends
      exact (pure_eq_some.mp last).1
  exact same ▸ begins

/-- What is behind a pointer is the place behind its place. -/
theorem placeOf_deref {loc : Option Position} {operand : Expr} {after : Outline}
    (notBorrow : ∀ loc inner isMut, operand = .borrow loc inner isMut → False)
    (found : placeOf (.deref loc operand) o = some (spot, after)) :
    ∃ base ty, placeOf operand o = some (base, o) ∧ o.ty? base = some ty ∧
      ty.pointee?.isSome ∧ base.behind = spot := by
  rw [placeOf] at found
  · obtain ⟨base, mid, begins, ends⟩ := bind_eq_some.mp found
    obtain rfl := Reads.placeOf operand _ _ _ begins
    obtain ⟨ty, mid', typed, last⟩ := bind_eq_some.mp ends
    obtain ⟨isTy, rfl⟩ := typeOf_eq_some typed
    refine ⟨base, ty, begins, isTy, ?_⟩
    cases pointee : ty.pointee? with
    | none =>
        rw [pointee] at last
        cases last
    | some target =>
        rw [pointee] at last
        exact ⟨rfl, (pure_eq_some.mp last).1⟩
  · exact notBorrow

end Moves

namespace Evaluator

variable {ctx : Context} {n : Nat} {s mid : State} {types later : CellTypes}
variable {callers : List Layer} {flight : List Addr} {o : Outline} {counts : List Nat}
variable {spot : Spot} {l : Location} {activation : Activation}

/-! ### Names -/

theorem find?_of_level? {bindings : List (String × Addr)} {decls : List Decl} {name : String}
    {level : Nat} (names : bindings.reverse.map (·.1) = decls.map (·.name))
    (found : level? decls name = some level) :
    (bindings.find? (·.1 = name)).map (·.2) = bindings.reverse[level]?.map (·.2) := by
  induction bindings generalizing decls with
  | nil =>
      obtain rfl := List.map_eq_nil_iff.mp names.symm
      cases found
  | cons binding rest ih =>
      rw [List.reverse_cons, List.map_append] at names
      obtain ⟨first, last, rfl, same, isLast⟩ := List.map_eq_append_iff.mp names.symm
      obtain ⟨decl, rfl, isName⟩ := List.map_eq_singleton_iff.mp isLast
      have length : first.length = rest.reverse.length := by simpa using congrArg List.length same
      rw [Checker.level?_append, isName] at found
      rw [List.find?_cons, List.reverse_cons]
      by_cases here : binding.1 = name
      · simp only [here, decide_true, if_true, Option.some.injEq] at found ⊢
        subst found
        rw [length, List.getElem?_append_right (Nat.le_refl _)]
        simp
      · simp only [here, decide_false, if_false] at found ⊢
        rw [ih same.symm found, List.getElem?_append_left (length ▸ level?_lt found)]

/-- A name stands for the cell of its binding. -/
theorem lookup_uses {rest : List Activation} {ident : String} {level : Nat}
    (frames : s.frames = activation :: rest)
    (holds : Layer.Holds types s.heap.lookup ⟨o, counts⟩ activation)
    (found : level? o.decls ident = some level) :
    Meets (lookup ident) s (fun addr after => after = s ∧ activation.cell? level = some addr)
      (fun interrupt _ => interrupt.Spared) := by
  have scopes : (s.frames.head?.map (·.scopes)).getD [] = activation.scopes := by
    rw [frames]
    rfl
  have same : activation.scopes.findSome? (fun scope =>
      (scope.names.find? (·.1 = ident)).map (·.2)) = activation.cell? level := by
    have known := Checker.lookup?_eq_find? (activation.scopes.map Scope.names) ident
    rw [Checker.lookup?, List.findSome?_map] at known
    rw [Activation.cell?, Activation.bound, ← find?_of_level? holds.named found]
    exact known
  simp only [lookup, meets_bind, meets_get, scopes, same]
  cases cell : activation.cell? level with
  | some addr => exact ⟨rfl, rfl⟩
  | none => exact (id : ¬ False)

/-! ### Locations of places -/

/-- The location is that of a place of the innermost activation. -/
structure Location.Denotes (types : CellTypes) (o : Outline) (spot : Spot) (s : State)
    (l : Location) : Prop where
  typed : ∀ ty, types l.addr = some ty → o.ty? spot = some ty
  untyped : types l.addr = none → l.tag = none ∧ spot.depth = 0
  root : ∃ activation rest root, s.frames = activation :: rest ∧
    activation.cell? spot.level = some root ∧
    (l.tag = none → l.first = root ∧ l.owners.length = spot.depth) ∧
    (l.tag ≠ none → ¬ o.Owned spot ∧
      ∀ chain, Chain s.heap.lookup root chain → chain.length ≤ spot.depth)

/-- A location that was reached is on the chain of its first cell. -/
theorem Reached.getElem? (reached : Reached s l) {chain : List Addr}
    (run : Chain s.heap.lookup l.first chain) :
    l.owners ++ [l.addr] <+: chain ∧ chain[l.owners.length]? = some l.addr := by
  have part := run.isPrefix reached.path l.first_eq_head
  refine ⟨part, ?_⟩
  have bound : l.owners.length < (l.owners ++ [l.addr]).length := by simp
  rw [List.prefix_iff_getElem?.mp part _ bound]
  simp

namespace Location.Denotes

/-- Where nothing is gone up to a place, a use that is allowed finds a value there. -/
theorem held (denotes : l.Denotes types o spot s)
    (tracked : s.Tracked types (⟨o, counts⟩ :: callers) flight) (owned : Owned s flight)
    (reached : Reached s l) (kept : ∀ depth ≤ spot.depth, ¬ o.Gone spot.level depth)
    (here : (s.heap.lookup l.first).isSome)
    (valid : ∀ tag, l.tag = some tag → s.borrows.stack l.first ≠ []) :
    Live s.heap.lookup l.addr := by
  obtain ⟨activation, rest, root, frames, isCell, bound, -⟩ := denotes.root
  obtain ⟨chain, run⟩ := owned.forest.ends l.first here
  obtain ⟨part, isHere⟩ := reached.getElem? run
  cases via : l.tag with
  | some tag => exact tracked.lent _ (valid tag via) chain run _ (List.mem_of_getElem? isHere)
  | none =>
      obtain ⟨isRoot, depth⟩ := bound via
      obtain ⟨activation', rest', frames', holds, -⟩ := tracked.head
      obtain ⟨rfl, rfl⟩ := List.cons.inj (frames.symm.trans frames')
      rw [isRoot] at run
      exact (holds.covered isCell).live run (depth ▸ isHere) (depth ▸ kept)

theorem held_state (denotes : l.Denotes types o spot s)
    (tracked : s.Tracked types (⟨o, counts⟩ :: callers) flight) (owned : Owned s flight)
    (reached : Reached s l) (kept : ∀ depth ≤ spot.depth, ¬ o.Gone spot.level depth)
    (here : (s.heap.lookup l.first).isSome)
    (valid : ∀ tag, l.tag = some tag → s.borrows.stack l.first ≠ []) :
    ∀ cell, s.heap.lookup l.addr = some cell → cell.state = .live := by
  obtain ⟨value, isLive⟩ := denotes.held tracked owned reached kept here valid
  intro cell found
  rw [isLive] at found
  exact Option.some.inj found ▸ rfl

/-- The type of a value at the location of a place is that of the place. -/
theorem shaped (denotes : l.Denotes types o spot s) {layers : List Layer}
    (tracked : s.Tracked types layers flight) {value : Value}
    (found : s.heap.lookup l.addr = some ⟨value, .live⟩) :
    ∃ ty, types l.addr = some ty ∧ o.ty? spot = some ty ∧ value.Shaped types ty := by
  obtain ⟨ty, known, shaped⟩ := tracked.shaped l.addr value found
  exact ⟨ty, known, denotes.typed ty known, shaped⟩

theorem ended {after : State} (denotes : l.Denotes types o spot s) (ended : Ended s after) :
    l.Denotes types o spot after where
  typed := denotes.typed
  untyped := denotes.untyped
  root := by
    rw [ended.heap, ended.frames]
    exact denotes.root

/-- A box at the location of a place leads to that of the place behind. -/
theorem box (denotes : l.Denotes types o spot s) {ty : Ty} {b : Addr}
    (known : o.ty? spot = some (.box ty)) (points : types b = some ty) :
    Location.Denotes types o spot.behind s
      { addr := b, tag := l.tag, owners := l.owners ++ [l.addr], source := l.source } where
  typed other isTy := by
    obtain rfl := Option.some.inj (points.symm.trans isTy)
    rw [ty?_behind, known]
    rfl
  untyped unknown := by
    cases points.symm.trans unknown
  root := by
    obtain ⟨activation, rest, root, frames, isCell, direct, through⟩ := denotes.root
    refine ⟨activation, rest, root, frames, isCell, fun owner => ?_, fun via => ?_⟩
    · obtain ⟨isRoot, depth⟩ := direct owner
      refine ⟨?_, by simp [Spot.behind, depth]⟩
      rw [← isRoot]
      cases owners : l.owners <;> simp [Location.first, owners]
    · obtain ⟨notOwned, short⟩ := through via
      exact ⟨not_owned_behind known (Or.inl notOwned), fun chain run =>
        Nat.le_succ_of_le (short chain run)⟩

/-- A reference at the location of a place leads to that of the place behind. -/
theorem ref (denotes : l.Denotes types o spot s) (reached : Reached s l)
    {wanted isMut : Bool} {ty : Ty} {addr : Addr} {tag : Tag} (source : Option Expr)
    (known : o.ty? spot = some (.ref wanted ty)) (points : types addr = some ty)
    (found : s.heap.lookup l.addr = some ⟨.ref addr isMut tag, .live⟩) :
    Location.Denotes types o spot.behind s { addr, tag := some tag, source } where
  typed other isTy := by
    obtain rfl := Option.some.inj (points.symm.trans isTy)
    rw [ty?_behind, known]
    rfl
  untyped unknown := by
    cases points.symm.trans unknown
  root := by
    obtain ⟨activation, rest, root, frames, isCell, direct, through⟩ := denotes.root
    refine ⟨activation, rest, root, frames, isCell, by rintro ⟨⟩, fun _ => ?_⟩
    refine ⟨not_owned_behind known (Or.inr rfl), fun chain run => ?_⟩
    by_cases owner : l.tag = none
    · -- The chain of the binding ends at the reference.
      obtain ⟨isRoot, depth⟩ := direct owner
      obtain ⟨-, isHere⟩ := reached.getElem? (isRoot ▸ run)
      by_contra longer
      have later : l.owners.length + 1 < chain.length := by
        change ¬ chain.length ≤ spot.depth + 1 at longer
        omega
      have next := List.isChain_iff_getElem.mp run.isChain l.owners.length later
      rw [(List.getElem?_eq_some_iff.mp isHere).2] at next
      simp [boxAt, found, Cell.box?, Cell.liveValue?, Value.box?] at next
    · exact Nat.le_succ_of_le ((through owner).2 chain run)

end Location.Denotes

/-- It is safe to go on at the location of a place. -/
def OnPlace (ctx : Context) (n : Nat) (o : Outline) (counts : List Nat) (callers : List Layer)
    (types : CellTypes) (spot : Spot) (k : Stack .place) : Prop :=
  ∀ (later : CellTypes) (l : Location) (s : State), types.Extends later →
    s.Tracked later (⟨o, counts⟩ :: callers) (boxes k.values) → l.Denotes later o spot s →
      Safe ctx n ⟨.found l, k, s⟩

/-- The way to the location of a place finds a value wherever it reads one, if nothing is gone before
the place. -/
theorem placeOf_safe (e : Expr) {after : Outline} {k : Stack .place}
    (found : placeOf e o = some (spot, after))
    (tracked : s.Tracked types (⟨o, counts⟩ :: callers) (boxes k.values))
    (kept : ∀ depth < spot.depth, ¬ o.Gone spot.level depth)
    (goesOn : OnPlace ctx n o counts callers types spot k) :
    Safe ctx n ⟨.place e, k, s⟩ := by
  induction e using placeOf.induct generalizing after spot k with
  | case1 loc ident =>
      rw [placeOf] at found
      obtain ⟨level, isLevel, same⟩ := Option.map_eq_some_iff.mp found
      obtain ⟨rfl, -⟩ := Prod.mk.inj same
      obtain ⟨activation, rest, frames, holds, -⟩ := tracked.head
      refine .acts rfl rfl fun _ => ?_
      simp only [meets_bind, meets_pure]
      refine Meets.onOk (lookup_uses frames holds isLevel) ?_
      rintro addr _ ⟨rfl, isCell⟩
      refine goesOn types _ _ (.refl types) tracked ⟨fun ty known => ?_, fun _ => ⟨rfl, rfl⟩, ?_⟩
      · exact holds.typed isCell known
      · exact ⟨activation, rest, addr, frames, isCell, fun _ => ⟨rfl, rfl⟩, fun via => absurd rfl via⟩
  | case2 loc inner operand isMut ih =>
      have begins := placeOf_borrow found
      refine .goes ?_ rfl (ih begins tracked kept goesOn)
      simp only [advance, enterPlace, isPlace_of_placeOf begins, if_true]
  | case3 loc operand notBorrow ih =>
      obtain ⟨base, ty, begins, isTy, pointer, rfl⟩ := placeOf_deref notBorrow found
      have entered : enterPlace (.deref loc operand) k =
          goTo (.place operand) (.cons (.derefPlace operand) k) := by
        rw [enterPlace]
        · simp only [isPlace_of_placeOf begins, if_true]
        · exact notBorrow
      have values : (Stack.cons (.derefPlace operand) k).values = k.values := List.append_nil _
      refine .goes (congrArg some entered) rfl (ih begins (values ▸ tracked) ?_ ?_)
      · exact fun depth before => kept depth (Nat.lt_succ_of_lt before)
      · intro later l s extended tracked denotes
        rw [values] at tracked
        refine .acts rfl rfl fun sound => ?_
        have reached : Reached s l := sound.holds
        have owned : Owned s (boxes k.values) := by
          simpa [Control.values, values] using sound.owned
        have upTo : ∀ depth ≤ base.depth, ¬ o.Gone base.level depth :=
          fun depth atMost => kept depth (Nat.lt_succ_of_le atMost)
        simp only [meets_bind]
        refine Meets.onOk (load_uses operand tracked.caused
          (denotes.held_state tracked owned reached upTo)) ?_
        rintro value loaded ⟨ended, isHere, -, caused⟩
        obtain ⟨known, -, isKnown, shaped⟩ := denotes.shaped tracked isHere
        obtain rfl := Option.some.inj (isTy.symm.trans isKnown)
        have trackedHere := tracked.ended ended caused
        have denotesHere := denotes.ended ended
        have foundHere : loaded.heap.lookup l.addr = some ⟨value, .live⟩ := by
          rw [ended.heap, isHere]
        cases shaped with
        | plain noAddr noPointer =>
            rw [noPointer] at pointer
            cases pointer
        | box points =>
            exact goesOn later _ loaded extended trackedHere (denotesHere.box isTy points)
        | ref points =>
            exact goesOn later _ loaded extended trackedHere
              (denotesHere.ref (ended.reached reached) (some operand) isTy points foundHere)
  | case4 e notName notBorrow notDeref =>
      rw [placeOf] at found
      · cases found
      · exact notName
      · exact notBorrow
      · exact notDeref

end Evaluator

end BorrowLang
