import BorrowLang.Proofs.Code.Machine
import BorrowLang.Proofs.Typing.Machine

/-!
# Captured boxes

A macro only looks at an argument that is a place: a box there is captured, and stays with its
owner.  Until the macro has followed it, the box must not be dropped.  Operators, borrows and moves
drop nothing, so captured boxes stay in use as long as nothing else is run.
-/

set_option autoImplicit false

namespace BorrowLang.Evaluator

open Ownership Typing

/-! ### What is captured -/

/-- The values of places that a macro looks at. -/
def capturedValues (values : List Shown) : List Value := (values.filter (!·.owned)).map (·.value)

/-- The boxes that a macro has captured, or is following. -/
def Control.captured {mode : Mode} : Control mode → List Addr
  | .shown _ values _ => boxes (capturedValues values)
  | .follow _ _ _ rest => boxes (rest.map (·.2))
  | _ => []

/-- The boxes that the macro of a frame has captured. -/
def Frame.captured {first next : Mode} : Frame first next → List Addr
  | .shownValue _ values _ _ | .shownPlace _ values _ _ => boxes (capturedValues values)
  | _ => []

def Stack.captured {mode : Mode} : Stack mode → List Addr
  | .nil => []
  | .cons frame rest => rest.captured ++ frame.captured

/-- The heap is not the cause of a fault. -/
def Control.Clean {mode : Mode} : Control mode → Prop
  | .interrupted (.failed fault) => ¬ fault.OfHeap
  | _ => True

/-- Captured boxes ask for code that drops nothing. -/
def calmGuard : Guard .calm where
  quiet k := k.captured = []
  asks frame := frame.captured ≠ []
  holds := by
    intro first next frame asks
    cases frame <;> simp_all [Frame.captured, Frame.holdsValues]
  push := by
    intro first next frame k quiet plain
    rw [Stack.captured, quiet, not_not.mp plain, List.append_nil]
  pop := by
    intro first next frame k _ quiet
    exact (List.append_eq_nil_iff.mp quiet).1

/-! ### Boxes in cells -/

/-- A cell that does not hold a value keeps no box. -/
def Tidy (cells : Cells) : Prop := ∀ addr cell, cells addr = some cell → cell.value.box? = cell.box?

namespace Tidy

variable {cells : Cells}

theorem update (tidy : Tidy cells) {l : Addr} {cell : Cell} (own : cell.value.box? = cell.box?) :
    Tidy (Function.update cells l (some cell)) := by
  intro addr found here
  by_cases same : addr = l
  · subst same
    rw [Function.update_self] at here
    exact Option.some.inj here ▸ own
  · rw [Function.update_of_ne same] at here
    exact tidy addr found here

theorem part (tidy : Tidy cells) {fewer : Cells}
    (old : ∀ addr, (fewer addr).isSome → fewer addr = cells addr) : Tidy fewer := by
  intro addr found here
  exact tidy addr found (by rw [← old addr (by simp [here]), here])

end Tidy

/-- Cells are tidy, and captured boxes lead to cells in use. -/
structure State.Shows (s : State) (captured : List Addr) : Prop where
  tidy : Tidy s.heap.lookup
  held : ∀ box ∈ captured, (s.heap.lookup box).isSome

variable {s after : State} {captured : List Addr} {l : Location} {value : Value}

namespace State.Shows

theorem part (shows : s.Shows captured) {others : List Addr}
    (part : ∀ box ∈ others, box ∈ captured) : s.Shows others :=
  ⟨shows.tidy, fun box member => shows.held box (part box member)⟩

theorem unmoved (shows : s.Shows captured) (unmoved : Unmoved s after) :
    after.Shows captured := by
  constructor
  · rw [unmoved.heap]
    exact shows.tidy
  · rw [unmoved.heap]
    exact shows.held

theorem taken (shows : s.Shows captured) (taken : Taken s l value after) :
    after.Shows captured := by
  constructor
  · rw [taken.lookup]
    split
    · exact shows.tidy.update rfl
    · exact shows.tidy
  · intro box member
    rw [taken.lookup]
    split
    · rw [isSome_update, shows.held box member, Bool.or_true]
    · exact shows.held box member

theorem added {initialized : Bool} (shows : s.Shows captured)
    (plain : initialized = false → value.box? = none) (added : Added s value initialized after) :
    after.Shows captured := by
  constructor
  · rw [added.lookup]
    refine shows.tidy.update ?_
    cases initialized with
    | true => rfl
    | false => exact plain rfl
  · intro box member
    rw [added.lookup, isSome_update, shows.held box member, Bool.or_true]

/-- What was there before may be gone once nothing is captured. -/
theorem fewer (shows : s.Shows captured)
    (old : ∀ addr, (after.heap.lookup addr).isSome → after.heap.lookup addr = s.heap.lookup addr) :
    after.Shows [] :=
  ⟨shows.tidy.part old, by simp⟩

theorem replaced (shows : s.Shows captured) (replaced : Replaced s l value after) :
    after.Shows [] := by
  obtain ⟨gone, -, lookup⟩ := replaced.lookup
  refine ⟨?_, by simp⟩
  rw [lookup]
  refine Tidy.update (shows.tidy.part fun addr here => ?_) rfl
  exact without_of_notMem (isSome_without here).1

end State.Shows

/-! ### Leaving scopes -/

theorem popScope_shows {flight : List Addr} (owned : Owned s flight) {count : Nat}
    {rest : List Nat} (shape : s.shape = (count + 1) :: rest) (shows : s.Shows captured) :
    Meets popScope s (fun _ after => after.Shows []) (fun _ _ => False) := by
  apply Meets.onOk (popScope_meets owned shape)
  intro _ after met
  obtain ⟨-, -, -, thinned⟩ := met
  obtain ⟨scope, scopes, frames, framesEq⟩ := Open.frames ⟨count, rest, shape⟩
  have heap : s.leaveScope.heap = s.heap := by simp [State.leaveScope, framesEq]
  exact shows.fewer fun addr here => heap ▸ thinned.cells addr here

theorem popFrame_shows {flight : List Addr} (owned : Owned s flight) {rest : List Nat}
    (shape : s.shape = 1 :: rest) (shows : s.Shows captured) :
    Meets popFrame s (fun _ after => after.Shows []) (fun _ _ => False) := by
  apply Meets.onOk (popFrame_meets owned shape)
  intro _ after met
  obtain ⟨-, -, -, thinned⟩ := met
  exact shows.fewer thinned.cells

/-! ### Machines -/

/-- A machine whose captured boxes can be followed, and that has not failed on the heap. -/
structure Attends {mode : Mode} (control : Control mode) (k : Stack mode) (s : State) : Prop where
  shows : s.Shows (k.captured ++ control.captured)
  clean : control.Clean

def Transition.Attends (t : Transition) (s : State) : Prop :=
  Meets t.action s (fun control after => Evaluator.Attends control t.stack after)
    (fun interrupt after =>
      Evaluator.Attends (.interrupted interrupt : Control t.mode) t.stack after)

section Steps

variable {mode next : Mode} {ctx : Context}

theorem attends_plain {control : Control mode} {k : Stack mode} (shows : s.Shows k.captured)
    (clean : control.Clean) (plain : control.captured = []) : Attends control k s :=
  ⟨by rwa [plain, List.append_nil], clean⟩

theorem Declined.attends {k : Stack mode} {interrupt : Interrupt}
    (declined : Declined s interrupt after) (shows : s.Shows k.captured) :
    Attends (.interrupted interrupt) k after := by
  obtain ⟨⟨fault, rfl, plain⟩, unmoved⟩ := declined
  exact attends_plain (shows.unmoved unmoved) plain rfl

theorem goTo_attends {target : Control next} {rest : Stack next} {k : Stack mode}
    {control : Control mode} (attends : Attends control k s)
    (part : ∀ box ∈ rest.captured ++ target.captured, box ∈ k.captured ++ control.captured)
    (clean : target.Clean) : (goTo target rest).Attends s :=
  ⟨attends.shows.part part, clean⟩

/-! ### The first steps into expressions, places and statements -/

theorem enterExpr_attends {expr : Expr} {k : Stack .value} (attends : Attends (.expr expr) k s) :
    (enterExpr expr k).Attends s := by
  cases expr with
  | ofStmt | ofBlock => exact ⟨attends.shows, id⟩
  | binary loc op left right =>
      cases op with
      | _ =>
          exact goTo_attends attends
            (by simp [Stack.captured, Frame.captured, Control.captured]) trivial
  | borrow loc operand isMut =>
      simp only [enterExpr]
      split
      · exact goTo_attends attends
          (by simp [Stack.captured, Frame.captured, Control.captured]) trivial
      · exact goTo_attends attends
          (by simp [Stack.captured, Frame.captured, Control.captured]) trivial
  | _ =>
      exact goTo_attends attends
        (by simp [Stack.captured, Frame.captured, Control.captured, capturedValues]) trivial

theorem enterPlace_attends {expr : Expr} {k : Stack .place} (attends : Attends (.place expr) k s) :
    (enterPlace expr k).Attends s := by
  fun_cases enterPlace expr k with
  | case1 loc ident =>
      simp only [Transition.Attends, lookup, meets_bind, meets_get]
      split
      · exact ⟨attends.shows, trivial⟩
      · exact ⟨attends.shows, id⟩
  | case6 => exact ⟨attends.shows, id⟩
  | _ =>
      exact goTo_attends attends (by simp [Stack.captured, Frame.captured, Control.captured]) trivial

theorem enterStmt_attends {stmt : Stmt} {k : Stack .done} (isOpen : Open s.shape)
    (attends : Attends (.stmt stmt) k s) : (enterStmt stmt k).Attends s := by
  fun_cases enterStmt stmt k with
  | case1 loc ident =>
      simp only [Transition.Attends, meets_bind, meets_pure]
      apply Meets.uncut (bind_effect ident .unit false isOpen)
      exact fun _ after met => ⟨attends.shows.added (fun _ => rfl) met.2, trivial⟩
  | case4 => exact ⟨attends.shows, trivial⟩
  | case8 | case9 => exact ⟨attends.shows, id⟩
  | _ =>
      exact goTo_attends attends (by simp [Stack.captured, Frame.captured, Control.captured]) trivial

/-! ### Steps of calls and macros -/

theorem applyCall_attends {loc : Option Position} {func : String} {values : List Value}
    {k : Stack .value} (attends : Attends (.args loc func values []) k s) :
    (applyCall ctx loc func values k).Attends s := by
  fun_cases applyCall ctx loc func values k with
  | case1 | case3 => exact ⟨attends.shows, trivial⟩
  | case2 | case4 => exact ⟨attends.shows, id⟩

/-- New bindings take nothing out of use. -/
theorem bindArgs_shows {args : List (Param × Value)} {flight : List Addr}
    (owned : Owned s (flight ++ boxes (args.map (·.2)))) (isOpen : Open s.shape)
    (shows : s.Shows captured) :
    Meets (bindArgs args) s (fun _ after => after.Shows captured) (fun _ _ => False) := by
  induction args generalizing s with
  | nil => exact shows
  | cons arg rest ih =>
      obtain ⟨param, value⟩ := arg
      have first : Owned s ((flight ++ boxes (rest.map (·.2))) ++
          (Cell.box? ⟨value, if true then .live else .uninit⟩).toList) := by
        refine owned.weaken (List.Perm.subperm ?_)
        change ((flight ++ boxes (rest.map (·.2))) ++ value.box?.toList).Perm _
        rw [List.map_cons, boxes_cons, List.append_assoc]
        exact List.perm_append_comm.append_left flight
      simp only [bindArgs, meets_bind]
      apply Meets.onOk ((bind_meets param.name first isOpen).and
        (bind_effect param.name value true isOpen))
      intro _ mid met
      obtain ⟨⟨ownedMid, steady⟩, -, added⟩ := met
      exact ih ownedMid (steady.shape ▸ isOpen) (shows.added (by simp) added)

theorem enter_attends {f : FunctionDef} {values : List Value} {k : Stack .value}
    (sound : Sound (.enter f values) k s) (attends : Attends (.enter f values) k s) :
    Transition.Attends ⟨.cons (.leaveCall f) k, do
      bindArgs (f.params.zip values)
      return .block f.body⟩ s := by
  obtain ⟨rest, shape, -⟩ := sound.fits
  have owned : Owned s (boxes k.values ++ boxes ((f.params.zip values).map (·.2))) := by
    refine sound.owned.weaken (List.Sublist.subperm ?_)
    rw [boxes_append]
    exact ((bound_sublist f.params values).filterMap Value.box?).append_left (boxes k.values)
  simp only [Transition.Attends, meets_bind, meets_pure]
  apply Meets.uncut (bindArgs_shows owned ⟨0, rest, shape⟩ attends.shows)
  intro _ after shows
  exact ⟨shows.part (by simp [Stack.captured, Frame.captured, Control.captured]), trivial⟩

/-- The boxes that a macro follows are those that it has captured and those that it owns. -/
theorem followShown_attends {template : String} {values : List Shown} {k : Stack .value}
    (sound : Sound (.shown template values []) k s)
    (attends : Attends (.shown template values []) k s) :
    (goTo (followShown template values) k).Attends s := by
  refine ⟨⟨attends.shows.tidy, fun box member => ?_⟩, trivial⟩
  rcases List.mem_append.mp member with below | here
  · exact attends.shows.held box (List.mem_append_left _ below)
  · obtain ⟨value, inValues, isBox⟩ := List.mem_filterMap.mp here
    obtain ⟨one, inShown, rfl⟩ : ∃ one ∈ values, one.value = value := by
      simpa using inValues
    cases kind : one.owned with
    | true =>
        refine sound.owned.forest.present box (List.mem_append_right _ ?_)
        refine List.mem_filterMap.mpr ⟨one.value, List.mem_append_right _ ?_, isBox⟩
        exact List.mem_map.mpr ⟨one, List.mem_filter.mpr ⟨inShown, kind⟩, rfl⟩
    | false =>
        refine attends.shows.held box (List.mem_append_right _ ?_)
        refine List.mem_filterMap.mpr ⟨one.value, ?_, isBox⟩
        exact List.mem_map.mpr ⟨one, List.mem_filter.mpr ⟨inShown, by simp [kind]⟩, rfl⟩

theorem print_attends {template : String} {flight : List Value} {texts : List String}
    {k : Stack .value} (sound : Sound (.follow template flight texts []) k s)
    (calm : calmGuard.Holds (.follow template flight texts []) k)
    (attends : Attends (.follow template flight texts []) k s) :
    Transition.Attends ⟨k, print template flight texts⟩ s := by
  have quiet : k.captured = [] := calm.control.resolve_left (by
    simp [Control.Obeys, CodeRule.calm])
  simp only [Transition.Attends, print, meets_bind, format]
  split
  · exact ⟨attends.shows, id⟩
  · rename_i pieces split
    simp only [meets_pure, emit, meets_modify]
    let shown : State := { s with outputs := Template.fill pieces texts :: s.outputs }
    have forest : Forest shown.heap.lookup (boxes flight ++ []) := by
      refine sound.owned.forest.weaken (List.Sublist.subperm ?_)
      rw [boxes_append, List.append_nil]
      exact (List.sublist_append_right _ _).trans (List.sublist_append_right _ _)
    apply Meets.uncut (dropValues_meets forest)
    intro _ after met
    refine attends_plain ?_ trivial rfl
    rw [quiet]
    exact attends.shows.fewer met.2.cells

/-- What a captured box leads to was in a tidy cell, and so is captured now. -/
theorem followFirst_attends {template : String} {owned : List Value} {texts : List String}
    {arg : Expr} {value : Value} {rest : List (Expr × Value)} {k : Stack .value}
    (sound : Sound (.follow template owned texts ((arg, value) :: rest)) k s)
    (attends : Attends (.follow template owned texts ((arg, value) :: rest)) k s) :
    Transition.Attends ⟨k, followFirst ctx template owned texts arg value rest⟩ s := by
  have held := attends.shows.held
  simp only [Control.captured, List.map_cons, boxes_cons, List.mem_append] at held
  have present : ∀ b, value = .box b → (s.heap.lookup b).isSome := by
    rintro b rfl
    exact held b (Or.inr (Or.inl (by simp [Value.box?])))
  have others : s.Shows (k.captured ++ boxes (rest.map (·.2))) := by
    refine attends.shows.part fun box member => ?_
    simp only [Control.captured, List.map_cons, boxes_cons, List.mem_append] at member ⊢
    tauto
  simp only [Transition.Attends, followFirst, meets_bind]
  refine (follow_effect ctx arg sound.owned present).mono ?_ fun _ _ declined =>
    declined.attends (others.part fun box member => List.mem_append_left _ member)
  intro inner after met
  obtain ⟨ended, leads⟩ := met
  cases inner with
  | none => exact ⟨others.unmoved ended.unmoved, trivial⟩
  | some inner =>
      obtain ⟨addr, cell, found, rfl⟩ := leads inner rfl
      have more : s.Shows (k.captured ++ boxes (cell.value :: rest.map (·.2))) := by
        refine ⟨attends.shows.tidy, fun box member => ?_⟩
        rw [boxes_cons] at member
        rcases List.mem_append.mp member with below | here
        · exact others.held box (List.mem_append_left _ below)
        · rcases List.mem_append.mp here with isBox | later
          · have owns : boxAt s.heap.lookup addr = some box := by
              rw [boxAt, found, Option.bind_some, ← attends.shows.tidy addr cell found]
              simpa using isBox
            exact sound.owned.forest.target addr box owns
          · exact others.held box (List.mem_append_right _ later)
      exact ⟨more.unmoved ended.unmoved, trivial⟩

theorem displayStep_attends {types : CellTypes} {k : Stack .value}
    (ofType : value.HasType types .i32) (attends : Attends (.display value) k s) :
    Transition.Attends ⟨k, displayStep value⟩ s := by
  cases ofType with
  | int => exact ⟨attends.shows.unmoved ⟨rfl, rfl⟩, trivial⟩

/-! ### Steps after an outcome -/

/-- A frame that may drop something has no captured box below it. -/
theorem quiet_of_frame {control : Control mode} {frame : Frame mode next} {k : Stack next}
    (calm : calmGuard.Holds control (.cons frame k)) (drops : ¬ frame.Obeys .calm) :
    k.captured = [] :=
  calm.frames.1.resolve_left drops

theorem resumeValue_attends {v : Value} {frame : Frame .value next} {k : Stack next}
    (sound : Sound (.value v) (.cons frame k) s)
    (calm : calmGuard.Holds (.value v) (.cons frame k))
    (attends : Attends (.value v) (.cons frame k) s) : (resumeValue ctx v frame k).Attends s := by
  have shows : s.Shows k.captured := attends.shows.part fun box member => by
    rw [Stack.captured]
    exact List.mem_append_left _ (List.mem_append_left _ member)
  have failed : ∀ {interrupt : Interrupt} {after : State}, Declined s interrupt after →
      Attends (.interrupted interrupt) k after := fun declined => declined.attends shows
  obtain ⟨below, under, -⟩ := sound.fits
  cases frame with
  | unary loc op =>
      simp only [Transition.Attends, resumeValue, meets_bind, meets_pure]
      refine (unary_effect ctx loc op v s).mono ?_ fun _ _ declined => failed declined
      rintro result _ ⟨rfl, -⟩
      exact attends_plain shows trivial rfl
  | right loc op first =>
      simp only [Transition.Attends, resumeValue, meets_bind, meets_pure]
      refine (binary_effect ctx loc op first v s).mono ?_ fun _ _ declined => failed declined
      rintro result _ ⟨rfl, -⟩
      exact attends_plain shows trivial rfl
  | logic isAnd operand =>
      simp only [resumeValue]
      split
      · exact goTo_attends attends
          (by simp [Stack.captured, Frame.captured, Control.captured]) trivial
      · exact attends_plain shows trivial rfl
  | branch thenBlock elseBlock =>
      simp only [resumeValue]
      split
      · exact attends_plain shows trivial rfl
      · cases elseBlock with
        | none => exact attends_plain shows trivial rfl
        | some elseBlock => exact attends_plain shows trivial rfl
  | loopCondition condition body =>
      simp only [resumeValue]
      split
      · exact goTo_attends attends
          (by simp [Stack.captured, Frame.captured, Control.captured]) trivial
      · exact attends_plain shows trivial rfl
  | left | arg | assignValue =>
      exact goTo_attends attends (by simp [Stack.captured, Frame.captured, Control.captured]) trivial
  | truth | ret | loopBody => exact attends_plain shows trivial rfl
  | shownValue template values last rest =>
      refine goTo_attends attends ?_ trivial
      simp [Stack.captured, Frame.captured, Control.captured, addShown, capturedValues]
  | borrowTemporary isMut =>
      simp only [Transition.Attends, resumeValue, meets_bind, meets_pure]
      apply Meets.uncut (materialize_effect v under.1)
      intro addr mid met
      apply Meets.uncut (pushTag_effect addr isMut mid)
      intro _ after pushed
      exact attends_plain ((shows.added (by simp) met.2).unmoved pushed.1) trivial rfl
  | boxNew =>
      simp only [Transition.Attends, resumeValue, meets_bind, meets_pure]
      apply Meets.uncut (alloc_effect v true s)
      intro addr after met
      exact attends_plain (shows.added (by simp) met.2.2) trivial rfl
  | derefValue operand =>
      have finish : ∀ {mid : State}, mid.Shows k.captured →
          Meets (do return Control.found (← pointee none v operand)) mid
            (fun control after => Attends control k after)
            (fun interrupt after => Attends (.interrupted interrupt : Control .place) k after) := by
        intro mid showsMid
        simp only [meets_bind, meets_pure]
        refine (pointee_effect none v operand mid).mono ?_ fun _ _ declined =>
          declined.attends showsMid
        rintro target _ rfl
        exact attends_plain showsMid trivial rfl
      cases v with
      | box b =>
          simp only [Transition.Attends, resumeValue]
          rw [meets_bind]
          apply Meets.uncut (materialize_effect _ under.1)
          exact fun _ mid met => finish (shows.added (by simp) met.2)
      | _ => exact finish shows
  | letVar ident =>
      simp only [Transition.Attends, resumeValue, meets_bind, meets_pure]
      apply Meets.uncut (bind_effect ident v true under.1)
      exact fun _ after met => attends_plain (shows.added (by simp) met.2) trivial rfl
  | exprStmt =>
      have quiet := quiet_of_frame calm (by simp [Frame.Obeys, CodeRule.calm])
      have forest : Forest s.heap.lookup (v.box?.toList ++ []) := by
        refine sound.owned.forest.weaken (List.Sublist.subperm ?_)
        rw [List.append_nil, ← boxes_singleton]
        simp only [Stack.values, Frame.values, Control.values, boxes_append]
        exact (List.sublist_append_right _ _).trans (List.sublist_append_right _ _)
      simp only [Transition.Attends, resumeValue, meets_bind, meets_pure]
      apply Meets.uncut (dropValue_meets forest)
      intro _ after met
      refine attends_plain ?_ trivial rfl
      rw [quiet]
      exact shows.fewer met.2.1.cells
  | leaveScope =>
      have quiet := quiet_of_frame calm (by simp [Frame.Obeys, CodeRule.calm])
      obtain ⟨count, rest, shape, -⟩ := under
      simp only [Transition.Attends, resumeValue, meets_bind, meets_pure]
      apply Meets.uncut (popScope_shows sound.owned shape shows)
      intro _ after gone
      exact attends_plain (by rwa [quiet]) trivial rfl
  | leaveCall f =>
      have quiet := quiet_of_frame calm (by simp [Frame.Obeys, CodeRule.calm])
      simp only [Transition.Attends, resumeValue, meets_bind, meets_pure]
      apply Meets.uncut (popFrame_shows sound.owned under shows)
      intro _ after gone
      exact attends_plain (by rwa [quiet]) trivial rfl

theorem resumePlace_attends {frame : Frame .place next} {k : Stack next}
    (sound : Sound (.found l) (.cons frame k) s)
    (calm : calmGuard.Holds (.found l) (.cons frame k))
    (attends : Attends (.found l) (.cons frame k) s) : (resumePlace ctx l frame k).Attends s := by
  have shows : s.Shows k.captured := attends.shows.part fun box member => by
    rw [Stack.captured]
    exact List.mem_append_left _ (List.mem_append_left _ member)
  have failed : ∀ {interrupt : Interrupt} {after : State}, Declined s interrupt after →
      Attends (.interrupted interrupt) k after := fun declined => declined.attends shows
  have reached : Reached s l := sound.holds
  cases frame with
  | readPlace expr =>
      simp only [Transition.Attends, resumePlace, meets_bind, meets_pure]
      refine (read_effect ctx expr sound.owned reached).mono ?_ fun _ _ declined => failed declined
      exact fun value after taken => attends_plain (shows.taken taken) trivial rfl
  | borrowPlace operand isMut =>
      simp only [Transition.Attends, resumePlace, meets_bind, meets_pure]
      refine (access_effect ctx l operand _ _ s).mono ?_ fun _ _ declined => failed declined
      intro _ mid met
      apply Meets.uncut (pushTag_effect l.addr isMut mid)
      intro _ after pushed
      exact attends_plain (shows.unmoved (met.1.unmoved.trans pushed.1)) trivial rfl
  | shownPlace template values last rest =>
      simp only [Transition.Attends, resumePlace, meets_bind, meets_pure]
      refine (load_effect ctx last sound.owned reached).mono ?_ fun _ _ declined => failed declined
      intro value after met
      obtain ⟨ended, found⟩ := met
      refine ⟨State.Shows.unmoved ⟨attends.shows.tidy, fun box member => ?_⟩ ended.unmoved, trivial⟩
      have parts : box ∈ k.captured ∨ box ∈ boxes (capturedValues values) ∨ box ∈ boxes [value] := by
        simpa [Control.captured, addShown, capturedValues, boxes_append] using member
      rcases parts with below | before | isBox
      · exact shows.held box below
      · refine attends.shows.held box (List.mem_append_left _ ?_)
        exact List.mem_append_right _ before
      · refine sound.owned.forest.target l.addr box ?_
        have own : value.box? = some box := by simpa [boxes_singleton] using isBox
        rw [boxAt, found, Option.bind_some]
        exact own
  | derefPlace operand =>
      simp only [Transition.Attends, resumePlace, meets_bind, meets_pure]
      refine (load_effect ctx operand sound.owned reached).mono ?_ fun _ _ declined =>
        failed declined
      intro pointer mid met
      have showsMid := shows.unmoved met.1.unmoved
      refine (pointee_effect (some l) pointer operand mid).mono ?_ fun _ _ declined =>
        declined.attends showsMid
      rintro target _ rfl
      exact attends_plain showsMid trivial rfl
  | assignPlace loc target op value =>
      have quiet := quiet_of_frame calm (by simp [Frame.Obeys, CodeRule.calm])
      cases op with
      | some op =>
          simp only [Transition.Attends, resumePlace, meets_bind, meets_pure]
          refine (combine_effect ctx loc target op value sound.owned reached).mono ?_
            fun _ _ declined => failed declined
          rintro _ after ⟨result, -, replaced⟩
          exact attends_plain (by rw [quiet]; exact shows.replaced replaced) trivial rfl
      | none =>
          simp only [Transition.Attends, resumePlace, meets_bind, meets_pure]
          refine (assign_effect ctx target value sound.owned reached).mono ?_
            fun _ _ declined => failed declined
          intro _ after replaced
          exact attends_plain (by rw [quiet]; exact shows.replaced replaced) trivial rfl

theorem unwind_attends {interrupt : Interrupt} {frame : Frame mode next} {k : Stack next}
    (sound : Sound (.interrupted interrupt) (.cons frame k) s)
    (calm : calmGuard.Holds (.interrupted interrupt) (.cons frame k))
    (attends : Attends (.interrupted interrupt) (.cons frame k) s) :
    (unwind interrupt frame k).Attends s := by
  have clean : (Control.interrupted interrupt : Control next).Clean := by
    cases interrupt with
    | returned v => trivial
    | failed fault => exact attends.clean
  have shows : s.Shows k.captured := attends.shows.part fun box member => by
    rw [Stack.captured]
    exact List.mem_append_left _ (List.mem_append_left _ member)
  obtain ⟨below, under, -⟩ := sound.fits
  cases frame with
  | leaveScope =>
      have quiet := quiet_of_frame calm (by simp [Frame.Obeys, CodeRule.calm])
      obtain ⟨count, rest, shape, -⟩ := under
      simp only [Transition.Attends, unwind, meets_bind, meets_pure]
      apply Meets.uncut (popScope_shows sound.owned shape shows)
      intro _ after gone
      exact attends_plain (by rwa [quiet]) clean rfl
  | leaveCall f =>
      have quiet := quiet_of_frame calm (by simp [Frame.Obeys, CodeRule.calm])
      simp only [Transition.Attends, unwind, meets_bind]
      apply Meets.uncut (popFrame_shows sound.owned under shows)
      intro _ after gone
      cases interrupt with
      | returned v => exact attends_plain (by rwa [quiet]) trivial rfl
      | failed fault => exact attends_plain (by rwa [quiet]) clean rfl
  | _ => exact attends_plain shows clean rfl

/-! ### All steps -/

/-- A step of a machine that is typed, and calm where it has captured a box, keeps what it has
captured in use, and does not fail on the heap. -/
theorem advance_attends {signature? : String → Option Signature} {types : CellTypes}
    {control : Control mode} {k : Stack mode} {t : Transition} (sound : Sound control k s)
    (standing : Standing signature? types s control k) (calm : calmGuard.Holds control k)
    (attends : Attends control k s) (advanced : advance ctx control k = some t) : t.Attends s := by
  cases control with
  | expr e =>
      obtain rfl := Option.some.inj advanced
      exact enterExpr_attends attends
  | block body =>
      obtain rfl := Option.some.inj advanced
      obtain ⟨⟨count, rest, shape⟩, -⟩ := sound.fits
      obtain ⟨scope, scopes, frames, framesEq⟩ := Open.frames ⟨count, rest, shape⟩
      simp only [Transition.Attends, meets_bind, meets_pure, pushScope, meets_modify, framesEq]
      refine ⟨⟨attends.shows.tidy, fun box member => attends.shows.held box ?_⟩, trivial⟩
      simpa [Stack.captured, Frame.captured, Control.captured] using member
  | stmts rest tail =>
      cases rest with
      | nil => cases tail <;> (obtain rfl := Option.some.inj advanced; exact ⟨attends.shows, trivial⟩)
      | cons stmt rest =>
          obtain rfl := Option.some.inj advanced
          exact goTo_attends attends
            (by simp [Stack.captured, Frame.captured, Control.captured]) trivial
  | args loc func values rest =>
      cases rest with
      | nil =>
          obtain rfl := Option.some.inj advanced
          exact applyCall_attends attends
      | cons arg rest =>
          obtain rfl := Option.some.inj advanced
          exact goTo_attends attends
            (by simp [Stack.captured, Frame.captured, Control.captured]) trivial
  | call f values loc =>
      obtain rfl := Option.some.inj advanced
      simp only [Transition.Attends, meets_bind, meets_pure, pushFrame, meets_get]
      split
      · exact ⟨attends.shows, id⟩
      · exact ⟨⟨attends.shows.tidy, attends.shows.held⟩, trivial⟩
  | enter f values =>
      obtain rfl := Option.some.inj advanced
      exact enter_attends sound attends
  | shown template values rest =>
      cases rest with
      | nil =>
          obtain rfl := Option.some.inj advanced
          exact followShown_attends sound attends
      | cons arg rest =>
          obtain rfl := Option.some.inj advanced
          split
          · exact goTo_attends attends
              (by simp [Stack.captured, Frame.captured, Control.captured]) trivial
          · exact goTo_attends attends
              (by simp [Stack.captured, Frame.captured, Control.captured]) trivial
  | follow template flight texts rest =>
      cases rest with
      | nil =>
          obtain rfl := Option.some.inj advanced
          exact print_attends sound calm attends
      | cons first rest =>
          obtain rfl := Option.some.inj advanced
          exact followFirst_attends sound attends
  | display value =>
      obtain rfl := Option.some.inj advanced
      cases standing with
      | inside comes =>
          cases comes with
          | display ofType => exact displayStep_attends ofType attends
  | value v =>
      cases k with
      | nil => simp [advance] at advanced
      | cons frame k =>
          obtain rfl := Option.some.inj advanced
          exact resumeValue_attends sound calm attends
  | place e =>
      obtain rfl := Option.some.inj advanced
      exact enterPlace_attends attends
  | found l =>
      cases k with
      | cons frame k =>
          obtain rfl := Option.some.inj advanced
          exact resumePlace_attends sound calm attends
  | stmt stmt =>
      obtain rfl := Option.some.inj advanced
      exact enterStmt_attends sound.fits.1 attends
  | loop condition body =>
      obtain rfl := Option.some.inj advanced
      exact goTo_attends attends (by simp [Stack.captured, Frame.captured, Control.captured]) trivial
  | finished =>
      cases k with
      | cons frame k =>
          obtain rfl := Option.some.inj advanced
          cases frame with
          | stmts rest tail =>
              exact goTo_attends attends
                (by simp [Stack.captured, Frame.captured, Control.captured]) trivial
  | interrupted interrupt =>
      cases k with
      | nil => simp [advance] at advanced
      | cons frame k =>
          obtain rfl := Option.some.inj advanced
          exact unwind_attends sound calm attends

end Steps

end BorrowLang.Evaluator
