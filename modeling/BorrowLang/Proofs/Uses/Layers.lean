import BorrowLang.Proofs.Moves.Twice
import BorrowLang.Proofs.Ownership.Action
import BorrowLang.Proofs.Typing.Cells
import BorrowLang.Proofs.Uses.Intact

/-!
# What the check knows of an activation

The bindings of an activation are those of an outline, in the same order.  A binding leads, through
the boxes behind it, to cells that hold values, but for the depths at which the outline has something
as gone; and no binding has a cell of another type than its own.
-/

set_option autoImplicit false

namespace BorrowLang

namespace Moves

variable {o mid after : Outline}

namespace Outline

/-- A place of a binding that may hold no value: it was moved out, or has not been there yet. -/
def Gone (o : Outline) (level depth : Nat) : Prop :=
  o.marks level depth = some .moved ∨ depth = 0 ∧ o.marks level 0 = some .uninit

theorem Whole.held {level : Nat} (whole : o.Whole level) (depth : Nat) : ¬ o.Gone level depth :=
  fun gone => gone.elim (whole.unmoved depth) fun isFirst => whole.initialized isFirst.2

theorem Writable.held {spot : Spot} (writable : o.Writable spot) :
    ∀ depth < spot.depth, ¬ o.Gone spot.level depth := by
  rintro depth before (moved | ⟨rfl, uninit⟩)
  · exact (writable.owners depth before).2 moved
  · exact (writable.owners 0 before).1 uninit

end Outline

theorem gone_join {state : Option MoveState} (other : Option MoveState)
    (gone : state = some .moved ∨ state = some .uninit) :
    MoveState.merge state other = some .moved ∨ MoveState.merge state other = some .uninit := by
  rcases gone with rfl | rfl <;> rcases other with - | - | - | - <;> simp [MoveState.merge]

/-- The second outline has the bindings of the first one, and at least its types and what is gone
there. -/
structure Loosens (o after : Outline) : Prop where
  binders : o.decls.map Decl.binder = after.decls.map Decl.binder
  ty : ∀ {level ty}, o.declTy? level = some ty → after.declTy? level = some ty
  gone : ∀ {level depth}, o.Gone level depth → after.Gone level depth

namespace Loosens

theorem refl (o : Outline) : Loosens o o := ⟨rfl, id, id⟩

theorem trans (first : Loosens o mid) (second : Loosens mid after) : Loosens o after :=
  ⟨first.binders.trans second.binders, fun known => second.ty (first.ty known),
    fun isGone => second.gone (first.gone isGone)⟩

/-- A check after which no more bindings are in scope has only learned types. -/
theorem of_grows (grows : Grows o after) (length : after.decls.length = o.decls.length)
    (gone : ∀ {level depth}, o.Gone level depth → after.Gone level depth) : Loosens o after :=
  ⟨grows.binders.eq_of_length (by simp [length]), grows.ty, gone⟩

theorem join_left (m : Marks) : Loosens o { o with marks := o.marks.join m } := by
  refine ⟨rfl, id, fun {level depth} isGone => ?_⟩
  simp only [Outline.Gone, Marks.join]
  rcases isGone with moved | ⟨rfl, uninit⟩
  · rw [moved]
    cases m level depth with
    | none => exact Or.inl rfl
    | some state => cases state <;> exact Or.inl rfl
  · exact (gone_join (m level 0) (Or.inr uninit)).imp_right fun isUninit => ⟨rfl, isUninit⟩

theorem join_right (m : Marks) : Loosens o { o with marks := m.join o.marks } := by
  have swapped : m.join o.marks = o.marks.join m :=
    funext fun level => funext fun depth => MoveState.merge_comm _ _
  rw [swapped]
  exact join_left m

end Loosens

end Moves

/-! ### Values of a type, as far as pointers go -/

/-- Whether a value is a box, a reference or neither is as its type says, and a pointer leads to a
cell of the type below. -/
inductive Value.Shaped (types : CellTypes) : Value → Ty → Prop
  | plain {value : Value} {ty : Ty} (noAddr : value.addr? = none) (noPointer : ty.pointee? = none) :
      Shaped types value ty
  | box {addr : Addr} {ty : Ty} (points : types addr = some ty) : Shaped types (.box addr) (.box ty)
  | ref {addr : Addr} {isMut wanted : Bool} {tag : Tag} {ty : Ty} (points : types addr = some ty) :
      Shaped types (.ref addr isMut tag) (.ref wanted ty)

namespace Value.Shaped

variable {types later : CellTypes} {value : Value} {ty : Ty}

theorem mono (shaped : value.Shaped types ty) (extended : types.Extends later) :
    value.Shaped later ty := by
  cases shaped with
  | plain noAddr noPointer => exact .plain noAddr noPointer
  | box points => exact .box (extended _ _ points)
  | ref points => exact .ref (extended _ _ points)

theorem coerce {expected : Ty} (shaped : value.Shaped types ty)
    (coerces : ty.coercesTo expected = true) : value.Shaped types expected := by
  rcases Ty.coercesTo_iff.mp coerces with rfl | ⟨target, rfl, rfl⟩
  · exact shaped
  · cases shaped with
    | plain noAddr noPointer => cases noPointer
    | ref points => exact .ref points

/-- A value of a type that is none of boxes is no box. -/
theorem box?_of_ne_box (shaped : value.Shaped types ty) (notBox : ∀ inner, ty ≠ .box inner) :
    value.box? = none := by
  cases shaped with
  | plain noAddr _ => cases value <;> first | rfl | cases noAddr
  | box => exact absurd rfl (notBox _)
  | ref => rfl

/-- A value that is copied is no box. -/
theorem box?_of_isCopy (shaped : value.Shaped types ty) (copied : ty.isCopy = true) :
    value.box? = none :=
  shaped.box?_of_ne_box (by rintro inner rfl; cases copied)

end Value.Shaped

namespace Evaluator

open Moves Ownership

variable {types later : CellTypes} {cells : Cells} {activation : Activation}

namespace Activation

/-- The bindings of an activation with their cells, the oldest first. -/
def bound (activation : Activation) : List (String × Addr) :=
  (activation.scopes.flatMap Scope.names).reverse

/-- The cell of a binding, by its number. -/
def cell? (activation : Activation) (level : Nat) : Option Addr :=
  activation.bound[level]?.map (·.2)

end Activation

/-- How many bindings there are outside of each of some scopes, the innermost first. -/
def outerCounts : List Scope → List Nat
  | [] => []
  | _ :: outer => (outer.flatMap Scope.names).length :: outerCounts outer

/-- What is known of an activation: an outline of its bindings, and how many of them are outside of
each of its scopes. -/
structure Layer where
  outline : Outline
  floors : List Nat

/-- What is known of an activation is so. -/
structure Layer.Holds (types : CellTypes) (cells : Cells) (layer : Layer) (activation : Activation) :
    Prop where
  floors : outerCounts activation.scopes = layer.floors
  held : ∀ scope ∈ activation.scopes, (scope.names.map (·.2)).Sublist scope.cells
  named : activation.bound.map (·.1) = layer.outline.decls.map (·.name)
  typed : ∀ {level addr ty}, activation.cell? level = some addr → types addr = some ty →
    layer.outline.declTy? level = some ty
  covered : ∀ {level addr}, activation.cell? level = some addr →
    Covered cells (layer.outline.Gone level) addr

namespace Layer

/-- What is known when the innermost scope is left. -/
def leave (layer : Layer) : Layer :=
  ⟨layer.outline.cut (layer.floors.headD 0), layer.floors.tail⟩

/-- What is known when a scope is entered. -/
def enter (layer : Layer) : Layer :=
  ⟨layer.outline, layer.outline.decls.length :: layer.floors⟩

/-- What is known when there is one more binding. -/
def declare (layer : Layer) (decl : Decl) (initialized : Bool) : Layer :=
  ⟨layer.outline.declare decl initialized, layer.floors⟩

namespace Holds

variable {layer : Layer}

theorem length (holds : layer.Holds types cells activation) :
    activation.bound.length = layer.outline.decls.length := by
  simpa using congrArg List.length holds.named

theorem lt_length (holds : layer.Holds types cells activation) {level : Nat} {addr : Addr}
    (isCell : activation.cell? level = some addr) : level < layer.outline.decls.length := by
  obtain ⟨binding, isHere, -⟩ := Option.map_eq_some_iff.mp isCell
  exact holds.length ▸ (List.getElem?_eq_some_iff.mp isHere).1

/-- The cells of the bindings are cells of the scopes, and no two bindings have the same. -/
theorem sublist (holds : layer.Holds types cells activation) :
    ((activation.scopes.flatMap Scope.names).map (·.2)).Sublist
      (activation.scopes.flatMap Scope.cells) := by
  have held := holds.held
  generalize activation.scopes = scopes at held
  induction scopes with
  | nil => exact .slnil
  | cons scope rest ih =>
      rw [List.flatMap_cons, List.flatMap_cons, List.map_append]
      exact (held scope List.mem_cons_self).append
        (ih fun inner member => held inner (List.mem_cons_of_mem _ member))

theorem mem_cells (holds : layer.Holds types cells activation) {level : Nat} {addr : Addr}
    (isCell : activation.cell? level = some addr) :
    addr ∈ activation.scopes.flatMap Scope.cells := by
  obtain ⟨binding, isHere, rfl⟩ := Option.map_eq_some_iff.mp isCell
  refine holds.sublist.subset (List.mem_map_of_mem ?_)
  exact List.mem_reverse.mp (List.mem_of_getElem? isHere)

theorem cell?_inj (holds : layer.Holds types cells activation)
    (distinct : (activation.scopes.flatMap Scope.cells).Nodup) {level other : Nat} {addr : Addr}
    (isCell : activation.cell? level = some addr) (isOther : activation.cell? other = some addr) :
    level = other := by
  have nodup : (activation.bound.map (·.2)).Nodup := by
    rw [Activation.bound, List.map_reverse, List.nodup_reverse]
    exact distinct.sublist holds.sublist
  rw [Activation.cell?, ← List.getElem?_map] at isCell isOther
  obtain ⟨inside, here⟩ := List.getElem?_eq_some_iff.mp isCell
  obtain ⟨inside', there⟩ := List.getElem?_eq_some_iff.mp isOther
  exact (List.Nodup.getElem_inj_iff nodup).mp (here.trans there.symm)

/-- Another heap, and other types of cells, that are the same as far as the bindings go. -/
theorem frame (holds : layer.Holds types cells activation) {after : Cells}
    (retyped : ∀ {level addr ty}, activation.cell? level = some addr → later addr = some ty →
      layer.outline.declTy? level = some ty)
    (covered : ∀ {level addr}, activation.cell? level = some addr →
      Covered after (layer.outline.Gone level) addr) :
    layer.Holds later after activation :=
  ⟨holds.floors, holds.held, holds.named, retyped, covered⟩

/-- Less is known. -/
theorem loosen (holds : layer.Holds types cells activation) {o : Outline}
    (loosens : Loosens layer.outline o) : Layer.Holds types cells ⟨o, layer.floors⟩ activation where
  floors := holds.floors
  held := holds.held
  named := by
    have names := congrArg (List.map Prod.fst) loosens.binders
    rw [List.map_map, List.map_map] at names
    exact holds.named.trans names
  typed isCell known := loosens.ty (holds.typed isCell known)
  covered isCell := (holds.covered isCell).mono fun _ => loosens.gone

/-! ### Scopes -/

theorem enter (holds : layer.Holds types cells activation) :
    layer.enter.Holds types cells ⟨{} :: activation.scopes⟩ where
  floors := congrArg₂ (· :: ·) ((List.length_reverse).symm.trans holds.length) holds.floors
  held := List.forall_mem_cons.mpr ⟨.slnil, holds.held⟩
  named := holds.named
  typed := holds.typed
  covered := holds.covered

theorem leave {scope : Scope} {scopes : List Scope}
    (holds : layer.Holds types cells ⟨scope :: scopes⟩) :
    layer.leave.Holds types cells ⟨scopes⟩ := by
  have floors := holds.floors
  obtain ⟨o, all⟩ := layer
  obtain rfl : _ = all := floors
  have bound : Activation.bound ⟨scope :: scopes⟩ =
      Activation.bound ⟨scopes⟩ ++ scope.names.reverse := by
    simp [Activation.bound]
  have length : (Activation.bound ⟨scopes⟩).length = (scopes.flatMap Scope.names).length :=
    List.length_reverse
  have old : ∀ {level addr}, Activation.cell? ⟨scopes⟩ level = some addr →
      level < (scopes.flatMap Scope.names).length ∧
        Activation.cell? ⟨scope :: scopes⟩ level = some addr := by
    intro level addr isCell
    obtain ⟨binding, isHere, rfl⟩ := Option.map_eq_some_iff.mp isCell
    have inside := (List.getElem?_eq_some_iff.mp isHere).1
    refine ⟨length ▸ inside, ?_⟩
    rw [Activation.cell?, bound, List.getElem?_append_left inside]
    exact isCell
  refine ⟨rfl, fun inner member => holds.held inner (List.mem_cons_of_mem _ member), ?_, ?_, ?_⟩
  · have named := holds.named
    rw [bound, List.map_append] at named
    change _ = (o.decls.take (scopes.flatMap Scope.names).length).map (·.name)
    rw [List.map_take, ← named, ← length, ← List.length_map (·.1), List.take_left]
  · intro level addr ty isCell known
    obtain ⟨inside, isOld⟩ := old isCell
    change (o.cut (scopes.flatMap Scope.names).length).declTy? level = some ty
    rw [Regular.declTy?_cut, if_pos inside]
    exact holds.typed isOld known
  · intro level addr isCell
    obtain ⟨inside, isOld⟩ := old isCell
    refine (holds.covered isOld).mono fun depth isGone => ?_
    change (o.cut (scopes.flatMap Scope.names).length).Gone level depth
    simpa only [Outline.Gone, Outline.cut, if_pos inside] using isGone

/-- The innermost scope has one more cell. -/
theorem hold {scope : Scope} {scopes : List Scope}
    (holds : layer.Holds types cells ⟨scope :: scopes⟩) (addr : Addr) :
    layer.Holds types cells ⟨scope.hold addr :: scopes⟩ where
  floors := holds.floors
  held := by
    obtain ⟨first, others⟩ := List.forall_mem_cons.mp holds.held
    exact List.forall_mem_cons.mpr ⟨first.cons addr, others⟩
  named := holds.named
  typed := holds.typed
  covered := holds.covered

/-- A new binding, whose cell holds a value or is known not to. -/
theorem declare {scope : Scope} {scopes : List Scope}
    (holds : layer.Holds types cells ⟨scope :: scopes⟩) (decl : Decl) (initialized : Bool)
    {addr : Addr} (typed : ∀ ty, types addr = some ty → decl.ty = some ty)
    (intact : initialized = true → Intact cells addr) :
    (layer.declare decl initialized).Holds types cells
      ⟨scope.bind decl.name addr :: scopes⟩ := by
  have bound : Activation.bound ⟨scope.bind decl.name addr :: scopes⟩ =
      Activation.bound ⟨scope :: scopes⟩ ++ [(decl.name, addr)] := by
    simp [Activation.bound, Scope.bind]
  have cell? : ∀ {level known}, Activation.cell? ⟨scope.bind decl.name addr :: scopes⟩ level =
      some known → level = layer.outline.decls.length ∧ known = addr ∨
        level ≠ layer.outline.decls.length ∧
          Activation.cell? ⟨scope :: scopes⟩ level = some known := by
    intro level known isCell
    rw [Activation.cell?, bound] at isCell
    by_cases inside : level < (Activation.bound ⟨scope :: scopes⟩).length
    · rw [List.getElem?_append_left inside] at isCell
      exact Or.inr ⟨holds.length ▸ Nat.ne_of_lt inside, isCell⟩
    · rw [List.getElem?_append_right (Nat.le_of_not_lt inside)] at isCell
      obtain ⟨binding, isNew, rfl⟩ := Option.map_eq_some_iff.mp isCell
      obtain ⟨isFirst, rfl⟩ := List.getElem?_eq_some_iff.mp isNew
      rw [List.length_singleton, holds.length] at isFirst
      rw [holds.length] at inside
      exact Or.inl ⟨by omega, by simp⟩
  refine ⟨?_, ?_, ?_, ?_, ?_⟩
  · exact holds.floors
  · obtain ⟨first, others⟩ := List.forall_mem_cons.mp holds.held
    exact List.forall_mem_cons.mpr ⟨first.cons_cons addr, others⟩
  · rw [bound, List.map_append, holds.named]
    simp [Layer.declare, Outline.declare]
  · intro level known ty isCell isTy
    change (layer.outline.declare decl initialized).declTy? level = some ty
    rw [declTy?_declare]
    rcases cell? isCell with ⟨rfl, rfl⟩ | ⟨isOld, isCell⟩
    · rw [if_pos rfl]
      exact typed ty isTy
    · rw [if_neg isOld]
      exact holds.typed isCell isTy
  · intro level known isCell
    rcases cell? isCell with ⟨rfl, rfl⟩ | ⟨isOld, isCell⟩
    · cases initialized with
      | true => exact (intact rfl).covered
      | false =>
          intro chain run
          refine Or.inl ⟨0, List.length_pos_of_mem run.head_mem, Or.inr ⟨rfl, ?_⟩⟩
          simp [Layer.declare, Outline.declare, Marks.set]
    · refine (holds.covered isCell).mono fun depth isGone => ?_
      simpa [Outline.Gone, Layer.declare, Outline.declare, Marks.set, isOld] using isGone

end Holds

end Layer

end Evaluator

end BorrowLang
