import BorrowLang.Place

/-!
# Types of places

The type of a place is fixed once it is known: a target has the type that its parent points at,
whenever it is named again, and only a binding without a type gets one later.
-/

set_option autoImplicit false

namespace BorrowLang.Arena

variable {a b c : Arena}

/-- The targets that have been named are of the types that their parents point at. -/
def Sound (a : Arena) : Prop :=
  ∀ id child, a.child? id = some child →
    ∃ pointer ty, a.ty? id = some pointer ∧ pointer.pointee? = some ty ∧ a.ty? child = some ty

/-- The second arena has every place of the first, and knows every type that the first knows. -/
structure Extends (a b : Arena) : Prop where
  size : a.size ≤ b.size
  ty : ∀ {id ty}, a.ty? id = some ty → b.ty? id = some ty

theorem Extends.refl (a : Arena) : Extends a a := ⟨Nat.le_refl _, fun known => known⟩

theorem Extends.trans (first : Extends a b) (second : Extends b c) : Extends a c :=
  ⟨Nat.le_trans first.size second.size, fun known => second.ty (first.ty known)⟩

theorem sound_empty : Sound {} := by
  intro id child found
  simp [child?, place?] at found

theorem lt_size_of_ty? {id : PlaceId} {ty : Ty} (known : a.ty? id = some ty) : id < a.size := by
  obtain ⟨place, found, -⟩ := Option.bind_eq_some_iff.mp known
  exact (Array.getElem?_eq_some_iff.mp found).1

/-! ### New bindings -/

theorem place?_addLocal (a : Arena) (name : String) (ty : Option Ty) (isMut isParam : Bool)
    (id : PlaceId) :
    (a.addLocal name ty isMut isParam).1.place? id =
      if id = a.size then some { kind := .local name isMut isParam, ty } else a.place? id := by
  simp only [addLocal, place?, size, Array.getElem?_push]
  rfl

theorem addLocal_keeps (sound : a.Sound) (name : String) (ty : Option Ty) (isMut isParam : Bool) :
    let next := (a.addLocal name ty isMut isParam).1
    next.Sound ∧ Extends a next ∧ next.ty? a.size = ty := by
  intro next
  have known : ∀ id, id ≠ a.size → next.place? id = a.place? id := fun id other =>
    (place?_addLocal a name ty isMut isParam id).trans (if_neg other)
  have extended : Extends a next := by
    refine ⟨by simp [next, addLocal, size], fun {id ty'} old => ?_⟩
    rwa [ty?, known id (Nat.ne_of_lt (lt_size_of_ty? old))]
  refine ⟨?_, extended, by simp [ty?, next, place?_addLocal]⟩
  intro id child found
  have other : id ≠ a.size := by
    rintro rfl
    simp [child?, next, place?_addLocal] at found
  rw [child?, known id other] at found
  obtain ⟨pointer, target, tyOld, points, childTy⟩ := sound id child found
  exact ⟨pointer, target, extended.ty tyOld, points, extended.ty childTy⟩

/-! ### A first type -/

theorem place?_setTy (a : Arena) (place : PlaceId) (ty : Option Ty) (id : PlaceId) :
    (a.setTy place ty).place? id =
      if place = id then (a.place? id).map fun old => { old with ty } else a.place? id := by
  simp [setTy, place?, Array.getElem?_modify]

theorem setTy_keeps (sound : a.Sound) {place : PlaceId} (unknown : a.ty? place = none)
    (ty : Ty) : (a.setTy place (some ty)).Sound ∧ Extends a (a.setTy place (some ty)) := by
  have extended : Extends a (a.setTy place (some ty)) := by
    refine ⟨by simp [setTy, size], fun {id ty'} old => ?_⟩
    have other : place ≠ id := by
      rintro rfl
      simp [unknown] at old
    rwa [ty?, place?_setTy, if_neg other]
  refine ⟨?_, extended⟩
  intro id child found
  have old : a.child? id = some child := by
    rw [child?, place?_setTy] at found
    split at found
    · rwa [Option.bind_map] at found
    · exact found
  obtain ⟨pointer, target, tyOld, points, childTy⟩ := sound id child old
  exact ⟨pointer, target, extended.ty tyOld, points, extended.ty childTy⟩

/-- A place that has been given its first type has it. -/
theorem ty?_setTy {place : PlaceId} (isThere : place < a.size) (ty : Ty) :
    (a.setTy place (some ty)).ty? place = some ty := by
  rw [ty?, place?_setTy, if_pos rfl, place?, Array.getElem?_eq_getElem isThere]
  rfl

/-! ### Targets -/

/-- A target that is named again is made anew in its place. -/
theorem place?_target_named {parent child : PlaceId} (named : a.child? parent = some child) (via : Via)
    (ty : Option Ty) (id : PlaceId) :
    (a.target parent via ty).1.place? id =
      if child = id then (a.place? id).map fun old => { old with kind := .target parent via, ty }
      else a.place? id := by
  simp [target, named, place?, Array.getElem?_modify]

/-- A target that is named for the first time is the last place. -/
theorem place?_target_new {parent : PlaceId} (unnamed : a.child? parent = none) (via : Via)
    (ty : Option Ty) (id : PlaceId) :
    (a.target parent via ty).1.place? id =
      if id = a.size then some { kind := .target parent via, ty }
      else if parent = id then (a.place? id).map fun old => { old with child := some a.size }
      else a.place? id := by
  simp only [target, unnamed, place?, size, Array.getElem?_push, Array.size_modify,
    Array.getElem?_modify]
  rfl

theorem target_keeps (sound : a.Sound) {parent : PlaceId} {pointer ty : Ty}
    (known : a.ty? parent = some pointer) (points : pointer.pointee? = some ty) (via : Via) :
    let next := a.target parent via (some ty)
    next.1.Sound ∧ Extends a next.1 ∧ next.1.ty? next.2 = some ty := by
  intro next
  cases named : a.child? parent with
  | some child =>
      obtain ⟨pointer', ty', known', points', childTy⟩ := sound parent child named
      obtain rfl := Option.some.inj (known.symm.trans known')
      obtain rfl := Option.some.inj (points.symm.trans points')
      -- The target is of this type already.
      have places : ∀ id, next.1.place? id = _ := place?_target_named named via (some ty)
      have same : ∀ id, next.1.ty? id = a.ty? id := by
        intro id
        rw [ty?, places]
        split
        · rename_i here
          obtain rfl := here
          obtain ⟨old, found, -⟩ := Option.bind_eq_some_iff.mp childTy
          rw [childTy, found]
          rfl
        · rfl
      have child : ∀ id, next.1.child? id = a.child? id := by
        intro id
        rw [child?, child?, places]
        split
        · cases a.place? id <;> rfl
        · rfl
      have size : a.size ≤ next.1.size := by simp [next, target, named, Arena.size]
      refine ⟨?_, ⟨size, fun {id ty'} old => (same id).trans old⟩, ?_⟩
      · intro id target found
        rw [child] at found
        simpa only [same] using sound id target found
      · rw [same]
        simpa [next, target, named] using childTy
  | none =>
      have bound := lt_size_of_ty? known
      have places : ∀ id, next.1.place? id = _ := place?_target_new named via (some ty)
      have extended : Extends a next.1 := by
        refine ⟨by simp [next, target, named, size], fun {id ty'} old => ?_⟩
        rw [ty?, places, if_neg (Nat.ne_of_lt (lt_size_of_ty? old))]
        split
        · rw [Option.bind_map]
          exact old
        · exact old
      have new : next.1.ty? a.size = some ty := by simp [ty?, places]
      refine ⟨?_, extended, by simpa [next, target, named] using new⟩
      intro id child found
      rw [child?, places] at found
      split at found
      · simp at found
      split at found
      · rename_i here
        obtain rfl := here
        obtain ⟨old, isPlace, -⟩ := Option.bind_eq_some_iff.mp known
        obtain rfl : a.size = child := by simpa [isPlace] using found
        exact ⟨pointer, ty, extended.ty known, points, new⟩
      · obtain ⟨pointer', target, tyOld, points', childTy⟩ := sound id child found
        exact ⟨pointer', target, extended.ty tyOld, points', extended.ty childTy⟩

end BorrowLang.Arena
