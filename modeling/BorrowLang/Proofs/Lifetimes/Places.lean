import BorrowLang.Proofs.Typing.Arena

/-!
# Places stay where they are

The binding that a place belongs to is known once the place has been named, and so is its name:
naming more places changes neither.
-/

set_option autoImplicit false

namespace BorrowLang.Arena

variable {a b c : Arena}

/-- A target knows what points at it, and has a greater number. -/
def Linked (a : Arena) : Prop :=
  ∀ id child, a.child? id = some child → a.parent? child = some id ∧ id < child

/-- The second arena has every place of the first, of the same binding and with the same name. -/
structure Rooted (a b : Arena) : Prop where
  size : a.size ≤ b.size
  root : ∀ {id}, id < a.size → b.root id = a.root id
  name : ∀ {id}, id < a.size → b.name id = a.name id

theorem Rooted.refl (a : Arena) : Rooted a a := ⟨Nat.le_refl _, fun _ => rfl, fun _ => rfl⟩

theorem Rooted.trans (first : Rooted a b) (second : Rooted b c) : Rooted a c where
  size := Nat.le_trans first.size second.size
  root bound := (second.root (Nat.lt_of_lt_of_le bound first.size)).trans (first.root bound)
  name bound := (second.name (Nat.lt_of_lt_of_le bound first.size)).trans (first.name bound)

theorem linked_empty : Linked {} := by
  intro id child found
  simp [child?, place?] at found

theorem root_of_parent?_none {id : PlaceId} (isLocal : a.parent? id = none) : a.root id = id := by
  rw [root]
  simp [isLocal]

theorem root_of_parent? {id parent : PlaceId} (known : a.parent? id = some parent)
    (down : parent < id) : a.root id = a.root parent := by
  rw [root]
  simp [known, down]

theorem root_le (a : Arena) (id : PlaceId) : a.root id ≤ id := by
  induction id using Nat.strongRecOn with
  | ind id ih =>
      rw [root]
      cases a.parent? id with
      | none => exact Nat.le_refl id
      | some parent =>
          by_cases down : parent < id
          · simp only [down, if_true]
            exact Nat.le_trans (ih parent down) (Nat.le_of_lt down)
          · simp only [down, if_false]
            exact Nat.le_refl id

/-- The second arena has every place of the first, behind the same place. -/
structure Grows (a b : Arena) : Prop where
  size : a.size ≤ b.size
  parent : ∀ {id}, id < a.size → b.parent? id = a.parent? id

namespace Grows

theorem refl (a : Arena) : Grows a a := ⟨Nat.le_refl _, fun _ => rfl⟩

theorem trans (first : Grows a b) (second : Grows b c) : Grows a c :=
  ⟨Nat.le_trans first.size second.size,
    fun bound => (second.parent (Nat.lt_of_lt_of_le bound first.size)).trans (first.parent bound)⟩

theorem root (grows : Grows a b) {id : PlaceId} (bound : id < a.size) : b.root id = a.root id := by
  induction id using Nat.strongRecOn with
  | ind id ih =>
      rw [Arena.root, Arena.root, grows.parent bound]
      cases a.parent? id with
      | none => rfl
      | some parent =>
          by_cases down : parent < id
          · simp only [down, if_true]
            exact ih parent down (Nat.lt_trans down bound)
          · simp only [down, if_false]

theorem chain (grows : Grows a b) {id : PlaceId} (bound : id < a.size) :
    b.chain id = a.chain id := by
  induction id using Nat.strongRecOn with
  | ind id ih =>
      rw [Arena.chain, Arena.chain, grows.parent bound]
      cases a.parent? id with
      | none => rfl
      | some parent =>
          by_cases down : parent < id
          · simp only [down, if_true, ih parent down (Nat.lt_trans down bound)]
          · simp only [down, if_false]

theorem overlaps (grows : Grows a b) {first second : PlaceId} (isThere : first < a.size)
    (alsoThere : second < a.size) : b.overlaps first second = a.overlaps first second := by
  rw [Arena.overlaps, leadsTo, leadsTo, grows.chain isThere, grows.chain alsoThere]
  rfl

/-- Places stay where they are when their names do not change either. -/
theorem rooted (grows : Grows a b) (name : ∀ id < a.size, b.name id = a.name id) : Rooted a b where
  size := grows.size
  root := grows.root
  name bound := name _ bound

end Grows

/-! ### New bindings -/

@[simp] theorem parent?_addLocal (a : Arena) (name : String) (ty : Option Ty) (isMut isParam : Bool)
    (id : PlaceId) : (a.addLocal name ty isMut isParam).1.parent? id = a.parent? id := by
  rw [parent?, place?_addLocal]
  split
  · rename_i isNew
    subst isNew
    simp [parent?, place?, size, Place.parent]
  · rfl

@[simp] theorem child?_addLocal (a : Arena) (name : String) (ty : Option Ty) (isMut isParam : Bool)
    (id : PlaceId) : (a.addLocal name ty isMut isParam).1.child? id = a.child? id := by
  rw [child?, place?_addLocal]
  split
  · rename_i isNew
    subst isNew
    simp [child?, place?, size]
  · rfl

theorem addLocal_grows (a : Arena) (name : String) (ty : Option Ty) (isMut isParam : Bool) :
    Grows a (a.addLocal name ty isMut isParam).1 :=
  ⟨by simp [addLocal, Arena.size], fun {id} _ => parent?_addLocal a name ty isMut isParam id⟩

theorem addLocal_rooted (linked : a.Linked) (name : String) (ty : Option Ty) (isMut isParam : Bool) :
    let next := (a.addLocal name ty isMut isParam).1
    next.Linked ∧ Rooted a next ∧ next.root a.size = a.size ∧ next.name a.size = name := by
  intro next
  have new : next.place? a.size = some { kind := .local name isMut isParam, ty } := by
    simp [next, place?_addLocal]
  have grows : Grows a next := addLocal_grows a name ty isMut isParam
  refine ⟨fun id child found => ?_, grows.rooted fun id bound => ?_, ?_, ?_⟩
  · rw [child?_addLocal] at found
    rw [parent?_addLocal]
    exact linked id child found
  · rw [Arena.name, place?_addLocal, if_neg (Nat.ne_of_lt bound), Arena.name]
  · exact root_of_parent?_none (by simp [parent?, new, Place.parent])
  · simp [Arena.name, new, Place.name]

/-! ### A first type -/

@[simp] theorem parent?_setTy (a : Arena) (place : PlaceId) (ty : Option Ty) (id : PlaceId) :
    (a.setTy place ty).parent? id = a.parent? id := by
  rw [parent?, place?_setTy]
  split
  · rw [Option.bind_map]
    rfl
  · rfl

@[simp] theorem child?_setTy (a : Arena) (place : PlaceId) (ty : Option Ty) (id : PlaceId) :
    (a.setTy place ty).child? id = a.child? id := by
  rw [child?, place?_setTy]
  split
  · rw [Option.bind_map]
    rfl
  · rfl

theorem setTy_grows (a : Arena) (place : PlaceId) (ty : Option Ty) : Grows a (a.setTy place ty) :=
  ⟨by simp [setTy, size], fun {id} _ => parent?_setTy a place ty id⟩

theorem setTy_rooted (linked : a.Linked) (place : PlaceId) (ty : Option Ty) :
    (a.setTy place ty).Linked ∧ Rooted a (a.setTy place ty) := by
  refine ⟨fun id target found => ?_, (setTy_grows a place ty).rooted fun id _ => ?_⟩
  · rw [child?_setTy] at found
    rw [parent?_setTy]
    exact linked id target found
  · rw [Arena.name, place?_setTy]
    split
    · rw [Option.map_map]
      rfl
    · rfl

/-! ### Targets -/

theorem lt_size_of_parent? {id parent : PlaceId} (points : a.parent? id = some parent) :
    id < a.size := by
  obtain ⟨place, found, -⟩ := Option.bind_eq_some_iff.mp points
  exact (Array.getElem?_eq_some_iff.mp found).1

section Named

variable {parent child : PlaceId} (named : a.child? parent = some child) (via : Via) (ty : Option Ty)
include named

/-- A target that is named again stays where it is. -/
theorem parent?_target_named (linked : a.Linked) (id : PlaceId) :
    (a.target parent via ty).1.parent? id = a.parent? id := by
  rw [parent?, place?_target_named named]
  split
  · rename_i here
    subst here
    obtain ⟨points, -⟩ := linked parent child named
    obtain ⟨old, found, -⟩ := Option.bind_eq_some_iff.mp points
    rw [points, found]
    rfl
  · rfl

theorem child?_target_named (id : PlaceId) :
    (a.target parent via ty).1.child? id = a.child? id := by
  rw [child?, place?_target_named named]
  split
  · rw [Option.bind_map]
    rfl
  · rfl

end Named

section Unnamed

variable {parent : PlaceId} (unnamed : a.child? parent = none) (via : Via) (ty : Option Ty)
include unnamed

theorem parent?_target_new (id : PlaceId) : (a.target parent via ty).1.parent? id =
    if id = a.size then some parent else a.parent? id := by
  rw [parent?, place?_target_new unnamed]
  split
  · rfl
  · split
    · rw [Option.bind_map]
      rfl
    · rfl

theorem child?_target_new (there : parent < a.size) (id : PlaceId) :
    (a.target parent via ty).1.child? id = if id = parent then some a.size else a.child? id := by
  rw [child?, place?_target_new unnamed]
  split
  · rename_i isNew
    subst isNew
    rw [if_neg (Nat.ne_of_gt there)]
    simp [child?, place?, size]
  · by_cases here : id = parent
    · subst here
      rw [if_pos rfl, if_pos rfl, place?, Array.getElem?_eq_getElem there]
      rfl
    · rw [if_neg (Ne.symm here), if_neg here]
      rfl

end Unnamed

/-- Naming a target leaves the places where they are. -/
theorem target_grows (linked : a.Linked) (parent : PlaceId) (via : Via) (ty : Option Ty) :
    Grows a (a.target parent via ty).1 := by
  cases named : a.child? parent with
  | some child =>
      exact ⟨by simp [target, named, Arena.size],
        fun {id} _ => parent?_target_named named via ty linked id⟩
  | none =>
      refine ⟨by simp [target, named, Arena.size], fun {id} bound => ?_⟩
      rw [parent?_target_new named, if_neg (Nat.ne_of_lt bound)]

/-- The target of a place is a place behind it, with a greater number. -/
theorem target_behind (linked : a.Linked) {parent : PlaceId} (bound : parent < a.size) (via : Via)
    (ty : Option Ty) :
    let next := a.target parent via ty
    next.2 < next.1.size ∧ parent < next.2 ∧ next.1.parent? next.2 = some parent := by
  intro next
  cases named : a.child? parent with
  | some child =>
      obtain ⟨points, up⟩ := linked parent child named
      have there : child < a.size := lt_size_of_parent? points
      have isChild : next.2 = child := by simp [next, target, named]
      have grows : Grows a next.1 := target_grows linked parent via ty
      rw [isChild]
      exact ⟨Nat.lt_of_lt_of_le there grows.size, up, (grows.parent there).trans points⟩
  | none =>
      have size : next.1.size = a.size + 1 := by simp [next, target, named, Arena.size]
      have isNew : next.2 = a.size := by simp [next, target, named]
      have places : ∀ id, next.1.place? id = _ := place?_target_new named via ty
      rw [isNew, size]
      exact ⟨Nat.lt_succ_self _, bound, by simp [parent?, places, Place.parent]⟩

theorem target_linked (linked : a.Linked) {parent : PlaceId} (bound : parent < a.size) (via : Via)
    (ty : Option Ty) : (a.target parent via ty).1.Linked := by
  have grows := target_grows linked parent via ty
  have old : ∀ id child, a.child? id = some child →
      (a.target parent via ty).1.parent? child = some id ∧ id < child := by
    intro id child known
    obtain ⟨points, up⟩ := linked id child known
    exact ⟨(grows.parent (lt_size_of_parent? points)).trans points, up⟩
  intro id child known
  cases named : a.child? parent with
  | some first =>
      rw [child?_target_named named] at known
      exact old id child known
  | none =>
      rw [child?_target_new named via ty bound] at known
      split at known
      · rename_i here
        subst here
        obtain rfl := Option.some.inj known
        rw [parent?_target_new named, if_pos rfl]
        exact ⟨rfl, bound⟩
      · exact old id child known

/-- The target of a place belongs to the binding of the place. -/
theorem target_rooted (linked : a.Linked) {parent : PlaceId} (bound : parent < a.size) (via : Via)
    (ty : Option Ty) :
    let next := a.target parent via ty
    next.1.Linked ∧ Rooted a next.1 ∧ next.2 < next.1.size ∧
      next.1.root next.2 = a.root parent := by
  intro next
  have grows : Grows a next.1 := target_grows linked parent via ty
  obtain ⟨there, up, points⟩ : next.2 < next.1.size ∧ parent < next.2 ∧
      next.1.parent? next.2 = some parent := target_behind linked bound via ty
  refine ⟨target_linked linked bound via ty, grows.rooted fun id known => ?_, there, ?_⟩
  · cases named : a.child? parent with
    | some child =>
        rw [Arena.name, Arena.name, place?_target_named named]
        split
        · rename_i here
          subst here
          -- A target has no name of its own.
          obtain ⟨old, found, isTarget⟩ := Option.bind_eq_some_iff.mp (linked parent child named).1
          rw [found]
          cases kind : old.kind with
          | «local» => simp [Place.parent, kind] at isTarget
          | target => simp [Place.name, kind]
        · rfl
    | none =>
        rw [Arena.name, Arena.name, place?_target_new named, if_neg (Nat.ne_of_lt known)]
        split
        · rw [Option.map_map]
          rfl
        · rfl
  · rw [root_of_parent? points up, grows.root bound]

end BorrowLang.Arena
