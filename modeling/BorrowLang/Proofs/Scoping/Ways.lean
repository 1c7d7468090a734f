import BorrowLang.Checker.Use
import BorrowLang.Proofs.Lifetimes.Places
import Mathlib.Data.List.Basic

/-!
# The way to a place

A place is reached through boxes and references, as the types of the places on the way to it say.  Since
types that are known stay what they are, so does the way: naming a target again does not change it.
-/

set_option autoImplicit false

namespace BorrowLang.Arena

open Checker (viaOf)

variable {a b c : Arena} {id : PlaceId}

/-- The place is the slot of a binding. -/
def IsLocal (a : Arena) (id : PlaceId) : Prop := id < a.size ∧ a.parent? id = none

theorem IsLocal.root (isLocal : a.IsLocal id) : a.root id = id := root_of_parent?_none isLocal.2

theorem le_of_mem_chain {other : PlaceId} (member : other ∈ a.chain id) : other ≤ id := by
  induction id using Nat.strongRecOn with
  | ind id ih =>
      rw [chain] at member
      cases points : a.parent? id with
      | none =>
          simp only [points, List.mem_singleton] at member
          exact Nat.le_of_eq member
      | some parent =>
          simp only [points] at member
          by_cases down : parent < id
          · simp only [down, if_true, List.mem_append, List.mem_singleton] at member
            rcases member with above | rfl
            · exact Nat.le_trans (ih parent down above) (Nat.le_of_lt down)
            · exact Nat.le_refl _
          · simp only [down, if_false, List.mem_singleton] at member
            exact Nat.le_of_eq member

/-! ### Ways that stay -/

/-- The second arena has every place of the first, and it is reached in the same way. -/
structure SameWays (a b : Arena) : Prop extends Grows a b where
  via : ∀ {id}, id < a.size → b.via? id = a.via? id

namespace SameWays

theorem refl (a : Arena) : SameWays a a := ⟨.refl a, fun _ => rfl⟩

theorem trans (first : SameWays a b) (second : SameWays b c) : SameWays a c where
  toGrows := first.toGrows.trans second.toGrows
  via bound := (second.via (Nat.lt_of_lt_of_le bound first.size)).trans (first.via bound)

theorem isLocal (ways : SameWays a b) (isLocal : a.IsLocal id) : b.IsLocal id :=
  ⟨Nat.lt_of_lt_of_le isLocal.1 ways.size, (ways.parent isLocal.1).trans isLocal.2⟩

theorem innermostRef (ways : SameWays a b) (bound : id < a.size) :
    b.innermostRef id = a.innermostRef id := by
  have steps : (a.chain id).filterMap b.via? = (a.chain id).filterMap a.via? :=
    List.filterMap_congr fun other member =>
      ways.via (Nat.lt_of_le_of_lt (le_of_mem_chain member) bound)
  rw [Arena.innermostRef, Arena.innermostRef, ways.chain bound, steps]

end SameWays

/-- Each target knows what points at it, has the type that this points at, and is reached as a value
of the pointer's type is dereferenced. -/
structure Laid (a : Arena) : Prop where
  linked : a.Linked
  typed : a.Sound
  via : ∀ id child, a.child? id = some child →
    ∃ pointer, a.ty? id = some pointer ∧ a.via? child = some (viaOf pointer)

theorem laid_empty : Laid {} where
  linked := linked_empty
  typed := sound_empty
  via id child known := by simp [child?, place?] at known

theorem Laid.child_lt (laid : a.Laid) {child : PlaceId} (known : a.child? id = some child) :
    child < a.size := by
  obtain ⟨_, _, -, -, childTy⟩ := laid.typed id child known
  exact lt_size_of_ty? childTy

/-- What is known of a target is still known when there are more places. -/
theorem Laid.via_mono (laid : a.Laid) (ways : SameWays a b) (extended : Extends a b)
    {child : PlaceId} (known : a.child? id = some child) :
    ∃ pointer, b.ty? id = some pointer ∧ b.via? child = some (viaOf pointer) := by
  obtain ⟨pointer, pointerTy, via⟩ := laid.via id child known
  exact ⟨pointer, extended.ty pointerTy, (ways.via (laid.child_lt known)).trans via⟩

/-! ### New bindings -/

theorem addLocal_laid (laid : a.Laid) (name : String) (ty : Option Ty) (isMut isParam : Bool) :
    let next := (a.addLocal name ty isMut isParam).1
    next.Laid ∧ SameWays a next ∧ next.IsLocal a.size := by
  intro next
  have known : ∀ id, id ≠ a.size → next.place? id = a.place? id := fun id other =>
    (place?_addLocal a name ty isMut isParam id).trans (if_neg other)
  have new : next.place? a.size = some { kind := .local name isMut isParam, ty } := by
    simp [next, place?_addLocal]
  have ways : SameWays a next := by
    refine ⟨addLocal_grows a name ty isMut isParam, fun {id} bound => ?_⟩
    rw [via?, known id (Nat.ne_of_lt bound), via?]
  obtain ⟨typed, extended, -⟩ := addLocal_keeps laid.typed name ty isMut isParam
  refine ⟨⟨(addLocal_rooted laid.linked name ty isMut isParam).1, typed, ?_⟩, ways, ?_⟩
  · intro id child isChild
    have other : id ≠ a.size := by
      rintro rfl
      simp [child?, new] at isChild
    rw [child?, known id other] at isChild
    exact laid.via_mono ways extended isChild
  · refine ⟨?_, by simp [parent?, new, Place.parent]⟩
    simp [next, addLocal, Arena.size]

/-! ### A first type -/

theorem setTy_laid (laid : a.Laid) {place : PlaceId} (unknown : a.ty? place = none) (ty : Ty) :
    (a.setTy place (some ty)).Laid ∧ SameWays a (a.setTy place (some ty)) := by
  have parts : ∀ {β : Type} (part : Place → Option β),
      (∀ old : Place, part { old with ty := some ty } = part old) → ∀ id,
        ((a.setTy place (some ty)).place? id).bind part = (a.place? id).bind part := by
    intro β part same id
    rw [place?_setTy]
    split
    · rw [Option.bind_map]
      exact congrArg _ (funext same)
    · rfl
  have ways : SameWays a (a.setTy place (some ty)) :=
    ⟨⟨by simp [setTy, size], fun {id} _ => parts Place.parent (fun _ => rfl) id⟩,
      fun {id} _ => parts Place.via (fun _ => rfl) id⟩
  obtain ⟨typed, extended⟩ := setTy_keeps laid.typed unknown ty
  refine ⟨⟨(setTy_rooted laid.linked place (some ty)).1, typed, fun id child known => ?_⟩, ways⟩
  have old : a.child? id = some child := (parts Place.child (fun _ => rfl) id).symm.trans known
  exact laid.via_mono ways extended old

/-! ### Targets -/

/-- The target of a pointer whose type is known belongs to the same binding as the pointer; where it
has been named before it is reached as it was. -/
theorem target_laid (laid : a.Laid) {parent : PlaceId} {pointer ty : Ty}
    (known : a.ty? parent = some pointer) (points : pointer.pointee? = some ty) :
    let next := a.target parent (viaOf pointer) (some ty)
    next.1.Laid ∧ SameWays a next.1 ∧ next.2 < next.1.size ∧ next.1.root next.2 = a.root parent := by
  intro next
  obtain ⟨linked, -, there, root⟩ : next.1.Linked ∧ Rooted a next.1 ∧ next.2 < next.1.size ∧
      next.1.root next.2 = a.root parent :=
    target_rooted laid.linked (lt_size_of_ty? known) (viaOf pointer) (some ty)
  obtain ⟨typed, extended, -⟩ : next.1.Sound ∧ Extends a next.1 ∧ next.1.ty? next.2 = some ty :=
    target_keeps laid.typed known points (viaOf pointer)
  have grows : Grows a next.1 := target_grows laid.linked parent _ _
  suffices SameWays a next.1 ∧ ∀ id child, next.1.child? id = some child →
      a.child? id = some child ∨
        id = parent ∧ next.1.via? child = some (viaOf pointer) by
    obtain ⟨ways, children⟩ := this
    refine ⟨⟨linked, typed, fun id child isChild => ?_⟩, ways, there, root⟩
    rcases children id child isChild with old | ⟨rfl, via⟩
    · exact laid.via_mono ways extended old
    · exact ⟨pointer, extended.ty known, via⟩
  cases named : a.child? parent with
  | some first =>
      have places : ∀ id, next.1.place? id = _ := place?_target_named named _ _
      refine ⟨⟨grows, fun {id} _ => ?_⟩, fun id child isChild => Or.inl ?_⟩
      · rw [via?, places]
        split
        · rename_i here
          subst here
          obtain ⟨own, ownTy, via⟩ := laid.via parent first named
          obtain rfl := Option.some.inj (known.symm.trans ownTy)
          obtain ⟨old, found, -⟩ := Option.bind_eq_some_iff.mp via
          rw [via, found]
          rfl
        · rfl
      · rw [child?, places] at isChild
        split at isChild
        · rwa [Option.bind_map] at isChild
        · exact isChild
  | none =>
      have places : ∀ id, next.1.place? id = _ := place?_target_new named _ _
      refine ⟨⟨grows, fun {id} bound => ?_⟩, fun id child isChild => ?_⟩
      · rw [via?, places, if_neg (Nat.ne_of_lt bound)]
        split
        · rw [Option.bind_map]
          rfl
        · rfl
      · rw [child?, places] at isChild
        split at isChild
        · simp at isChild
        · split at isChild
          · rename_i here
            obtain ⟨_, isPlace, isNew⟩ := Option.bind_eq_some_iff.mp isChild
            obtain ⟨_, -, rfl⟩ := Option.map_eq_some_iff.mp isPlace
            obtain rfl : a.size = child := Option.some.inj isNew
            exact Or.inr ⟨here.symm, by simp [via?, places, Place.via]⟩
          · exact Or.inl isChild

end BorrowLang.Arena
