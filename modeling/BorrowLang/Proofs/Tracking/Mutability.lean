import BorrowLang.Proofs.Tracking.Join
import Mathlib.Data.List.Induction

/-!
# Changes behind references

The innermost reference on the way to a place decides whether declarations allow it to be changed: a
`&mut` allows it and a `&` forbids it, whatever stands before.  So a place behind a `&` stays as it is
only as long as no `&mut` follows.
-/

set_option autoImplicit false

namespace BorrowLang

namespace Arena

/-- The arenas that come from naming places, one after another, and from giving types to them. -/
inductive Built : Arena → Prop
  | empty : Built {}
  | addLocal {arena : Arena} (built : Built arena) (name : String) (ty : Option Ty)
      (isMut isParam : Bool) : Built (arena.addLocal name ty isMut isParam).1
  | target {arena : Arena} (built : Built arena) {parent : PlaceId} (there : parent < arena.size)
      (via : Via) (ty : Option Ty) : Built (arena.target parent via ty).1
  | setTy {arena : Arena} (built : Built arena) (place : PlaceId) (ty : Option Ty) :
      Built (arena.setTy place ty)

variable {arena : Arena} {place : PlaceId} {via : Via}

theorem Built.linked (built : arena.Built) : arena.Linked := by
  induction built with
  | empty => exact linked_empty
  | addLocal _ name ty isMut isParam ih => exact (addLocal_rooted ih name ty isMut isParam).1
  | target _ there via ty ih => exact target_linked ih there via ty
  | setTy _ place ty ih => exact (setTy_rooted ih place ty).1

/-- What points at a place has been named before it. -/
theorem Built.parent_lt (built : arena.Built) {parent : PlaceId}
    (points : arena.parent? place = some parent) : parent < place := by
  induction built generalizing place parent with
  | empty => simp [parent?, place?] at points
  | addLocal _ name ty isMut isParam ih =>
      rw [parent?_addLocal] at points
      exact ih points
  | @target arena built pointer there via ty ih =>
      cases named : arena.child? pointer with
      | some child =>
          rw [parent?_target_named named via ty built.linked] at points
          exact ih points
      | none =>
          rw [parent?_target_new named] at points
          split at points
          · rename_i isNew
            obtain rfl : pointer = parent := Option.some.inj points
            exact isNew ▸ there
          · exact ih points
  | setTy _ typed ty ih =>
      rw [parent?_setTy] at points
      exact ih points

/-! ### The steps of a way -/

/-- What a place is reached through, from its binding on. -/
def steps (arena : Arena) (place : PlaceId) : List Via := (arena.chain place).filterMap arena.via?

/-- The way to the place leads through a `&`, and through no `&mut` after that. -/
def BehindShared (arena : Arena) (place : PlaceId) : Prop :=
  ∃ before after, arena.steps place = before ++ .sharedRef :: after ∧ Via.mutRef ∉ after

/-- After the innermost reference there are boxes only. -/
theorem innermostRef_eq_some : arena.innermostRef place = some via ↔
    via.isRef = true ∧ ∃ before after, arena.steps place = before ++ via :: after ∧
      ∀ step ∈ after, step.isRef = false := by
  rw [innermostRef, ← steps, List.find?_eq_some_iff_append]
  simp only [Bool.not_eq_true']
  refine and_congr_right fun _ => ⟨?_, ?_⟩
  · rintro ⟨after, before, way, boxes⟩
    refine ⟨before.reverse, after.reverse, ?_, fun step member => boxes step (by simpa using member)⟩
    rw [← List.reverse_reverse (arena.steps place), way]
    simp
  · rintro ⟨before, after, way, boxes⟩
    refine ⟨after.reverse, before.reverse, by simp [way], fun step member => ?_⟩
    exact boxes step (by simpa using member)

theorem BehindShared.innermostRef (behind : arena.BehindShared place) :
    arena.innermostRef place = some .sharedRef := by
  obtain ⟨before, after, way, never⟩ := behind
  rw [Arena.innermostRef, ← steps, way, List.reverse_append, List.reverse_cons, List.append_assoc,
    List.find?_append]
  cases found : after.reverse.find? Via.isRef with
  | none => rfl
  | some last =>
      have member : last ∈ after := List.mem_reverse.mp (List.mem_of_find?_eq_some found)
      have isRef : last.isRef = true := List.find?_some found
      cases last with
      | box => exact absurd isRef nofun
      | sharedRef => rfl
      | mutRef => exact absurd member never

/-- On a way through a `&` that does not decide, a `&mut` does. -/
theorem innermostRef_of_not_behindShared (crosses : Via.sharedRef ∈ arena.steps place)
    (never : ¬ arena.BehindShared place) : arena.innermostRef place = some .mutRef := by
  have isThere : (arena.innermostRef place).isSome = true := by
    rw [innermostRef, ← steps, List.find?_isSome]
    exact ⟨.sharedRef, List.mem_reverse.mpr crosses, rfl⟩
  obtain ⟨via, innermost⟩ := Option.isSome_iff_exists.mp isThere
  obtain ⟨isRef, before, after, way, boxes⟩ := innermostRef_eq_some.mp innermost
  cases via with
  | box => exact absurd isRef nofun
  | sharedRef => exact absurd ⟨before, after, way, fun member => absurd (boxes _ member) nofun⟩ never
  | mutRef => exact innermost

/-- A place that is reached through something is not the slot of a binding. -/
theorem Built.length_chain_ne_one (built : arena.Built) (crosses : via ∈ arena.steps place) :
    (arena.chain place).length ≠ 1 := by
  rw [steps, chain] at crosses
  rw [chain]
  cases points : arena.parent? place with
  | none =>
      -- Then the place is a binding's own, which is reached through nothing.
      simp only [points, List.mem_filterMap, List.mem_singleton, exists_eq_left] at crosses
      obtain ⟨known, found, reached⟩ := Option.bind_eq_some_iff.mp crosses
      rw [parent?, found, Option.bind_some] at points
      cases kind : known.kind with
      | «local» => simp [Place.via, kind] at reached
      | target => simp [Place.parent, kind] at points
  | some parent =>
      have above : 0 < (arena.chain parent).length :=
        List.length_pos_of_mem (arena.root_mem_chain parent)
      simp only [built.parent_lt points, if_true, List.length_append, List.length_singleton]
      omega

end Arena

namespace Tracker

variable {t : Tracker} {arena : Arena} {place : PlaceId} {toBorrow : Bool}

/-! ### What declarations allow -/

/-- The last reference among the steps decides, and the binding where there is none. -/
theorem mutabilityAlong_eq (isMut : Bool) (steps : List Via) :
    mutabilityAlong isMut steps = match steps.reverse.find? Via.isRef with
      | some .mutRef => (true, false)
      | some .sharedRef => (false, true)
      | _ => (isMut, false) := by
  induction steps using List.reverseRecOn with
  | nil => rfl
  | append_singleton steps via ih =>
      rw [mutabilityAlong, List.foldl_append, ← mutabilityAlong, List.reverse_append]
      cases via with
      | box => exact ih
      | sharedRef | mutRef => rfl

theorem checkMutable_eq : checkMutable arena place toBorrow =
    match arena.innermostRef place with
    | some .mutRef => .ok ()
    | some .sharedRef =>
        .error ⟨if toBorrow then .borrowBehindShared else .assignBehindShared, place, none⟩
    | _ =>
        if arena.isMut (arena.root place) then .ok ()
        else
          let rule : Rule :=
            if (arena.chain place).length = 1 then if toBorrow then .borrowImmutable else .assignTwice
            else if toBorrow then .borrowImmutableOwner else .assignImmutableOwner
          .error ⟨rule, place, none⟩ := by
  simp only [checkMutable, mutabilityAlong_eq, Arena.innermostRef]
  cases ((arena.chain place).filterMap arena.via?).reverse.find? Via.isRef with
  | none => rfl
  | some via => cases via <;> rfl

/-- On a way of several steps an assignment needs the owners on the way, the declarations and no
borrow. -/
theorem canWrite_eq (longer : (arena.chain place).length ≠ 1) : t.canWrite arena place = (do
    t.requireOwners place (arena.chain place).dropLast
    checkMutable arena place false
    requireNone (t.borrowsOn arena place) place fun _ => some .assignBorrowed) := by
  simp only [canWrite, longer, false_and, if_false]

/-- A place behind a `&` is refused for writing and for `&mut`, in every state of the tracker, as long
as no `&mut` follows.  Where one does, declarations allow both; a write is then a matter of the owners
on the way and of borrows only. -/
theorem changes_behind_shared (built : arena.Built) (crosses : Via.sharedRef ∈ arena.steps place) :
    (arena.BehindShared place →
      (∀ toBorrow, checkMutable arena place toBorrow =
        .error ⟨if toBorrow then .borrowBehindShared else .assignBehindShared, place, none⟩) ∧
      ∀ t : Tracker, ∃ violation, t.canWrite arena place = .error violation ∧
        (t.requireOwners place (arena.chain place).dropLast = .ok () →
          violation = ⟨.assignBehindShared, place, none⟩)) ∧
    (¬ arena.BehindShared place →
      (∀ toBorrow, checkMutable arena place toBorrow = .ok ()) ∧
      ∀ t : Tracker, t.canWrite arena place = .ok () ↔
        t.requireOwners place (arena.chain place).dropLast = .ok () ∧
          t.BorrowedAs arena place fun _ => False) := by
  have longer := built.length_chain_ne_one crosses
  refine ⟨fun behind => ?_, fun never => ?_⟩
  · have refused : ∀ toBorrow, checkMutable arena place toBorrow =
        .error ⟨if toBorrow then .borrowBehindShared else .assignBehindShared, place, none⟩ := by
      intro toBorrow
      rw [checkMutable_eq, behind.innermostRef]
    refine ⟨refused, fun t => ?_⟩
    rw [canWrite_eq longer, refused]
    cases t.requireOwners place (arena.chain place).dropLast with
    | ok => exact ⟨_, rfl, fun _ => rfl⟩
    | error violation => exact ⟨violation, rfl, nofun⟩
  · have allowed : ∀ toBorrow, checkMutable arena place toBorrow = .ok () := by
      intro toBorrow
      rw [checkMutable_eq, Arena.innermostRef_of_not_behindShared crosses never]
    refine ⟨allowed, fun t => ?_⟩
    rw [canWrite_eq_ok, allowed]
    simp

/-- A box behind a `&`, and a place behind a `&mut` that is behind a `&`. -/
def sharedWays : Arena :=
  let shared := ((Arena.addLocal {} "r" none false false).1.target 0 .sharedRef none).1
  let boxed := (shared.target 1 .box none).1
  (((boxed.addLocal "s" none false false).1.target 3 .sharedRef none).1.target 4 .mutRef none).1

theorem sharedWays_built : sharedWays.Built := by
  have boxed := ((Arena.Built.empty.addLocal "r" none false false).target (show 0 < _ by decide) .sharedRef
    none).target (show 1 < _ by decide) .box none
  exact ((boxed.addLocal "s" none false false).target (show 3 < _ by decide) .sharedRef none).target
    (show 4 < _ by decide) .mutRef none

theorem changes_behind_shared_sharedWays :
    (∀ toBorrow, checkMutable sharedWays 2 toBorrow =
      .error ⟨if toBorrow then .borrowBehindShared else .assignBehindShared, 2, none⟩) ∧
    (∀ t : Tracker, ∃ violation, t.canWrite sharedWays 2 = .error violation) ∧
    ∀ toBorrow, checkMutable sharedWays 5 toBorrow = .ok () := by
  obtain ⟨refused, -⟩ :=
    changes_behind_shared sharedWays_built (show Via.sharedRef ∈ sharedWays.steps 2 by decide +kernel)
  obtain ⟨-, allowed⟩ :=
    changes_behind_shared sharedWays_built (show Via.sharedRef ∈ sharedWays.steps 5 by decide +kernel)
  obtain ⟨unchanged, unwritten⟩ := refused ⟨[], [.box], by decide +kernel, by decide⟩
  refine ⟨unchanged, fun t => ?_, (allowed fun behind => ?_).1⟩
  · obtain ⟨violation, refused, -⟩ := unwritten t
    exact ⟨violation, refused⟩
  · exact absurd behind.innermostRef (by decide +kernel)

/-- A `&mut` undoes the `&` before it: the place may be borrowed mutably and written. -/
theorem changes_behind_shared_regained :
    sharedWays.Built ∧ Via.sharedRef ∈ sharedWays.steps 5 ∧
      (∀ toBorrow, checkMutable sharedWays 5 toBorrow = .ok ()) ∧
      (({} : Tracker).declare 3 true).canWrite sharedWays 5 = .ok () := by
  have innermost : sharedWays.innermostRef 5 = some .mutRef := by decide +kernel
  refine ⟨sharedWays_built, by decide +kernel, fun toBorrow => ?_, by decide +kernel⟩
  rw [checkMutable_eq, innermost]

end Tracker

end BorrowLang
