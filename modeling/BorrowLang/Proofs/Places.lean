import BorrowLang.Proofs.Scoping.Ways
import BorrowLang.Proofs.Tracking.Mutability
import Mathlib.Logic.Relation

/-!
# Places stand in lines

However places have been named, each binding has one line of places: its slot, what that points at,
what this points at, and so on.  Going up from a place ends at the slot, going down ends at a place
whose target has not been named, and two places overlap exactly when they stand in one line.
-/

set_option autoImplicit false

namespace BorrowLang.Arena

variable {arena after : Arena} {place parent child first second : PlaceId}

/-! ### Links -/

/-- A place that points at another one knows it as its target. -/
theorem Built.child?_of_parent? (built : arena.Built) (points : arena.parent? child = some parent) :
    arena.child? parent = some child := by
  induction built generalizing parent child with
  | empty => simp [parent?, place?] at points
  | addLocal _ name ty isMut isParam ih =>
      rw [parent?_addLocal] at points
      rw [child?_addLocal, ih points]
  | setTy _ place ty ih =>
      rw [parent?_setTy] at points
      rw [child?_setTy, ih points]
  | @target arena built pointer there via ty ih =>
      cases named : arena.child? pointer with
      | some known =>
          rw [parent?_target_named named via ty built.linked] at points
          rw [child?_target_named named, ih points]
      | none =>
          rw [parent?_target_new named] at points
          rw [child?_target_new named via ty there]
          split at points
          · rename_i isNew
            rw [if_pos (Option.some.inj points).symm, isNew]
          · have known := ih points
            have other : parent ≠ pointer := by
              rintro rfl
              cases named.symm.trans known
            rw [if_neg other, known]

/-- The target of a place is the one place that it points at. -/
theorem Built.child?_iff (built : arena.Built) :
    arena.child? parent = some child ↔ arena.parent? child = some parent :=
  ⟨fun leads => (built.linked parent child leads).1, built.child?_of_parent?⟩

/-- What holds of slots, and of a target when it holds of what points at it, holds of every place. -/
theorem Built.upward (built : arena.Built) {motive : PlaceId → Prop}
    (slot : ∀ place, arena.parent? place = none → motive place)
    (target : ∀ place parent, arena.parent? place = some parent → motive parent → motive place)
    (place : PlaceId) : motive place := by
  induction place using Nat.strongRecOn with
  | ind place ih =>
      cases points : arena.parent? place with
      | none => exact slot place points
      | some parent => exact target place parent points (ih parent (built.parent_lt points))

theorem Built.child_lt (built : arena.Built) (leads : arena.child? parent = some child) :
    parent < child ∧ child < arena.size := by
  have points := built.child?_iff.mp leads
  exact ⟨built.parent_lt points, lt_size_of_parent? points⟩

/-- What holds of places without a target, and of a place when it holds of its target, holds of every
place. -/
theorem Built.downward (built : arena.Built) {motive : PlaceId → Prop}
    (last : ∀ place, arena.child? place = none → motive place)
    (pointer : ∀ place child, arena.child? place = some child → motive child → motive place)
    (place : PlaceId) : motive place := by
  induction below : arena.size - place using Nat.strongRecOn generalizing place with
  | ind rest ih =>
      subst below
      cases leads : arena.child? place with
      | none => exact last place leads
      | some child =>
          obtain ⟨up, there⟩ := built.child_lt leads
          exact pointer place child leads
            (ih (arena.size - child) (Nat.sub_lt_sub_left (Nat.lt_trans up there) up) child rfl)

/-! ### Going up and down -/

theorem chain_of_slot (isSlot : arena.parent? place = none) : arena.chain place = [place] := by
  rw [chain]
  simp only [isSlot]

theorem Built.chain_of_target (built : arena.Built) (points : arena.parent? place = some parent) :
    arena.chain place = arena.chain parent ++ [place] := by
  rw [chain]
  simp only [points, built.parent_lt points, if_true]

theorem descendants_of_last (isLast : arena.child? place = none) : arena.descendants place = [] := by
  rw [descendants]
  simp only [isLast]

theorem Built.descendants_of_pointer (built : arena.Built) (leads : arena.child? place = some child) :
    arena.descendants place = child :: arena.descendants child := by
  rw [descendants]
  simp only [leads, built.child_lt leads, and_self, dite_true]

/-- Following links from a place comes to an end, on a way of places of which it is the first. -/
inductive Walk (next : PlaceId → Option PlaceId) : PlaceId → List PlaceId → Prop
  | stop {place : PlaceId} (ends : next place = none) : Walk next place [place]
  | go {place after : PlaceId} {way : List PlaceId} (leads : next place = some after)
      (onward : Walk next after way) : Walk next place (place :: way)

/-- Going up from a place ends, and the way is its chain from behind. -/
theorem Built.walk_up (built : arena.Built) (place : PlaceId) :
    Walk arena.parent? place (arena.chain place).reverse := by
  induction place using built.upward with
  | slot place isSlot =>
      rw [chain_of_slot isSlot]
      exact .stop isSlot
  | target place parent points ih =>
      rw [built.chain_of_target points, List.reverse_append]
      exact .go points ih

/-- Going down from a place ends, and the way leads through its descendants. -/
theorem Built.walk_down (built : arena.Built) (place : PlaceId) :
    Walk arena.child? place (place :: arena.descendants place) := by
  induction place using built.downward with
  | last place isLast =>
      rw [descendants_of_last isLast]
      exact .stop isLast
  | pointer place child leads ih =>
      rw [built.descendants_of_pointer leads]
      exact .go leads ih

/-- The slot at which going up from a place ends is its root. -/
theorem Built.head?_chain (built : arena.Built) (place : PlaceId) :
    (arena.chain place).head? = some (arena.root place) := by
  induction place using built.upward with
  | slot place isSlot => rw [chain_of_slot isSlot, root_of_parent?_none isSlot, List.head?_singleton]
  | target place parent points ih =>
      rw [built.chain_of_target points, root_of_parent? points (built.parent_lt points),
        List.head?_append, ih, Option.some_or]

/-! ### What lies on a way -/

theorem mem_chain_self (arena : Arena) (place : PlaceId) : place ∈ arena.chain place := by
  rw [chain]
  split
  · exact List.mem_singleton_self place
  · split
    · exact List.mem_append_right _ (List.mem_singleton_self place)
    · exact List.mem_singleton_self place

theorem Built.root_of_mem_chain (built : arena.Built) (member : first ∈ arena.chain second) :
    arena.root first = arena.root second := by
  induction second using built.upward with
  | slot place isSlot =>
      rw [chain_of_slot isSlot] at member
      rw [List.mem_singleton.mp member]
  | target place parent points ih =>
      rw [built.chain_of_target points] at member
      rcases List.mem_append.mp member with above | here
      · rw [ih above, root_of_parent? points (built.parent_lt points)]
      · rw [List.mem_singleton.mp here]

theorem Built.chain_prefix_iff (built : arena.Built) :
    arena.chain first <+: arena.chain second ↔ first ∈ arena.chain second := by
  refine ⟨fun goesOn => goesOn.subset (arena.mem_chain_self first), fun member => ?_⟩
  induction second using built.upward with
  | slot place isSlot =>
      rw [chain_of_slot isSlot] at member
      obtain rfl := List.mem_singleton.mp member
      exact List.prefix_rfl
  | target place parent points ih =>
      rw [built.chain_of_target points] at member
      rcases List.mem_append.mp member with above | here
      · rw [built.chain_of_target points]
        exact (ih above).trans (List.prefix_append _ _)
      · obtain rfl := List.mem_singleton.mp here
        exact List.prefix_rfl

/-- The target of a descendant is a descendant. -/
theorem Built.mem_descendants_of_child? (built : arena.Built) (member : parent ∈ arena.descendants place)
    (leads : arena.child? parent = some child) : child ∈ arena.descendants place := by
  induction place using built.downward with
  | last place isLast => simp [descendants_of_last isLast] at member
  | pointer place below leadsBelow ih =>
      rw [built.descendants_of_pointer leadsBelow] at member ⊢
      rcases List.mem_cons.mp member with rfl | deeper
      · rw [built.descendants_of_pointer leads]
        exact List.mem_cons_of_mem _ List.mem_cons_self
      · exact List.mem_cons_of_mem _ (ih deeper)

/-- The descendants of a place are the other places to which the way leads through it. -/
theorem Built.mem_descendants_iff (built : arena.Built) :
    second ∈ arena.descendants first ↔ first ∈ arena.chain second ∧ first ≠ second := by
  constructor
  · intro member
    induction first using built.downward with
    | last place isLast => simp [descendants_of_last isLast] at member
    | pointer place child leads ih =>
        rw [built.descendants_of_pointer leads] at member
        have through : child ∈ arena.chain second := by
          rcases List.mem_cons.mp member with rfl | deeper
          · exact arena.mem_chain_self second
          · exact (ih deeper).1
        have above : place ∈ arena.chain child := by
          rw [built.chain_of_target (built.child?_iff.mp leads)]
          exact List.mem_append_left _ (arena.mem_chain_self place)
        have less : place < second :=
          Nat.lt_of_lt_of_le (built.child_lt leads).1 (le_of_mem_chain through)
        exact ⟨(built.chain_prefix_iff.mpr through).subset above, Nat.ne_of_lt less⟩
  · rintro ⟨member, other⟩
    induction second using built.upward with
    | slot place isSlot =>
        rw [chain_of_slot isSlot] at member
        exact absurd (List.mem_singleton.mp member) other
    | target place parent points ih =>
        have leads := built.child?_of_parent? points
        rw [built.chain_of_target points] at member
        have above : first ∈ arena.chain parent :=
          (List.mem_append.mp member).resolve_right fun here => other (List.mem_singleton.mp here)
        by_cases here : first = parent
        · rw [here, built.descendants_of_pointer leads]
          exact List.mem_cons_self
        · exact built.mem_descendants_of_child? (ih above here) leads

theorem Built.lt_of_mem_descendants (built : arena.Built) (member : second ∈ arena.descendants first) :
    first < second := by
  obtain ⟨through, other⟩ := built.mem_descendants_iff.mp member
  exact Nat.lt_of_le_of_ne (le_of_mem_chain through) other

theorem Built.lt_size_of_mem_descendants (built : arena.Built)
    (member : second ∈ arena.descendants first) : second < arena.size := by
  obtain ⟨through, other⟩ := built.mem_descendants_iff.mp member
  cases points : arena.parent? second with
  | none =>
      rw [chain_of_slot points] at through
      exact absurd (List.mem_singleton.mp through) other
  | some parent => exact lt_size_of_parent? points

theorem Built.descendants_increasing (built : arena.Built) (place : PlaceId) :
    (arena.descendants place).Pairwise (· < ·) := by
  induction place using built.downward with
  | last place isLast =>
      rw [descendants_of_last isLast]
      exact .nil
  | pointer place child leads ih =>
      rw [built.descendants_of_pointer leads]
      exact .cons (fun _ => built.lt_of_mem_descendants) ih

/-- A place is a descendant of another one when its chain goes on from the chain of that. -/
theorem Built.mem_descendants_iff_chain (built : arena.Built) :
    second ∈ arena.descendants first ↔
      arena.chain first <+: arena.chain second ∧ arena.chain first ≠ arena.chain second := by
  rw [built.mem_descendants_iff, built.chain_prefix_iff]
  refine and_congr_right fun through => not_congr ⟨congrArg arena.chain, fun same => ?_⟩
  have back : second ∈ arena.chain first := same ▸ arena.mem_chain_self second
  exact Nat.le_antisymm (le_of_mem_chain through) (le_of_mem_chain back)

/-- Of two places with the same root, the way to the later one leads through the other. -/
theorem Built.mem_chain_of_root_eq (built : arena.Built) (same : arena.root first = arena.root second)
    (le : first ≤ second) : first ∈ arena.chain second := by
  induction second using Nat.strongRecOn generalizing first with
  | ind second ih =>
      rcases Nat.eq_or_lt_of_le le with rfl | less
      · exact arena.mem_chain_self first
      cases points : arena.parent? second with
      | none =>
          -- The later place would be the root of the earlier one.
          rw [root_of_parent?_none points] at same
          exact absurd (same ▸ arena.root_le first) (Nat.not_le_of_gt less)
      | some parent =>
          have up := built.parent_lt points
          have sameParent : arena.root first = arena.root parent := by
            rw [same, root_of_parent? points up]
          rw [built.chain_of_target points]
          rcases Nat.lt_or_ge parent first with between | below
          · -- Otherwise the way to the first place leaves the parent through its one target.
            have member := ih first less sameParent.symm (Nat.le_of_lt between)
            have deeper := built.mem_descendants_iff.mpr ⟨member, Nat.ne_of_lt between⟩
            rw [built.descendants_of_pointer (built.child?_of_parent? points)] at deeper
            rcases List.mem_cons.mp deeper with rfl | beyond
            · exact absurd less (Nat.lt_irrefl _)
            · exact absurd (built.lt_of_mem_descendants beyond) (Nat.lt_asymm less)
          · exact List.mem_append_left _ (ih parent up sameParent below)

theorem Built.overlaps_iff (built : arena.Built) :
    arena.overlaps first second = true ↔ arena.root first = arena.root second := by
  simp only [overlaps, leadsTo, Bool.or_eq_true, List.contains_iff_mem]
  constructor
  · rintro (member | member)
    · exact built.root_of_mem_chain member
    · exact (built.root_of_mem_chain member).symm
  · intro same
    rcases Nat.le_total first second with le | le
    · exact Or.inl (built.mem_chain_of_root_eq same le)
    · exact Or.inr (built.mem_chain_of_root_eq same.symm le)

/-! ### Naming more places -/

/-- A place is named in an arena, for the first time or again, or is given a type. -/
inductive Naming : Arena → Arena → Prop
  | addLocal (arena : Arena) (name : String) (ty : Option Ty) (isMut isParam : Bool) :
      Naming arena (arena.addLocal name ty isMut isParam).1
  | target {arena : Arena} {parent : PlaceId} (there : parent < arena.size) (via : Via)
      (ty : Option Ty) : Naming arena (arena.target parent via ty).1
  | setTy (arena : Arena) (place : PlaceId) (ty : Option Ty) : Naming arena (arena.setTy place ty)

/-- The second arena comes from the first by naming places. -/
def Later : Arena → Arena → Prop := Relation.ReflTransGen Naming

theorem Built.naming (built : arena.Built) (naming : Naming arena after) :
    after.Built ∧ Grows arena after := by
  cases naming with
  | addLocal name ty isMut isParam =>
      exact ⟨built.addLocal name ty isMut isParam, addLocal_grows arena name ty isMut isParam⟩
  | @target parent there via ty =>
      exact ⟨built.target there via ty, target_grows built.linked parent via ty⟩
  | setTy place ty => exact ⟨built.setTy place ty, setTy_grows arena place ty⟩

theorem Built.later (built : arena.Built) (comes : Later arena after) :
    after.Built ∧ Grows arena after := by
  induction comes with
  | refl => exact ⟨built, .refl arena⟩
  | tail _ naming ih =>
      obtain ⟨builtNow, grows⟩ := ih
      obtain ⟨builtNext, growsNext⟩ := builtNow.naming naming
      exact ⟨builtNext, grows.trans growsNext⟩

theorem target_snd_of_child? (leads : arena.child? parent = some child) (via : Via) (ty : Option Ty) :
    (arena.target parent via ty).2 = child := by
  simp only [target, leads]

/-- The target of a place stays the same place however it is named again. -/
theorem Built.target_later (built : arena.Built) (points : arena.parent? child = some parent)
    (comes : Later arena after) (via : Via) (ty : Option Ty) :
    (after.target parent via ty).2 = child := by
  obtain ⟨builtLater, grows⟩ := built.later comes
  have stays := (grows.parent (lt_size_of_parent? points)).trans points
  exact target_snd_of_child? (builtLater.child?_of_parent? stays) via ty

/-! ### The shape of an arena -/

/-- The places of an arena stand in lines.  A place knows as its target the one place that it points at,
and naming the target gives that place, then and ever after.  Going up from a place ends, on a way of
places that exist: the chain is that way from its end, the root is the end of it, and the innermost
reference is the first one on it.  Going down ends as well, on the places whose chains go on from the
chain of the place.  Two places overlap where their roots are the same. -/
structure InLines (arena : Arena) : Prop where
  parent_lt : ∀ parent child, arena.parent? child = some parent → parent < child
  links : ∀ parent child, arena.child? parent = some child ↔ arena.parent? child = some parent
  oneTarget : ∀ parent first second, arena.parent? first = some parent →
    arena.parent? second = some parent → first = second
  target : ∀ parent < arena.size, ∀ via ty,
    let named := arena.target parent via ty
    named.1.parent? named.2 = some parent ∧
      (∀ child, arena.parent? child = some parent → named.2 = child) ∧
      ∀ later, Later named.1 later → ∀ via ty, (later.target parent via ty).2 = named.2
  up : ∀ place < arena.size, ∃ way, Walk arena.parent? place way ∧ (∀ id ∈ way, id < arena.size) ∧
    arena.chain place = way.reverse ∧ way.getLast? = some (arena.root place) ∧
    (∀ first, arena.leadsTo first place = true ↔ first ∈ way) ∧
    arena.innermostRef place = (way.filterMap arena.via?).find? Via.isRef
  down : ∀ place < arena.size, Walk arena.child? place (place :: arena.descendants place)
  descendants : ∀ place < arena.size, (arena.descendants place).Nodup ∧
    ∀ other, other ∈ arena.descendants place ↔
      other < arena.size ∧ arena.chain place <+: arena.chain other ∧
        arena.chain place ≠ arena.chain other
  overlaps : ∀ first < arena.size, ∀ second < arena.size,
    arena.overlaps first second = true ↔ arena.root first = arena.root second

/-- However places have been named, they stand in lines. -/
theorem Built.inLines (built : arena.Built) : arena.InLines where
  parent_lt _ _ := built.parent_lt
  links _ _ := built.child?_iff
  oneTarget _ _ _ points pointsToo :=
    Option.some.inj ((built.child?_of_parent? points).symm.trans (built.child?_of_parent? pointsToo))
  target parent there via ty := by
    obtain ⟨-, -, points⟩ := target_behind built.linked there via ty
    refine ⟨points, fun child known => ?_, fun after comes via' ty' => ?_⟩
    · exact target_snd_of_child? (built.child?_of_parent? known) via ty
    · exact (built.target there via ty).target_later points comes via' ty'
  up place there := by
    refine ⟨(arena.chain place).reverse, built.walk_up place, fun id member => ?_,
      (List.reverse_reverse _).symm, ?_, fun first => ?_, ?_⟩
    · exact Nat.lt_of_le_of_lt (le_of_mem_chain (List.mem_reverse.mp member)) there
    · rw [List.getLast?_reverse, built.head?_chain]
    · rw [leadsTo, List.contains_iff_mem, List.mem_reverse]
    · rw [innermostRef, List.filterMap_reverse]
  down place _ := built.walk_down place
  descendants place _ := by
    refine ⟨(built.descendants_increasing place).imp Nat.ne_of_lt, fun other => ?_⟩
    rw [← built.mem_descendants_iff_chain]
    exact ⟨fun member => ⟨built.lt_size_of_mem_descendants member, member⟩, And.right⟩
  overlaps _ _ _ _ := built.overlaps_iff

/-- Two lines whose places were named in turns, with one target named again. -/
def twoLines : Arena :=
  let slots := ((addLocal {} "r" none false false).1.addLocal "s" none true true).1
  let first := (((slots.target 0 .sharedRef none).1.target 1 .mutRef none).1.target 2 .box none).1
  ((first.target 0 .mutRef none).1.target 3 .box none).1

theorem twoLines_built : twoLines.Built :=
  have slots := (Built.empty.addLocal "r" none false false).addLocal "s" none true true
  have targets := (slots.target (show 0 < _ by decide) .sharedRef none).target
    (show 1 < _ by decide) .mutRef none
  ((targets.target (show 2 < _ by decide) .box none).target (show 0 < _ by decide) .mutRef none).target
    (show 3 < _ by decide) .box none

theorem inLines_twoLines :
    twoLines.Built ∧ twoLines.InLines ∧ twoLines.chain 4 = [0, 2, 4] ∧
      twoLines.descendants 1 = [3, 5] ∧ twoLines.overlaps 4 5 = false :=
  ⟨twoLines_built, twoLines_built.inLines, by decide +kernel, by decide +kernel, by decide +kernel⟩

end BorrowLang.Arena
