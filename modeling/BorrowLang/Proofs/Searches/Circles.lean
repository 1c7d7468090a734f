import BorrowLang.Proofs.Referents
import Mathlib.Data.Finset.Card
import Mathlib.Data.Nat.SuccPred
import Mathlib.Logic.Relation
import Mathlib.Order.SuccPred.Relation

/-!
# Searches that come to an end

Which bindings a place behind a reference may be the storage of is searched along borrows, and the
search keeps no account of where it has been.  It ends just when no place on its way is come to again
from itself; and then it follows no more borrows one after another than there are places.
-/

set_option autoImplicit false

namespace BorrowLang.Checker

variable {s : State}

/-! ### Searches without a bound -/

mutual

/-- The search for the bindings whose storage a place may be comes to an end, with these bindings,
or with none when the storage may be a caller's. -/
inductive Found (s : State) : PlaceId → Option (List PlaceId) → Prop
  | known {place : PlaceId} {bindings : Option (List PlaceId)}
      (lead : s.lead place = .known bindings) : Found s place bindings
  | among {place : PlaceId} {targets : List PlaceId} {bindings : Option (List PlaceId)}
      (lead : s.lead place = .among targets) (found : FoundAll s targets bindings) :
      Found s place bindings

/-- The searches for places one after another come to an end; the first one that finds that the
storage may be a caller's is the last. -/
inductive FoundAll (s : State) : List PlaceId → Option (List PlaceId) → Prop
  | nil : FoundAll s [] (some [])
  | caller {place : PlaceId} {rest : List PlaceId} (first : Found s place none) :
      FoundAll s (place :: rest) none
  | cons {place : PlaceId} {rest first : List PlaceId} {others : Option (List PlaceId)}
      (isFirst : Found s place (some first)) (areOthers : FoundAll s rest others) :
      FoundAll s (place :: rest)
        (others.map fun ids => first ++ ids.filter fun id => !first.contains id)

end

mutual

theorem Found.unique {place : PlaceId} {one other : Option (List PlaceId)} :
    Found s place one → Found s place other → one = other
  | .known lead, second => by
      cases second with
      | known lead' => exact Lead.known.inj (lead.symm.trans lead')
      | among lead' => cases lead.symm.trans lead'
  | .among lead found, second => by
      cases second with
      | known lead' => cases lead.symm.trans lead'
      | among lead' found' =>
          obtain rfl := Lead.among.inj (lead.symm.trans lead')
          exact found.unique found'

theorem FoundAll.unique {places : List PlaceId} {one other : Option (List PlaceId)} :
    FoundAll s places one → FoundAll s places other → one = other
  | .nil, second => by
      cases second
      rfl
  | .caller first, second => by
      cases second with
      | caller => rfl
      | cons isFirst => cases first.unique isFirst
  | .cons isFirst areOthers, second => by
      cases second with
      | caller first => cases isFirst.unique first
      | cons isFirst' areOthers' =>
          obtain rfl := Option.some.inj (isFirst.unique isFirst')
          rw [areOthers.unique areOthers']

end

/-! ### Ways of a search -/

/-- The search for what a place may be the storage of gets to a search for another place: those for
the places in front of it end, and not in the storage of a caller. -/
def State.Next (s : State) (place next : PlaceId) : Prop :=
  ∃ before after, s.lead place = .among (before ++ next :: after) ∧
    ∀ target ∈ before, ∃ bindings, Found s target (some bindings)

/-- The search for what a place may be the storage of comes to a place, and from that to it again. -/
def State.Circles (s : State) (place : PlaceId) : Prop :=
  ∃ again, Relation.ReflTransGen s.Next place again ∧ Relation.TransGen s.Next again again

mutual

/-- From a place whose search ends, no way goes on forever. -/
theorem Found.acc {place : PlaceId} {bindings : Option (List PlaceId)} :
    Found s place bindings → Acc (Function.swap s.Next) place
  | .known lead => by
      refine ⟨place, fun next step => ?_⟩
      obtain ⟨before, after, lead', -⟩ := step
      cases lead.symm.trans lead'
  | .among lead found => by
      refine ⟨place, fun next step => ?_⟩
      obtain ⟨before, after, lead', ended⟩ := step
      exact found.acc (Lead.among.inj (lead.symm.trans lead')) ended

theorem FoundAll.acc {places before after : List PlaceId} {next : PlaceId}
    {bindings : Option (List PlaceId)} : FoundAll s places bindings →
      places = before ++ next :: after →
      (∀ target ∈ before, ∃ bindings, Found s target (some bindings)) →
      Acc (Function.swap s.Next) next
  | .nil, split, _ => by simp at split
  | .caller first, split, ended => by
      cases before with
      | nil =>
          obtain rfl := (List.cons.inj split).1
          exact first.acc
      | cons target before =>
          obtain rfl := (List.cons.inj split).1
          obtain ⟨bindings, isFound⟩ := ended _ List.mem_cons_self
          cases first.unique isFound
  | .cons isFirst areOthers, split, ended => by
      cases before with
      | nil =>
          obtain rfl := (List.cons.inj split).1
          exact isFirst.acc
      | cons target before =>
          exact areOthers.acc (List.cons.inj split).2
            fun other member => ended other (List.mem_cons_of_mem _ member)

end

theorem Found.not_circles {place : PlaceId} {bindings : Option (List PlaceId)}
    (found : Found s place bindings) : ¬ s.Circles place := by
  rintro ⟨again, way, around⟩
  have here : Acc (Function.swap s.Next) again := by
    clear around
    induction way with
    | refl => exact found.acc
    | tail _ step ih => exact ih.inv step
  have onward : Acc (Relation.TransGen (Function.swap s.Next)) again := here.transGen
  have backward : Relation.TransGen (Function.swap s.Next) again again :=
    Relation.transGen_swap.mpr around
  clear here around way
  induction onward with
  | intro again _ ih => exact ih again backward backward

/-! ### The bound -/

/-- A place from which a search goes on is behind a reference, so it has been named. -/
theorem State.lt_size_of_among {place : PlaceId} {targets : List PlaceId}
    (lead : s.lead place = .among targets) : place < s.arena.size := by
  refine Decidable.byContradiction fun beyond => ?_
  have unnamed : s.arena.place? place = none :=
    Array.getElem?_eq_none (Nat.le_of_not_lt beyond)
  have behind := State.isSome_of_among lead
  simp [Arena.innermostRef, Arena.chain, Arena.parent?, Arena.via?, unnamed] at behind

theorem unionReferents_error {f : PlaceId → Except Fault (Option (List PlaceId))}
    {places : List PlaceId} {fault : Fault} (failed : unionReferents f places = .error fault) :
    ∃ before place after, places = before ++ place :: after ∧ f place = .error fault ∧
      ∀ target ∈ before, ∃ bindings, f target = .ok (some bindings) := by
  induction places with
  | nil => cases failed
  | cons place rest ih =>
      rw [unionReferents] at failed
      split at failed
      · rename_i first isFirst
        have later : unionReferents f rest = .error fault := by
          cases others : unionReferents f rest with
          | error => simpa [others, Except.map] using failed
          | ok => simp [others, Except.map] at failed
        obtain ⟨before, target, after, rfl, targetFails, ended⟩ := ih later
        refine ⟨place :: before, target, after, rfl, targetFails, fun other member => ?_⟩
        rcases List.mem_cons.mp member with rfl | inBefore
        · exact ⟨first, isFirst⟩
        · exact ended other inBefore
      · refine ⟨[], place, rest, rfl, failed, fun target inNone => ?_⟩
        simp at inNone

theorem referents_error {fuel : Nat} {place : PlaceId} {fault : Fault}
    (failed : referents s fuel place = .error fault) : fault = .endless := by
  induction fuel generalizing place with
  | zero =>
      rw [referents] at failed
      split at failed <;> cases failed
      rfl
  | succ fuel ih =>
      rw [referents] at failed
      split at failed
      · cases failed
      · obtain ⟨_, target, _, _, targetFails, _⟩ := unionReferents_error failed
        exact ih targetFails

theorem FoundAll.of_union {f : PlaceId → Except Fault (Option (List PlaceId))}
    (each : ∀ place bindings, f place = .ok bindings → Found s place bindings)
    {places : List PlaceId} {bindings : Option (List PlaceId)}
    (found : unionReferents f places = .ok bindings) : FoundAll s places bindings := by
  induction places generalizing bindings with
  | nil =>
      obtain rfl := Except.ok.inj found
      exact .nil
  | cons place rest ih =>
      rw [unionReferents] at found
      cases isFirst : f place with
      | error => simp [isFirst] at found
      | ok answer =>
          cases answer with
          | none =>
              obtain rfl : none = bindings := by simpa [isFirst] using found
              exact .caller (each place none isFirst)
          | some first =>
              cases areOthers : unionReferents f rest with
              | error => simp [isFirst, areOthers, Except.map] at found
              | ok others =>
                  simp only [isFirst, areOthers, Except.map, Except.ok.injEq] at found
                  rw [← found]
                  exact .cons (each place _ isFirst) (ih areOthers)

/-- What is found with a bound is found without one. -/
theorem Found.of_referents {fuel : Nat} {place : PlaceId} {bindings : Option (List PlaceId)}
    (found : referents s fuel place = .ok bindings) : Found s place bindings := by
  induction fuel generalizing place bindings with
  | zero =>
      rw [referents] at found
      split at found
      · rename_i lead
        obtain rfl := Except.ok.inj found
        exact .known lead
      · cases found
  | succ fuel ih =>
      rw [referents] at found
      split at found
      · rename_i lead
        obtain rfl := Except.ok.inj found
        exact .known lead
      · rename_i targets lead
        exact .among lead (.of_union (fun _ _ => ih) found)

/-- A search that runs out of its bound has followed a way as long as the bound. -/
theorem exists_way {fuel : Nat} {place : PlaceId}
    (endless : referents s fuel place = .error .endless) :
    ∃ way : Nat → PlaceId, way 0 = place ∧ (∀ i < fuel, s.Next (way i) (way (i + 1))) ∧
      ∀ i ≤ fuel, way i < s.arena.size := by
  induction fuel generalizing place with
  | zero =>
      rw [referents] at endless
      split at endless
      · cases endless
      · rename_i targets lead
        refine ⟨fun _ => place, rfl, fun i below => absurd below (Nat.not_lt_zero i), fun i _ => ?_⟩
        exact State.lt_size_of_among lead
  | succ fuel ih =>
      rw [referents] at endless
      split at endless
      · cases endless
      · rename_i targets lead
        obtain ⟨before, next, after, rfl, nextEndless, ended⟩ := unionReferents_error endless
        obtain ⟨way, rfl, steps, bounded⟩ := ih nextEndless
        have first : s.Next place (way 0) :=
          ⟨before, after, lead, fun target member =>
            (ended target member).imp fun _ found => .of_referents found⟩
        refine ⟨fun i => Nat.casesOn i place way, rfl, fun i below => ?_, fun i below => ?_⟩
        · cases i with
          | zero => exact first
          | succ i => exact steps i (Nat.lt_of_succ_lt_succ below)
        · cases i with
          | zero => exact State.lt_size_of_among lead
          | succ i => exact bounded i (Nat.le_of_succ_le_succ below)

/-- A way on which a place stands twice circles. -/
theorem circles_of_same {way : Nat → PlaceId} {length i j : Nat}
    (steps : ∀ k < length, s.Next (way k) (way (k + 1))) (before : i < j) (last : j ≤ length)
    (same : way i = way j) : s.Circles (way 0) := by
  have there : ∀ k ∈ Set.Ico 0 i, s.Next (way k) (way (k + 1)) := fun k inside =>
    steps k (Nat.lt_of_lt_of_le (Nat.lt_trans inside.2 before) last)
  have onward : ∀ k ∈ Set.Ico i j, s.Next (way k) (way (k + 1)) := fun k inside =>
    steps k (Nat.lt_of_lt_of_le inside.2 last)
  have reached : Relation.ReflTransGen s.Next (way 0) (way i) :=
    (reflTransGen_of_succ_of_le (fun a b => s.Next (way a) (way b)) there (Nat.zero_le i)).lift way
      fun _ _ step => step
  have circle : Relation.TransGen s.Next (way i) (way j) :=
    (transGen_of_succ_of_lt (fun a b => s.Next (way a) (way b)) onward before).lift way
      fun _ _ step => step
  exact ⟨way i, reached, by rwa [← same] at circle⟩

/-- A way with more places than there are comes to one of them again. -/
theorem circles_of_endless {place : PlaceId} (endless : s.referents place = .error .endless) :
    s.Circles place := by
  obtain ⟨way, rfl, steps, bounded⟩ := exists_way endless
  have more : (Finset.range s.arena.size).card < (Finset.range (s.arena.size + 1)).card := by simp
  have within : Set.MapsTo way (Finset.range (s.arena.size + 1)) (Finset.range s.arena.size) := by
    intro i member
    simp only [Finset.coe_range, Set.mem_Iio] at member ⊢
    exact bounded i (Nat.le_of_lt_succ member)
  obtain ⟨i, inFirst, j, inLast, differ, same⟩ :=
    Finset.exists_ne_map_eq_of_card_lt_of_maps_to more within
  rcases Nat.lt_or_gt_of_ne differ with before | before
  · exact circles_of_same steps before (Nat.le_of_lt_succ (Finset.mem_range.mp inLast)) same
  · exact circles_of_same steps before (Nat.le_of_lt_succ (Finset.mem_range.mp inFirst)) same.symm

/-- A search circles only where a reference leads to another one. -/
theorem State.Circles.nested {place : PlaceId} (circles : s.Circles place) :
    ∃ target, (s.arena.innermostRef target).isSome ∧
      ((s.arena.ty? target).map Ty.hasRef).getD false = true := by
  obtain ⟨again, -, around⟩ := circles
  obtain ⟨_, ⟨_, _, onward, -⟩, -⟩ := Relation.TransGen.head'_iff.mp around
  obtain ⟨last, -, _, _, lead, -⟩ := Relation.TransGen.tail'_iff.mp around
  exact ⟨again, State.isSome_of_among onward,
    (State.lead_among lead (by simp)).2⟩

theorem endless_iff_circles {place : PlaceId} :
    s.referents place = .error .endless ↔ s.Circles place := by
  refine ⟨circles_of_endless, fun circles => ?_⟩
  cases answer : s.referents place with
  | error fault => rw [referents_error answer]
  | ok bindings => exact absurd circles (Found.of_referents answer).not_circles

theorem found_iff_referents {place : PlaceId} {bindings : Option (List PlaceId)} :
    Found s place bindings ↔ s.referents place = .ok bindings := by
  refine ⟨fun found => ?_, Found.of_referents⟩
  cases answer : s.referents place with
  | error fault =>
      rw [referents_error answer] at answer
      exact absurd (circles_of_endless answer) found.not_circles
  | ok other => rw [(Found.of_referents answer).unique found]

end BorrowLang.Checker
