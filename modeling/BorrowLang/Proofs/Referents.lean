import BorrowLang.Checker.Loans

/-!
# What a reference may point at

The bindings whose storage a place may be are found by following borrows: from a place to the
binding that it belongs to, and from that to the places of the borrows that it holds.
-/

set_option autoImplicit false

namespace BorrowLang.Checker

variable {s : State}

/-- The bindings of some places are those of the first one together with those of the others. -/
theorem unionReferents_cons {f : PlaceId → Except Fault (Option (List PlaceId))} {place : PlaceId}
    {rest all : List PlaceId} (known : unionReferents f (place :: rest) = .ok (some all)) :
    ∃ first others, f place = .ok (some first) ∧ unionReferents f rest = .ok (some others) ∧
      all = first ++ others.filter fun id => !first.contains id := by
  rw [unionReferents] at known
  split at known
  · rename_i first isFirst
    cases later : unionReferents f rest with
    | error => simp [later, Except.map] at known
    | ok found =>
        cases found with
        | none => simp [later, Except.map] at known
        | some others =>
            refine ⟨first, others, isFirst, rfl, ?_⟩
            simpa [later, Except.map] using known.symm
  · rename_i other
    exact absurd known (other all)

/-- Each referent of some places is one of one of them. -/
theorem mem_of_unionReferents {f : PlaceId → Except Fault (Option (List PlaceId))}
    {places all : List PlaceId} (known : unionReferents f places = .ok (some all))
    {holder : PlaceId} (member : holder ∈ all) :
    ∃ place ∈ places, ∃ found, f place = .ok (some found) ∧ holder ∈ found := by
  induction places generalizing all with
  | nil =>
      obtain rfl : [] = all := by simpa [unionReferents] using known
      simp at member
  | cons place rest ih =>
      obtain ⟨first, others, isFirst, areOthers, rfl⟩ := unionReferents_cons known
      rcases List.mem_append.mp member with inFirst | inOthers
      · exact ⟨place, List.mem_cons_self, first, isFirst, inFirst⟩
      · obtain ⟨other, later, found⟩ := ih areOthers (List.mem_filter.mp inOthers).1
        exact ⟨other, List.mem_cons_of_mem _ later, found⟩

/-- A place whose bindings are known lies in its own, unless it is behind a reference. -/
theorem State.lead_known {place : PlaceId} {bindings : List PlaceId}
    (lead : s.lead place = .known (some bindings)) {holder : PlaceId} (member : holder ∈ bindings) :
    s.arena.innermostRef place = none ∧ holder = s.arena.root place := by
  simp only [State.lead] at lead
  split at lead
  · rename_i owned
    simp only [Lead.known.injEq, Option.some.injEq] at lead
    subst lead
    exact ⟨Option.isNone_iff_eq_none.mp owned, List.mem_singleton.mp member⟩
  · split at lead
    · split at lead
      · cases lead
      · obtain rfl : [] = bindings := by simpa using lead
        simp at member
    · cases lead

/-- Only behind a reference is a place looked for in others. -/
theorem State.isSome_of_among {place : PlaceId} {targets : List PlaceId}
    (lead : s.lead place = .among targets) : (s.arena.innermostRef place).isSome := by
  cases owned : s.arena.innermostRef place with
  | none => simp [State.lead, owned] at lead
  | some via => rfl

/-- The places that a place is looked for in are of borrows that its owner holds, and each is of a
type with references. -/
theorem State.lead_among {place target : PlaceId} {targets : List PlaceId}
    (lead : s.lead place = .among targets) (member : target ∈ targets) :
    (∃ record ∈ s.tracker.heldBy (s.arena.root place), record.place = target) ∧
      ((s.arena.ty? target).map Ty.hasRef).getD false = true := by
  simp only [State.lead] at lead
  split at lead
  · cases lead
  · split at lead
    · cases lead
    · obtain rfl := Lead.among.inj lead
      obtain ⟨held, hasRef⟩ := List.mem_filter.mp member
      exact ⟨List.mem_map.mp held, hasRef⟩

/-- What holds of a place and is handed on along borrows holds of the places where following them
ends; the referents are the bindings that these places belong to. -/
theorem root_of_referents {Holds : PlaceId → Prop}
    (onward : ∀ place, Holds place →
      ∀ record ∈ s.tracker.heldBy (s.arena.root place), Holds record.place)
    (fuel : Nat) {place : PlaceId} (here : Holds place) {holders : List PlaceId}
    (known : referents s fuel place = .ok (some holders)) {holder : PlaceId}
    (member : holder ∈ holders) :
    ∃ target, Holds target ∧ s.arena.innermostRef target = none ∧ holder = s.arena.root target := by
  induction fuel generalizing place holders with
  | zero =>
      cases lead : s.lead place with
      | known bindings =>
          simp only [referents, lead, Except.ok.injEq] at known
          subst known
          exact ⟨place, here, State.lead_known lead member⟩
      | among targets => simp [referents, lead] at known
  | succ fuel ih =>
      cases lead : s.lead place with
      | known bindings =>
          simp only [referents, lead, Except.ok.injEq] at known
          subst known
          exact ⟨place, here, State.lead_known lead member⟩
      | among targets =>
          simp only [referents, lead] at known
          obtain ⟨target, isTarget, found, isFound, inFound⟩ := mem_of_unionReferents known member
          obtain ⟨⟨record, inHeld, rfl⟩, -⟩ := State.lead_among lead isTarget
          exact ih (onward place here record inHeld) isFound inFound

end BorrowLang.Checker
