import BorrowLang.Proofs.Moves.Mirrors

/-!
# Steps of a check and move states

What the steps of a check ask of move states and do to them, and that nothing else is at fault but
borrows.
-/

set_option autoImplicit false

namespace BorrowLang

/-! ### Capabilities -/

namespace Tracker

variable {t : Tracker} {arena : Arena} {place : PlaceId} {v : Violation}

theorem requireNone_fault {records : List BorrowRecord} {rule? : BorrowRecord → Option Rule}
    (kinds : ∀ record rule, rule? record = some rule → rule.kind ∈ DiagnosticKind.ofBorrows)
    (refused : requireNone records place rule? = .error v) :
    v.rule.kind ∈ DiagnosticKind.ofBorrows := by
  unfold requireNone at refused
  split at refused
  · rename_i record rule found
    obtain ⟨known, -, isKnown⟩ := List.exists_of_findSome?_eq_some found
    obtain ⟨_, isRule, same⟩ := Option.map_eq_some_iff.mp isKnown
    obtain ⟨rfl, rfl⟩ := Prod.mk.inj same
    cases refused
    exact kinds known _ isRule
  · cases refused

/-- What a capability asks for of an available place is about borrows. -/
theorem Available.require_bind (available : t.Available arena place) (rule : Rule)
    (rest : Except Violation Unit) :
    (do
      t.requireInitialized arena place
      t.requireUnmoved arena place rule
      rest) = rest := by
  rw [requireInitialized_eq_ok.mpr available.initialized,
    requireUnmoved_eq_ok.mpr available.unmoved]
  rfl

theorem canRead_fault (available : t.Available arena place)
    (refused : t.canRead arena place = .error v) : v.rule.kind ∈ DiagnosticKind.ofBorrows := by
  rw [canRead, available.require_bind] at refused
  refine requireNone_fault (fun record rule => ?_) refused
  split
  · rintro ⟨⟩
    decide
  · exact nofun

theorem canMove_fault (available : t.Available arena place)
    (owned : arena.innermostRef place = none) (refused : t.canMove arena place = .error v) :
    v.rule.kind ∈ DiagnosticKind.ofBorrows := by
  rw [canMove, available.require_bind, owned] at refused
  refine requireNone_fault (fun record rule => ?_) refused
  rintro ⟨⟩
  decide

theorem checkBorrow_fault {kind : BorrowKind} (available : t.Available arena place)
    (refused : t.checkBorrow arena place kind = .error v) :
    v.rule.kind ∈ DiagnosticKind.ofBorrows := by
  rw [checkBorrow, available.require_bind] at refused
  refine requireNone_fault (fun record rule => ?_) refused
  cases kind <;> cases record.kind <;> rintro ⟨⟩ <;> decide

theorem canWrite_fault
    (owners : t.requireOwners place (arena.chain place).dropLast = .ok ())
    (declared : (arena.chain place).length = 1 ∧ t.states[place]? = some .uninit ∨
      checkMutable arena place false = .ok ())
    (refused : t.canWrite arena place = .error v) : v.rule.kind ∈ DiagnosticKind.ofBorrows := by
  unfold canWrite at refused
  simp only [owners] at refused
  have borrowed : requireNone (t.borrowsOn arena place) place (fun _ => some .assignBorrowed) =
      .error v := by
    split at refused
    · exact refused
    · rename_i notFirst
      rw [declared.resolve_left notFirst] at refused
      exact refused
  refine requireNone_fault (fun record rule => ?_) borrowed
  rintro ⟨⟩
  decide

theorem shareEach_states (holder : PlaceId) (pinned : Bool) (ids : List BorrowId) (t : Tracker)
    (next : BorrowId) : (shareEach holder pinned ids t next).1.states = t.states := by
  induction ids generalizing t next with
  | nil => rfl
  | cons id rest ih =>
      rw [shareEach]
      split
      · exact ih t next
      · rename_i shared isShared
        obtain ⟨record, -, rfl⟩ := Option.map_eq_some_iff.mp isShared
        exact ih _ _

end Tracker

namespace Checker

open Moves

variable {α β : Type} {ctx : Context} {s mid after : State} {spot : Spot} {place : PlaceId}

/-! ### Checks about borrows only -/

/-- What only changes borrows may follow on what has done so. -/
theorem Stays.onward {x : Check α} (still : Still s mid) (next : Stays x mid) :
    Meets x mid (fun _ after => Still s after) fun fault _ => fault.OfBorrow :=
  Meets.onOk next fun _ _ => still.trans

theorem modifyTracker_stays {f : Tracker → Tracker}
    (states : (f s.tracker).states = s.tracker.states) :
    Stays (modifyTracker f) s := by
  simp only [Stays, modifyTracker, meets_modify]
  exact ⟨⟨rfl, rfl⟩, states⟩

theorem storeLoans_stays (holder : PlaceId) (loans : List BorrowId) :
    Stays (storeLoans ctx holder loans) s := by
  simp only [Stays, storeLoans, meets_modify]
  exact ⟨⟨rfl, rfl⟩, rfl⟩

theorem checkEscape_stays (loans : List BorrowId) (loc : Option Position) (stored : Bool) :
    Stays (checkEscape ctx loans loc stored) s := by
  simp only [Stays, checkEscape, meets_bind, meets_get]
  split
  · exact .refl s
  · rw [meets_throw]
    simp only [Fault.OfBorrow, Violation.report, Violation.diagnose]
    split
    · decide
    · split <;> decide

theorem shareWith_stays (loans : List BorrowId) (holders : List PlaceId) :
    Stays (shareWith ctx loans holders) s := by
  induction holders generalizing s with
  | nil => exact .refl s
  | cons holder rest ih =>
      simp only [Stays, shareWith, meets_bind, meets_get, meets_set]
      refine Stays.onward ?_ ih
      exact ⟨⟨rfl, rfl⟩, Tracker.shareEach_states _ _ _ _ _⟩

theorem unionReferents_endless {referents : PlaceId → Except Fault (Option (List PlaceId))}
    (each : ∀ place fault, referents place = .error fault → fault = .endless)
    {places : List PlaceId} {fault : Fault}
    (fails : unionReferents referents places = .error fault) :
    fault = .endless := by
  induction places with
  | nil => cases fails
  | cons place rest ih =>
      rw [unionReferents] at fails
      split at fails
      · cases later : unionReferents referents rest with
        | ok found =>
            rw [later] at fails
            cases fails
        | error other =>
            rw [later] at fails
            cases fails
            exact ih later
      · exact each place fault fails

theorem referents_endless {fuel : Nat} {fault : Fault}
    (fails : referents s fuel place = .error fault) : fault = .endless := by
  induction fuel generalizing place fault with
  | zero =>
      rw [referents] at fails
      split at fails <;> cases fails
      rfl
  | succ fuel ih =>
      rw [referents] at fails
      split at fails
      · cases fails
      · exact unionReferents_endless (fun _ _ => ih) fails

theorem storeInto_stays (places : List PlaceId) (loans : List BorrowId) (loc : Option Position) :
    Stays (storeInto ctx places loans loc) s := by
  simp only [Stays, storeInto, meets_bind, meets_get]
  split
  · rename_i fault fails
    rw [meets_throw, unionReferents_endless (fun _ _ => referents_endless) fails]
    trivial
  · simp only [meets_bind, meets_pure]
    exact checkEscape_stays loans loc true
  · simp only [meets_bind, meets_pure]
    exact shareWith_stays loans _

theorem storeArguments_stays (loans : List (List BorrowId))
    (slots : List (Nat × Ty × Option Position)) : Stays (storeArguments ctx loans slots) s := by
  induction slots generalizing s with
  | nil => exact .refl s
  | cons slot rest ih =>
      obtain ⟨index, param, loc⟩ := slot
      simp only [Stays, storeArguments]
      split
      · split
        · simp only [meets_bind, meets_get]
          split
          · simp only [meets_bind]
            exact Meets.onOk (storeInto_stays _ _ _) fun _ mid still => Stays.onward still ih
          · exact ih
        · exact ih
      · exact ih

theorem endStatement_stays : Stays (endStatement ctx) s := by
  simp only [Stays, endStatement_eq, meets_bind]
  refine Meets.onOk (modifyTracker_stays (s := s) (f := (·.endTemporaries [])) rfl)
    fun _ mid still => ?_
  split
  · simp only [releaseUnused, meets_bind, meets_get, meets_set]
    have released : Still s { mid with
        tracker := (mid.tracker.releaseDead mid.arena mid.isLive).1 } :=
      ⟨⟨still.arena, still.scopes⟩, still.states⟩
    split
    · simp only [note, meets_modify]
      exact ⟨⟨released.arena, released.scopes⟩, released.states⟩
    · exact released
  · exact still

/-! ### Answers -/

theorem guard_mirrors {answer : Except Violation α} {holds : Outline → Prop} (outlined : s.Outlined)
    (loc : Option Position) (granted : ∀ a, answer = .ok a → holds s.outline)
    (refused : ∀ v, answer = .error v → holds s.outline →
      v.rule.kind ∈ DiagnosticKind.ofBorrows) :
    Mirrors (guard ctx loc answer) (Bare.ensure holds)
      (fun a _ after => after = s ∧ answer = .ok a) s := by
  cases answer with
  | ok a =>
      refine ⟨(), ?_, ⟨rfl, rfl⟩, outlined⟩
      rw [Bare.ensure, if_pos (granted a rfl)]
  | error v =>
      simp only [guard, Mirrors, meets_bind, meets_get, meets_throw]
      by_cases known : holds s.outline
      · exact Or.inl (refused v rfl known)
      · exact Or.inr (by rw [Bare.ensure, if_neg known])

theorem requireRead_mirrors (outlined : s.Outlined) (stands : s.At spot place)
    (loc : Option Position) : Mirrors (requireRead ctx loc place)
      (Bare.ensure (·.Whole spot.level)) (fun _ _ after => after = s) s := by
  have asked : Mirrors (guard ctx loc (s.tracker.canRead s.arena place))
      (Bare.ensure (·.Whole spot.level)) _ s := guard_mirrors outlined loc
    (fun _ granted => (stands.whole_iff outlined).mpr (Tracker.canRead_eq_ok.mp granted).1)
    (fun _ refused whole => Tracker.canRead_fault ((stands.whole_iff outlined).mp whole) refused)
  simpa only [requireRead, Mirrors, meets_bind, meets_get] using
    asked.mono fun _ _ _ known => known.1

theorem checkBorrow_mirrors (outlined : s.Outlined) (stands : s.At spot place)
    (loc : Option Position) (kind : BorrowKind) :
    Mirrors (guard ctx loc (s.tracker.checkBorrow s.arena place kind))
      (Bare.ensure (·.Whole spot.level)) (fun _ _ after => after = s) s :=
  (guard_mirrors outlined loc
    (fun _ granted => (stands.whole_iff outlined).mpr (Tracker.checkBorrow_eq_ok.mp granted).1)
    (fun _ refused whole =>
      Tracker.checkBorrow_fault ((stands.whole_iff outlined).mp whole) refused)).mono
    fun _ _ _ known => known.1

theorem checkMutable_mirrors (outlined : s.Outlined) (stands : s.At spot place)
    (loc : Option Position) (toBorrow : Bool) :
    Mirrors (guard ctx loc (Tracker.checkMutable s.arena place toBorrow))
      (Bare.ensure (·.Mutable spot)) (fun _ _ after => after = s) s :=
  (guard_mirrors outlined loc (fun _ granted => (stands.mutable_iff outlined toBorrow).mpr granted)
    (fun _ refused allowed => by
      rw [(stands.mutable_iff outlined toBorrow).mp allowed] at refused
      cases refused)).mono fun _ _ _ known => known.1

/-- A check that goes on unless a condition is broken. -/
theorem Mirrors.unless {x refused : Check α} {y : Bare β} {same : α → β → State → Prop}
    {holds broken : Prop} [Decidable broken] (either : broken ↔ ¬holds)
    (never : Passes refused s fun _ _ => False) (next : holds → Mirrors x y same s) :
    Mirrors (if broken then refused else x) (do
      Bare.ensure fun _ => holds
      y) same s := by
  by_cases known : holds
  · have goesOn : (do
        Bare.ensure fun _ => holds
        y) s.outline = y s.outline := by
      change (Bare.ensure _ s.outline).bind _ = _
      rw [Bare.ensure, if_pos known, Option.bind_some]
    rw [if_neg fun isBroken => either.mp isBroken known, Mirrors, goesOn]
    exact next known
  · refine .of_refuses ?_ ?_
    · change (Bare.ensure _ s.outline).bind _ = _
      rw [Bare.ensure, if_neg known, Option.bind_none]
    · rw [if_pos (either.mpr known)]
      exact never

/-- Two checks that have nothing to do with the state, with answers that correspond. -/
structure Likewise (f : α → β) (x : Check α) (y : Check β) : Prop where
  fixed : ∀ s, x s = ((x default).1, s)
  alsoFixed : ∀ s, y s = ((y default).1, s)
  same : (y default).1 = (x default).1.map f

namespace Likewise

variable {γ δ : Type} {f : α → β} {x : Check α} {y : Check β}

protected theorem pure (a : α) : Likewise f (pure a) (pure (f a)) :=
  ⟨fun _ => rfl, fun _ => rfl, rfl⟩

protected theorem throw (fault : Fault) : Likewise f (throw fault) (throw fault) :=
  ⟨fun _ => rfl, fun _ => rfl, rfl⟩

protected theorem ite {holds : Prop} [Decidable holds] {x' : Check α} {y' : Check β}
    (first : Likewise f x y) (other : Likewise f x' y') :
    Likewise f (if holds then x else x') (if holds then y else y') := by
  split
  · exact first
  · exact other

protected theorem bind {g : γ → δ} {x' : α → Check γ} {y' : β → Check δ} (first : Likewise f x y)
    (next : ∀ a, Likewise g (x' a) (y' (f a))) : Likewise g (x >>= x') (y >>= y') := by
  refine ⟨fun s => ?_, fun s => ?_, ?_⟩
  · rw [run_bind, run_bind, first.fixed s, first.fixed default]
    cases (x default).1 with
    | ok a => exact (next a).fixed s
    | error fault => rfl
  · rw [run_bind, run_bind, first.alsoFixed s, first.alsoFixed default, first.same]
    cases (x default).1 with
    | ok a => exact (next a).alsoFixed s
    | error fault => rfl
  · rw [run_bind, run_bind, first.fixed default, first.alsoFixed default, first.same]
    cases (x default).1 with
    | ok a => exact (next a).same
    | error fault => rfl

theorem mirrors (likewise : Likewise f x y) (outlined : s.Outlined) :
    Mirrors x (Bare.answer y) (fun a b after => after = s ∧ b = f a) s := by
  unfold Mirrors Meets
  rw [likewise.fixed s]
  simp only [Bare.answer, likewise.same]
  cases (x default).1 with
  | ok a => exact ⟨f a, rfl, ⟨rfl, rfl⟩, outlined⟩
  | error fault => exact Or.inr rfl

end Likewise

end Checker

/-! ### Types in bare checks -/

namespace Moves

variable {β : Type} {o : Outline} {spot : Spot} {next : Ty → Bare β}

theorem typeOf_bind_some {ty : Ty} (known : o.ty? spot = some ty) :
    (typeOf spot >>= next) o = next ty o := by
  change (Option.map _ (o.ty? spot)).bind _ = _
  rw [known]
  rfl

theorem typeOf_bind_none (unknown : o.ty? spot = none) : (typeOf spot >>= next) o = none := by
  change (Option.map _ (o.ty? spot)).bind _ = _
  rw [unknown]
  rfl

end Moves

end BorrowLang
