import BorrowLang.Checker.Body
import BorrowLang.Proofs.Meets
import BorrowLang.Proofs.Typing.Arena
import BorrowLang.Proofs.Typing.Rules

/-!
# What checks leave as it was

A check that passes changes places in two ways only: it names new ones, and it gives a binding its
first type.  Loans, names that are mentioned later and notes are beside the types.
-/

set_option autoImplicit false

namespace BorrowLang.Checker

open Typing

variable {α : Type} {ctx : Context} {s mid after : State}

/-- A check passes only as a condition holds. -/
abbrev Passes (x : Check α) (s : State) (ok : α → State → Prop) : Prop :=
  Meets x s ok fun _ _ => True

theorem Passes.mono {x : Check α} {ok ok' : α → State → Prop} (known : Passes x s ok)
    (onOk : ∀ a after, ok a after → ok' a after) : Passes x s ok' :=
  Meets.mono known onOk fun _ _ h => h

def Operand.outcome (value : Operand) : Outcome := if value.diverges then none else some value.ty

theorem Operand.outcome_of_arrives {value : Operand} (arrives : value.diverges = false) :
    value.outcome = some value.ty := by
  simp [outcome, arrives]

/-- A value may stand where its type may, and one that is never come to anywhere. -/
theorem Operand.suits {value : Operand} {expected : Ty}
    (fits : value.diverges = true ∨ value.ty.coercesTo expected = true) :
    value.outcome.Suits (some expected) := by
  intro ty same
  unfold outcome at same
  split at same
  · simp at same
  · rename_i arrives
    obtain rfl := Option.some.inj same
    exact ⟨expected, rfl, fits.resolve_left arrives⟩

theorem Operand.suits_ty (value : Operand) : value.outcome.Suits (some value.ty) :=
  suits (Or.inr (Ty.coercesTo_refl _))

theorem Operand.suits_unit {value : Operand} (unit : value.diverges = true ∨ value.ty = .unit) :
    value.outcome.Suits (some .unit) := by
  refine suits (unit.imp_right fun same => ?_)
  rw [same]
  rfl

/-! ### Places and scopes -/

/-- Neither places nor scopes have changed. -/
structure Aside (s after : State) : Prop where
  arena : after.arena = s.arena
  scopes : after.scopes = s.scopes

theorem Aside.refl (s : State) : Aside s s := ⟨rfl, rfl⟩

theorem Aside.trans (first : Aside s mid) (second : Aside mid after) : Aside s after :=
  ⟨second.arena.trans first.arena, second.scopes.trans first.scopes⟩

/-- Targets have the types of what points at them, and bindings have places. -/
structure State.Sound (s : State) : Prop where
  arena : s.arena.Sound
  bound : ∀ scope ∈ s.scopes, ∀ binding ∈ scope, binding.2 < s.arena.size

/-- More places are known than before, in the same scopes. -/
structure Grown (s after : State) : Prop where
  sound : after.Sound
  known : s.arena.Extends after.arena
  scopes : after.scopes = s.scopes

theorem Grown.trans (first : Grown s mid) (second : Grown mid after) : Grown s after :=
  ⟨second.sound, first.known.trans second.known, second.scopes.trans first.scopes⟩

theorem State.Sound.grown (sound : s.Sound) (arena : after.arena.Sound)
    (known : s.arena.Extends after.arena) (scopes : after.scopes = s.scopes) : Grown s after := by
  refine ⟨⟨arena, ?_⟩, known, scopes⟩
  rw [scopes]
  exact fun scope member binding inScope =>
    Nat.lt_of_lt_of_le (sound.bound scope member binding inScope) known.size

theorem Aside.grown (aside : Aside s after) (sound : s.Sound) : Grown s after :=
  sound.grown (aside.arena ▸ sound.arena) (aside.arena ▸ .refl _) aside.scopes

theorem Grown.aside (grown : Grown s mid) (aside : Aside mid after) : Grown s after :=
  grown.trans (aside.grown grown.sound)

/-- The types of bindings, as far as they are known; the others do not matter. -/
def envOf (arena : Arena) (scopes : List (List (String × PlaceId))) : Env :=
  scopes.map fun scope => scope.map fun binding => (binding.1, (arena.ty? binding.2).getD .unit)

theorem type?_envOf (arena : Arena) (scopes : List (List (String × PlaceId))) (name : String) :
    (envOf arena scopes).type? name =
      (lookup? scopes name).map fun place => (arena.ty? place).getD .unit := by
  induction scopes with
  | nil => rfl
  | cons scope rest ih =>
      have first : (scope.map fun binding => (binding.1, (arena.ty? binding.2).getD .unit)).find?
          (·.1 = name) = (scope.find? (·.1 = name)).map
            fun binding => (binding.1, (arena.ty? binding.2).getD .unit) := by
        rw [List.find?_map]
        rfl
      simp only [envOf, Env.type?, lookup?, List.map_cons, List.findSome?_cons] at ih ⊢
      rw [first]
      cases scope.find? (·.1 = name) with
      | some binding => rfl
      | none => exact ih

/-- A part of a body has been checked: it is typed in every environment of types that may become
known later. -/
structure Checked (s after : State) (holds : Env → Prop) : Prop extends Grown s after where
  typed : ∀ arena, after.arena.Extends arena → holds (envOf arena s.scopes)

theorem Checked.grow {holds : Env → Prop} (checked : Checked s mid holds) (grown : Grown mid after) :
    Checked s after holds :=
  ⟨checked.toGrown.trans grown, fun arena later => checked.typed arena (grown.known.trans later)⟩

/-- What holds of an environment carries over to a state before with the same scopes. -/
theorem Checked.since {holds : Env → Prop} (grown : Grown s mid) (checked : Checked mid after holds) :
    Checked s after holds :=
  ⟨grown.trans checked.toGrown, fun arena later => grown.scopes ▸ checked.typed arena later⟩

/-! ### Checks beside the types -/

theorem guard_passes (loc : Option Position) (answer : Except Violation α) :
    Passes (guard ctx loc answer) s fun _ after => after = s := by
  cases answer with
  | ok a => rfl
  | error violation => simp [guard]

theorem requireRead_passes (loc : Option Position) (place : PlaceId) :
    Passes (requireRead ctx loc place) s fun _ after => after = s := by
  simpa only [requireRead, meets_bind, meets_get] using guard_passes loc _

theorem borrow_passes (loc : Option Position) (place : PlaceId) (kind : BorrowKind) :
    Passes (borrow ctx loc place kind) s fun _ after => Aside s after := by
  simp only [borrow, meets_bind, meets_get, meets_set, meets_pure]
  refine (guard_passes loc _).mono ?_
  rintro tracker after rfl
  exact ⟨rfl, rfl⟩

theorem checkEscape_passes (loans : List BorrowId) (loc : Option Position) (stored : Bool) :
    Passes (checkEscape ctx loans loc stored) s fun _ after => after = s := by
  simp only [checkEscape, meets_bind, meets_get]
  split <;> simp

theorem shareWith_passes (loans : List BorrowId) (holders : List PlaceId) :
    Passes (shareWith ctx loans holders) s fun _ after => Aside s after := by
  induction holders generalizing s with
  | nil => exact .refl s
  | cons holder rest ih =>
      simp only [shareWith, meets_bind, meets_get, meets_set]
      exact ih.mono fun _ after aside => ⟨aside.arena, aside.scopes⟩

theorem storeInto_passes (places : List PlaceId) (loans : List BorrowId) (loc : Option Position) :
    Passes (storeInto ctx places loans loc) s fun _ after => Aside s after := by
  simp only [storeInto, meets_bind, meets_get]
  split
  · trivial
  · simp only [meets_bind, meets_pure]
    refine (checkEscape_passes loans loc true).mono ?_
    rintro - after rfl
    exact .refl _
  · simp only [meets_bind, meets_pure]
    exact shareWith_passes loans _

theorem storeLoans_passes (holder : PlaceId) (loans : List BorrowId) :
    Passes (storeLoans ctx holder loans) s fun _ after => Aside s after := by
  simp only [storeLoans, meets_modify]
  exact ⟨rfl, rfl⟩

theorem modifyTracker_passes (f : Tracker → Tracker) :
    Passes (modifyTracker f) s fun _ after => Aside s after := by
  simp only [modifyTracker, meets_modify]
  exact ⟨rfl, rfl⟩

theorem storeArguments_passes (loans : List (List BorrowId))
    (slots : List (Nat × Ty × Option Position)) :
    Passes (storeArguments ctx loans slots) s fun _ after => Aside s after := by
  induction slots generalizing s with
  | nil => exact .refl s
  | cons slot rest ih =>
      obtain ⟨index, param, loc⟩ := slot
      have next : ∀ mid, Aside s mid →
          Passes (storeArguments ctx loans rest) mid fun _ after => Aside s after :=
        fun mid first => ih.mono fun _ after second => first.trans second
      simp only [storeArguments]
      split
      · split
        · simp only [meets_bind, meets_get]
          split
          · simp only [meets_bind]
            exact (storeInto_passes _ _ _).mono fun _ mid first => next mid first
          · exact next s (.refl s)
        · exact next s (.refl s)
      · exact next s (.refl s)

theorem endStatement_passes : Passes (endStatement ctx) s fun _ after => Aside s after := by
  simp only [endStatement, meets_bind]
  refine (modifyTracker_passes _).mono fun _ mid first => ?_
  split
  · simp only [meets_bind, meets_get, meets_set]
    split
    · simp only [note, meets_modify]
      exact ⟨first.arena, first.scopes⟩
    · exact ⟨first.arena, first.scopes⟩
  · exact first

theorem endBlock_passes (loc : Option Position) (keep : List BorrowId) :
    Passes (endBlock ctx loc keep) s fun _ after =>
      after.arena = s.arena ∧ after.scopes = s.scopes.drop 1 := by
  simp only [endBlock, meets_bind]
  refine (modifyTracker_passes _).mono fun _ mid first => ?_
  -- Whether or not borrows end here, the scope is left in the same way.
  split <;> simp only [meets_bind, meets_modify, meets_get, meets_set] <;> split
  all_goals first | exact ⟨first.arena, by rw [first.scopes]⟩ | trivial

theorem expect_passes (expected : Ty) (value : Operand) (loc : Option Position) :
    Passes (expect ctx expected value loc) s fun _ after =>
      after = s ∧ value.outcome.Suits (some expected) := by
  unfold expect
  split
  · rename_i fits
    exact ⟨rfl, Operand.suits ((Bool.or_eq_true _ _).mp fits)⟩
  · trivial

theorem typeOf_passes (loc : Option Position) (place : PlaceId) :
    Passes (typeOf ctx loc place) s fun ty after =>
      after = s ∧ s.arena.ty? place = some ty := by
  simp only [typeOf, meets_bind, meets_get]
  split
  · rename_i ty known
    exact ⟨rfl, known⟩
  · simp only [meets_bind]
    exact (requireRead_passes loc place).mono fun _ _ _ => trivial

theorem lt_size_of_lookup? (sound : s.Sound) {name : String} {place : PlaceId}
    (found : lookup? s.scopes name = some place) : place < s.arena.size := by
  obtain ⟨scope, member, inScope⟩ := List.exists_of_findSome?_eq_some found
  obtain ⟨binding, isBinding, rfl⟩ := Option.map_eq_some_iff.mp inScope
  exact sound.bound scope member binding (List.mem_of_find?_eq_some isBinding)

theorem lookup_passes (loc : Option Position) (name : String) :
    Passes (lookup ctx loc name) s fun place after =>
      after = s ∧ lookup? s.scopes name = some place := by
  simp only [lookup, meets_bind, meets_get]
  split
  · rename_i place found
    exact ⟨rfl, found⟩
  · trivial

theorem target_passes (sound : s.Sound) {place : PlaceId} {pointer ty : Ty}
    (known : s.arena.ty? place = some pointer) (points : pointer.pointee? = some ty) (via : Via) :
    Passes (target place via ty) s fun id after =>
      Grown s after ∧ after.arena.ty? id = some ty := by
  simp only [target, meets_bind, meets_get, meets_set, meets_pure]
  obtain ⟨soundAfter, extended, here⟩ := Arena.target_keeps sound.arena known points via
  exact ⟨sound.grown soundAfter extended rfl, here⟩

end BorrowLang.Checker
