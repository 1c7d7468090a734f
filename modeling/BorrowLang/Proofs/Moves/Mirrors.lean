import BorrowLang.Proofs.Moves.Lines
import BorrowLang.Proofs.Scoping.Statements

/-!
# The checker and the bare check

What the checker knows at a point is seen as an outline, with the borrows left out.  A check mirrors
a bare one when it ends as that does on the outlines, unless a rule about borrows is in the way: it
then ends there, and the bare check need not.
-/

set_option autoImplicit false

namespace BorrowLang

/-- The kinds of failure that are about borrows. -/
def DiagnosticKind.ofBorrows : List DiagnosticKind :=
  [conflictingBorrow, assignWhileBorrowed, moveWhileBorrowed, danglingBorrow]

/-- What is known of the value and the end of a computation holds beside its conditions. -/
theorem Meets.known {σ ε α : Type} {x : ExceptT ε (StateM σ) α} {s : σ}
    {ok more : α → σ → Prop} {cut : ε → σ → Prop} (meets : Meets x s ok cut)
    (known : Meets x s more fun _ _ => True) :
    Meets x s (fun a after => ok a after ∧ more a after) cut := by
  unfold Meets at *
  cases ended : x s with
  | mk result after =>
      rw [ended] at meets known
      cases result with
      | ok a => exact ⟨meets, known⟩
      | error e => exact meets

namespace Checker

open Moves

variable {α β γ : Type} {ctx : Context} {s mid after : State}

/-- The fault is about borrows: one is in the way, or a search through borrows does not end. -/
def Fault.OfBorrow : Fault → Prop
  | .reported diagnostic => diagnostic.kind ∈ DiagnosticKind.ofBorrows
  | .endless => True
  | _ => False

/-! ### Outlines of states -/

namespace State

/-- The bindings in scope with their slots, the oldest first. -/
def bindings (s : State) : List (String × PlaceId) := s.scopes.flatten.reverse

/-- What a tracker knows of the places of the bindings in scope. -/
def marks (s : State) (t : Tracker) : Marks := fun level depth =>
  s.bindings[level]?.bind fun binding => t.line s.arena binding.2 depth

/-- What is known without the borrows. -/
def outline (s : State) : Outline where
  decls := s.bindings.map fun binding => s.arena.decl binding.1 binding.2
  marks := s.marks s.tracker

/-- The frames declare just the bindings in scope, each once, and nothing is known of places that do
not exist. -/
structure Outlined (s : State) : Prop where
  framed : s.Framed
  built : s.arena.Built
  known : ∀ id state, s.tracker.states[id]? = some state → id < s.arena.size
  frames : s.tracker.frames = s.scopes.map (fun scope => (scope.map (·.2)).reverse) ++ [[]]
  distinct : (s.bindings.map (·.2)).Nodup

theorem Outlined.isLocal (outlined : s.Outlined) {binding : String × PlaceId}
    (member : binding ∈ s.bindings) : s.arena.IsLocal binding.2 := by
  refine outlined.framed.sheltered.locals _ ?_
  obtain ⟨scope, inScopes, inScope⟩ := List.mem_flatten.mp (List.mem_reverse.mp member)
  exact mem_flatten_of_declares outlined.framed.bound (List.mem_append_left _ inScopes) inScope

theorem Outlined.isLocal_at (outlined : s.Outlined) {level : Nat} {binding : String × PlaceId}
    (isHere : s.bindings[level]? = some binding) : s.arena.IsLocal binding.2 :=
  outlined.isLocal (List.mem_of_getElem? isHere)

/-- One level has one slot. -/
theorem Outlined.level_inj (outlined : s.Outlined) {level other : Nat}
    {binding binding' : String × PlaceId} (isHere : s.bindings[level]? = some binding)
    (isThere : s.bindings[other]? = some binding') (same : binding.2 = binding'.2) :
    level = other := by
  have here : (s.bindings.map (·.2))[level]? = some binding.2 := by
    rw [List.getElem?_map, isHere, Option.map_some]
  have there : (s.bindings.map (·.2))[other]? = some binding.2 := by
    rw [List.getElem?_map, isThere, Option.map_some, same]
  obtain ⟨bound, -⟩ := List.getElem?_eq_some_iff.mp here
  exact (List.getElem?_inj bound outlined.distinct).mp (here.trans there.symm)

/-- The outline is that of the bindings in scope, the places and the move states. -/
theorem outline_congr (scopes : after.scopes = s.scopes) (arena : after.arena = s.arena)
    (states : after.tracker.states = s.tracker.states) : after.outline = s.outline := by
  unfold outline marks bindings Tracker.line
  rw [scopes, arena, states]

theorem Outlined.of_level (outlined : s.Outlined) (level : Level s after)
    (built : after.arena.Built)
    (known : ∀ id state, after.tracker.states[id]? = some state → id < after.arena.size) :
    after.Outlined where
  framed := level.framed
  built := built
  known := known
  frames := by rw [level.frames, level.scopes, outlined.frames]
  distinct := by
    rw [bindings, level.scopes]
    exact outlined.distinct

/-- What a tracker knows of the places in scope does not change as more places are named. -/
theorem Outlined.marks_grows (outlined : s.Outlined) (level : Level s after)
    (built : after.arena.Built) : after.marks s.tracker = s.marks s.tracker := by
  funext row depth
  simp only [marks, bindings, level.scopes]
  refine Option.bind_congr fun binding member => ?_
  exact Tracker.line_grows outlined.built built level.ways.toGrows
    (outlined.isLocal_at member) outlined.known depth

/-- A place stands at a spot of the outline. -/
def At (s : State) (spot : Spot) (place : PlaceId) : Prop :=
  ∃ binding, s.bindings[spot.level]? = some binding ∧
    s.arena.behind binding.2 spot.depth = some place

namespace At

variable {spot : Spot} {place : PlaceId}

/-- A place at a spot, with the slot of its binding. -/
theorem slot (at_ : s.At spot place) (outlined : s.Outlined) :
    ∃ name, s.bindings[spot.level]? = some (name, s.arena.root place) ∧
      s.arena.IsLocal (s.arena.root place) ∧
      s.arena.behind (s.arena.root place) spot.depth = some place := by
  obtain ⟨⟨name, root⟩, isHere, found⟩ := at_
  have isLocal := outlined.isLocal_at isHere
  obtain ⟨-, rfl, -⟩ := (outlined.built.behind_iff isLocal).mp found
  exact ⟨name, isHere, isLocal, found⟩

theorem marks {root : PlaceId} {name : String}
    (isHere : s.bindings[spot.level]? = some (name, root)) (depth : Nat) :
    s.outline.marks spot.level depth = s.tracker.line s.arena root depth := by
  change (s.bindings[spot.level]?).bind _ = _
  rw [isHere, Option.bind_some]

theorem decl {root : PlaceId} {name : String}
    (isHere : s.bindings[spot.level]? = some (name, root)) :
    s.outline.decls[spot.level]? = some (s.arena.decl name root) := by
  simp only [outline, List.getElem?_map, isHere, Option.map_some]

theorem ty? (at_ : s.At spot place) (outlined : s.Outlined) :
    s.outline.ty? spot = s.arena.ty? place := by
  obtain ⟨name, isHere, -, found⟩ := at_.slot outlined
  rw [Outline.ty?, decl isHere, Option.bind_some, outlined.framed.laid.ty?_behind name found]

theorem steps (at_ : s.At spot place) (outlined : s.Outlined) :
    s.outline.steps spot = s.arena.steps place := by
  obtain ⟨name, isHere, isLocal, found⟩ := at_.slot outlined
  rw [Outline.steps, decl isHere, Option.map_some, Option.getD_some,
    outlined.built.steps_behind outlined.framed.laid isLocal name found]

theorem whole_iff (at_ : s.At spot place) (outlined : s.Outlined) :
    s.outline.Whole spot.level ↔ s.tracker.Available s.arena place := by
  obtain ⟨name, isHere, isLocal, found⟩ := at_.slot outlined
  rw [Tracker.available_iff outlined.built isLocal found]
  simp only [← marks isHere]
  exact ⟨fun whole => ⟨whole.initialized, whole.unmoved⟩, fun ⟨initialized, unmoved⟩ =>
    ⟨initialized, unmoved⟩⟩

theorem owned_iff (at_ : s.At spot place) (outlined : s.Outlined) :
    s.outline.Owned spot ↔ s.arena.innermostRef place = none := by
  rw [Outline.Owned, at_.steps outlined, Arena.innermostRef, Arena.steps]

theorem mutable_iff (at_ : s.At spot place) (outlined : s.Outlined) (toBorrow : Bool) :
    s.outline.Mutable spot ↔ Tracker.checkMutable s.arena place toBorrow = .ok () := by
  obtain ⟨name, isHere, -, -⟩ := at_.slot outlined
  have isMut : s.outline.isMut spot.level = s.arena.isMut (s.arena.root place) := by
    rw [Outline.isMut, decl isHere, Option.map_some, Option.getD_some]
    rfl
  rw [Outline.Mutable, isMut, at_.steps outlined]
  unfold Tracker.checkMutable Arena.steps
  dsimp only
  split
  · rename_i allowed
    simpa using allowed
  · rename_i refused
    simpa using refused

theorem writable_iff (at_ : s.At spot place) (outlined : s.Outlined) :
    s.outline.Writable spot ↔
      s.tracker.requireOwners place (s.arena.chain place).dropLast = .ok () ∧
        ((s.arena.chain place).length = 1 ∧ s.tracker.states[place]? = some .uninit ∨
          Tracker.checkMutable s.arena place false = .ok ()) := by
  obtain ⟨name, isHere, isLocal, found⟩ := at_.slot outlined
  obtain ⟨-, -, length⟩ := (outlined.built.behind_iff isLocal).mp found
  have first : spot.depth = 0 ∧ s.outline.marks spot.level 0 = some .uninit ↔
      (s.arena.chain place).length = 1 ∧ s.tracker.states[place]? = some .uninit := by
    rw [length, Nat.add_eq_right]
    refine and_congr_right fun isSlot => ?_
    rw [isSlot] at found
    rw [marks isHere, Tracker.line_of_behind found]
  rw [Tracker.requireOwners_chain outlined.built isLocal found, ← at_.mutable_iff outlined, ← first]
  simp only [← marks isHere]
  exact ⟨fun writable => ⟨writable.owners, writable.declared⟩, fun ⟨owners, declared⟩ =>
    ⟨owners, declared⟩⟩

end At

end State

/-! ### Checks that mirror each other -/

/-- A check ends as the bare one does on the outlines, unless a rule about borrows is in the way. -/
def Mirrors (x : Check α) (y : Bare β) (same : α → β → State → Prop) (s : State) : Prop :=
  Meets x s
    (fun a after => ∃ b, y s.outline = some (b, after.outline) ∧ same a b after ∧ after.Outlined)
    fun fault _ => fault.OfBorrow ∨ y s.outline = none

/-- A check leaves what is known without borrows as it is, and faults about borrows only. -/
def Beside (x : Check α) (s : State) : Prop :=
  Meets x s
    (fun _ after => after.outline = s.outline ∧ after.Outlined ∧ Level s after)
    fun fault _ => fault.OfBorrow

namespace Mirrors

variable {x : Check α} {y : Bare β} {same : α → β → State → Prop}

theorem mono {same' : α → β → State → Prop} (mirrors : Mirrors x y same s)
    (weaker : ∀ a b after, same a b after → same' a b after) : Mirrors x y same' s :=
  Meets.onOk mirrors fun _ _ ⟨b, passes, isSame, outlined⟩ =>
    ⟨b, passes, weaker _ _ _ isSame, outlined⟩

/-- What is known of the end of the check is known beside. -/
theorem known {more : α → State → Prop} (mirrors : Mirrors x y same s)
    (passes : Passes x s more) :
    Mirrors x y (fun a b after => same a b after ∧ more a after) s :=
  Meets.onOk (Meets.known mirrors passes) fun _ _ ⟨⟨b, passes, isSame, outlined⟩, alsoKnown⟩ =>
    ⟨b, passes, ⟨isSame, alsoKnown⟩, outlined⟩

theorem bind_known {x' : α → Check γ} {δ : Type} {y' : β → Bare δ}
    {same' : γ → δ → State → Prop} (first : Mirrors x y same s)
    (next : ∀ a b after, y s.outline = some (b, after.outline) → after.Outlined →
      same a b after → Mirrors (x' a) (y' b) same' after) :
    Mirrors (x >>= x') (y >>= y') same' s := by
  have goesOn : ∀ {b o}, y s.outline = some (b, o) → (y >>= y') s.outline = y' b o := by
    intro b o passes
    change (y s.outline).bind _ = _
    rw [passes, Option.bind_some]
  rw [Mirrors, meets_bind]
  refine Meets.mono first ?_ ?_
  · intro a after ended
    obtain ⟨b, passes, isSame, outlined⟩ := ended
    rw [goesOn passes]
    exact next a b after passes outlined isSame
  · rintro fault after (ofBorrow | refuses)
    · exact Or.inl ofBorrow
    · refine Or.inr ?_
      change (y s.outline).bind _ = _
      rw [refuses, Option.bind_none]

theorem bind {x' : α → Check γ} {δ : Type} {y' : β → Bare δ} {same' : γ → δ → State → Prop}
    (first : Mirrors x y same s)
    (next : ∀ a b after, after.Outlined → same a b after → Mirrors (x' a) (y' b) same' after) :
    Mirrors (x >>= x') (y >>= y') same' s :=
  first.bind_known fun a b after _ => next a b after

theorem pure {a : α} {b : β} (outlined : s.Outlined) (isSame : same a b s) :
    Mirrors (pure a) (pure b) same s :=
  ⟨b, rfl, isSame, outlined⟩

theorem get {x' : State → Check α} (next : Mirrors (x' s) y same s) :
    Mirrors (get >>= x') y same s := by
  rw [Mirrors, meets_bind, meets_get]
  exact next

theorem beside {x' : Check γ} {same' : γ → β → State → Prop} {x : Check α}
    (first : Beside x s)
    (next : ∀ after, after.Outlined → Level s after → Mirrors x' y same' after) :
    Mirrors (x >>= fun _ => x') y same' s := by
  rw [Mirrors, meets_bind]
  refine Meets.mono first ?_ fun _ _ => Or.inl
  rintro a after ⟨outline, outlined, level⟩
  rw [← outline]
  exact next after outlined level

end Mirrors

theorem Mirrors.of_refuses {x : Check α} {y : Bare β} {same : α → β → State → Prop}
    (refuses : y s.outline = none) (never : Passes x s fun _ _ => False) : Mirrors x y same s :=
  Meets.mono never (fun _ _ => False.elim) fun _ _ _ => Or.inr refuses

/-! ### Checks about borrows only -/

/-- Places, scopes and move states are the same. -/
structure Still (s after : State) : Prop extends Aside s after where
  states : after.tracker.states = s.tracker.states

theorem Still.refl (s : State) : Still s s := ⟨.refl s, rfl⟩

theorem Still.trans (first : Still s mid) (second : Still mid after) : Still s after :=
  ⟨first.toAside.trans second.toAside, second.states.trans first.states⟩

/-- Only borrows change, and only they are at fault. -/
abbrev Stays (x : Check α) (s : State) : Prop :=
  Meets x s (fun _ after => Still s after) fun fault _ => fault.OfBorrow

theorem Beside.of_still {x : Check α} (outlined : s.Outlined)
    (both : Meets x s (fun _ after => Still s after ∧ Level s after)
      fun fault _ => fault.OfBorrow) : Beside x s := by
  refine Meets.onOk both ?_
  rintro _ after ⟨still, level⟩
  refine ⟨State.outline_congr still.scopes still.arena still.states, ?_, level⟩
  refine outlined.of_level level (still.arena ▸ outlined.built) ?_
  rw [still.arena, still.states]
  exact outlined.known

theorem Beside.of_stays {x : Check α} (outlined : s.Outlined) (stays : Stays x s)
    (level : Passes x s fun _ after => Level s after) : Beside x s :=
  .of_still outlined (Meets.known stays level)

theorem Beside.mirrors {x : Check α} {b : β} (beside : Beside x s) :
    Mirrors x (pure b : Bare β) (fun _ b' after => b' = b ∧ Level s after) s :=
  Meets.mono beside
    (fun _ _ ⟨outline, outlined, level⟩ => ⟨b, by rw [outline]; rfl, ⟨rfl, level⟩, outlined⟩)
    fun _ _ => Or.inl

end Checker

end BorrowLang
