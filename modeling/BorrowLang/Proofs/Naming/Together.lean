import BorrowLang.Checker.Program
import BorrowLang.Proofs.Meets
import BorrowLang.Proofs.Naming.Renaming
import BorrowLang.Proofs.Naming.Unnamed
import Mathlib.Data.List.Forall2

/-!
# Checks side by side

Two programs that differ in names are checked side by side.  At every point the two states hold the
same but for names, and so each question to the tracker has the same answer.
-/

set_option autoImplicit false

namespace BorrowLang.Checker

variable {α β : Type} {s t : State}

/-! ### Two checks -/

/-- Two checks come to the same value, in related states, or both end early. -/
def Together (x y : Check α) (s t : State) (R : State → State → Prop) : Prop :=
  match x s, y t with
  | (.ok a, s'), (.ok b, t') => a = b ∧ R s' t'
  | (.error _, _), (.error _, _) => True
  | _, _ => False

theorem Together.mono {x y : Check α} {R R' : State → State → Prop}
    (known : Together x y s t R) (weaker : ∀ s' t', R s' t' → R' s' t') :
    Together x y s t R' := by
  unfold Together at *
  split <;> simp_all

theorem Together.bind {x y : Check β} {f g : β → Check α} {mid R : State → State → Prop}
    (first : Together x y s t mid)
    (next : ∀ b s' t', mid s' t' → Together (f b) (g b) s' t' R) :
    Together (x >>= f) (y >>= g) s t R := by
  unfold Together at first ⊢
  rw [run_bind, run_bind]
  cases mine : x s with
  | mk answer s' =>
      cases theirs : y t with
      | mk other t' =>
          rw [mine, theirs] at first
          cases answer with
          | ok b =>
              cases other with
              | ok c =>
                  obtain ⟨rfl, related⟩ := first
                  exact next b s' t' related
              | error fault => exact first.elim
          | error fault =>
              cases other with
              | ok c => exact first.elim
              | error other => trivial

section Rules

variable {R : State → State → Prop}

theorem together_pure (a : α) (related : R s t) :
    Together (pure a : Check α) (pure a) s t R := ⟨rfl, related⟩

theorem together_throw (fault other : Fault) :
    Together (throw fault : Check α) (throw other) s t R := trivial

theorem together_get {f g : State → Check α} (next : Together (f s) (g t) s t R) :
    Together (get >>= f) (get >>= g) s t R := next

theorem together_set {s' t' : State} (related : R s' t') :
    Together (set s' : Check PUnit) (set t') s t R := ⟨rfl, related⟩

theorem together_modify {f g : State → State} (related : R (f s) (g t)) :
    Together (modify f : Check PUnit) (modify g) s t R := ⟨rfl, related⟩

end Rules

/-! ### States -/

/-- Scopes that bind paired names to the same slots. -/
inductive Scoped : Bindings → List (List (String × PlaceId)) → List (List (String × PlaceId)) → Prop
  | nil : Scoped [] [] []
  | enter {env : Bindings} {ss ts : List (List (String × PlaceId))} (outer : Scoped env ss ts) :
      Scoped ([] :: env) ([] :: ss) ([] :: ts)
  | bind {scope : List (String × String)} {env : Bindings} {mine theirs : List (String × PlaceId)}
      {ss ts : List (List (String × PlaceId))} (x y : String) (place : PlaceId)
      (before : Scoped (scope :: env) (mine :: ss) (theirs :: ts)) :
      Scoped (((x, y) :: scope) :: env) (((x, place) :: mine) :: ss) (((y, place) :: theirs) :: ts)

theorem Scoped.leave {scope : List (String × String)} {env : Bindings}
    {ss ts : List (List (String × PlaceId))} (known : Scoped (scope :: env) ss ts) :
    Scoped env (ss.drop 1) (ts.drop 1) := by
  generalize inner : scope :: env = whole at known
  induction known generalizing scope with
  | nil => contradiction
  | enter outer =>
      obtain ⟨-, rfl⟩ := List.cons.inj inner
      exact outer
  | bind x y place before ih =>
      obtain ⟨-, rfl⟩ := List.cons.inj inner
      exact ih rfl

theorem lookup?_bound (x name : String) (place : PlaceId) (mine : List (String × PlaceId))
    (outer : List (List (String × PlaceId))) :
    lookup? (((x, place) :: mine) :: outer) name =
      if x = name then some place else lookup? (mine :: outer) name := by
  unfold lookup?
  by_cases here : x = name <;> simp [here, List.findSome?_cons]

/-- Names that are linked are found at the same slot. -/
theorem Scoped.lookup? {env : Bindings} {ss ts : List (List (String × PlaceId))}
    (known : Scoped env ss ts) {x y : String} (links : Links env.flatten x y) :
    Checker.lookup? ts y = Checker.lookup? ss x := by
  induction known with
  | nil => rfl
  | enter outer ih => exact ih links
  | bind a b place before ih =>
      rw [lookup?_bound, lookup?_bound]
      obtain ⟨mine, theirs⟩ | ⟨mine, theirs, later⟩ := links
      · rw [if_pos mine, if_pos theirs]
      · rw [if_neg mine, if_neg theirs]
        exact ih later

/-- Two states hold the same but for names. -/
structure Alike (r : Renaming) (env : Bindings) (s t : State) : Prop where
  tracker : t.tracker = s.tracker
  next : t.nextBorrow = s.nextBorrow
  arena : t.arena.unnamed = s.arena.unnamed
  names : ∀ place, r.pairs (s.arena.name place) (t.arena.name place)
  live : List.Forall₂ r.Agrees s.live.scopes t.live.scopes
  scopes : Scoped env s.scopes t.scopes

/-- Two contexts allow the same. -/
structure Like (r : Renaming) (ctx ctx' : Context) : Prop where
  settings : ctx'.settings = ctx.settings
  result : ctx'.result = ctx.result
  signature : ∀ name, ctx'.signature? name = ctx.signature? name
  lexical : r.counts = false → ctx.settings.lexical = true

variable {r : Renaming} {env : Bindings} {ctx ctx' : Context}

namespace Alike

theorem blind {γ : Type} {f : Arena → γ} (alike : Alike r env s t)
    (unnamed : ∀ arena : Arena, f arena.unnamed = f arena) : f t.arena = f s.arena :=
  Arena.eq_of_unnamed unnamed alike.arena

theorem ty? (alike : Alike r env s t) (place : PlaceId) : t.arena.ty? place = s.arena.ty? place :=
  alike.blind (f := fun arena => arena.ty? place) (by simp)

theorem root (alike : Alike r env s t) (place : PlaceId) :
    t.arena.root place = s.arena.root place :=
  alike.blind (f := fun arena => arena.root place) (by simp)

theorem innermostRef (alike : Alike r env s t) (place : PlaceId) :
    t.arena.innermostRef place = s.arena.innermostRef place :=
  alike.blind (f := fun arena => arena.innermostRef place) (by simp)

theorem size (alike : Alike r env s t) : t.arena.size = s.arena.size :=
  alike.blind (f := Arena.size) (by simp)

theorem referents (alike : Alike r env s t) : t.referents = s.referents := by
  funext place
  simp only [State.referents, alike.size, referents_congr alike.tracker alike.arena]

/-! #### What is live -/

theorem any_contains {names others : List (List String)}
    (agree : List.Forall₂ r.Agrees names others) (counts : r.counts = true) {x y : String}
    (paired : r.pairs x y) :
    others.any (·.contains y) = names.any (·.contains x) := by
  induction agree with
  | nil => rfl
  | @cons a b _ _ first rest ih =>
      have same : b.contains y = a.contains x := by simp [first counts x y paired]
      simp only [List.any_cons, same, ih]

theorem isLive (alike : Alike r env s t) (counts : r.counts = true) : t.isLive = s.isLive := by
  funext holder
  exact any_contains alike.live counts (alike.names holder)

theorem pins (alike : Alike r env s t) (like : Like r ctx ctx') (holder : PlaceId) :
    t.pins ctx' holder = s.pins ctx holder := by
  unfold State.pins
  rw [like.settings]
  cases counts : r.counts with
  | false => simp [like.lexical counts]
  | true => rw [alike.isLive counts]

/-! #### Changes -/

theorem track (alike : Alike r env s t) (tracker : Tracker) :
    Alike r env { s with tracker } { t with tracker } :=
  ⟨rfl, alike.next, alike.arena, alike.names, alike.live, alike.scopes⟩

theorem trackNext (alike : Alike r env s t) (tracker : Tracker) (next : BorrowId) :
    Alike r env { s with tracker, nextBorrow := next } { t with tracker, nextBorrow := next } :=
  ⟨rfl, rfl, alike.arena, alike.names, alike.live, alike.scopes⟩

end Alike

end BorrowLang.Checker
