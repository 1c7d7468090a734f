import BorrowLang.Evaluator.Action

/-!
# Conditions on computations

What a computation with a state does is stated by two conditions on its end: one for the value it
comes to, one for what cuts it short.  A sequence of computations is taken apart by rewriting, and a
part of it is replaced by what is known of its end.
-/

set_option autoImplicit false

namespace BorrowLang

variable {σ ε α β : Type}

/-- A computation from a state ends in one of two ways, each as its condition says. -/
def Meets (x : ExceptT ε (StateM σ) α) (s : σ) (ok : α → σ → Prop) (cut : ε → σ → Prop) : Prop :=
  match x s with
  | (.ok a, after) => ok a after
  | (.error e, after) => cut e after

theorem run_bind (x : ExceptT ε (StateM σ) β) (f : β → ExceptT ε (StateM σ) α) (s : σ) :
    (x >>= f) s =
      match x s with
      | (.ok b, after) => f b after
      | (.error e, after) => (.error e, after) := by
  change (ExceptT.bindCont f (x s).1) (x s).2 = _
  cases ended : x s with
  | mk result after => cases result <;> rfl

section Rules

variable (s : σ) (ok : α → σ → Prop) (cut : ε → σ → Prop)

@[simp] theorem meets_pure (a : α) :
    Meets (pure a : ExceptT ε (StateM σ) α) s ok cut ↔ ok a s := Iff.rfl

@[simp] theorem meets_bind (x : ExceptT ε (StateM σ) β) (f : β → ExceptT ε (StateM σ) α) :
    Meets (x >>= f) s ok cut ↔ Meets x s (fun b after => Meets (f b) after ok cut) cut := by
  unfold Meets
  rw [run_bind]
  cases ended : x s with
  | mk result after => cases result <;> rfl

@[simp] theorem meets_throw (e : ε) :
    Meets (throw e : ExceptT ε (StateM σ) α) s ok cut ↔ cut e s := Iff.rfl

@[simp] theorem meets_get (ok : σ → σ → Prop) :
    Meets (get : ExceptT ε (StateM σ) σ) s ok cut ↔ ok s s := Iff.rfl

@[simp] theorem meets_set (next : σ) (ok : PUnit → σ → Prop) :
    Meets (set next : ExceptT ε (StateM σ) PUnit) s ok cut ↔ ok ⟨⟩ next := Iff.rfl

@[simp] theorem meets_modify (f : σ → σ) (ok : PUnit → σ → Prop) :
    Meets (modify f : ExceptT ε (StateM σ) PUnit) s ok cut ↔ ok ⟨⟩ (f s) := Iff.rfl

end Rules

/-- What is known of the end of a computation carries over to weaker conditions. -/
theorem Meets.mono {x : ExceptT ε (StateM σ) α} {s : σ} {ok ok' : α → σ → Prop}
    {cut cut' : ε → σ → Prop} (known : Meets x s ok cut)
    (onOk : ∀ a after, ok a after → ok' a after)
    (onCut : ∀ e after, cut e after → cut' e after) :
    Meets x s ok' cut' := by
  unfold Meets at known ⊢
  cases ended : x s with
  | mk result after =>
      rw [ended] at known
      cases result with
      | ok a => exact onOk a after known
      | error e => exact onCut e after known

theorem Meets.onOk {x : ExceptT ε (StateM σ) α} {s : σ} {ok ok' : α → σ → Prop}
    {cut : ε → σ → Prop} (known : Meets x s ok cut)
    (weaker : ∀ a after, ok a after → ok' a after) : Meets x s ok' cut :=
  known.mono weaker fun _ _ same => same

/-- A computation that is not cut short meets every condition on that. -/
theorem Meets.uncut {x : ExceptT ε (StateM σ) α} {s : σ} {ok ok' : α → σ → Prop}
    {cut : ε → σ → Prop} (known : Meets x s ok fun _ _ => False)
    (weaker : ∀ a after, ok a after → ok' a after) : Meets x s ok' cut :=
  known.mono weaker fun _ _ impossible => impossible.elim

/-- Two conditions that a computation meets are met together, where nothing cuts it short. -/
theorem Meets.and {x : ExceptT ε (StateM σ) α} {s : σ} {first second : α → σ → Prop}
    {cut : ε → σ → Prop} (known : Meets x s first fun _ _ => False) (more : Meets x s second cut) :
    Meets x s (fun a after => first a after ∧ second a after) fun _ _ => False := by
  unfold Meets at *
  cases ended : x s with
  | mk result after =>
      rw [ended] at known more
      cases result with
      | ok a => exact ⟨known, more⟩
      | error e => exact known

theorem Meets.completes {x : ExceptT ε (StateM σ) α} {s : σ} {ok : α → σ → Prop}
    (known : Meets x s ok fun _ _ => False) : ∃ a after, x s = (.ok a, after) ∧ ok a after := by
  unfold Meets at known
  cases ended : x s with
  | mk result after =>
      rw [ended] at known
      cases result with
      | ok a => exact ⟨a, after, rfl, known⟩
      | error e => exact known.elim

namespace Evaluator

variable (s : State) (ok : α → State → Prop) (cut : Interrupt → State → Prop)

@[simp] theorem meets_fail (fault : Fault) :
    Meets (fail fault : Eval α) s ok cut ↔ cut (.failed fault) s := Iff.rfl

@[simp] theorem meets_ofHeap_ok (a : α) : Meets (ofHeap (.ok a)) s ok cut ↔ ok a s := Iff.rfl

@[simp] theorem meets_ofHeap_error (fault : HeapFault) :
    Meets (ofHeap (.error fault) : Eval α) s ok cut ↔ cut (.failed (.heap fault)) s := Iff.rfl

end Evaluator

end BorrowLang
