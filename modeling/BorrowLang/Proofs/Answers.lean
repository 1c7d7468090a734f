import Mathlib.Data.List.Forall2

/-!
# Answers that are no faults

A sequence of computations that may fault has an answer when each of them has one.
-/

set_option autoImplicit false

namespace BorrowLang

variable {ε α β : Type}

theorem bind_eq_ok {x : Except ε α} {f : α → Except ε β} {b : β} :
    (x >>= f) = .ok b ↔ ∃ a, x = .ok a ∧ f a = .ok b := by
  cases x with
  | ok a => exact ⟨fun done => ⟨a, rfl, done⟩, fun ⟨_, same, done⟩ => Except.ok.inj same ▸ done⟩
  | error e => exact ⟨nofun, fun ⟨_, impossible, _⟩ => nomatch impossible⟩

/-- The answer of a computation, if it has one, is as a condition says. -/
def Answers (x : Except ε α) (holds : α → Prop) : Prop := ∀ a, x = .ok a → holds a

section Rules

variable (holds : α → Prop)

@[simp] theorem answers_ok (a : α) : Answers (.ok a : Except ε α) holds ↔ holds a :=
  ⟨fun known => known a rfl, fun here _ same => Except.ok.inj same ▸ here⟩

@[simp] theorem answers_pure (a : α) : Answers (pure a : Except ε α) holds ↔ holds a :=
  answers_ok holds a

@[simp] theorem answers_error (e : ε) : Answers (.error e : Except ε α) holds := nofun

@[simp] theorem answers_bind (x : Except ε β) (f : β → Except ε α) :
    Answers (x >>= f) holds ↔ Answers x fun b => Answers (f b) holds := by
  cases x with
  | ok b => exact (@answers_ok ε β (fun b => Answers (f b) holds) b).symm
  | error e => exact ⟨fun _ => answers_error _ e, fun _ => answers_error _ e⟩

theorem answers_map (x : Except ε β) (f : β → α) :
    Answers (x.map f) holds ↔ Answers x fun b => holds (f b) := by
  cases x with
  | ok b => exact (answers_ok holds (f b)).trans (answers_ok (fun b => holds (f b)) b).symm
  | error e => exact ⟨fun _ => answers_error _ e, fun _ => answers_error _ e⟩

end Rules

theorem answers_true (x : Except ε α) : Answers x fun _ => True := fun _ _ => trivial

theorem Answers.mono {x : Except ε α} {holds holds' : α → Prop} (known : Answers x holds)
    (weaker : ∀ a, holds a → holds' a) : Answers x holds' :=
  fun a same => weaker a (known a same)

theorem answers_mapM {f : α → Except ε β} {holds : β → Prop} {xs : List α}
    (each : ∀ x ∈ xs, Answers (f x) holds) :
    Answers (xs.mapM f) fun ys => ∀ y ∈ ys, holds y := by
  induction xs with
  | nil => exact (answers_pure _ _).mpr (List.forall_mem_nil _)
  | cons x rest ih =>
      obtain ⟨first, others⟩ := List.forall_mem_cons.mp each
      simp only [List.mapM_cons, answers_bind, answers_pure]
      refine first.mono fun y here => ?_
      exact (ih others).mono fun ys later => List.forall_mem_cons.mpr ⟨here, later⟩

theorem mapM_eq_ok {f : α → Except ε β} {xs : List α} {ys : List β}
    (done : xs.mapM f = .ok ys) : List.Forall₂ (fun x y => f x = .ok y) xs ys := by
  induction xs generalizing ys with
  | nil =>
      obtain rfl : [] = ys := Except.ok.inj done
      exact .nil
  | cons x rest ih =>
      simp only [List.mapM_cons, bind_eq_ok] at done
      obtain ⟨y, first, others, more, same⟩ := done
      obtain rfl := Except.ok.inj same
      exact .cons first (ih more)

end BorrowLang
