import BorrowLang.Evaluator.Action
import BorrowLang.Proofs.Numbers.Literals

/-!
# Exact arithmetic

On two integers of 32 bits an operator gives what it gives on the integers, or faults.  Quotients
truncate toward zero: only the smallest integer has one beyond 32 bits, and every remainder is
smaller than its divisor, so the overflow of `%` is never reported.
-/

set_option autoImplicit false

namespace BorrowLang

/-! ### Quotients and remainders -/

section Division

variable {l r : Int}

theorem natAbs_tmod_lt (l : Int) (nonzero : r ≠ 0) : (l.tmod r).natAbs < r.natAbs := by
  rw [Int.natAbs_tmod]
  exact Nat.mod_lt _ (Int.natAbs_pos.mpr nonzero)

theorem tmod_eq_zero_or_sign_eq (l r : Int) : l.tmod r = 0 ∨ (l.tmod r).sign = l.sign := by
  have sign := Int.sign_tmod l r
  by_cases divides : r ∣ l
  · rw [if_pos divides, Int.sign_eq_zero_iff_zero] at sign
    exact Or.inl sign
  · rw [if_neg divides] at sign
    exact Or.inr sign

/-- A quotient is no larger than its dividend; what is left is the opposite of the smallest integer,
which comes from a division by `-1` alone. -/
theorem isInt32_tdiv (left : IsInt32 l) (nonzero : r ≠ 0) (other : ¬ (l = minInt ∧ r = -1)) :
    IsInt32 (l.tdiv r) := by
  have notLarger := Int.natAbs_tdiv_le_natAbs l r
  have whole := Int.mul_tdiv_add_tmod l r
  have rest := natAbs_tmod_lt l nonzero
  have notOpposite : l.tdiv r ≠ 2147483648 := by
    intro opposite
    rw [opposite] at whole
    unfold IsInt32 minInt maxInt at *
    omega
  unfold IsInt32 minInt maxInt at *
  omega

theorem isInt32_tmod (right : IsInt32 r) (nonzero : r ≠ 0) : IsInt32 (l.tmod r) := by
  have rest := natAbs_tmod_lt l nonzero
  unfold IsInt32 minInt maxInt at *
  omega

end Division

namespace Evaluator

variable (ctx : Context) (loc : Option Position)

/-! ### Results and faults -/

/-- What an operator gives on two integers. -/
def calculate (op : ArithOp) (l r : Int) : Eval Value :=
  arith ctx loc (.arith op) (.int l) (.int r)

/-- A report of an operator that has no result. -/
def faulted (message : String) : Eval Value := report ctx .arithmeticFault message loc

/-- The integer itself where it has 32 bits, and a report otherwise. -/
def exactly (n : Int) (message : String) : Eval Value :=
  if IsInt32 n then pure (.int n) else faulted ctx loc message

theorem pure_ne_faulted (value : Value) (message : String) :
    (pure value : Eval Value) ≠ faulted ctx loc message := by
  intro same
  have results : (Except.ok value : Except Interrupt Value) = _ :=
    congrArg Prod.fst (congrFun same (default : State))
  exact nomatch results

theorem faulted_inj {message other : String}
    (same : faulted ctx loc message = faulted ctx loc other) : message = other := by
  have results := congrArg Prod.fst (congrFun same (default : State))
  injection results with interrupts
  injection interrupts with faults
  injection faults with diagnostics
  exact congrArg Diagnostic.message diagnostics

theorem ofArith_inRange (n : Int) (fault : ArithFault) :
    ofArith ctx loc (inRange n fault) = exactly ctx loc n fault.message := by
  by_cases fits : IsInt32 n
  · have within : inRange n fault = .ok n := if_pos fits
    rw [within, exactly, if_pos fits]
    rfl
  · have beyond : inRange n fault = .error fault := if_neg fits
    rw [beyond, exactly, if_neg fits]
    rfl

/-! ### Operators -/

section Operators

variable {l r : Int}

theorem calculate_div_zero (l : Int) :
    calculate ctx loc .div l 0 = faulted ctx loc "attempt to divide by zero" := rfl

theorem calculate_rem_zero (l : Int) :
    calculate ctx loc .rem l 0 =
      faulted ctx loc "attempt to calculate the remainder with a divisor of zero" := rfl

theorem calculate_div (l : Int) (nonzero : r ≠ 0) :
    calculate ctx loc .div l r = exactly ctx loc (l.tdiv r) "attempt to divide with overflow" := by
  have applied : ArithOp.div.apply l r = inRange (l.tdiv r) (.overflow .div) := if_neg nonzero
  show ofArith ctx loc (ArithOp.div.apply l r) = _
  rw [applied]
  exact ofArith_inRange ctx loc (l.tdiv r) (.overflow .div)

theorem calculate_rem (l : Int) (right : IsInt32 r) (nonzero : r ≠ 0) :
    calculate ctx loc .rem l r = pure (.int (l.tmod r)) := by
  have applied : ArithOp.rem.apply l r = inRange (l.tmod r) (.overflow .rem) := if_neg nonzero
  have within : inRange (l.tmod r) (.overflow .rem) = .ok (l.tmod r) :=
    if_pos (isInt32_tmod right nonzero)
  show ofArith ctx loc (ArithOp.rem.apply l r) = _
  rw [applied, within]
  rfl

theorem calculate_div_eq_pure (left : IsInt32 l) (nonzero : r ≠ 0)
    (other : ¬ (l = minInt ∧ r = -1)) :
    calculate ctx loc .div l r = pure (.int (l.tdiv r)) := by
  rw [calculate_div ctx loc l nonzero]
  exact if_pos (isInt32_tdiv left nonzero other)

theorem calculate_div_minInt :
    calculate ctx loc .div minInt (-1) = faulted ctx loc "attempt to divide with overflow" := by
  rw [calculate_div ctx loc minInt (by decide)]
  exact if_neg (by decide)

theorem calculate_div_overflows_iff (left : IsInt32 l) :
    calculate ctx loc .div l r = faulted ctx loc "attempt to divide with overflow" ↔
      l = minInt ∧ r = -1 := by
  constructor
  · intro overflows
    by_contra other
    by_cases isZero : r = 0
    · rw [isZero, calculate_div_zero] at overflows
      exact absurd (faulted_inj ctx loc overflows) (by decide)
    · rw [calculate_div_eq_pure ctx loc left isZero other] at overflows
      exact pure_ne_faulted ctx loc _ _ overflows
  · rintro ⟨rfl, rfl⟩
    exact calculate_div_minInt ctx loc

theorem calculate_div_byZero_iff (left : IsInt32 l) :
    calculate ctx loc .div l r = faulted ctx loc "attempt to divide by zero" ↔ r = 0 := by
  constructor
  · intro faults
    by_contra nonzero
    by_cases overflows : l = minInt ∧ r = -1
    · rw [overflows.1, overflows.2, calculate_div_minInt] at faults
      exact absurd (faulted_inj ctx loc faults) (by decide)
    · rw [calculate_div_eq_pure ctx loc left nonzero overflows] at faults
      exact pure_ne_faulted ctx loc _ _ faults
  · rintro rfl
    exact calculate_div_zero ctx loc l

/-- The remainder has one fault. -/
theorem calculate_rem_faults_iff (right : IsInt32 r) (message : String) :
    calculate ctx loc .rem l r = faulted ctx loc message ↔
      r = 0 ∧ message = "attempt to calculate the remainder with a divisor of zero" := by
  constructor
  · intro faults
    by_cases isZero : r = 0
    · rw [isZero, calculate_rem_zero] at faults
      exact ⟨isZero, (faulted_inj ctx loc faults).symm⟩
    · rw [calculate_rem ctx loc l right isZero] at faults
      exact absurd faults (pure_ne_faulted ctx loc _ _)
  · rintro ⟨rfl, rfl⟩
    exact calculate_rem_zero ctx loc l

/-- Arithmetic of 32 bits is that of the integers, with division toward zero, or faults: sum,
difference and product where they do not fit, division and remainder where the divisor is zero, and
division of the smallest integer by `-1`. -/
theorem arith_exact (left : IsInt32 l) (right : IsInt32 r) :
    calculate ctx loc .add l r = exactly ctx loc (l + r) "attempt to add with overflow" ∧
    calculate ctx loc .sub l r = exactly ctx loc (l - r) "attempt to subtract with overflow" ∧
    calculate ctx loc .mul l r = exactly ctx loc (l * r) "attempt to multiply with overflow" ∧
    (calculate ctx loc .div l r = faulted ctx loc "attempt to divide by zero" ↔ r = 0) ∧
    (calculate ctx loc .div l r = faulted ctx loc "attempt to divide with overflow" ↔
      l = minInt ∧ r = -1) ∧
    (calculate ctx loc .rem l r =
      faulted ctx loc "attempt to calculate the remainder with a divisor of zero" ↔ r = 0) ∧
    (r ≠ 0 → ∃ q m : Int, l = r * q + m ∧ m.natAbs < r.natAbs ∧ (m = 0 ∨ m.sign = l.sign) ∧
      calculate ctx loc .rem l r = pure (.int m) ∧
      (¬ (l = minInt ∧ r = -1) → calculate ctx loc .div l r = pure (.int q))) ∧
    calculate ctx loc .rem l r ≠
      faulted ctx loc "attempt to calculate the remainder with overflow" := by
  refine ⟨ofArith_inRange ctx loc _ _, ofArith_inRange ctx loc _ _, ofArith_inRange ctx loc _ _,
    calculate_div_byZero_iff ctx loc left, calculate_div_overflows_iff ctx loc left, ?_, ?_, ?_⟩
  · rw [calculate_rem_faults_iff ctx loc right]
    exact and_iff_left rfl
  · intro nonzero
    exact ⟨l.tdiv r, l.tmod r, (Int.mul_tdiv_add_tmod l r).symm, natAbs_tmod_lt l nonzero,
      tmod_eq_zero_or_sign_eq l r, calculate_rem ctx loc l right nonzero,
      calculate_div_eq_pure ctx loc left nonzero⟩
  · rw [ne_eq, calculate_rem_faults_iff ctx loc right, not_and]
    exact fun _ => by decide

/-- The smallest integer has no quotient by `-1`, but a remainder. -/
theorem arith_exact_minInt :
    IsInt32 minInt ∧ IsInt32 (-1) ∧
      calculate {} none .div minInt (-1) = faulted {} none "attempt to divide with overflow" ∧
      ∃ m : Int, m.natAbs < 1 ∧ calculate {} none .rem minInt (-1) = pure (.int m) := by
  have smallest : IsInt32 minInt := by decide
  have divisor : IsInt32 (-1) := by decide
  obtain ⟨-, -, -, -, overflows, -, results, -⟩ := arith_exact {} none smallest divisor
  obtain ⟨q, m, -, less, -, remainder, -⟩ := results (by decide)
  exact ⟨smallest, divisor, overflows.mpr ⟨rfl, rfl⟩, m, less, remainder⟩

end Operators

end Evaluator

end BorrowLang
