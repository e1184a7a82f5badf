import Mathlib.Data.Int.Log
import Mathlib.Tactic.Positivity
import ModbusSim.Lib.Number

/-!
# Binary floating-point formats

The floats of a format are the integer multiples of powers of two with so many digits, down to a
least exponent. `round` takes a rational number to the nearest of them, half to even, and to an
infinity from half way above the largest one on. It keeps the order (`round_mono`), leaves floats
as they are (`round_round`), and overflows exactly from `overflow` on (`round_isFinite_iff`).
-/

namespace PyValue

/-- So many digits, the last of them at `least` or above; `2 ^ top` is the first power of two that
is out of range. -/
structure FloatFormat where
  digits : Nat
  least : Int
  top : Int
  positive : 0 < digits
  wide : least + digits ≤ top

def binary64 : FloatFormat := ⟨53, -1074, 1024, by decide, by decide⟩

namespace FloatFormat

variable (F : FloatFormat)

/-- The exponent of the last digit that a number keeps. -/
def exponent (q : ℚ) : Int := max (Int.log 2 |q| - (F.digits - 1)) F.least

def nearest (q : ℚ) : ℚ := roundHalfEven (q / 2 ^ F.exponent q) * 2 ^ F.exponent q

def round (q : ℚ) : Number :=
  if |F.nearest q| < 2 ^ F.top then .finite (F.nearest q) else .infinite (q < 0)

/-- Half way from the largest float to `2 ^ top`. -/
def overflow : ℚ := 2 ^ F.top - 2 ^ (F.top - F.digits - 1)

def largest : ℚ := 2 ^ F.top - 2 ^ (F.top - F.digits)

/-! ### Exponents -/

theorem two_zpow_pos (e : Int) : (0 : ℚ) < 2 ^ e := zpow_pos two_pos e

theorem two_zpow_add (m n : Int) : (2 : ℚ) ^ (m + n) = 2 ^ m * 2 ^ n :=
  zpow_add₀ two_ne_zero m n

theorem two_zpow_le {m n : Int} (le : m ≤ n) : (2 : ℚ) ^ m ≤ 2 ^ n :=
  zpow_le_zpow_right₀ one_le_two le

@[simp] theorem exponent_neg (q : ℚ) : F.exponent (-q) = F.exponent q := by
  rw [exponent, exponent, abs_neg]

theorem abs_lt_two_zpow (q : ℚ) : |q| < 2 ^ (F.exponent q + F.digits) := by
  have above : |q| < 2 ^ (Int.log 2 |q| + 1) := Int.lt_zpow_succ_log_self one_lt_two |q|
  have kept := le_max_left (Int.log 2 |q| - (F.digits - 1)) F.least
  refine above.trans_le (two_zpow_le ?_)
  rw [exponent]
  omega

theorem two_zpow_le_abs {q : ℚ} (nonzero : q ≠ 0) (above : F.least < F.exponent q) :
    2 ^ (F.exponent q + F.digits - 1) ≤ |q| := by
  have below : (2 : ℚ) ^ Int.log 2 |q| ≤ |q| :=
    Int.zpow_log_le_self one_lt_two (abs_pos.mpr nonzero)
  refine (two_zpow_le ?_).trans below
  rw [exponent] at above ⊢
  omega

theorem exponent_le_of_lt {q : ℚ} (nonzero : q ≠ 0) {e : Int} (least : F.least ≤ e)
    (lt : |q| < 2 ^ (e + F.digits)) : F.exponent q ≤ e := by
  have below := (Int.lt_zpow_iff_log_lt one_lt_two (abs_pos.mpr nonzero)).mp lt
  refine max_le ?_ least
  omega

theorem exponent_mono {p q : ℚ} (positive : 0 < p) (le : p ≤ q) : F.exponent p ≤ F.exponent q := by
  rw [exponent, exponent, abs_of_pos positive, abs_of_pos (positive.trans_le le)]
  have more := Int.log_mono_right (b := 2) positive le
  omega

/-! ### The nearest number -/

theorem nearest_le {q : ℚ} {n : Int} (le : q ≤ n * 2 ^ F.exponent q) :
    F.nearest q ≤ n * 2 ^ F.exponent q := by
  have unit := two_zpow_pos (F.exponent q)
  have scaled : roundHalfEven (q / 2 ^ F.exponent q) ≤ n :=
    roundHalfEven_le ((div_le_iff₀ unit).mpr le)
  exact mul_le_mul_of_nonneg_right (by exact_mod_cast scaled) unit.le

theorem le_nearest {q : ℚ} {n : Int} (le : n * 2 ^ F.exponent q ≤ q) :
    n * 2 ^ F.exponent q ≤ F.nearest q := by
  have unit := two_zpow_pos (F.exponent q)
  have scaled : n ≤ roundHalfEven (q / 2 ^ F.exponent q) :=
    le_roundHalfEven ((le_div_iff₀ unit).mpr le)
  exact mul_le_mul_of_nonneg_right (by exact_mod_cast scaled) unit.le

@[simp] theorem nearest_neg (q : ℚ) : F.nearest (-q) = -F.nearest q := by
  rw [nearest, nearest, exponent_neg, neg_div, roundHalfEven_neg]
  push_cast
  ring

theorem nearest_nonneg {q : ℚ} (nonneg : 0 ≤ q) : 0 ≤ F.nearest q := by
  have least := F.le_nearest (q := q) (n := 0) (by simpa using nonneg)
  simpa using least

theorem nearest_le_two_zpow (q : ℚ) : F.nearest q ≤ 2 ^ (F.exponent q + F.digits) := by
  have power : ((2 ^ F.digits : Int) : ℚ) * 2 ^ F.exponent q = 2 ^ (F.exponent q + F.digits) := by
    rw [add_comm, two_zpow_add, zpow_natCast]
    push_cast
    rfl
  rw [← power]
  apply F.nearest_le
  rw [power]
  exact (le_abs_self q).trans (F.abs_lt_two_zpow q).le

theorem two_zpow_le_nearest {q : ℚ} (positive : 0 < q) (above : F.least < F.exponent q) :
    2 ^ (F.exponent q + F.digits - 1) ≤ F.nearest q := by
  have size := F.two_zpow_le_abs positive.ne' above
  rw [abs_of_pos positive] at size
  have some := F.positive
  have power : ((2 ^ (F.digits - 1) : Int) : ℚ) * 2 ^ F.exponent q =
      2 ^ (F.exponent q + F.digits - 1) := by
    have split : F.exponent q + F.digits - 1 = ((F.digits - 1 : Nat) : Int) + F.exponent q := by
      omega
    rw [split, two_zpow_add, zpow_natCast]
    push_cast
    rfl
  rw [← power]
  apply F.le_nearest
  rw [power]
  exact size

theorem nearest_mono_of_pos {p q : ℚ} (positive : 0 < p) (le : p ≤ q) :
    F.nearest p ≤ F.nearest q := by
  rcases (F.exponent_mono positive le).lt_or_eq with before | same
  · -- a power of two is between them
    have above : F.least < F.exponent q := (le_max_right _ _).trans_lt before
    calc F.nearest p ≤ 2 ^ (F.exponent p + F.digits) := F.nearest_le_two_zpow p
      _ ≤ 2 ^ (F.exponent q + F.digits - 1) := two_zpow_le (by omega)
      _ ≤ F.nearest q := F.two_zpow_le_nearest (positive.trans_le le) above
  · rw [nearest, nearest, same]
    have unit := two_zpow_pos (F.exponent q)
    have scaled : roundHalfEven (p / 2 ^ F.exponent q) ≤ roundHalfEven (q / 2 ^ F.exponent q) :=
      roundHalfEven_mono (div_le_div_of_nonneg_right le unit.le)
    exact mul_le_mul_of_nonneg_right (by exact_mod_cast scaled) unit.le

theorem nearest_mono {p q : ℚ} (le : p ≤ q) : F.nearest p ≤ F.nearest q := by
  rcases lt_or_ge 0 p with positive | negative
  · exact F.nearest_mono_of_pos positive le
  · have below : F.nearest p ≤ 0 := by
      have opposite := F.nearest_nonneg (neg_nonneg.mpr negative)
      rw [nearest_neg] at opposite
      linarith
    rcases le_or_gt 0 q with nonneg | below'
    · exact below.trans (F.nearest_nonneg nonneg)
    · have opposite := F.nearest_mono_of_pos (neg_pos.mpr below') (neg_le_neg le)
      rw [nearest_neg, nearest_neg] at opposite
      linarith

theorem abs_nearest (q : ℚ) : |F.nearest q| = F.nearest |q| := by
  rcases abs_cases q with ⟨same, nonneg⟩ | ⟨same, negative⟩
  · rw [same, abs_of_nonneg (F.nearest_nonneg nonneg)]
  · have opposite := F.nearest_nonneg (neg_nonneg.mpr negative.le)
    rw [same, nearest_neg]
    rw [nearest_neg] at opposite
    exact abs_of_nonpos (by linarith)

/-- A number with few enough digits is kept. -/
theorem nearest_intCast_mul {k e : Int} (least : F.least ≤ e) (short : |k| < 2 ^ F.digits) :
    F.nearest (k * 2 ^ e) = k * 2 ^ e := by
  by_cases zero : k = 0
  · simp [zero, nearest, roundHalfEven]
  · have unit := two_zpow_pos e
    have nonzero : (k : ℚ) * 2 ^ e ≠ 0 := mul_ne_zero (by exact_mod_cast zero) unit.ne'
    have size : |(k : ℚ) * 2 ^ e| < 2 ^ (e + F.digits) := by
      rw [abs_mul, abs_of_pos unit, add_comm, two_zpow_add, zpow_natCast]
      exact mul_lt_mul_of_pos_right (by exact_mod_cast short) unit
    obtain ⟨d, more⟩ : ∃ d : Nat, e = d + F.exponent (k * 2 ^ e) := by
      have below := F.exponent_le_of_lt nonzero least size
      exact ⟨(e - F.exponent (k * 2 ^ e)).toNat, by omega⟩
    have scaled : (k : ℚ) * 2 ^ e / 2 ^ F.exponent (k * 2 ^ e) = (k * 2 ^ d : Int) := by
      rw [div_eq_iff (two_zpow_pos _).ne']
      nth_rewrite 1 [more]
      rw [two_zpow_add, zpow_natCast]
      push_cast
      ring
    rw [nearest, scaled, roundHalfEven_intCast, ← scaled, div_mul_cancel₀ _ (two_zpow_pos _).ne']

theorem nearest_nearest (q : ℚ) : F.nearest (F.nearest q) = F.nearest q := by
  have unit := two_zpow_pos (F.exponent q)
  have least : F.least ≤ F.exponent q := le_max_right _ _
  have size : |F.nearest q| ≤ 2 ^ (F.exponent q + F.digits) := by
    rw [abs_nearest]
    have bound := F.nearest_le_two_zpow |q|
    rwa [exponent, abs_abs] at bound
  have scaled : |roundHalfEven (q / 2 ^ F.exponent q)| ≤ (2 : Int) ^ F.digits := by
    rw [nearest, abs_mul, abs_of_pos unit, add_comm, two_zpow_add, zpow_natCast] at size
    have both := le_of_mul_le_mul_right size unit
    exact_mod_cast both
  rcases scaled.lt_or_eq with short | full
  · exact F.nearest_intCast_mul least short
  · -- a power of two, which is one digit at another exponent
    have one : (1 : Int) < 2 ^ F.digits := one_lt_pow₀ one_lt_two F.positive.ne'
    have single : |Int.sign (roundHalfEven (q / 2 ^ F.exponent q))| < (2 : Int) ^ F.digits := by
      rcases Int.sign_trichotomy (roundHalfEven (q / 2 ^ F.exponent q)) with sign | sign | sign <;>
        rw [sign] <;> simp <;> omega
    have power : F.nearest q = Int.sign (roundHalfEven (q / 2 ^ F.exponent q)) *
        2 ^ (F.exponent q + F.digits) := by
      rw [nearest, add_comm, two_zpow_add, zpow_natCast, ← mul_assoc]
      nth_rewrite 1 [← Int.sign_mul_abs (roundHalfEven (q / 2 ^ F.exponent q)), full]
      push_cast
      rfl
    rw [power]
    exact F.nearest_intCast_mul (by omega) single

/-! ### Overflow -/

theorem two_zpow_top : (2 : ℚ) ^ F.digits * 2 ^ (F.top - F.digits) = 2 ^ F.top := by
  rw [← zpow_natCast, ← two_zpow_add]
  congr 1
  omega

theorem half_zpow : (2 : ℚ) ^ (F.top - F.digits - 1) = 1 / 2 * 2 ^ (F.top - F.digits) := by
  rw [zpow_sub_one₀ two_ne_zero]
  ring

theorem largest_lt_overflow : F.largest < F.overflow := by
  have unit := two_zpow_pos (F.top - F.digits)
  rw [largest, overflow, half_zpow]
  linarith

theorem two_zpow_pred_le_largest : 2 ^ (F.top - 1) ≤ F.largest := by
  have some := F.positive
  have less : (2 : ℚ) ^ (F.top - F.digits) ≤ 2 ^ (F.top - 1) := two_zpow_le (by omega)
  have double : (2 : ℚ) ^ F.top = 2 * 2 ^ (F.top - 1) := by
    rw [zpow_sub_one₀ two_ne_zero]
    ring
  rw [largest, double]
  linarith

theorem largest_pos : 0 < F.largest := (two_zpow_pos _).trans_le F.two_zpow_pred_le_largest

theorem overflow_pos : 0 < F.overflow := F.largest_pos.trans F.largest_lt_overflow

theorem overflow_lt_two_zpow : F.overflow < 2 ^ F.top := by
  have unit := two_zpow_pos (F.top - F.digits - 1)
  rw [overflow]
  linarith

theorem exponent_le_top {q : ℚ} (nonzero : q ≠ 0) (below : |q| < 2 ^ F.top) :
    F.exponent q ≤ F.top - F.digits := by
  have wide := F.wide
  exact F.exponent_le_of_lt nonzero (by omega) (by rwa [sub_add_cancel])

/-- Below half way to `2 ^ top` a number is rounded to a float. -/
theorem abs_nearest_le_largest {q : ℚ} (below : |q| < F.overflow) : |F.nearest q| ≤ F.largest := by
  rw [abs_nearest]
  rcases (abs_nonneg q).lt_or_eq with positive | zero
  · have under : |(|q|)| < 2 ^ F.top := by
      rw [abs_abs]
      exact below.trans F.overflow_lt_two_zpow
    rcases (F.exponent_le_top positive.ne' under).lt_or_eq with before | last
    · calc F.nearest |q| ≤ 2 ^ (F.exponent |q| + F.digits) := F.nearest_le_two_zpow _
        _ ≤ 2 ^ (F.top - 1) := two_zpow_le (by omega)
        _ ≤ F.largest := F.two_zpow_pred_le_largest
    · have unit := two_zpow_pos (F.top - F.digits)
      have scaled : |q| / 2 ^ (F.top - F.digits) < ((2 ^ F.digits - 1 : Int) : ℚ) + 1 / 2 := by
        rw [div_lt_iff₀ unit]
        rw [overflow, half_zpow, ← two_zpow_top] at below
        push_cast
        linarith
      have rounded := roundHalfEven_le_of_lt_half scaled
      have bound :
          ((roundHalfEven (|q| / 2 ^ (F.top - F.digits)) : Int) : ℚ) ≤ 2 ^ F.digits - 1 := by
        exact_mod_cast rounded
      rw [nearest, last, largest, ← two_zpow_top]
      calc _ ≤ ((2 : ℚ) ^ F.digits - 1) * 2 ^ (F.top - F.digits) :=
            mul_le_mul_of_nonneg_right bound unit.le
        _ = _ := by ring
  · rw [← zero]
    have none : F.nearest 0 = 0 := by simp [nearest, roundHalfEven]
    rw [none]
    exact F.largest_pos.le

theorem exponent_overflow : F.exponent F.overflow = F.top - F.digits := by
  have size : |F.overflow| = F.overflow := abs_of_pos F.overflow_pos
  apply le_antisymm
  · apply F.exponent_le_top F.overflow_pos.ne'
    rw [size]
    exact F.overflow_lt_two_zpow
  · have least : (2 : ℚ) ^ (F.top - 1) ≤ F.overflow :=
      F.two_zpow_pred_le_largest.trans F.largest_lt_overflow.le
    have log := (Int.zpow_le_iff_le_log one_lt_two F.overflow_pos).mp least
    rw [exponent, size]
    omega

theorem two_zpow_le_abs_nearest {q : ℚ} (above : F.overflow ≤ |q|) : 2 ^ F.top ≤ |F.nearest q| := by
  rw [abs_nearest]
  refine le_trans ?_ (F.nearest_mono above)
  have unit := two_zpow_pos (F.top - F.digits)
  have some := F.positive
  have odd : ((2 : Int) ^ F.digits - 1) % 2 = 1 := by
    obtain ⟨d, same⟩ : ∃ d, F.digits = d + 1 := ⟨F.digits - 1, by omega⟩
    rw [same, pow_succ]
    omega
  have scaled : ((2 ^ F.digits - 1 : Int) : ℚ) + 1 / 2 ≤ F.overflow / 2 ^ (F.top - F.digits) := by
    rw [le_div_iff₀ unit, overflow, half_zpow, ← two_zpow_top]
    push_cast
    linarith
  have rounded := lt_roundHalfEven_of_half_le odd scaled
  have bound :
      (2 : ℚ) ^ F.digits ≤ (roundHalfEven (F.overflow / 2 ^ (F.top - F.digits)) : Int) := by
    have whole : (2 : Int) ^ F.digits ≤ roundHalfEven (F.overflow / 2 ^ (F.top - F.digits)) := by
      omega
    exact_mod_cast whole
  rw [nearest, exponent_overflow, ← two_zpow_top]
  exact mul_le_mul_of_nonneg_right bound unit.le

theorem largest_lt_two_zpow : F.largest < 2 ^ F.top :=
  F.largest_lt_overflow.trans F.overflow_lt_two_zpow

/-! ### Rounding -/

theorem round_eq_nearest {q : ℚ} (below : |q| < F.overflow) : F.round q = .finite (F.nearest q) :=
  if_pos ((F.abs_nearest_le_largest below).trans_lt F.largest_lt_two_zpow)

theorem round_eq_infinite {q : ℚ} (above : F.overflow ≤ |q|) : F.round q = .infinite (q < 0) :=
  if_neg (not_lt.mpr (F.two_zpow_le_abs_nearest above))

theorem round_isFinite_iff {q : ℚ} : (F.round q).IsFinite ↔ |q| < F.overflow := by
  rcases lt_or_ge |q| F.overflow with below | above
  · rw [F.round_eq_nearest below]
    exact iff_of_true (Number.isFinite_finite _) below
  · rw [F.round_eq_infinite above]
    exact iff_of_false (Number.not_isFinite_infinite _) (not_lt.mpr above)

theorem round_eq_finite {q r : ℚ} (rounded : F.round q = .finite r) :
    |q| < F.overflow ∧ r = F.nearest q := by
  have below : |q| < F.overflow := F.round_isFinite_iff.mp ⟨r, rounded⟩
  rw [F.round_eq_nearest below] at rounded
  exact ⟨below, (Number.finite.inj rounded).symm⟩

theorem round_round {q r : ℚ} (rounded : F.round q = .finite r) : F.round r = .finite r := by
  obtain ⟨below, rfl⟩ := F.round_eq_finite rounded
  have size := F.abs_nearest_le_largest below
  rw [F.round_eq_nearest (size.trans_lt F.largest_lt_overflow), nearest_nearest]

theorem abs_le_largest {r : ℚ} (float : F.round r = .finite r) : |r| ≤ F.largest := by
  obtain ⟨below, same⟩ := F.round_eq_finite float
  rw [same]
  exact F.abs_nearest_le_largest below

theorem round_mono {p q r s : ℚ} (le : p ≤ q) (first : F.round p = .finite r)
    (second : F.round q = .finite s) : r ≤ s := by
  rw [(F.round_eq_finite first).2, (F.round_eq_finite second).2]
  exact F.nearest_mono le

@[simp] theorem round_neg (q : ℚ) : F.round (-q) = (F.round q).neg := by
  rcases lt_or_ge |q| F.overflow with below | above
  · rw [F.round_eq_nearest below, F.round_eq_nearest (by rwa [abs_neg]), nearest_neg, Number.neg]
  · have nonzero : q ≠ 0 := by
      rintro rfl
      rw [abs_zero] at above
      exact absurd F.overflow_pos (not_lt.mpr above)
    rw [F.round_eq_infinite above, F.round_eq_infinite (by rwa [abs_neg]), Number.neg]
    rcases nonzero.lt_or_gt with negative | positive
    · simp [negative, negative.le]
    · simp [positive, positive.le]

/-- What is no larger than a float is rounded to one that is no larger. -/
theorem round_of_abs_le {q a : ℚ} (float : F.round a = .finite a) (le : |q| ≤ |a|) :
    ∃ r, F.round q = .finite r ∧ |r| ≤ |a| := by
  obtain ⟨below, kept⟩ := F.round_eq_finite float
  refine ⟨_, F.round_eq_nearest (le.trans_lt below), ?_⟩
  calc |F.nearest q| = F.nearest |q| := F.abs_nearest q
    _ ≤ F.nearest |a| := F.nearest_mono le
    _ = |a| := by rw [← abs_nearest, ← kept]

theorem round_intCast_mul {k e : Int} (least : F.least ≤ e) (short : |k| < 2 ^ F.digits)
    (small : e + F.digits ≤ F.top) : F.round (k * 2 ^ e) = .finite (k * 2 ^ e) := by
  have kept := F.nearest_intCast_mul least short
  have unit := two_zpow_pos e
  have inside : |F.nearest (k * 2 ^ e)| < 2 ^ F.top := by
    calc |F.nearest (k * 2 ^ e)| = |(k : ℚ)| * 2 ^ e := by rw [kept, abs_mul, abs_of_pos unit]
      _ < 2 ^ F.digits * 2 ^ e := mul_lt_mul_of_pos_right (by exact_mod_cast short) unit
      _ = 2 ^ (e + F.digits) := by rw [add_comm, two_zpow_add, zpow_natCast]
      _ ≤ 2 ^ F.top := two_zpow_le small
  rw [round, if_pos inside, kept]

theorem round_ne_nan (q : ℚ) : F.round q ≠ .nan := by
  rw [round]
  split <;> exact Number.noConfusion

theorem largest_add : F.largest + 2 ^ (F.top - F.digits - 1) = F.overflow := by
  rw [largest, overflow, half_zpow]
  ring

end FloatFormat

theorem binary64_largest_add : binary64.largest + 2 ^ 970 = binary64.overflow :=
  binary64.largest_add

theorem binary64_lt_overflow {q : ℚ} (small : q ≤ 2 ^ 53) : q < binary64.overflow :=
  calc q ≤ 2 ^ 53 := small
    _ = 2 ^ (53 : Int) := by norm_cast
    _ ≤ 2 ^ (1023 : Int) := FloatFormat.two_zpow_le (by decide)
    _ ≤ binary64.largest := binary64.two_zpow_pred_le_largest
    _ < binary64.overflow := binary64.largest_lt_overflow

theorem binary64_intCast {n : Int} (small : |n| < 2 ^ 53) : binary64.round n = .finite n := by
  have kept := binary64.round_intCast_mul (k := n) (e := 0) (by decide) small (by decide)
  rwa [zpow_zero, mul_one] at kept

end PyValue
