import Mathlib.Data.Rat.Floor
import Mathlib.Tactic.Linarith

/-!
# Numbers with infinities

The rational numbers beside two infinities and NaN, as floating-point arithmetic orders and combines
them: every operation is exact, and then a parameter rounds the result. Rounding to an integer is
half to even.
-/

namespace PyValue

/-! ### Rounding to an integer -/

/-- Rounding to the nearest integer, to the even one from half way. -/
def roundHalfEven (q : ℚ) : Int :=
  let below := ⌊q⌋
  if q - below < 1 / 2 then below
  else if 1 / 2 < q - below then below + 1
  else if below % 2 = 0 then below
  else below + 1

@[simp] theorem roundHalfEven_intCast (n : Int) : roundHalfEven n = n := by
  simp [roundHalfEven]

theorem floor_le_roundHalfEven (q : ℚ) : ⌊q⌋ ≤ roundHalfEven q := by
  unfold roundHalfEven
  dsimp only
  split_ifs <;> omega

theorem roundHalfEven_le_floor_add_one (q : ℚ) : roundHalfEven q ≤ ⌊q⌋ + 1 := by
  unfold roundHalfEven
  dsimp only
  split_ifs <;> omega

theorem roundHalfEven_mono {p q : ℚ} (le : p ≤ q) : roundHalfEven p ≤ roundHalfEven q := by
  rcases (Int.floor_le_floor le).lt_or_eq with before | same
  · calc roundHalfEven p ≤ ⌊p⌋ + 1 := roundHalfEven_le_floor_add_one p
      _ ≤ ⌊q⌋ := before
      _ ≤ roundHalfEven q := floor_le_roundHalfEven q
  · -- Between the same two integers the larger number is rounded up if the smaller one is.
    unfold roundHalfEven
    dsimp only
    rw [same]
    have fraction : p - ⌊q⌋ ≤ q - ⌊q⌋ := sub_le_sub_right le _
    split_ifs <;> first | omega | linarith

theorem abs_roundHalfEven_sub_le (q : ℚ) : |(roundHalfEven q : ℚ) - q| ≤ 1 / 2 := by
  have below := Int.floor_le q
  have above := Int.lt_floor_add_one q
  unfold roundHalfEven
  dsimp only
  rw [abs_le]
  split_ifs <;> push_cast <;> constructor <;> linarith

@[simp] theorem roundHalfEven_neg (q : ℚ) : roundHalfEven (-q) = -roundHalfEven q := by
  have below := Int.floor_le q
  have above := Int.lt_floor_add_one q
  rcases below.lt_or_eq with between | same
  · have floor : ⌊-q⌋ = -⌊q⌋ - 1 := by
      rw [Int.floor_eq_iff]
      push_cast
      constructor <;> linarith
    have fraction : -q - (-⌊q⌋ - 1 : Int) = 1 - (q - ⌊q⌋) := by
      push_cast
      ring
    unfold roundHalfEven
    dsimp only
    rw [floor, fraction]
    split_ifs <;> first | omega | linarith
  · rw [← same, ← Int.cast_neg, roundHalfEven_intCast, roundHalfEven_intCast]

theorem roundHalfEven_le {q : ℚ} {n : Int} (le : q ≤ n) : roundHalfEven q ≤ n := by
  rw [← roundHalfEven_intCast n]
  exact roundHalfEven_mono le

theorem le_roundHalfEven {q : ℚ} {n : Int} (le : n ≤ q) : n ≤ roundHalfEven q := by
  rw [← roundHalfEven_intCast n]
  exact roundHalfEven_mono le

theorem roundHalfEven_le_of_lt_half {q : ℚ} {n : Int} (lt : q < n + 1 / 2) :
    roundHalfEven q ≤ n := by
  have below := Int.floor_le q
  rcases lt_trichotomy ⌊q⌋ n with before | same | after
  · have above := roundHalfEven_le_floor_add_one q
    omega
  · unfold roundHalfEven
    dsimp only
    rw [if_pos (by rw [same]; linarith), same]
  · have more : (n : ℚ) + 1 ≤ ⌊q⌋ := by exact_mod_cast after
    linarith

theorem lt_roundHalfEven_of_half_le {q : ℚ} {n : Int} (odd : n % 2 = 1) (le : n + 1 / 2 ≤ q) :
    n < roundHalfEven q := by
  have above := Int.lt_floor_add_one q
  rcases lt_trichotomy ⌊q⌋ n with before | same | after
  · have less : (⌊q⌋ : ℚ) + 1 ≤ n := by exact_mod_cast before
    linarith
  · unfold roundHalfEven
    dsimp only
    rw [same]
    split_ifs <;> first | omega | linarith
  · have least := floor_le_roundHalfEven q
    omega

/-! ### Numbers -/

inductive Number where
  | finite (q : ℚ)
  | infinite (negative : Bool)
  | nan
  deriving DecidableEq

namespace Number

def negative : Number → Bool
  | .finite q => q < 0
  | .infinite n => n
  | .nan => false

def neg : Number → Number
  | .finite q => .finite (-q)
  | .infinite n => .infinite !n
  | .nan => .nan

section Arithmetic

-- `fl` rounds an exact result
variable (fl : ℚ → Number)

def add : Number → Number → Number
  | .finite p, .finite q => fl (p + q)
  | .nan, _ | _, .nan => .nan
  | .infinite m, .infinite n => if m = n then .infinite m else .nan
  | .infinite m, _ | _, .infinite m => .infinite m

def mul : Number → Number → Number
  | .finite p, .finite q => fl (p * q)
  | .nan, _ | _, .nan => .nan
  | x, y => if x = .finite 0 ∨ y = .finite 0 then .nan else .infinite (xor x.negative y.negative)

def div : Number → Number → Number
  | .finite p, .finite q => fl (p / q)
  | .nan, _ | _, .nan | .infinite _, .infinite _ => .nan
  | .finite _, .infinite _ => .finite 0
  | .infinite n, .finite q => .infinite (xor n (q < 0))

end Arithmetic

/-- `x < y`, false on NaN. -/
def lt : Number → Number → Bool
  | .finite p, .finite q => p < q
  | .nan, _ | _, .nan => false
  | .infinite m, .infinite n => m && !n
  | .infinite m, .finite _ => m
  | .finite _, .infinite n => !n

/-- `x == y`, false on NaN. -/
def beq : Number → Number → Bool
  | .nan, _ => false
  | x, y => x = y

@[simp] theorem lt_irrefl (x : Number) : x.lt x = false := by
  cases x <;> simp [lt]

@[simp] theorem nan_lt (x : Number) : lt .nan x = false := by
  cases x <;> rfl

@[simp] theorem lt_nan (x : Number) : x.lt .nan = false := by
  cases x <;> rfl

@[simp] theorem posInf_lt (x : Number) : lt (.infinite false) x = false := by
  cases x <;> rfl

@[simp] theorem lt_negInf (x : Number) : x.lt (.infinite true) = false := by
  cases x with
  | finite | nan => rfl
  | infinite n => cases n <;> rfl

theorem lt_posInf_eq_false {x : Number} :
    x.lt (.infinite false) = false ↔ x = .infinite false ∨ x = .nan := by
  cases x with
  | finite | nan => simp [lt]
  | infinite n => cases n <;> simp [lt]

theorem negInf_lt_eq_false {x : Number} :
    lt (.infinite true) x = false ↔ x = .infinite true ∨ x = .nan := by
  cases x with
  | finite | nan => simp [lt]
  | infinite n => cases n <;> simp [lt]

def IsFinite (x : Number) : Prop := ∃ q, x = .finite q

@[simp] theorem isFinite_finite (q : ℚ) : IsFinite (.finite q) := ⟨q, rfl⟩

@[simp] theorem not_isFinite_infinite (negative : Bool) : ¬ IsFinite (.infinite negative) := by
  rintro ⟨q, same⟩
  cases same

@[simp] theorem not_isFinite_nan : ¬ IsFinite .nan := by
  rintro ⟨q, same⟩
  cases same

variable {fl : ℚ → Number}

theorem isFinite_of_add {x y : Number} (finite : (x.add fl y).IsFinite) :
    x.IsFinite ∧ y.IsFinite := by
  cases x with
  | finite p => cases y <;> simp_all [add]
  | nan => simp [add] at finite
  | infinite m =>
    cases y with
    | finite | nan => simp [add] at finite
    | infinite n =>
      simp only [add] at finite
      split at finite <;> simp at finite

theorem isFinite_of_mul {x y : Number} (finite : (x.mul fl y).IsFinite) :
    x.IsFinite ∧ y.IsFinite := by
  cases x with
  | finite p =>
    cases y with
    | finite | nan => simp_all [mul]
    | infinite n =>
      simp only [mul] at finite
      split at finite <;> simp at finite
  | nan => simp [mul] at finite
  | infinite m =>
    cases y with
    | nan => simp [mul] at finite
    | finite | infinite =>
      simp only [mul] at finite
      split at finite <;> simp at finite

theorem isFinite_of_div {x y : Number} (finite : (x.div fl y).IsFinite) :
    x.IsFinite ∧ y ≠ .nan := by
  cases x <;> cases y <;> simp_all [div]

/-! Rounding does not matter to what is not finite. -/

/-- The same number, or both of them finite. -/
def Near (x p : Number) : Prop := x = p ∨ x.IsFinite ∧ p.IsFinite

/-- A sum of two numbers, of which it says the more only if one of them is not finite. -/
def Sums (x y z : Number) : Prop := x.IsFinite ∧ y.IsFinite ∨ z = x.add .finite y

theorem Near.isFinite_iff {x p : Number} (near : x.Near p) : x.IsFinite ↔ p.IsFinite := by
  rcases near with rfl | ⟨first, second⟩
  · exact Iff.rfl
  · exact iff_of_true first second

theorem sums_of_near {x y p q : Number} (left : x.Near p) (right : y.Near q) :
    x.Sums y (p.add fl q) := by
  by_cases finite : x.IsFinite ∧ y.IsFinite
  · exact .inl finite
  · refine .inr ?_
    rcases left with rfl | ⟨⟨m, rfl⟩, p', rfl⟩
    · rcases right with rfl | ⟨⟨n, rfl⟩, q', rfl⟩
      · cases x <;> cases y <;> simp_all [add]
      · cases x <;> simp_all [add]
    · rcases right with rfl | both
      · cases y <;> simp_all [add]
      · exact absurd ⟨Number.isFinite_finite m, both.1⟩ finite

end Number

end PyValue
