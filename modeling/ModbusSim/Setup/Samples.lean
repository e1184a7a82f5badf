import ModbusSim.Setup.Generators

/-!
# Samples as numbers

`_bound` and `clamp_u16` on numbers. Bounds keep a number finite unless they are infinite on its side
(`bounded_isFinite_iff`), and clamping a finite number cannot fail.
-/

namespace ModbusSim.Setup

open PyStruct PyValue

/-! ### Bounded numbers -/

/-- `_bound` on numbers -/
def bounded (min max x : Number) : Number :=
  if x.lt min then min else if max.lt x then max else x

/-- A number that is finite, or that the bounds make so. -/
def Settles (min max : Number) : Number → Prop
  | .finite _ => True
  | .infinite false => max.IsFinite
  | .infinite true => min.IsFinite
  | .nan => False

theorem bounded_bounded {min max : Number} (ordered : max.lt min = false) (x : Number) :
    bounded min max (bounded min max x) = bounded min max x := by
  by_cases below : x.lt min = true
  · simp [bounded, below, ordered]
  · by_cases above : max.lt x = true
    · simp [bounded, below, above, ordered]
    · simp [bounded, below, above]

/-- Bounds of which the lower one is not `inf`, nor the upper one `-inf`. -/
def Loose (min max : Number) : Prop := min ≠ .infinite false ∧ max ≠ .infinite true

theorem bounded_isFinite_iff {min max : Number} (loose : Loose min max) (x : Number) :
    (bounded min max x).IsFinite ↔ Settles min max x := by
  obtain ⟨low, high⟩ := loose
  cases x with
  | finite q =>
    refine ⟨fun _ => trivial, fun _ => ?_⟩
    unfold bounded
    split
    next below =>
      cases min with
      | finite m => exact Number.isFinite_finite m
      | infinite n => cases n <;> simp_all
      | nan => simp at below
    next =>
      split
      next above =>
        cases max with
        | finite m => exact Number.isFinite_finite m
        | infinite n => cases n <;> simp_all
        | nan => simp at above
      next => exact Number.isFinite_finite q
  | infinite negative =>
    cases negative with
    | false =>
      by_cases above : max.lt (.infinite false) = true
      · simp [bounded, above, Settles]
      · rcases Number.lt_posInf_eq_false.mp (Bool.not_eq_true _ ▸ above) with rfl | rfl
        · simp [bounded, Settles]
        · simp [bounded, Settles]
    | true =>
      by_cases below : Number.lt (.infinite true) min = true
      · simp [bounded, below, Settles]
      · rcases Number.negInf_lt_eq_false.mp (Bool.not_eq_true _ ▸ below) with rfl | rfl
        · simp [bounded, Settles]
        · simp [bounded, Settles]
  | nan => simp [bounded, Settles]

theorem loose_of_bounded {min max x : Number} (ordered : max.lt min = false)
    (finite : (bounded min max x).IsFinite) : Loose min max := by
  constructor
  · rintro rfl
    have above : max.lt x = false := by
      rcases Number.lt_posInf_eq_false.mp ordered with rfl | rfl <;> simp
    by_cases below : x.lt (.infinite false) = true
    · simp [bounded, below] at finite
    · rcases Number.lt_posInf_eq_false.mp (Bool.not_eq_true _ ▸ below) with rfl | rfl
      · simp [bounded, above] at finite
      · simp [bounded] at finite
  · rintro rfl
    have below : x.lt min = false := by
      rcases Number.negInf_lt_eq_false.mp ordered with rfl | rfl <;> simp
    by_cases above : Number.lt (.infinite true) x = true
    · simp [bounded, below, above] at finite
    · rcases Number.negInf_lt_eq_false.mp (Bool.not_eq_true _ ▸ above) with rfl | rfl
      · simp [bounded, below] at finite
      · simp [bounded] at finite

/-! ### `_bound` -/

/-- Bounding a number among numbers picks one of the three values, as on numbers. -/
theorem bound_of_number {min max value : Value} {low high x : Number}
    (first : min.number? = some low) (second : max.number? = some high)
    (number : value.number? = some x) :
    ∃ z, Generator.bound min max value = .ok z ∧ z.number? = some (bounded low high x) ∧
      (z = min ∨ z = max ∨ z = value) := by
  rw [Generator.bound, Value.lt_of_number number first, Value.lt_of_number second number, bounded]
  by_cases below : x.lt low = true
  · exact ⟨min, by simp [below], by simp [below, first], .inl rfl⟩
  · by_cases above : high.lt x = true
    · exact ⟨max, by simp [below, above], by simp [below, above, second], .inr (.inl rfl)⟩
    · exact ⟨value, by simp [below, above], by simp [below, above, number], .inr (.inr rfl)⟩

theorem number_of_delta {step down : Value} {s : Number} (stepNumber : step.number? = some s)
    (negated : step.neg = .ok down) (up : Bool) :
    (if up then step else down).number? = some (if up then s else s.neg) := by
  obtain ⟨other, again, downNumber⟩ := Value.neg_of_number stepNumber
  cases negated.symm.trans again
  cases up
  · exact downNumber
  · exact stepNumber

/-! ### Periods -/

def Positive : Number → Prop
  | .finite q => 0 < q
  | .infinite negative => negative = false
  | .nan => True

theorem leZero_eq_false {x : Value} : x.leZero = .ok false ↔
    ∃ p, x.number? = some p ∧ Positive p := by
  rw [Value.leZero]
  cases x.number? with
  | none => simp [unsupported]
  | some p =>
    cases p with
    | finite q =>
      simp only [Number.lt, Number.beq, Positive, Option.some_inj, exists_eq_left', Except.ok.injEq,
        Bool.or_eq_false_iff, decide_eq_false_iff_not, Number.finite.injEq, not_lt]
      exact ⟨fun both => lt_of_le_of_ne both.1 (Ne.symm both.2), fun positive =>
        ⟨positive.le, positive.ne'⟩⟩
    | infinite negative => cases negative <;> simp [Number.lt, Number.beq, Positive]
    | nan => simp [Number.lt, Number.beq, Positive]

theorem positive_of_toFloat {x : Value} {p : Number} (accepted : x.leZero = .ok false)
    (converted : x.toFloat binary64.round = .ok p) : Positive p := by
  obtain ⟨q, number, positive⟩ := leZero_eq_false.mp accepted
  rcases Value.number_of_toFloat converted with same | ⟨n, r, int, rounded, rfl⟩
  · cases number.symm.trans same
    exact positive
  · cases number.symm.trans (Value.number_of_int int)
    have least : (1 : ℚ) ≤ n := by exact_mod_cast Int.add_one_le_iff.mpr (Int.cast_pos.mp positive)
    have one : binary64.round 1 = .finite 1 := by simpa using binary64_intCast (n := 1) (by decide)
    exact zero_lt_one.trans_le (binary64.round_mono least one rounded)

theorem isFinite_of_sine {lib : MathLib} {x : Number} {t : ℚ}
    (called : lib.sine x = .ok (.finite t)) : x.IsFinite := by
  cases x with
  | finite q => exact Number.isFinite_finite q
  | infinite | nan => cases called

/-! ### `clamp_u16` -/

/-- `clamp_u16` on numbers -/
def clamped (q : ℚ) : Int := max uint16Min (min uint16Max (roundHalfEven q))

theorem clampU16_of_number {value : Value} {q : ℚ} (number : value.number? = some (.finite q)) :
    clampU16 value = .ok (clamped q) := by
  rw [clampU16, Value.round_of_number number, Raise.ok_bind, clamped]
  have ordered : uint16Min ≤ uint16Max := by decide
  split
  next low => exact congrArg Except.ok (by omega)
  next low =>
    split
    next high => exact congrArg Except.ok (by omega)
    next high => exact congrArg Except.ok (by omega)

theorem finite_of_clampU16 {value : Value} {n : Int} (clamped : clampU16 value = .ok n) :
    ∃ q, value.number? = some (.finite q) := by
  obtain ⟨_, rounded, _⟩ := Raise.bind_eq_ok.mp clamped
  exact Value.finite_of_round rounded

theorem clamped_mono {p q : ℚ} (le : p ≤ q) : clamped p ≤ clamped q :=
  max_le_max le_rfl (min_le_min le_rfl (roundHalfEven_mono le))

end ModbusSim.Setup
