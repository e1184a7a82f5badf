import ModbusSim.Setup.Built
import ModbusSim.Setup.Samples

/-!
# Generators that keep sampling

Validation makes each generator once, building the store samples it, and every tick samples it
again. A generator is steady up to a time when its arguments are such that a sample has no reason to
raise, apart from sums that overflow the range of the floats, and roomy when there are none of
these. A generator of a steady and roomy specification keeps sampling (`Generator.Steady.sample`),
and if the first samples return, and one at the time, its specification is steady
(`GeneratorSpec.steady_of_first`).
-/

namespace ModbusSim.Setup

open PyStruct PyValue ModbusSim.Frame Store Dispatch StatefulRun

/-! ### Walks on numbers -/

/-- Numbers with which a random walk keeps to finite values, if no finite sum overflows. -/
structure SteadyWalk (start step min max : Number) : Prop where
  loose : Loose min max
  start : Settles min max start
  up : Settles min max step
  down : Settles min max step.neg

theorem settles_of_sum {min max step sum : Number} {q : ℚ} (sums : (Number.finite q).Sums step sum)
    (settles : Settles min max sum) : Settles min max step := by
  cases step with
  | finite d => trivial
  | infinite | nan =>
    rcases sums with ⟨_, finite⟩ | rfl
    · simp at finite
    · exact settles

theorem steadyWalk_of_first {start step min max first other : Number}
    (ordered : max.lt min = false) (up : (bounded min max start).Sums step first)
    (upFinite : (bounded min max first).IsFinite)
    (down : (bounded min max start).Sums step.neg other)
    (downFinite : (bounded min max other).IsFinite) : SteadyWalk start step min max := by
  have loose := loose_of_bounded ordered upFinite
  have again := bounded_bounded ordered start
  rw [bounded_isFinite_iff loose] at upFinite downFinite
  cases value : bounded min max start with
  | finite q =>
    rw [value] at up down
    exact ⟨loose, (bounded_isFinite_iff loose start).mp ⟨q, value⟩, settles_of_sum up upFinite,
      settles_of_sum down downFinite⟩
  | infinite negative =>
    -- A bounded infinite value is one that the bounds do not make finite.
    have unsettled : ¬ Settles min max (.infinite negative) := by
      rw [← bounded_isFinite_iff loose, ← value, again, value]
      exact Number.not_isFinite_infinite negative
    rw [value] at up
    rcases up with ⟨finite, _⟩ | rfl
    · simp at finite
    · cases step with
      | finite d => exact absurd upFinite unsettled
      | nan => exact absurd upFinite id
      | infinite other =>
        by_cases same : negative = other
        · simp only [Number.add, if_pos same] at upFinite
          exact absurd upFinite unsettled
        · simp only [Number.add, if_neg same] at upFinite
          exact absurd upFinite id
  | nan =>
    rw [value] at up
    rcases up with ⟨finite, _⟩ | rfl
    · simp at finite
    · cases step <;> exact absurd upFinite id

theorem SteadyWalk.next {start step min max : Number} (steady : SteadyWalk start step min max)
    (q : ℚ) : SteadyWalk (.finite q) step min max :=
  ⟨steady.loose, trivial, steady.up, steady.down⟩

/-! ### Walks in the range of the floats -/

def FloatOf (v : Value) (f : ℚ) : Prop :=
  v.toFloat binary64.round = .ok (.finite f) ∧ binary64.round f = .finite f

def Integral (v : Value) : Prop := ∃ n, v.int? = some n

def Finite (v : Value) : Prop := ∃ q, v.number? = some (.finite q)

theorem floatOf_int {n : Int} (small : |n| < 2 ^ 53) : FloatOf (.int n) n := by
  have float := binary64_intCast small
  refine ⟨?_, float⟩
  rw [Value.toFloat_of_int rfl, float]

theorem Integral.finite {v : Value} (integral : Integral v) : Finite v := by
  obtain ⟨n, int⟩ := integral
  exact ⟨n, Value.number_of_int int⟩

theorem FloatOf.finite {v : Value} {f : ℚ} (float : FloatOf v f) : Finite v := by
  rcases Value.number_of_toFloat float.1 with number | ⟨n, _, int, _⟩
  · exact ⟨f, number⟩
  · exact Integral.finite ⟨n, int⟩

/-- A walk that has no sum of floats, or none that leaves their range except to be cut at a bound:
below `2 ^ 970` a step is lost in the rounding at the end of the range. -/
inductive RoomyWalk (step min max value : Value) : Prop
  | integers (ofStep : Integral step) (ofMin : Finite min → Integral min)
    (ofMax : Finite max → Integral max) (ofValue : Finite value → Integral value)
  | floats (ofStep : Finite step → ∃ d, FloatOf step d) (ofMin : Finite min → ∃ f, FloatOf min f)
    (ofMax : Finite max → ∃ f, FloatOf max f)
    (ofValue : Finite value → (∃ f, FloatOf value f) ∨ Integral value ∧ Integral step)
    (cut : (Finite min ∧ Finite max) ∨ ∀ d, FloatOf step d → |d| < 2 ^ 970)

theorem RoomyWalk.bound {step min max value next : Value} (roomy : RoomyWalk step min max value)
    (is : next = min ∨ next = max) : RoomyWalk step min max next := by
  cases roomy with
  | integers ofStep ofMin ofMax _ =>
    refine .integers ofStep ofMin ofMax fun finite => ?_
    rcases is with rfl | rfl
    · exact ofMin finite
    · exact ofMax finite
  | floats ofStep ofMin ofMax _ cut =>
    refine .floats ofStep ofMin ofMax (fun finite => .inl ?_) cut
    rcases is with rfl | rfl
    · exact ofMin finite
    · exact ofMax finite

def Taken (step delta : Value) : Prop := delta = step ∨ step.neg = .ok delta

theorem Taken.integral {step delta : Value} (taken : Taken step delta) :
    Integral delta ↔ Integral step := by
  rcases taken with rfl | negated
  · exact Iff.rfl
  · cases step <;> cases negated <;> simp [Integral, Value.int?]

theorem Taken.floatOf {step delta : Value} (taken : Taken step delta) {d : ℚ}
    (float : FloatOf step d) : ∃ e, FloatOf delta e ∧ |e| = |d| := by
  rcases taken with rfl | negated
  · exact ⟨d, float, rfl⟩
  · obtain ⟨converted, kept⟩ := float
    have opposite : binary64.round (-d) = .finite (-d) := by
      rw [FloatFormat.round_neg, kept, Number.neg]
    refine ⟨-d, ⟨?_, opposite⟩, abs_neg d⟩
    cases int : step.int? with
    | some n =>
      rw [Value.toFloat_of_int int] at converted
      rw [Value.toFloat_of_int (Value.int_of_neg int negated), Int.cast_neg, FloatFormat.round_neg]
      cases rounded : binary64.round n with
      | finite q =>
        rw [rounded] at converted
        cases converted
        rfl
      | infinite | nan =>
        rw [rounded] at converted
        cases converted
    | none =>
      cases step with
      | float x =>
        cases converted
        cases negated
        rfl
      | bool | int => cases int
      | _ => cases converted

theorem Taken.number {step delta : Value} (taken : Taken step delta) {s : Number}
    (number : step.number? = some s) :
    delta.number? = some s ∨ delta.number? = some s.neg := by
  rcases taken with rfl | negated
  · exact .inl number
  · obtain ⟨z, again, opposite⟩ := Value.neg_of_number number
    cases negated.symm.trans again
    exact .inr opposite

theorem Taken.finite {step delta : Value} (taken : Taken step delta) :
    Finite delta ↔ Finite step := by
  rcases taken with rfl | negated
  · exact Iff.rfl
  · obtain ⟨m, number⟩ := Value.number_of_neg negated
    obtain ⟨z, again, opposite⟩ := Value.neg_of_number number
    cases negated.symm.trans again
    rw [Finite, Finite, number, opposite]
    cases m <;> simp [Number.neg]

theorem toFloat_of_not_finite {v : Value} {n : Number} (number : v.number? = some n)
    (infinite : ¬ n.IsFinite) : v.toFloat binary64.round = .ok n := by
  cases v with
  | float x => cases number; rfl
  | bool | int =>
    cases number
    exact absurd (Number.isFinite_finite _) infinite
  | _ => cases number

theorem settles_of_cut {min max sum : Number} (isNumber : sum ≠ .nan)
    (cut : sum.IsFinite ∨ min.IsFinite ∧ max.IsFinite) : Settles min max sum := by
  cases sum with
  | finite q => trivial
  | infinite n =>
    rcases cut with finite | ⟨low, high⟩
    · simp at finite
    · cases n
      · exact high
      · exact low
  | nan => exact isNumber rfl

theorem int?_none_of_not_both {v w : Value} (both : ¬ (Integral v ∧ Integral w)) :
    v.int? = none ∨ w.int? = none := by
  cases left : v.int? with
  | none => exact .inl rfl
  | some k =>
    cases right : w.int? with
    | none => exact .inr rfl
    | some l => exact absurd ⟨⟨k, left⟩, l, right⟩ both

/-- A float and a step that is lost at the end of the range, or cut at both bounds, have a sum that
settles. -/
theorem settles_of_floats {f e : ℚ} (kept : binary64.round f = .finite f) {low high : Number}
    (cut : (low.IsFinite ∧ high.IsFinite) ∨ |e| < 2 ^ 970) :
    Settles low high ((Number.finite f).add binary64.round (.finite e)) := by
  apply settles_of_cut (by rw [Number.add]; exact FloatFormat.round_ne_nan _ _)
  rcases cut with both | slow
  · exact .inr both
  · refine .inl ((FloatFormat.round_isFinite_iff _).mpr ?_)
    calc |f + e| ≤ |f| + |e| := abs_add_le f e
      _ < binary64.largest + 2 ^ 970 :=
        add_lt_add_of_le_of_lt (binary64.abs_le_largest kept) slow
      _ = binary64.overflow := binary64_largest_add

theorem add_of_not_finite {n : Number} (infinite : ¬ n.IsFinite) (f : ℚ) :
    (Number.finite f).add binary64.round n = n := by
  cases n with
  | finite q => exact absurd (Number.isFinite_finite q) infinite
  | infinite | nan => rfl

/-- A step of a walk that is steady and roomy has a sum, which settles; and whatever finite value is
made of it leaves the walk roomy. -/
theorem RoomyWalk.add {step min max value delta : Value} {s low high : Number} {x : ℚ}
    (roomy : RoomyWalk step min max value) (stepNumber : step.number? = some s)
    (minNumber : min.number? = some low) (maxNumber : max.number? = some high)
    (number : value.number? = some (.finite x)) (walk : SteadyWalk (.finite x) s low high)
    (taken : Taken step delta) :
    ∃ z r, value.add binary64.round delta = .ok z ∧ z.number? = some r ∧ Settles low high r ∧
      (Finite z → RoomyWalk step min max z) := by
  have finite : Finite value := ⟨x, number⟩
  have whole : ∀ k l, value.int? = some k → delta.int? = some l →
      value.add binary64.round delta = .ok (.int (k + l)) := fun _ _ => Value.add_of_int
  cases roomy with
  | integers ofStep ofMin ofMax ofValue =>
    obtain ⟨k, left⟩ := ofValue finite
    obtain ⟨l, right⟩ := taken.integral.mpr ofStep
    exact ⟨_, _, whole k l left right, rfl, trivial,
      fun _ => .integers ofStep ofMin ofMax fun _ => ⟨_, rfl⟩⟩
  | floats ofStep ofMin ofMax ofValue cut =>
    by_cases both : Integral value ∧ Integral delta
    · obtain ⟨⟨k, left⟩, l, right⟩ := both
      exact ⟨_, _, whole k l left right, rfl, trivial, fun _ => .floats ofStep ofMin ofMax
        (fun _ => .inr ⟨⟨_, rfl⟩, taken.integral.mp ⟨l, right⟩⟩) cut⟩
    · have mixed := int?_none_of_not_both both
      obtain ⟨f, converted, kept⟩ : ∃ f, FloatOf value f := by
        rcases ofValue finite with float | ⟨left, right⟩
        · exact float
        · exact absurd ⟨left, taken.integral.mpr right⟩ both
      by_cases stepFinite : Finite step
      · obtain ⟨d, float⟩ := ofStep stepFinite
        obtain ⟨e, ⟨right, _⟩, size⟩ := taken.floatOf float
        refine ⟨_, _, Value.add_of_toFloat mixed converted right, rfl, settles_of_floats kept ?_, ?_⟩
        · rcases cut with ⟨⟨l, least⟩, h, most⟩ | slow
          · rw [minNumber, Option.some_inj] at least
            rw [maxNumber, Option.some_inj] at most
            exact .inl ⟨⟨l, least⟩, h, most⟩
          · exact .inr (size ▸ slow d float)
        · rintro ⟨r, same⟩
          exact .floats ofStep ofMin ofMax (fun _ => .inl ⟨r, congrArg _ (Option.some.inj same),
            FloatFormat.round_round _ (Option.some.inj same)⟩) cut
      · -- an infinite step, which leads to the bound on its side
        obtain ⟨n, stepped, settles⟩ : ∃ n, delta.number? = some n ∧ Settles low high n := by
          rcases taken.number stepNumber with same | opposite
          · exact ⟨s, same, walk.up⟩
          · exact ⟨s.neg, opposite, walk.down⟩
        have infinite : ¬ n.IsFinite := by
          rintro ⟨q, rfl⟩
          exact stepFinite (taken.finite.mp ⟨q, stepped⟩)
        have right := toFloat_of_not_finite stepped infinite
        have sum := add_of_not_finite infinite f
        refine ⟨_, _, Value.add_of_toFloat mixed converted right, rfl, ?_, ?_⟩
        · rw [sum]
          exact settles
        · rintro ⟨r, same⟩
          rw [sum] at same
          exact absurd ⟨r, Option.some.inj same⟩ infinite

/-! ### Sines in the range of the floats -/

def InRange (T : ℚ) : Number → Prop
  | .finite p => 2 * mathPi * T < binary64.overflow ∧
      binary64.nearest (2 * mathPi * T) < binary64.overflow * p
  | .infinite _ => 2 * mathPi * T < binary64.overflow
  | .nan => False

theorem InRange.below {T : ℚ} {p : Number} (inRange : InRange T p) :
    2 * mathPi * T < binary64.overflow := by
  cases p with
  | finite p => exact inRange.1
  | infinite => exact inRange
  | nan => exact inRange.elim

theorem mathPi_pos : 0 < mathPi := by norm_num [mathPi]

theorem not_inRange_largest (p : Number) : ¬ InRange binary64.largest p := by
  intro inRange
  have pi : 1 ≤ mathPi := by norm_num [mathPi]
  have double : (2 : ℚ) ^ (1024 : Int) = 2 * 2 ^ (1023 : Int) := by
    rw [← zpow_one_add₀ two_ne_zero]
    norm_num
  have more : binary64.overflow ≤ 2 * mathPi * binary64.largest :=
    calc binary64.overflow ≤ 2 ^ (1024 : Int) := binary64.overflow_lt_two_zpow.le
      _ = 2 * 2 ^ (1023 : Int) := double
      _ ≤ 2 * binary64.largest :=
        mul_le_mul_of_nonneg_left binary64.two_zpow_pred_le_largest two_pos.le
      _ ≤ 2 * mathPi * binary64.largest :=
        mul_le_mul_of_nonneg_right (by linarith) binary64.largest_pos.le
  exact absurd inRange.below (not_lt.mpr more)

theorem turns_double (sin : ℚ → ℚ) (elapsed : ℚ) :
    (MathLib.double sin).turns elapsed = binary64.round (2 * mathPi * elapsed) := by
  have twice : (2 : ℚ) * mathPi = (884279719003555 : Int) * 2 ^ (-47 : Int) := by
    norm_num [mathPi]
  have kept : binary64.round (2 * mathPi) = .finite (2 * mathPi) := by
    rw [twice]
    exact binary64.round_intCast_mul (by decide) (by decide) (by decide)
  show Number.mul binary64.round (binary64.round (2 * mathPi)) (.finite elapsed) = _
  rw [kept, Number.mul]

theorem angle_isFinite {T elapsed : ℚ} {p : Number} (positive : Positive p) (inRange : InRange T p)
    (begun : 0 ≤ elapsed) (before : elapsed ≤ T) :
    ((binary64.round (2 * mathPi * elapsed)).div binary64.round p).IsFinite := by
  have pi := mathPi_pos
  have least : 0 ≤ 2 * mathPi * elapsed := by positivity
  have most : 2 * mathPi * elapsed ≤ 2 * mathPi * T := by gcongr
  have below := inRange.below
  have float : binary64.round (2 * mathPi * elapsed) =
      .finite (binary64.nearest (2 * mathPi * elapsed)) :=
    binary64.round_eq_nearest (by rw [abs_of_nonneg least]; exact most.trans_lt below)
  rw [float]
  cases p with
  | finite p =>
    have positive : 0 < p := positive
    have nonneg : 0 ≤ binary64.nearest (2 * mathPi * elapsed) / p :=
      div_nonneg (binary64.nearest_nonneg least) positive.le
    rw [Number.div, FloatFormat.round_isFinite_iff, abs_of_nonneg nonneg, div_lt_iff₀ positive]
    exact (binary64.nearest_mono most).trans_lt inRange.2
  | infinite => exact Number.isFinite_finite 0
  | nan => exact inRange.elim

theorem inRange_of_isFinite {T : ℚ} {p : Number} (positive : Positive p)
    (finite : ((binary64.round (2 * mathPi * T)).div binary64.round p).IsFinite) : InRange T p := by
  obtain ⟨⟨t, float⟩, notNan⟩ := Number.isFinite_of_div finite
  obtain ⟨below, rfl⟩ := binary64.round_eq_finite float
  have below := (le_abs_self _).trans_lt below
  cases p with
  | finite p =>
    have positive : 0 < p := positive
    rw [float, Number.div, FloatFormat.round_isFinite_iff] at finite
    exact ⟨below, (div_lt_iff₀ positive).mp ((le_abs_self _).trans_lt finite)⟩
  | infinite => exact below
  | nan => exact absurd rfl notNan

/-! ### Samples -/

namespace Generator

def Steady (T : ℚ) : Generator → Prop
  | .constant _ => True
  | .sine mean amp periodS => ∃ m a p, FloatOf mean m ∧ FloatOf amp a ∧
      |m| + |a| < binary64.overflow ∧ periodS.toFloat binary64.round = .ok p ∧ Positive p ∧
      InRange T p
  | .randomWalk step min max value => ∃ s low high x, step.number? = some s ∧
      min.number? = some low ∧ max.number? = some high ∧ value.number? = some (.finite x) ∧
      SteadyWalk (.finite x) s low high ∧ RoomyWalk step min max value

theorem divInto_of_toFloat {periodS : Value} {p : Number}
    (converted : periodS.toFloat binary64.round = .ok p) (positive : Positive p) (y : Number) :
    periodS.divInto binary64.round y = .ok (y.div binary64.round p) := by
  have nonzero : p ≠ .finite 0 := by
    rintro rfl
    exact lt_irrefl (0 : ℚ) positive
  rw [Value.divInto, converted, Raise.ok_bind, if_neg nonzero]
  rfl

/-- A sine of floats whose sum is in range returns a sample up to the time. -/
theorem sample_sine_returns {sin : ℚ → ℚ} (sine : ∀ x, |sin x| ≤ 1) {mean amp periodS : Value}
    {T elapsed : ℚ} (steady : (Generator.sine mean amp periodS).Steady T) (begun : 0 ≤ elapsed)
    (before : elapsed ≤ T) (up : Bool) :
    ∃ n, ((Generator.sine mean amp periodS).sample (.double sin) elapsed up).1 = .ok n := by
  obtain ⟨m, a, p, ⟨meanFloat, _⟩, ⟨ampFloat, kept⟩, room, period, positive, inRange⟩ := steady
  obtain ⟨angle, divided⟩ := angle_isFinite positive inRange begun before
  have scaled : |a * sin angle| ≤ |a| := by
    rw [abs_mul]
    exact mul_le_of_le_one_right (abs_nonneg a) (sine angle)
  obtain ⟨offset, product, small⟩ := binary64.round_of_abs_le kept scaled
  have inside : |m + offset| < binary64.overflow :=
    (abs_add_le m offset).trans_lt ((add_le_add le_rfl small).trans_lt room)
  obtain ⟨total, sum⟩ := binary64.round_isFinite_iff.mpr inside
  have added :
      mean.add binary64.round (.float (.finite offset)) = .ok (.float (.finite total)) := by
    rw [Value.add_of_toFloat (q := .finite offset) (.inr rfl) meanFloat rfl, Number.add, sum]
  have multiplied : amp.mulFloat binary64.round (.finite (sin angle)) = .ok (.finite offset) := by
    rw [Value.mulFloat, ampFloat, Raise.ok_bind, Number.mul, product, Raise.pure_eq]
  have arithmetic : (MathLib.double sin).rounded = binary64.round := rfl
  have called : (MathLib.double sin).sine (.finite angle) = .ok (.finite (sin angle)) := rfl
  have rounded : clampU16 (.float (.finite total)) = .ok (clamped total) := clampU16_of_number rfl
  refine ⟨clamped total, ?_⟩
  simp only [Generator.sample, arithmetic, turns_double, divInto_of_toFloat period positive, divided,
    called, multiplied, added, Raise.ok_bind, rounded]

/-- A walk that is steady and roomy returns a sample and goes on so. -/
theorem sample_randomWalk_returns (sin : ℚ → ℚ) {step min max value : Value} {T : ℚ}
    (steady : (Generator.randomWalk step min max value).Steady T) (elapsed : ℚ) (up : Bool) :
    (∃ n, ((Generator.randomWalk step min max value).sample (.double sin) elapsed up).1 = .ok n) ∧
      ((Generator.randomWalk step min max value).sample (.double sin) elapsed up).2.Steady T := by
  obtain ⟨s, low, high, x, stepNumber, minNumber, maxNumber, number, walk, roomy⟩ := steady
  obtain ⟨down, negated, _⟩ := Value.neg_of_number stepNumber
  have taken : Taken step (if up then step else down) := by
    cases up
    · exact .inr negated
    · exact .inl rfl
  obtain ⟨z, r, added, sum, settles, keeps⟩ :=
    roomy.add stepNumber minNumber maxNumber number walk taken
  obtain ⟨next, bounds, number', is⟩ := bound_of_number minNumber maxNumber sum
  obtain ⟨q, finite⟩ := (bounded_isFinite_iff walk.loose r).mpr settles
  rw [finite] at number'
  have still : RoomyWalk step min max next := by
    rcases is with rfl | rfl | rfl
    · exact roomy.bound (.inl rfl)
    · exact roomy.bound (.inr rfl)
    · exact keeps ⟨q, number'⟩
  have arithmetic : (MathLib.double sin).rounded = binary64.round := rfl
  simp only [Generator.sample, arithmetic, negated, added, bounds, Raise.ok_bind]
  exact ⟨⟨_, clampU16_of_number number'⟩, s, low, high, q, stepNumber, minNumber, maxNumber,
    number', walk.next q, still⟩

/-- A steady generator returns a sample up to the time, and is steady afterwards. -/
theorem Steady.sample {sin : ℚ → ℚ} (sine : ∀ x, |sin x| ≤ 1) {T : ℚ} {g : Generator}
    (steady : g.Steady T) (elapsed : ℚ) (up : Bool) :
    (0 ≤ elapsed → elapsed ≤ T → ∃ n, (g.sample (.double sin) elapsed up).1 = .ok n) ∧
      (g.sample (.double sin) elapsed up).2.Steady T := by
  cases g with
  | constant value => exact ⟨fun _ _ => ⟨value, rfl⟩, trivial⟩
  | sine mean amp periodS =>
    exact ⟨fun begun before => sample_sine_returns sine steady begun before up, steady⟩
  | randomWalk step min max value =>
    obtain ⟨returns, after⟩ := sample_randomWalk_returns sin steady elapsed up
    exact ⟨fun _ _ => returns, after⟩

theorem floats_of_sine {sin : ℚ → ℚ} {mean amp periodS : Value} {elapsed : ℚ} {up : Bool} {n : Int}
    (accepted : periodS.leZero = .ok false)
    (returned : ((Generator.sine mean amp periodS).sample (.double sin) elapsed up).1 = .ok n) :
    (∃ m, mean.toFloat binary64.round = .ok (.finite m)) ∧
      (∃ a, amp.toFloat binary64.round = .ok (.finite a)) ∧
      ∃ p, periodS.toFloat binary64.round = .ok p ∧ InRange elapsed p := by
  obtain ⟨angle, divided, rest⟩ := Raise.bind_eq_ok.mp returned
  obtain ⟨s, called, rest⟩ := Raise.bind_eq_ok.mp rest
  obtain ⟨offset, scaled, rest⟩ := Raise.bind_eq_ok.mp rest
  obtain ⟨value, added, clamped⟩ := Raise.bind_eq_ok.mp rest
  obtain ⟨q, number⟩ := finite_of_clampU16 clamped
  -- The sum is finite, so its terms are, and then the factors of the second one.
  obtain ⟨a, ampFloat, product⟩ := Raise.bind_eq_ok.mp scaled
  obtain ⟨p, period, quotient⟩ := Raise.bind_eq_ok.mp divided
  have positive := positive_of_toFloat accepted period
  cases product
  rcases Value.add_eq_ok rfl added with ⟨_, _, _, impossible, _⟩ | ⟨m, other, meanFloat, same, rfl⟩
  · cases impossible
  cases same
  have sum : (m.add binary64.round (a.mul binary64.round s)).IsFinite := ⟨q, Option.some.inj number⟩
  obtain ⟨⟨m, rfl⟩, product⟩ := Number.isFinite_of_add sum
  obtain ⟨⟨a, rfl⟩, t, rfl⟩ := Number.isFinite_of_mul product
  refine ⟨⟨m, meanFloat⟩, ⟨a, ampFloat⟩, p, period, inRange_of_isFinite positive ?_⟩
  rw [← turns_double sin]
  split at quotient
  next => cases quotient
  next =>
    cases quotient
    exact isFinite_of_sine called

theorem sums_of_randomWalk {lib : MathLib} {step min max value : Value} {elapsed : ℚ} {up : Bool}
    {n : Int} (returned : ((Generator.randomWalk step min max value).sample lib elapsed up).1 = .ok n) :
    ∃ s x low sum, step.number? = some s ∧ value.number? = some x ∧ min.number? = some low ∧
      x.Sums (if up then s else s.neg) sum ∧
      ∀ high, max.number? = some high → (bounded low high sum).IsFinite := by
  simp only [Generator.sample] at returned
  split at returned
  · cases returned
  next next walked =>
    obtain ⟨down, negated, rest⟩ := Raise.bind_eq_ok.mp walked
    obtain ⟨z, added, kept⟩ := Raise.bind_eq_ok.mp rest
    obtain ⟨s, stepNumber⟩ := Value.number_of_neg negated
    have deltaNumber := number_of_delta stepNumber negated up
    obtain ⟨x, number⟩ := Value.number_of_add deltaNumber added
    obtain ⟨sum, sumNumber, sums⟩ := Value.sums_of_add number deltaNumber added
    obtain ⟨below, compared, _⟩ := Raise.bind_eq_ok.mp kept
    obtain ⟨low, minNumber⟩ := (Value.number_of_lt compared).mp ⟨_, sumNumber⟩
    refine ⟨s, x, low, sum, stepNumber, number, minNumber, sums, fun high maxNumber => ?_⟩
    obtain ⟨_, again, final, _⟩ := bound_of_number minNumber maxNumber sumNumber
    cases kept.symm.trans again
    obtain ⟨q, finite⟩ := finite_of_clampU16 returned
    exact ⟨q, Option.some.inj (final.symm.trans finite)⟩

def SteadyArgs (start step min max : Option Number) : Prop :=
  ∃ x s low high, start = some x ∧ step = some s ∧ min = some low ∧ max = some high ∧
    SteadyWalk x s low high

/-- The arguments of a walk are steady if both of its possible first samples return. -/
theorem steadyArgs_of_first {lib : MathLib} {start step min max value : Value} {elapsed : ℚ}
    (ordered : max.lt min = .ok false) (kept : bound min max start = .ok value)
    (returned : ∀ up, ∃ n,
      ((Generator.randomWalk step min max value).sample lib elapsed up).1 = .ok n) :
    SteadyArgs start.number? step.number? min.number? max.number? := by
  obtain ⟨_, one⟩ := returned true
  obtain ⟨_, other⟩ := returned false
  obtain ⟨s, v, low, first, stepNumber, number, minNumber, up, upFinite⟩ := sums_of_randomWalk one
  obtain ⟨_, _, _, second, same, same', same'', down, downFinite⟩ := sums_of_randomWalk other
  cases stepNumber.symm.trans same
  cases number.symm.trans same'
  cases minNumber.symm.trans same''
  obtain ⟨high, maxNumber⟩ := (Value.number_of_lt ordered).mpr ⟨low, minNumber⟩
  obtain ⟨below, compared, _⟩ := Raise.bind_eq_ok.mp kept
  obtain ⟨x, startNumber⟩ := (Value.number_of_lt compared).mpr ⟨low, minNumber⟩
  obtain ⟨_, again, started, _⟩ := bound_of_number minNumber maxNumber startNumber
  cases kept.symm.trans again
  cases number.symm.trans started
  have above : high.lt low = false :=
    Except.ok.inj ((Value.lt_of_number maxNumber minNumber).symm.trans ordered)
  exact ⟨x, s, low, high, startNumber, stepNumber, minNumber, maxNumber,
    steadyWalk_of_first above up (upFinite high maxNumber) down (downFinite high maxNumber)⟩

theorem steady_of_args {start step min max value : Value} (kept : bound min max start = .ok value)
    (args : SteadyArgs start.number? step.number? min.number? max.number?)
    (roomy : RoomyWalk step min max start) (T : ℚ) :
    (Generator.randomWalk step min max value).Steady T := by
  obtain ⟨x, s, low, high, startNumber, stepNumber, minNumber, maxNumber, walk⟩ := args
  obtain ⟨z, again, number, is⟩ := bound_of_number minNumber maxNumber startNumber
  cases kept.symm.trans again
  obtain ⟨q, finite⟩ := (bounded_isFinite_iff walk.loose x).mpr walk.start
  rw [finite] at number
  refine ⟨s, low, high, q, stepNumber, minNumber, maxNumber, number, walk.next q, ?_⟩
  rcases is with rfl | rfl | rfl
  · exact roomy.bound (.inl rfl)
  · exact roomy.bound (.inr rfl)
  · exact roomy

end Generator

/-! ### Specifications -/

namespace GeneratorSpec

def number? (g : GeneratorSpec) (name : String) : Option Number :=
  (keyword g.args name).bind Value.number?

def float? (g : GeneratorSpec) (name : String) : Option Number :=
  (keyword g.args name).bind fun value => (value.toFloat binary64.round).toOption

/-- The mean and the amplitude of a sine are finite floats, and its angle is in range up to a time;
a walk has bounds that keep its value finite, whichever way it steps. -/
def Steady (T : ℚ) (g : GeneratorSpec) : Prop :=
  match g.fn with
  | "sine" => (∃ m, g.float? "mean" = some (.finite m)) ∧ (∃ a, g.float? "amp" = some (.finite a)) ∧
      ∃ p, g.float? "period_s" = some p ∧ InRange T p
  | "random_walk" => Generator.SteadyArgs (g.number? "start") (g.number? "step") (g.number? "min")
      (g.number? "max")
  | _ => True

/-- The sum of a sine is in range, and so are those of a walk. -/
def Roomy (g : GeneratorSpec) : Prop :=
  match g.fn with
  | "sine" => ∃ mean amp m a, keyword g.args "mean" = some mean ∧ keyword g.args "amp" = some amp ∧
      FloatOf mean m ∧ FloatOf amp a ∧ |m| + |a| < binary64.overflow
  | "random_walk" => ∃ start step min max, keyword g.args "start" = some start ∧
      keyword g.args "step" = some step ∧ keyword g.args "min" = some min ∧
      keyword g.args "max" = some max ∧ RoomyWalk step min max start
  | _ => True

theorem keyword_of_required {g : GeneratorSpec} {name : String} {value : Value}
    (given : (keyword g.args name).or none = some value) : keyword g.args name = some value := by
  rwa [Option.or_none] at given

theorem number?_of_required {g : GeneratorSpec} {name : String} {value : Value}
    (given : (keyword g.args name).or none = some value) : g.number? name = value.number? := by
  rw [number?, keyword_of_required given, Option.bind_some]

theorem float?_of_required {g : GeneratorSpec} {name : String} {value : Value}
    (given : (keyword g.args name).or none = some value) {p : Number} :
    g.float? name = some p ↔ value.toFloat binary64.round = .ok p := by
  rw [float?, keyword_of_required given, Option.bind_some]
  cases value.toFloat binary64.round <;> simp [Except.toOption]

/-- At all times that a float can tell a sine is not steady, and the time is all the same to the
other generators. -/
theorem steady_largest_iff {g : GeneratorSpec} :
    g.Steady binary64.largest ↔ g.fn ≠ "sine" ∧ g.Steady 0 := by
  unfold Steady
  split
  next same =>
    refine iff_of_false ?_ fun both => both.1 same
    rintro ⟨_, _, p, _, inRange⟩
    exact not_inRange_largest p inRange
  next same => simp [same]
  next other _ => exact iff_of_true trivial ⟨other, trivial⟩

theorem float?_of_int {g : GeneratorSpec} {name : String} {n : Int}
    (given : keyword g.args name = some (.int n)) (small : |n| < 2 ^ 53) :
    g.float? name = some (.finite n) := by
  rw [float?, given, Option.bind_some, (floatOf_int small).1]
  rfl

theorem steady_of_ints {g : GeneratorSpec} (walk : g.fn = "random_walk")
    (start step min max : Int)
    (ofStart : keyword g.args "start" = some (.int start))
    (ofStep : keyword g.args "step" = some (.int step))
    (ofMin : keyword g.args "min" = some (.int min))
    (ofMax : keyword g.args "max" = some (.int max)) (T : ℚ) : g.Steady T ∧ g.Roomy := by
  simp only [Steady, Roomy, walk, number?, ofStart, ofStep, ofMin, ofMax, Option.bind_some]
  constructor
  · exact ⟨_, _, _, _, rfl, rfl, rfl, rfl, ⟨nofun, nofun⟩, trivial, trivial, trivial⟩
  · exact ⟨_, _, _, _, rfl, rfl, rfl, rfl, .integers ⟨_, rfl⟩ (fun _ => ⟨_, rfl⟩)
      (fun _ => ⟨_, rfl⟩) fun _ => ⟨_, rfl⟩⟩

/-- What is made of a steady and roomy specification is a steady generator. -/
theorem steady_made {g : GeneratorSpec} {generator : Generator}
    (made : makeGenerator g.fn g.args = .ok generator) {T : ℚ} (steady : g.Steady T)
    (roomy : g.Roomy) : generator.Steady T := by
  unfold makeGenerator at made
  unfold Steady at steady
  unfold Roomy at roomy
  split at made
  next same =>
    obtain ⟨values, _, result⟩ := Raise.bind_eq_ok.mp made
    split at result
    · obtain ⟨value, _, result⟩ := Raise.bind_eq_ok.mp result
      cases result
      trivial
    · cases result
  next same =>
    obtain ⟨values, bound, result⟩ := Raise.bind_eq_ok.mp made
    split at result
    next mean amp periodS =>
      obtain ⟨accepted, rfl⟩ := makeSine_eq_ok result
      obtain _ | ⟨meanGiven, _ | ⟨ampGiven, _ | ⟨periodGiven, _⟩⟩⟩ := bindKeywords_eq_ok bound
      simp only [same, float?_of_required periodGiven] at steady
      simp only [same, keyword_of_required meanGiven, keyword_of_required ampGiven,
        Option.some_inj] at roomy
      obtain ⟨_, _, p, period, inRange⟩ := steady
      obtain ⟨_, _, m, a, rfl, rfl, meanFloat, ampFloat, room⟩ := roomy
      exact ⟨m, a, p, meanFloat, ampFloat, room, period, positive_of_toFloat accepted period,
        inRange⟩
    next => cases result
  next same =>
    obtain ⟨values, bound, result⟩ := Raise.bind_eq_ok.mp made
    split at result
    next start step min max seed =>
      obtain ⟨ordered, value, kept, rfl⟩ := makeRandomWalk_eq_ok result
      obtain _ | ⟨startGiven, _ | ⟨stepGiven, _ | ⟨minGiven, _ | ⟨maxGiven, _⟩⟩⟩⟩ :=
        bindKeywords_eq_ok bound
      simp only [same, number?_of_required startGiven, number?_of_required stepGiven,
        number?_of_required minGiven, number?_of_required maxGiven] at steady
      simp only [same, keyword_of_required startGiven, keyword_of_required stepGiven,
        keyword_of_required minGiven, keyword_of_required maxGiven, Option.some_inj] at roomy
      obtain ⟨_, _, _, _, rfl, rfl, rfl, rfl, roomy⟩ := roomy
      exact Generator.steady_of_args kept steady roomy T
    next => cases result
  · cases made

/-- A specification is steady if both of its possible first samples return, and so does one at the
time after it. -/
theorem steady_of_first {sin : ℚ → ℚ} {g : GeneratorSpec} {T : ℚ}
    (starts : ∀ up, ∃ n next, g.first (.double sin) up = .ok (n, next) ∧
      ∃ m, (next.sample (.double sin) T up).1 = .ok m) : g.Steady T := by
  obtain ⟨n, next, begun, m, later⟩ := starts true
  obtain ⟨generator, made, sampled⟩ := first_eq_ok begun
  have returned : ∀ up, ∃ n, (generator.sample (.double sin) 0 up).1 = .ok n := by
    intro up
    obtain ⟨n, _, begun, _⟩ := starts up
    obtain ⟨other, again, sampled⟩ := first_eq_ok begun
    cases made.symm.trans again
    exact ⟨n, by rw [sampled]⟩
  unfold makeGenerator at made
  unfold Steady
  split at made
  next same =>
    rw [same]
    trivial
  next same =>
    obtain ⟨values, bound, result⟩ := Raise.bind_eq_ok.mp made
    split at result
    next mean amp periodS =>
      obtain ⟨accepted, rfl⟩ := makeSine_eq_ok result
      obtain _ | ⟨meanGiven, _ | ⟨ampGiven, _ | ⟨periodGiven, _⟩⟩⟩ := bindKeywords_eq_ok bound
      simp only [same, float?_of_required meanGiven, float?_of_required ampGiven,
        float?_of_required periodGiven]
      have unchanged : next = .sine mean amp periodS := (congrArg Prod.snd sampled).symm
      rw [unchanged] at later
      exact Generator.floats_of_sine accepted later
    next => cases result
  next same =>
    obtain ⟨values, bound, result⟩ := Raise.bind_eq_ok.mp made
    split at result
    next start step min max seed =>
      obtain ⟨ordered, value, kept, rfl⟩ := makeRandomWalk_eq_ok result
      obtain _ | ⟨startGiven, _ | ⟨stepGiven, _ | ⟨minGiven, _ | ⟨maxGiven, _⟩⟩⟩⟩ :=
        bindKeywords_eq_ok bound
      simp only [same, number?_of_required startGiven, number?_of_required stepGiven,
        number?_of_required minGiven, number?_of_required maxGiven]
      exact Generator.steadyArgs_of_first ordered kept returned
    next => cases result
  · cases made

end GeneratorSpec

end ModbusSim.Setup
