import ModbusSim.Lib.StatefulRun
import ModbusSim.Setup.Samples

/-!
# Bounds of the generators

With floats idealised as rational numbers, a random walk takes a step and is moved back between its
bounds, and a sample is its value, rounded and clamped. Rounding and clamping keep the order of
numbers, so that the samples of a run lie between the clamped bounds of a walk, or between the
clamped extremes of a sine (`generator_bounds`).
-/

namespace ModbusSim.Setup

open PyStruct PyValue ModbusSim.Frame StatefulRun

/-! ### Clamping -/

theorem clamped_isWord (q : ℚ) : IsWord (clamped q) := by
  simp only [IsWord, clamped, uint16Min, uint16Max, registerMax]
  omega

@[simp] theorem clamped_intCast {n : Int} (word : IsWord n) : clamped n = n := by
  simp only [IsWord, registerMax] at word
  simp only [clamped, uint16Min, uint16Max, roundHalfEven_intCast]
  omega

theorem clamped_eq_roundHalfEven {q : ℚ} (least : 0 ≤ q) (most : q ≤ 65535) :
    clamped q = roundHalfEven q := by
  have low := roundHalfEven_mono least
  have high := roundHalfEven_mono most
  have zero : roundHalfEven 0 = 0 := roundHalfEven_intCast 0
  have top : roundHalfEven 65535 = 65535 := roundHalfEven_intCast 65535
  simp only [clamped, uint16Min, uint16Max]
  omega

/-! ### The walk on numbers -/

def walked (step low high x : ℚ) (up : Bool) : ℚ :=
  max low (min high (x + if up then step else -step))

def walk (step low high x : ℚ) (input : ℚ × Bool) : Except PyError Int × ℚ :=
  (.ok (clamped (walked step low high x input.2)), walked step low high x input.2)

def samples (lib : MathLib) (g : Generator) (inputs : List (ℚ × Bool)) :
    List (Except PyError Int) × Generator :=
  run (fun g input => g.sample lib input.1 input.2) g inputs

theorem bounded_finite {low high : ℚ} (ordered : low ≤ high) (x : ℚ) :
    bounded (.finite low) (.finite high) (.finite x) = .finite (max low (min high x)) := by
  simp only [bounded, Number.lt, decide_eq_true_eq]
  split
  next below => rw [max_eq_left (min_le_right high x |>.trans below.le)]
  next below =>
    split
    next above => rw [min_eq_left above.le, max_eq_right ordered]
    next above => rw [min_eq_right (not_lt.mp above), max_eq_right (not_lt.mp below)]

section Exact

variable {pi : ℚ} {sin : ℚ → ℚ}

def WalksAt (step low high x : ℚ) : Generator → Prop
  | .randomWalk s min max value => s.number? = some (.finite step) ∧
      min.number? = some (.finite low) ∧ max.number? = some (.finite high) ∧
      value.number? = some (.finite x)
  | _ => False

theorem WalksAt.sample {step low high x : ℚ} (ordered : low ≤ high) {g : Generator}
    (walks : WalksAt step low high x g) (input : ℚ × Bool) :
    (g.sample (.exact pi sin) input.1 input.2).1 = (walk step low high x input).1 ∧
      WalksAt step low high (walk step low high x input).2
        (g.sample (.exact pi sin) input.1 input.2).2 := by
  cases g with
  | constant | sine => cases walks
  | randomWalk s min max value =>
    obtain ⟨stepNumber, minNumber, maxNumber, number⟩ := walks
    obtain ⟨down, negated, _⟩ := Value.neg_of_number stepNumber
    obtain ⟨z, added, sum⟩ := Value.add_exact number (number_of_delta stepNumber negated input.2)
    obtain ⟨value', kept, number', _⟩ := bound_of_number minNumber maxNumber sum
    have moved : Number.add .finite (.finite x)
        (if input.2 then .finite step else Number.neg (.finite step)) =
          .finite (x + if input.2 then step else -step) := by
      cases input.2 <;> rfl
    rw [moved, bounded_finite ordered] at number'
    have arithmetic : (MathLib.exact pi sin).rounded = .finite := rfl
    simp only [Generator.sample, negated, arithmetic, added, kept, Raise.ok_bind]
    exact ⟨clampU16_of_number number', stepNumber, minNumber, maxNumber, number'⟩

theorem walked_mem {low high : ℚ} (ordered : low ≤ high) (step x : ℚ) (up : Bool) :
    low ≤ walked step low high x up ∧ walked step low high x up ≤ high :=
  ⟨le_max_left _ _, max_le ordered (min_le_left _ _)⟩

def InBounds (low high : ℚ) : Generator → Prop
  | .randomWalk _ _ _ value => ∃ x, value.number? = some (.finite x) ∧ low ≤ x ∧ x ≤ high
  | _ => False

theorem WalksAt.inBounds {step low high x : ℚ} {g : Generator} (walks : WalksAt step low high x g)
    (inside : low ≤ x ∧ x ≤ high) : InBounds low high g := by
  cases g with
  | constant | sine => cases walks
  | randomWalk => exact ⟨x, walks.2.2.2, inside⟩

theorem simulates_walk {step low high : ℚ} (ordered : low ≤ high) :
    Simulates (fun g input => Generator.sample (.exact pi sin) g input.1 input.2)
      (walk step low high) (fun g x => WalksAt step low high x g) (fun _ => True) id
      fun _ _ => True := by
  intro g x input walks _
  obtain ⟨same, next⟩ := walks.sample ordered input
  exact ⟨same, trivial, next⟩

theorem samples_walk {step low high x : ℚ} (ordered : low ≤ high) {g : Generator}
    (walks : WalksAt step low high x g) (inputs : List (ℚ × Bool)) :
    (samples (.exact pi sin) g inputs).1 = (run (walk step low high) x inputs).1 ∧
      WalksAt step low high (run (walk step low high) x inputs).2
        (samples (.exact pi sin) g inputs).2 := by
  have all : ∀ input ∈ inputs, (fun _ : ℚ × Bool => True) input := fun _ _ => trivial
  obtain ⟨same, _, last⟩ := run_simulates (simulates_walk ordered) all walks
  rw [List.map_id] at same
  exact ⟨same, last⟩

/-- Whatever is drawn, the walk stays in its bounds, and so do its samples. -/
theorem run_walk {step low high x : ℚ} (inside : low ≤ x ∧ x ≤ high) (inputs : List (ℚ × Bool)) :
    (low ≤ (run (walk step low high) x inputs).2 ∧ (run (walk step low high) x inputs).2 ≤ high) ∧
      ∀ result ∈ (run (walk step low high) x inputs).1, ∃ n, result = .ok n ∧ IsWord n ∧
        clamped low ≤ n ∧ n ≤ clamped high := by
  have ordered := inside.1.trans inside.2
  have each : ∀ (y : ℚ) (input : ℚ × Bool), (fun y => low ≤ y ∧ y ≤ high) y →
      (fun result => ∃ n, result = .ok n ∧ IsWord n ∧ clamped low ≤ n ∧ n ≤ clamped high)
        (walk step low high y input).1 ∧
      (fun y => low ≤ y ∧ y ≤ high) (walk step low high y input).2 := by
    intro y input _
    have next := walked_mem ordered step y input.2
    exact ⟨⟨_, rfl, clamped_isWord _, clamped_mono next.1, clamped_mono next.2⟩, next⟩
  exact ⟨run_keeps (fun y input start => (each y input start).2) inputs inside,
    run_outputs each inputs inside⟩

/-! ### Steps of integers -/

/-- A sample is a step away from the one before, unless it is at a bound, which may be nearer. -/
def Moves (step low high a b : Int) : Prop :=
  |b - a| ≤ |step| ∧ (|b - a| = |step| ∨ b = low ∨ b = high)

theorem moves_walked {step low high a : Int} (inside : low ≤ a ∧ a ≤ high) (up : Bool) :
    Moves step low high a (max low (min high (a + if up then step else -step))) := by
  have size : |if up then step else -step| = |step| := by cases up <;> simp
  generalize (if up then step else -step) = delta at size ⊢
  rw [Moves, ← size]
  rcases abs_cases delta with ⟨up, _⟩ | ⟨down, _⟩ <;>
    rcases abs_cases (max low (min high (a + delta)) - a) with ⟨after, _⟩ | ⟨before, _⟩ <;> omega

theorem walked_intCast (step low high a : Int) (up : Bool) :
    walked step low high a up = (max low (min high (a + if up then step else -step)) : Int) := by
  cases up <;> simp [walked]

theorem chain_walk {step low high : Int} (least : 0 ≤ low) (most : high ≤ 65535)
    (inputs : List (ℚ × Bool)) {a : Int} (inside : low ≤ a ∧ a ≤ high) :
    ∃ values, (run (walk step low high) a inputs).1 = values.map .ok ∧
      List.IsChain (Moves step low high) (a :: values) := by
  induction inputs generalizing a with
  | nil => exact ⟨[], rfl, .singleton a⟩
  | cons input inputs ih =>
    have next : low ≤ max low (min high (a + if input.2 then step else -step)) ∧
        max low (min high (a + if input.2 then step else -step)) ≤ high := by omega
    obtain ⟨values, rest, chain⟩ := ih next
    have word : IsWord (max low (min high (a + if input.2 then step else -step))) :=
      ⟨least.trans next.1, next.2.trans most⟩
    refine ⟨_ :: values, ?_, .cons_cons (moves_walked inside input.2) chain⟩
    simp only [run, walk, walked_intCast, clamped_intCast word, List.map_cons]
    rw [rest]

/-! ### Bounds over runs -/

structure WalkArgs (start step min max seed : Value) (x s low high : ℚ) : Prop where
  start : start.number? = some (.finite x)
  step : step.number? = some (.finite s)
  min : min.number? = some (.finite low)
  max : max.number? = some (.finite high)
  ordered : low ≤ high
  seed : Generator.checkSeed seed = .ok ()

def Between (least most : Value) (results : List (Except PyError Int)) : Prop :=
  ∃ low high, clampU16 least = .ok low ∧ clampU16 most = .ok high ∧
    ∀ result ∈ results, ∃ n, result = .ok n ∧ IsWord n ∧ low ≤ n ∧ n ≤ high

theorem makeRandomWalk_returns {start step min max seed : Value} {x s low high : ℚ}
    (args : WalkArgs start step min max seed x s low high) :
    ∃ g, Generator.makeRandomWalk start step min max seed = .ok g ∧
      WalksAt s low high (Max.max low (Min.min high x)) g := by
  obtain ⟨value, kept, number, _⟩ := bound_of_number args.min args.max args.start
  rw [bounded_finite args.ordered] at number
  have accepted : max.lt min = .ok false := by
    rw [Value.lt_of_number args.max args.min]
    simp [Number.lt, args.ordered]
  refine ⟨.randomWalk step min max value, ?_, args.step, args.min, args.max, number⟩
  simp only [Generator.makeRandomWalk, accepted, kept, args.seed, Raise.ok_bind]
  rfl

theorem makeSine_returns {mean amp periodS : Value} {p : ℚ}
    (period : periodS.number? = some (.finite p)) (positive : 0 < p) :
    Generator.makeSine mean amp periodS = .ok (.sine mean amp periodS) := by
  have accepted : periodS.leZero = .ok false := by
    rw [Value.leZero, period]
    simp [Number.lt, Number.beq, positive.le, positive.ne']
  simp only [Generator.makeSine, accepted, Raise.ok_bind]
  rfl

theorem sample_sine {mean amp periodS : Value} {m a p : ℚ}
    (meanNumber : mean.number? = some (.finite m)) (ampNumber : amp.number? = some (.finite a))
    (period : periodS.number? = some (.finite p)) (nonzero : p ≠ 0) (elapsed : ℚ) (up : Bool) :
    (Generator.sine mean amp periodS).sample (.exact pi sin) elapsed up =
      (.ok (clamped (m + a * sin (2 * pi * elapsed / p))), .sine mean amp periodS) := by
  have divided : periodS.divInto .finite ((MathLib.exact pi sin).turns elapsed) =
      .ok (.finite (2 * pi * elapsed / p)) := by
    rw [Value.divInto, Value.toFloat_exact period]
    simp [nonzero, MathLib.turns, MathLib.exact, Number.mul, Number.div]
  have scaled : amp.mulFloat .finite (.finite (sin (2 * pi * elapsed / p))) =
      .ok (.finite (a * sin (2 * pi * elapsed / p))) := by
    rw [Value.mulFloat, Value.toFloat_exact ampNumber]
    rfl
  obtain ⟨z, added, number⟩ := Value.add_exact
    (y := .float (.finite (a * sin (2 * pi * elapsed / p)))) meanNumber rfl
  have arithmetic : (MathLib.exact pi sin).rounded = .finite := rfl
  have sine : ∀ q, (MathLib.exact pi sin).sine (.finite q) = .ok (.finite (sin q)) := fun _ => rfl
  simp only [Generator.sample, arithmetic, divided, sine, scaled, added, Raise.ok_bind,
    clampU16_of_number number]

theorem samples_sine (sine : ∀ x, |sin x| ≤ 1) {mean amp periodS : Value} {m a p : ℚ}
    (meanNumber : mean.number? = some (.finite m)) (ampNumber : amp.number? = some (.finite a))
    (period : periodS.number? = some (.finite p)) (nonzero : p ≠ 0) (inputs : List (ℚ × Bool)) :
    ∀ result ∈ (samples (.exact pi sin) (.sine mean amp periodS) inputs).1,
      ∃ n, result = .ok n ∧ IsWord n ∧ clamped (m - |a|) ≤ n ∧ n ≤ clamped (m + |a|) := by
  refine run_outputs (fun g input same => ?_) inputs (show (fun g => g = _) _ from rfl)
  subst same
  have offset : |a * sin (2 * pi * input.1 / p)| ≤ |a| := by
    rw [abs_mul]
    exact mul_le_of_le_one_right (abs_nonneg a) (sine _)
  obtain ⟨below, above⟩ := abs_le.mp offset
  rw [sample_sine meanNumber ampNumber period nonzero]
  refine ⟨⟨_, rfl, clamped_isWord _, ?_, ?_⟩, rfl⟩
  · exact clamped_mono (by linarith)
  · exact clamped_mono (by linarith)

end Exact

/-- A random walk stays in its bounds, and a walk of 16-bit integers goes by its step; a sine stays
within its amplitude; and clamping is monotone, leaves 16-bit values alone, and moves any number
between them by at most a half. -/
theorem generator_bounds (pi : ℚ) (sin : ℚ → ℚ) :
    (∀ {start step min max seed : Value} {x s low high : ℚ},
        WalkArgs start step min max seed x s low high →
        ∃ g, Generator.makeRandomWalk start step min max seed = .ok g ∧ ∀ inputs,
          InBounds low high (samples (.exact pi sin) g inputs).2 ∧
            Between min max (samples (.exact pi sin) g inputs).1) ∧
      (∀ {start step least most seed : Value} {x s low high : Int},
        WalkArgs start step least most seed x s low high → 0 ≤ low → high ≤ 65535 →
        ∃ g, Generator.makeRandomWalk start step least most seed = .ok g ∧ ∀ inputs, ∃ values,
          (samples (.exact pi sin) g inputs).1 = values.map .ok ∧
            List.IsChain (Moves s low high) (max low (min high x) :: values)) ∧
      ((∀ angle, |sin angle| ≤ 1) → ∀ {mean amp periodS : Value} {m a p : ℚ},
        mean.number? = some (.finite m) → amp.number? = some (.finite a) →
        periodS.number? = some (.finite p) → 0 < p →
        ∃ g, Generator.makeSine mean amp periodS = .ok g ∧ ∀ inputs,
          Between (.float (.finite (m - |a|))) (.float (.finite (m + |a|)))
            (samples (.exact pi sin) g inputs).1) ∧
      (∀ {v w : Value} {p q : ℚ}, v.number? = some (.finite p) → w.number? = some (.finite q) →
        p ≤ q → ∃ k l, clampU16 v = .ok k ∧ clampU16 w = .ok l ∧ k ≤ l) ∧
      (∀ {v : Value} {n : Int}, v.number? = some (.finite n) → IsWord n → clampU16 v = .ok n) ∧
      ∀ {v : Value} {q : ℚ}, v.number? = some (.finite q) → 0 ≤ q → q ≤ 65535 →
        ∃ k : Int, clampU16 v = .ok k ∧ |(k : ℚ) - q| ≤ 1 / 2 := by
  refine ⟨fun args => ?_, fun args least most => ?_, fun sine mean amp periodS m a p meanNumber
    ampNumber period positive => ?_, fun first second le => ?_, fun number word => ?_,
    fun number least most => ?_⟩
  · obtain ⟨g, made, walks⟩ := makeRandomWalk_returns args
    refine ⟨g, made, fun inputs => ?_⟩
    obtain ⟨same, last⟩ := samples_walk args.ordered walks inputs
    obtain ⟨inside, between⟩ :=
      run_walk ⟨le_max_left _ _, max_le args.ordered (min_le_left _ _)⟩ inputs
    rw [same]
    exact ⟨last.inBounds inside, _, _, clampU16_of_number args.min, clampU16_of_number args.max,
      between⟩
  · obtain ⟨g, made, walks⟩ := makeRandomWalk_returns args
    have ordered := Int.cast_le.mp args.ordered
    refine ⟨g, made, fun inputs => ?_⟩
    rw [(samples_walk args.ordered walks inputs).1, ← Int.cast_min, ← Int.cast_max]
    exact chain_walk least most inputs ⟨le_max_left _ _, max_le ordered (min_le_left _ _)⟩
  · refine ⟨_, makeSine_returns period positive, fun inputs => ?_⟩
    exact ⟨_, _, clampU16_of_number rfl, clampU16_of_number rfl,
      samples_sine sine meanNumber ampNumber period positive.ne' inputs⟩
  · exact ⟨_, _, clampU16_of_number first, clampU16_of_number second, clamped_mono le⟩
  · rw [clampU16_of_number number, clamped_intCast word]
  · refine ⟨_, clampU16_of_number number, ?_⟩
    rw [clamped_eq_roundHalfEven least most]
    exact abs_roundHalfEven_sub_le _

/-- A walk by five between 0 and 200, a sine at its start, and a number half way. -/
theorem generator_bounds_samples :
    (∃ g, Generator.makeRandomWalk (.int 100) (.int 5) (.int 0) (.int 200) (.int 1) = .ok g ∧
        ∀ inputs, ∃ values, (samples (.exact 3 fun _ => 0) g inputs).1 = values.map .ok ∧
          List.IsChain (Moves 5 0 200) (100 :: values)) ∧
      (∃ g, Generator.makeSine (.float (.finite 250)) (.float (.finite 30)) (.float (.finite 60)) =
          .ok g ∧
        Between (.float (.finite (250 - |30|))) (.float (.finite (250 + |30|)))
          (samples (.exact 3 fun _ => 0) g [(0, true)]).1) ∧
      ∃ k : Int, clampU16 (.float (.finite (5 / 2))) = .ok k ∧ |(k : ℚ) - 5 / 2| ≤ 1 / 2 := by
  obtain ⟨_, walks, sines, _, _, halves⟩ := generator_bounds 3 fun _ => 0
  refine ⟨?_, ?_, ?_⟩
  · apply walks (x := 100) (s := 5) _ (by decide) (by decide)
    exact ⟨rfl, rfl, rfl, rfl, by norm_num, rfl⟩
  · have number : ∀ q : ℚ, (Value.float (.finite q)).number? = some (.finite q) := fun _ => rfl
    obtain ⟨g, made, between⟩ := sines (fun angle => by simp) (number 250) (number 30)
      (number 60) (by norm_num)
    exact ⟨g, made, between _⟩
  · exact halves rfl (by norm_num) (by norm_num)

end ModbusSim.Setup
