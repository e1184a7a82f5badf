import ModbusSim.Setup.Bounds
import ModbusSim.Setup.BuildsAndRuns

/-!
# Driven registers

An input register to which a generator is bound is out of the reach of every PDU. With one generator
it shows the latest of the samples that the generator takes for its own updates
(`slotOf_driven`); with any number of them it stays between their bounds (`Driven.run`), which are
those of the double precision that they compute in.
-/

namespace ModbusSim.Setup

open PyStruct PyValue ModbusSim.Frame Store Dispatch LastWriter StatefulRun

/-! ### One generator and its own updates -/

def Event.draw (index : Nat) : Event → Option (ℚ × Bool)
  | .update i elapsed up => if i = index then some (elapsed, up) else none
  | .pdu .. => none

def drawsOf (index : Nat) (events : List Event) : List (ℚ × Bool) :=
  events.filterMap (Event.draw index)

def lastSample (results : List (Except PyError Int)) : Option Int :=
  (results.filterMap Except.toOption).getLast?

theorem lastSample_cons (result : Except PyError Int) (results : List (Except PyError Int)) :
    lastSample (result :: results) = (lastSample results).or result.toOption := by
  unfold lastSample
  cases result with
  | error e => simp [Except.toOption]
  | ok value =>
    have here : Except.toOption (.ok value : Except PyError Int) = some value := rfl
    rw [List.filterMap_cons_some here, List.getLast?_cons]
    cases (results.filterMap Except.toOption).getLast? <;> rfl

theorem samples_cons (lib : MathLib) (g : Generator) (input : ℚ × Bool)
    (inputs : List (ℚ × Bool)) :
    samples lib g (input :: inputs) =
      ((g.sample lib input.1 input.2).1 ::
          (samples lib (g.sample lib input.1 input.2).2 inputs).1,
        (samples lib (g.sample lib input.1 input.2).2 inputs).2) := rfl

theorem write_pdu_input (places : List Place) {unitId : Int} {request : Bytes} {outcome : Outcome}
    {place : Place} (input : place.2.1 = .inputRegisters) :
    Event.write places (.pdu unitId request) outcome place = none := by
  cases outcome with
  | updated | absent => rfl
  | replied result =>
    cases result with
    | error e => rfl
    | ok reply =>
      simp only [Event.write]
      split
      · cases wrote : pduWrite request reply place.2 with
        | none => rfl
        | some slot =>
          rcases pduWrite_region wrote with coil | register
          · cases input.symm.trans coil
          · cases input.symm.trans register
      · rfl

section Runs

variable {lib : MathLib} {config : Config} {places : List Place} {w : World}

theorem World.Kept.device (kept : w.Kept config places) {index : Nat} {b : GeneratorBinding}
    (listed : w.bindings[index]? = some b) :
    places[index]? = some (placeOf b) ∧ ∃ spec device, w.store.get b.unitId = some device ∧
      Bound spec b ∧ Setup.Realizes spec device := by
  obtain ⟨spec, _, bound, device, found, holds⟩ :=
    kept.realizes.bound (List.mem_of_getElem? listed)
  refine ⟨?_, spec, device, found, bound, holds⟩
  rw [← kept.places, List.getElem?_map, listed, Option.map_some]

/-- An update hands out the sample, and leaves its binding with the generator after it. -/
theorem World.Kept.handle_update (lib : MathLib) (kept : w.Kept config places) {index : Nat}
    {b : GeneratorBinding} (listed : w.bindings[index]? = some b) (elapsed : ℚ) (up : Bool) :
    (w.handle lib (.update index elapsed up)).1 =
        .updated ((b.generator.sample lib elapsed up).1.mapError Exn.py) ∧
      ∃ b', (w.handle lib (.update index elapsed up)).2.bindings = w.bindings.set index b' ∧
        placeOf b' = placeOf b ∧ b'.generator = (b.generator.sample lib elapsed up).2 := by
  obtain ⟨_, spec, device, found, bound, holds⟩ := kept.device listed
  simp only [World.handle, listed, found, (update_spec lib bound holds elapsed up).1]
  exact ⟨trivial, _, rfl, placeOf_update lib b device elapsed up,
    generator_update lib b device elapsed up⟩

theorem binding_handle_of_draw (lib : MathLib) (w : World) {index : Nat} {event : Event}
    (other : event.draw index = none) :
    (w.handle lib event).2.bindings[index]? = w.bindings[index]? := by
  cases event with
  | pdu unitId request =>
    simp only [World.handle]
    cases w.store.get unitId with
    | none => rfl
    | some device => rfl
  | update i elapsed up =>
    have apart : i ≠ index := by
      intro same
      rw [Event.draw, if_pos same] at other
      cases other
    simp only [World.handle]
    cases listed : w.bindings[i]? with
    | none => rfl
    | some b =>
      cases found : w.store.get b.unitId with
      | none => simp only [found]
      | some device =>
        simp only [found]
        exact List.getElem?_set_ne apart

theorem write_of_draw {index : Nat} {place : Place} (input : place.2.1 = .inputRegisters)
    (alone : ∀ j : Nat, places[j]? = some place → j = index) {event : Event} (outcome : Outcome)
    (other : event.draw index = none) : Event.write places event outcome place = none := by
  cases event with
  | pdu unitId request => exact write_pdu_input places input
  | update i elapsed up =>
    have apart : ¬ places[i]? = some place := by
      intro here
      rw [Event.draw, if_pos (alone i here)] at other
      cases other
    cases outcome with
    | replied | absent => rfl
    | updated result =>
      cases result with
      | error e => rfl
      | ok value => exact if_neg apart

/-- Whatever the events, a register with one generator shows the latest sample of a run of this
generator on the inputs of its own, or what it held before the first. -/
theorem slotOf_driven (kept : w.Kept config places) {index : Nat} {b : GeneratorBinding}
    (listed : w.bindings[index]? = some b) (input : b.region = .inputRegisters)
    (alone : ∀ j : Nat, places[j]? = some (placeOf b) → j = index) (events : List Event) :
    (∃ b', (run (World.handle lib) w events).2.bindings[index]? = some b' ∧
        b'.generator = (samples lib b.generator (drawsOf index events)).2) ∧
      slotOf (run (World.handle lib) w events).2 (placeOf b) =
        ((lastSample (samples lib b.generator (drawsOf index events)).1).map Slot.int).or
          (slotOf w (placeOf b)) := by
  induction events generalizing w b with
  | nil => exact ⟨⟨b, listed, rfl⟩, rfl⟩
  | cons event events ih =>
    obtain ⟨kept', slots⟩ := records_handle lib config places w event kept trivial
    have slot := slots (placeOf b)
    rw [run]
    cases draw : event.draw index with
    | none =>
      have same := (binding_handle_of_draw lib w draw).trans listed
      rw [write_of_draw input alone _ draw, Option.none_or] at slot
      rw [drawsOf, List.filterMap_cons_none draw, ← slot]
      exact ih kept' same input alone
    | some drawn =>
      cases event with
      | pdu => cases draw
      | update i elapsed up =>
        rw [Event.draw] at draw
        split at draw
        next own =>
          cases draw
          subst own
          obtain ⟨outcome, b', bindings, place, generator⟩ :=
            kept.handle_update lib listed elapsed up
          have inside : i < w.bindings.length := (List.getElem?_eq_some_iff.mp listed).1
          have listed' : (w.handle lib (.update i elapsed up)).2.bindings[i]? = some b' := by
            rw [bindings, List.getElem?_set_self inside]
          have input' : b'.region = .inputRegisters :=
            (congrArg (fun p : Place => p.2.1) place).trans input
          obtain ⟨next, shows⟩ := ih kept' listed' input' (by rw [place]; exact alone)
          rw [place, generator] at shows
          rw [generator] at next
          have draws : drawsOf i (.update i elapsed up :: events) =
              (elapsed, up) :: drawsOf i events :=
            List.filterMap_cons_some (if_pos rfl)
          rw [draws, samples_cons, lastSample_cons]
          refine ⟨next, ?_⟩
          rw [shows, slot, outcome]
          cases sampled : (b.generator.sample lib elapsed up).1 with
          | error e => simp [Except.mapError, Except.toOption, Event.write]
          | ok value =>
            simp only [Except.mapError, Except.toOption, Event.write, (kept.device listed).1, if_true,
              Option.some_or]
            cases lastSample (samples lib (b.generator.sample lib elapsed up).2 (drawsOf i events)).1 <;>
              rfl
        next => cases draw

end Runs

/-! ### Any generators and their bounds -/

theorem bounded_mem {low high : ℚ} (ordered : low ≤ high) {x : Number} (number : x ≠ .nan) :
    ∃ q, bounded (.finite low) (.finite high) x = .finite q ∧ low ≤ q ∧ q ≤ high := by
  cases x with
  | finite q =>
    exact ⟨_, bounded_finite ordered q, le_max_left _ _, max_le ordered (min_le_left _ _)⟩
  | infinite negative =>
    cases negative with
    | false => exact ⟨high, by simp [bounded, Number.lt], ordered, le_rfl⟩
    | true => exact ⟨low, by simp [bounded, Number.lt], le_rfl, ordered⟩
  | nan => exact absurd rfl number

theorem number_of_sum {x y z : Value} {q : ℚ} {n : Number} (left : x.number? = some (.finite q))
    (right : y.number? = some n) (number : n ≠ .nan) (added : x.add binary64.round y = .ok z) :
    ∃ r, z.number? = some r ∧ r ≠ .nan := by
  rcases Value.add_eq_ok right added with ⟨k, l, _, _, rfl⟩ | ⟨p, d, first, second, rfl⟩
  · exact ⟨_, rfl, Number.noConfusion⟩
  · refine ⟨_, rfl, ?_⟩
    obtain ⟨p, rfl⟩ := (Value.near_of_toFloat left first).isFinite_iff.mp (Number.isFinite_finite q)
    rcases Value.near_of_toFloat right second with rfl | ⟨_, d, rfl⟩
    · cases n with
      | finite => exact FloatFormat.round_ne_nan _ _
      | infinite => exact Number.noConfusion
      | nan => exact absurd rfl number
    · exact FloatFormat.round_ne_nan _ _

/-- A constant, the rounded extremes of a sine, or the bounds of a walk that is inside them, lie
between two values. -/
inductive Generator.Ranges (low high : Int) : Generator → Prop
  | constant {value : Int} (least : low ≤ value) (most : value ≤ high) :
    Ranges low high (.constant value)
  | sine {mean amp periodS : Value} {m a bottom top : ℚ}
    (ofMean : mean.toFloat binary64.round = .ok (.finite m))
    (ofAmp : amp.toFloat binary64.round = .ok (.finite a)) (float : binary64.round a = .finite a)
    (down : binary64.round (m - |a|) = .finite bottom)
    (up : binary64.round (m + |a|) = .finite top)
    (least : low ≤ clamped bottom) (most : clamped top ≤ high) :
    Ranges low high (.sine mean amp periodS)
  | randomWalk {step min max value : Value} {s : Number} {bottom top x : ℚ}
    (ofStep : step.number? = some s) (number : s ≠ .nan)
    (ofMin : min.number? = some (.finite bottom)) (ofMax : max.number? = some (.finite top))
    (ofValue : value.number? = some (.finite x)) (inside : bottom ≤ x ∧ x ≤ top)
    (least : low ≤ clamped bottom) (most : clamped top ≤ high) :
    Ranges low high (.randomWalk step min max value)

section Double

variable {sin : ℚ → ℚ} {low high : Int}

/-- A sample of a sine is the sum of its mean and an offset within its amplitude, both rounded. -/
theorem sample_sine_between (sine : ∀ x, |sin x| ≤ 1) {mean amp periodS : Value}
    {m a bottom top : ℚ} (ofMean : mean.toFloat binary64.round = .ok (.finite m))
    (ofAmp : amp.toFloat binary64.round = .ok (.finite a)) (float : binary64.round a = .finite a)
    (least : binary64.round (m - |a|) = .finite bottom)
    (most : binary64.round (m + |a|) = .finite top) {elapsed : ℚ} {up : Bool} {n : Int}
    (returned : ((Generator.sine mean amp periodS).sample (.double sin) elapsed up).1 = .ok n) :
    clamped bottom ≤ n ∧ n ≤ clamped top := by
  obtain ⟨angle, _, rest⟩ := Raise.bind_eq_ok.mp returned
  obtain ⟨s, called, rest⟩ := Raise.bind_eq_ok.mp rest
  obtain ⟨offset, scaled, rest⟩ := Raise.bind_eq_ok.mp rest
  obtain ⟨value, added, result⟩ := Raise.bind_eq_ok.mp rest
  obtain ⟨q, number⟩ := finite_of_clampU16 result
  obtain rfl := Except.ok.inj (result.symm.trans (clampU16_of_number number))
  obtain ⟨_, ampFloat, product⟩ := Raise.bind_eq_ok.mp scaled
  cases ofAmp.symm.trans ampFloat
  cases product
  rcases Value.add_eq_ok rfl added with ⟨_, _, _, impossible, _⟩ | ⟨_, _, meanFloat, same, rfl⟩
  · cases impossible
  cases same
  cases ofMean.symm.trans meanFloat
  have sum := Option.some.inj number
  obtain ⟨_, product⟩ := Number.isFinite_of_add ⟨q, sum⟩
  obtain ⟨_, t, rfl⟩ := Number.isFinite_of_mul product
  have size : |t| ≤ 1 := by
    cases angle with
    | finite x =>
      cases called
      exact sine x
    | infinite | nan => cases called
  have scaled : |a * t| ≤ |a| := by
    rw [abs_mul]
    exact mul_le_of_le_one_right (abs_nonneg a) size
  obtain ⟨o, rounded, within⟩ := binary64.round_of_abs_le float scaled
  have arithmetic : (MathLib.double sin).rounded = binary64.round := rfl
  rw [arithmetic, Number.mul, rounded, Number.add] at sum
  obtain ⟨below, above⟩ := abs_le.mp within
  constructor
  · exact clamped_mono (binary64.round_mono (by linarith) least sum)
  · exact clamped_mono (binary64.round_mono (by linarith) sum most)

/-- Every sample that returns is between the two values, and the generator after it keeps to
them. -/
theorem Generator.Ranges.sample (sine : ∀ x, |sin x| ≤ 1) {g : Generator}
    (ranges : g.Ranges low high) (elapsed : ℚ) (up : Bool) :
    (∀ n, (g.sample (.double sin) elapsed up).1 = .ok n → low ≤ n ∧ n ≤ high) ∧
      (g.sample (.double sin) elapsed up).2.Ranges low high := by
  cases ranges with
  | constant least most =>
    refine ⟨fun n returned => ?_, .constant least most⟩
    cases returned
    exact ⟨least, most⟩
  | @sine mean amp periodS m a bottom top ofMean ofAmp float down up' least most =>
    refine ⟨fun n returned => ?_, .sine ofMean ofAmp float down up' least most⟩
    obtain ⟨above, below⟩ := sample_sine_between sine ofMean ofAmp float down up' returned
    exact ⟨least.trans above, below.trans most⟩
  | @randomWalk step min max value s bottom top x ofStep number ofMin ofMax ofValue inside least
      most =>
    have ordered := inside.1.trans inside.2
    simp only [Generator.sample]
    split
    next =>
      refine ⟨fun n raised => ?_, .randomWalk ofStep number ofMin ofMax ofValue inside least most⟩
      cases raised
    next next walked =>
      obtain ⟨down, negated, rest⟩ := Raise.bind_eq_ok.mp walked
      obtain ⟨z, added, kept⟩ := Raise.bind_eq_ok.mp rest
      have deltaNumber := number_of_delta ofStep negated up
      have delta : (if up then s else s.neg) ≠ .nan := by
        cases up <;> cases s <;> first | exact Number.noConfusion | exact absurd rfl number
      obtain ⟨r, sum, isNumber⟩ := number_of_sum ofValue deltaNumber delta added
      obtain ⟨_, again, final, _⟩ := bound_of_number ofMin ofMax sum
      cases kept.symm.trans again
      obtain ⟨q, finite, within⟩ := bounded_mem ordered isNumber
      rw [finite] at final
      refine ⟨fun n returned => ?_, .randomWalk ofStep number ofMin ofMax final within least most⟩
      cases returned.symm.trans (clampU16_of_number final)
      exact ⟨least.trans (clamped_mono within.1), (clamped_mono within.2).trans most⟩

end Double

/-- The arguments of a specification keep its samples between two values: a constant, a sine of
finite floats, or a walk between finite bounds. -/
def GeneratorSpec.Ranges (g : GeneratorSpec) (low high : Int) : Prop :=
  match g.fn with
  | "constant" => ∃ q, g.number? "value" = some (.finite q) ∧ low ≤ clamped q ∧ clamped q ≤ high
  | "sine" => ∃ m a bottom top, g.float? "mean" = some (.finite m) ∧
      g.float? "amp" = some (.finite a) ∧ binary64.round a = .finite a ∧
      binary64.round (m - |a|) = .finite bottom ∧ binary64.round (m + |a|) = .finite top ∧
      low ≤ clamped bottom ∧ clamped top ≤ high
  | "random_walk" => ∃ x s bottom top, g.number? "start" = some x ∧ x ≠ .nan ∧
      g.number? "step" = some s ∧ s ≠ .nan ∧ g.number? "min" = some (.finite bottom) ∧
      g.number? "max" = some (.finite top) ∧ low ≤ clamped bottom ∧ clamped top ≤ high
  | _ => False

theorem GeneratorSpec.Ranges.made {g : GeneratorSpec} {low high : Int} (ranges : g.Ranges low high)
    {generator : Generator} (made : makeGenerator g.fn g.args = .ok generator) :
    generator.Ranges low high := by
  unfold GeneratorSpec.Ranges at ranges
  unfold makeGenerator at made
  split at made
  next same =>
    simp only [same] at ranges
    obtain ⟨q, number, least, most⟩ := ranges
    obtain ⟨values, bound, result⟩ := Raise.bind_eq_ok.mp made
    split at result
    next value =>
      obtain _ | ⟨given, _⟩ := bindKeywords_eq_ok bound
      rw [number?_of_required given] at number
      rw [Generator.makeConstant, clampU16_of_number number, Raise.ok_bind] at result
      cases result
      exact .constant least most
    next => cases result
  next same =>
    simp only [same] at ranges
    obtain ⟨m, a, bottom, top, mean, amp, float, down, up, least, most⟩ := ranges
    obtain ⟨values, bound, result⟩ := Raise.bind_eq_ok.mp made
    split at result
    next =>
      obtain ⟨_, rfl⟩ := makeSine_eq_ok result
      obtain _ | ⟨meanGiven, _ | ⟨ampGiven, _⟩⟩ := bindKeywords_eq_ok bound
      exact .sine ((float?_of_required meanGiven).mp mean) ((float?_of_required ampGiven).mp amp)
        float down up least most
    next => cases result
  next same =>
    simp only [same] at ranges
    obtain ⟨x, s, bottom, top, start, notNan, stepNumber, number, minNumber, maxNumber, least,
      most⟩ := ranges
    obtain ⟨values, bound, result⟩ := Raise.bind_eq_ok.mp made
    split at result
    next =>
      obtain ⟨accepted, value, kept, rfl⟩ := makeRandomWalk_eq_ok result
      obtain _ | ⟨startGiven, _ | ⟨stepGiven, _ | ⟨minGiven, _ | ⟨maxGiven, _⟩⟩⟩⟩ :=
        bindKeywords_eq_ok bound
      rw [number?_of_required startGiven] at start
      rw [number?_of_required stepGiven] at stepNumber
      rw [number?_of_required minGiven] at minNumber
      rw [number?_of_required maxGiven] at maxNumber
      have ordered : bottom ≤ top := by
        rw [Value.lt_of_number maxNumber minNumber] at accepted
        simpa [Number.lt] using accepted
      obtain ⟨_, again, final, _⟩ := bound_of_number minNumber maxNumber start
      cases kept.symm.trans again
      obtain ⟨q, finite, within⟩ := bounded_mem ordered notNan
      rw [finite] at final
      exact .randomWalk stepNumber number minNumber maxNumber final within least most
    next => cases result
  next => cases made

/-- A place that holds a value between two bounds, and whose generators keep between them. -/
structure Driven (config : Config) (places : List Place) (place : Place) (low high : Int) (w : World) :
    Prop where
  kept : w.Kept config places
  generators : ∀ b ∈ w.bindings, placeOf b = place → b.generator.Ranges low high
  slot : ∃ n, slotOf w place = some (.int n) ∧ low ≤ n ∧ n ≤ high

section Bounds

variable {sin : ℚ → ℚ} {config : Config} {places : List Place} {place : Place} {low high : Int}
  {w : World}

theorem generators_handle (sine : ∀ x, |sin x| ≤ 1)
    (driven : Driven config places place low high w) (event : Event) :
    ∀ b ∈ (w.handle (.double sin) event).2.bindings,
      placeOf b = place → b.generator.Ranges low high := by
  cases event with
  | pdu unitId request =>
    simp only [World.handle]
    cases w.store.get unitId with
    | none => exact driven.generators
    | some device => exact driven.generators
  | update index elapsed up =>
    cases listed : w.bindings[index]? with
    | none =>
      simp only [World.handle, listed]
      exact driven.generators
    | some b =>
      obtain ⟨_, b', bindings, same, generator⟩ :=
        driven.kept.handle_update (.double sin) listed elapsed up
      rw [bindings]
      intro c member here
      rcases List.mem_or_eq_of_mem_set member with before | rfl
      · exact driven.generators c before here
      · have ranges := driven.generators b (List.mem_of_getElem? listed) (same.symm.trans here)
        rw [generator]
        exact (ranges.sample sine elapsed up).2

/-- What an event writes to the place is a sample of one of its generators. -/
theorem write_between (sine : ∀ x, |sin x| ≤ 1) (input : place.2.1 = .inputRegisters)
    (driven : Driven config places place low high w) {event : Event} {slot : Slot}
    (wrote : Event.write places event (w.handle (.double sin) event).1 place = some slot) :
    ∃ n, slot = .int n ∧ low ≤ n ∧ n ≤ high := by
  cases event with
  | pdu unitId request =>
    rw [write_pdu_input places input] at wrote
    cases wrote
  | update index elapsed up =>
    cases listed : w.bindings[index]? with
    | none =>
      simp only [World.handle, listed, Event.write] at wrote
      cases wrote
    | some b =>
      obtain ⟨outcome, _⟩ := driven.kept.handle_update (.double sin) listed elapsed up
      obtain ⟨here, _⟩ := driven.kept.device listed
      rw [outcome] at wrote
      cases sampled : (b.generator.sample (.double sin) elapsed up).1 with
      | error e =>
        simp only [sampled, Except.mapError, Event.write] at wrote
        cases wrote
      | ok value =>
        simp only [sampled, Except.mapError, Event.write, here, Option.some_inj] at wrote
        split at wrote
        next same =>
          cases wrote
          have ranges := driven.generators b (List.mem_of_getElem? listed) same
          exact ⟨value, rfl, (ranges.sample sine elapsed up).1 value sampled⟩
        next => cases wrote

theorem Driven.handle (sine : ∀ x, |sin x| ≤ 1) (input : place.2.1 = .inputRegisters)
    (driven : Driven config places place low high w) (event : Event) :
    Driven config places place low high (w.handle (.double sin) event).2 := by
  obtain ⟨kept, slots⟩ := records_handle (.double sin) config places w event driven.kept trivial
  refine ⟨kept, generators_handle sine driven event, ?_⟩
  rw [slots place]
  cases wrote : Event.write places event (w.handle (.double sin) event).1 place with
  | none =>
    rw [Option.none_or]
    exact driven.slot
  | some slot =>
    obtain ⟨n, rfl, between⟩ := write_between sine input driven wrote
    exact ⟨n, rfl, between⟩

/-- Whatever the events, a driven input register stays between the bounds of its generators. -/
theorem Driven.run (sine : ∀ x, |sin x| ≤ 1) (input : place.2.1 = .inputRegisters)
    (driven : Driven config places place low high w) (events : List Event) :
    Driven config places place low high
      (StatefulRun.run (World.handle (.double sin)) w events).2 := by
  have keeps : ∀ (w : World) (event : Event), (fun w => Driven config places place low high w) w →
      (fun w => Driven config places place low high w) (w.handle (.double sin) event).2 :=
    fun w event driven => driven.handle sine input event
  exact run_keeps keeps events driven

end Bounds

/-- The first sample of a generator is between its bounds, and so are the later ones. -/
theorem GeneratorSpec.Ranges.first {sin : ℚ → ℚ} (sine : ∀ x, |sin x| ≤ 1) {g : GeneratorSpec}
    {low high : Int} (ranges : g.Ranges low high) {up : Bool} {started : Int × Generator}
    (first : g.first (.double sin) up = .ok started) :
    (low ≤ started.1 ∧ started.1 ≤ high) ∧ started.2.Ranges low high := by
  obtain ⟨generator, made, sampled⟩ := first_eq_ok first
  obtain ⟨between, after⟩ := (ranges.made made).sample sine 0 up
  rw [sampled] at between after
  exact ⟨between _ rfl, after⟩

theorem driven_built {sin : ℚ → ℚ} (sine : ∀ x, |sin x| ≤ 1) {draws : Nat → Bool}
    {config : Config} {store : DataStore} {bindings : List GeneratorBinding}
    (valid : config.validate = .ok ())
    (built : buildDatastore (.double sin) draws config = .ok (store, bindings)) {place : Place}
    {low high : Int} (bound : ∃ p ∈ config.placed, p.place = place)
    (ranges : ∀ p ∈ config.placed, p.place = place → p.generator.Ranges low high) :
    Driven config (bindings.map placeOf) place low high ⟨store, bindings⟩ := by
  have realizes := buildDatastore_realizes valid built
  obtain ⟨binds, seeded⟩ := buildDatastore_binds (Config.validate_eq_ok valid) built
  obtain ⟨bindingOf, placedOf⟩ := exists_of_binds binds
  refine ⟨⟨realizes, rfl⟩, fun b member here => ?_, ?_⟩
  · obtain ⟨⟨p, i⟩, listed, bind⟩ := placedOf b member
    have same : p.place = place := by
      rw [← here, Placed.place, placeOf, bind.unit, bind.region, bind.address]
    obtain ⟨value, first⟩ := bind.started
    exact ((ranges p (List.fst_mem_of_mem_zipIdx listed) same).first sine first).2
  · obtain ⟨p, member, rfl⟩ := bound
    obtain ⟨spec, known, placed⟩ := List.mem_flatMap.mp member
    have unit : p.place.1 = spec.unitId := congrArg DeviceSpec.unitId (spec_of_mem_placed placed)
    obtain ⟨device, found, slots⟩ := seeded spec known
    rw [slotOf, unit, found, Option.bind_some, slots, ← unit]
    -- the generator itself has written the place, and whoever wrote it last was one of the place
    cases written : latest (config.placed.zipIdx.map (seed (.double sin) draws)) p.place with
    | none =>
      obtain ⟨i, here⟩ := List.mem_iff_getElem?.mp member
      have listed : (p, i) ∈ config.placed.zipIdx := List.mk_mem_zipIdx_iff_getElem?.mpr here
      obtain ⟨_, _, bind⟩ := bindingOf _ listed
      obtain ⟨started, first⟩ := bind.starts
      have unwritten := latest_eq_none_iff.mp written _ (List.mem_map_of_mem listed)
      rw [seed_of_first first, if_pos rfl] at unwritten
      cases unwritten
    | some slot =>
      obtain ⟨_, wrote, value⟩ := mem_of_latest written
      obtain ⟨⟨other, i⟩, listed, rfl⟩ := List.mem_map.mp wrote
      obtain ⟨_, _, bind⟩ := bindingOf _ listed
      obtain ⟨started, first⟩ := bind.starts
      rw [seed_of_first first] at value
      split at value
      next here =>
        cases value
        have range := ranges other (List.fst_mem_of_mem_zipIdx listed) here.symm
        exact ⟨started.1, rfl, (range.first sine first).1⟩
      next => cases value

end ModbusSim.Setup
