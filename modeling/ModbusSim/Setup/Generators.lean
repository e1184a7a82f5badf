import ModbusSim.Lib.FloatFormat
import ModbusSim.Lib.PyValue
import ModbusSim.Lib.Raise
import ModbusSim.Store.Device

/-!
# Register value generators

The three generators and their bindings to register slots. What a sample gets from outside is
explicit: the arithmetic of floats with `math.pi` and `math.sin`, and which of two steps a random
walk draws. A sample returns the generator afterwards beside the value or the exception.
-/

namespace ModbusSim.Setup

open PyStruct PyValue ModbusSim.Frame Store

/-- `math.pi` -/
def mathPi : ℚ := 884279719003555 / 281474976710656

/-- The arithmetic of floats: what an exact result is rounded to, and the functions of `math`. -/
structure MathLib where
  pi : ℚ
  sin : ℚ → ℚ
  rounded : ℚ → Number

namespace MathLib

/-- Floats idealised as rational numbers. -/
def exact (pi : ℚ) (sin : ℚ → ℚ) : MathLib := ⟨pi, sin, .finite⟩

/-- Double precision. -/
def double (sin : ℚ → ℚ) : MathLib := ⟨mathPi, sin, binary64.round⟩

/-- `math.sin` -/
def sine (lib : MathLib) : Number → Except PyError Number
  | .finite q => .ok (.finite (lib.sin q))
  | .infinite _ => .error (.valueError "math domain error")
  | .nan => .ok .nan

/-- `2 * math.pi * elapsed` -/
def turns (lib : MathLib) (elapsed : ℚ) : Number :=
  .mul lib.rounded (.mul lib.rounded (.finite 2) (.finite lib.pi)) (.finite elapsed)

end MathLib

def uint16Min : Int := 0
def uint16Max : Int := 0xFFFF

def clampU16 (value : Value) : Except PyError Int := do
  let ivalue ← value.round
  if ivalue < uint16Min then return uint16Min
  else if ivalue > uint16Max then return uint16Max
  else return ivalue

inductive Generator where
  | constant (value : Int)
  | sine (mean amp periodS : Value)
  | randomWalk (step min max value : Value)

namespace Generator

/-- `Constant(value)` -/
def makeConstant (value : Value) : Except PyError Generator := do
  return .constant (← clampU16 value)

/-- `Sine(mean, amp, period_s)` -/
def makeSine (mean amp periodS : Value) : Except PyError Generator := do
  if ← periodS.leZero then throw (.valueError "period_s must be positive")
  return .sine mean amp periodS

/-- `_bound` -/
def bound (min max value : Value) : Except PyError Value := do
  if ← value.lt min then return min
  if ← max.lt value then return max
  return value

/-- `random.Random(seed)` accepts `None`, numbers, strings and byte strings. -/
def checkSeed : Value → Except PyError Unit
  | .none | .bool _ | .int _ | .float _ | .str _ | .bytes _ => .ok ()
  | _ => .error unsupported

/-- `RandomWalk(start, step, min, max, seed)` -/
def makeRandomWalk (start step min max seed : Value) : Except PyError Generator := do
  if ← max.lt min then throw (.valueError "min must not exceed max")
  let value ← bound min max start
  checkSeed seed
  return .randomWalk step min max value

/-- `sample`: the value or the exception, and the generator afterwards. -/
def sample (lib : MathLib) (g : Generator) (elapsed : ℚ) (up : Bool) :
    Except PyError Int × Generator :=
  match g with
  | .constant value => (.ok value, g)
  | .sine mean amp periodS => (do
      let angle ← periodS.divInto lib.rounded (lib.turns elapsed)
      let offset ← amp.mulFloat lib.rounded (← lib.sine angle)
      clampU16 (← mean.add lib.rounded (.float offset)), g)
  | .randomWalk step min max value =>
    let next : Except PyError Value := do
      let down ← step.neg
      let delta := if up then step else down
      bound min max (← value.add lib.rounded delta)
    match next with
    | .error e => (.error e, g)
    | .ok value' => (clampU16 value', .randomWalk step min max value')

end Generator

/-- `factory(**(args or {}))`, for the factory that a name has. -/
def makeGenerator (fn : String) (args : List (Value × Value)) : Except PyError Generator :=
  match fn with
  | "constant" => do
    match ← bindKeywords [⟨"value", none⟩] args with
    | [value] => Generator.makeConstant value
    | _ => throw unsupported
  | "sine" => do
    match ← bindKeywords [⟨"mean", none⟩, ⟨"amp", none⟩, ⟨"period_s", none⟩] args with
    | [mean, amp, periodS] => Generator.makeSine mean amp periodS
    | _ => throw unsupported
  | "random_walk" => do
    match ← bindKeywords
      [⟨"start", none⟩, ⟨"step", none⟩, ⟨"min", none⟩, ⟨"max", none⟩, ⟨"seed", some .none⟩] args with
    | [start, step, min, max, seed] => Generator.makeRandomWalk start step min max seed
    | _ => throw unsupported
  | _ => .error (.valueError ("unknown generator function '" ++ fn ++ "'"))

/-- A generator wired to a slot of a block: the unit and the region say which. -/
structure GeneratorBinding where
  unitId : Int
  region : Region
  address : Int
  generator : Generator
  label : String

/-- `update`, on the device of the binding. -/
def GeneratorBinding.update (lib : MathLib) (b : GeneratorBinding) (device : Device) (elapsed : ℚ)
    (up : Bool) : Except Exn Int × Device × GeneratorBinding :=
  let (sampled, generator) := b.generator.sample lib elapsed up
  match sampled with
  | .error e => (.error (.py e), device, { b with generator })
  | .ok value =>
    let (result, block) := (device.block b.region).set b.address (.int value)
    (result.map fun _ => value, device.setBlock block b.region, { b with generator })

/-! ### Sampled values -/

theorem clampU16_isWord {value : Value} {n : Int} (clamped : clampU16 value = .ok n) : IsWord n := by
  obtain ⟨ivalue, _, result⟩ := Raise.bind_eq_ok.mp clamped
  split at result
  · cases result
    decide
  · split at result
    · cases result
      decide
    next low high =>
      cases result
      exact ⟨not_lt.mp low, not_lt.mp high⟩

def Generator.Fits : Generator → Prop
  | .constant value => IsWord value
  | _ => True

theorem makeSine_eq_ok {mean amp periodS : Value} {g : Generator}
    (made : Generator.makeSine mean amp periodS = .ok g) :
    periodS.leZero = .ok false ∧ g = .sine mean amp periodS := by
  obtain ⟨refused, compared, result⟩ := Raise.bind_eq_ok.mp made
  cases refused with
  | true => simp at result
  | false =>
    simp only [Bool.false_eq_true, if_false, Raise.pure_eq, Except.ok.injEq] at result
    exact ⟨compared, result.symm⟩

theorem makeRandomWalk_eq_ok {start step min max seed : Value} {g : Generator}
    (made : Generator.makeRandomWalk start step min max seed = .ok g) :
    max.lt min = .ok false ∧
      ∃ value, Generator.bound min max start = .ok value ∧ g = .randomWalk step min max value := by
  obtain ⟨refused, compared, result⟩ := Raise.bind_eq_ok.mp made
  cases refused with
  | true => simp at result
  | false =>
    simp only [Bool.false_eq_true, if_false] at result
    obtain ⟨value, bounded, result⟩ := Raise.bind_eq_ok.mp result
    obtain ⟨_, _, result⟩ := Raise.bind_eq_ok.mp result
    cases result
    exact ⟨compared, value, bounded, rfl⟩

theorem makeGenerator_fits {fn : String} {args : List (Value × Value)} {g : Generator}
    (made : makeGenerator fn args = .ok g) : g.Fits := by
  unfold makeGenerator at made
  split at made
  · obtain ⟨values, _, result⟩ := Raise.bind_eq_ok.mp made
    split at result
    · obtain ⟨value, clamped, result⟩ := Raise.bind_eq_ok.mp result
      cases result
      exact clampU16_isWord clamped
    · cases result
  · obtain ⟨values, _, result⟩ := Raise.bind_eq_ok.mp made
    split at result
    · obtain ⟨_, rfl⟩ := makeSine_eq_ok result
      trivial
    · cases result
  · obtain ⟨values, _, result⟩ := Raise.bind_eq_ok.mp made
    split at result
    · obtain ⟨_, _, _, rfl⟩ := makeRandomWalk_eq_ok result
      trivial
    · cases result
  · cases made

theorem sample_fits {g : Generator} (fits : g.Fits) (lib : MathLib) (elapsed : ℚ) (up : Bool) :
    (g.sample lib elapsed up).2.Fits := by
  cases g with
  | constant | sine => exact fits
  | randomWalk step min max value =>
    simp only [Generator.sample]
    split
    · exact fits
    · trivial

theorem sample_isWord {lib : MathLib} {g : Generator} (fits : g.Fits) {elapsed : ℚ} {up : Bool}
    {n : Int} (sampled : (g.sample lib elapsed up).1 = .ok n) : IsWord n := by
  cases g with
  | constant value =>
    cases sampled
    exact fits
  | sine mean amp periodS =>
    obtain ⟨angle, _, sampled⟩ := Raise.bind_eq_ok.mp sampled
    obtain ⟨s, _, sampled⟩ := Raise.bind_eq_ok.mp sampled
    obtain ⟨offset, _, sampled⟩ := Raise.bind_eq_ok.mp sampled
    obtain ⟨value, _, clamped⟩ := Raise.bind_eq_ok.mp sampled
    exact clampU16_isWord clamped
  | randomWalk step min max value =>
    simp only [Generator.sample] at sampled
    split at sampled
    · cases sampled
    · exact clampU16_isWord sampled

theorem update_wellFormed (lib : MathLib) {b : GeneratorBinding} {device : Device}
    (fits : b.generator.Fits) (wellFormed : device.WellFormed) (elapsed : ℚ) (up : Bool) :
    (b.update lib device elapsed up).2.1.WellFormed ∧
      (b.update lib device elapsed up).2.2.generator.Fits := by
  have next := sample_fits fits lib elapsed up
  unfold GeneratorBinding.update
  cases sample : b.generator.sample lib elapsed up with
  | mk sampled generator =>
    rw [sample] at next
    cases sampled with
    | error e => exact ⟨wellFormed, next⟩
    | ok value =>
      have word : IsWord value := sample_isWord fits (by rw [sample])
      have sized := wellFormed.sized b.region
      simp only [MemoryBlock.set_eq sized]
      refine ⟨?_, next⟩
      split
      · refine wellFormed.setBlock ((List.length_set ..).trans sized) fun register slot member => ?_
        rcases List.mem_or_eq_of_mem_set member with before | rfl
        · exact wellFormed.words b.region register slot before
        · exact word
      · rw [Device.setBlock_block]
        exact wellFormed

end ModbusSim.Setup
