import ModbusSim.Lib.Report
import ModbusSim.Setup.Generators

/-!
# Device configuration

The specification records and their validators. The declared field types hold by construction of
the records; the declared bounds and the validators are checked from the inside out, as the models
are built. The failures of all fields are collected, and the validator of a model runs only if its
fields have none; what is raised there and is no `ValueError` stops the validation.
-/

namespace ModbusSim.Setup

open Raise Raise.Report PyStruct PyValue ModbusSim.Frame Store

structure GeneratorSpec where
  addr : Int
  fn : String
  args : List (Value × Value)

structure RegionSpec where
  size : Int
  init : Option (List Int)
  generators : List GeneratorSpec

structure DeviceSpec where
  unitId : Int
  name : String
  coils : RegionSpec
  discreteInputs : RegionSpec
  holdingRegisters : RegionSpec
  inputRegisters : RegionSpec

structure Config where
  devices : List DeviceSpec

def RegionSpec.empty : RegionSpec := ⟨0, none, []⟩

def DeviceSpec.region (spec : DeviceSpec) : Region → RegionSpec
  | .coils => spec.coils
  | .discreteInputs => spec.discreteInputs
  | .holdingRegisters => spec.holdingRegisters
  | .inputRegisters => spec.inputRegisters

def regionName : Region → String
  | .coils => "coils"
  | .discreteInputs => "discrete_inputs"
  | .holdingRegisters => "holding_registers"
  | .inputRegisters => "input_registers"

def bitRegions : List Region := [.coils, .discreteInputs]

/-! ### Validators -/

/-- The failures of a model, or an exception that is no `ValueError`. -/
abbrev Checked := Report PyError String

/-- `Field(ge=lo, le=hi)` -/
def checkField (lo hi v : Int) : Checked :=
  both (failIf (v < lo) ("Input should be greater than or equal to " ++ toString lo))
    (failIf (v > hi) ("Input should be less than or equal to " ++ toString hi))

/-- What a validator raises, if it is a `ValueError`, is a failure of its model. -/
def caught : Except PyError Unit → Checked
  | .ok () => .ok []
  | .error (.valueError message) => .ok [message]
  | .error e => .error e

def generatorNames : List String := ["constant", "sine", "random_walk"]

namespace GeneratorSpec

/-- `_check_args` -/
def checkArgs (spec : GeneratorSpec) : Except PyError Unit :=
  match makeGenerator spec.fn spec.args with
  | .ok _ => .ok ()
  | .error (.typeError exc) | .error (.valueError exc) =>
    .error (.valueError ("invalid args for generator '" ++ spec.fn ++ "': " ++ exc))
  | .error e => .error e

def validate (spec : GeneratorSpec) : Checked :=
  after (both (checkField 0 0xFFFF spec.addr)
      (failIf (spec.fn ∉ generatorNames) "Input should be 'constant', 'sine' or 'random_walk'"))
    (caught spec.checkArgs)

end GeneratorSpec

namespace RegionSpec

/-- `_check_bounds` -/
def checkBounds (spec : RegionSpec) : Except PyError Unit := do
  spec.init.toList.forM fun init =>
    raiseIf (init.length > spec.size) (.valueError ("init has " ++ toString init.length ++
      " values but region size is " ++ toString spec.size))
  spec.generators.forM fun g =>
    raiseIf (g.addr ≥ spec.size) (.valueError ("generator addr " ++ toString g.addr ++
      " is outside region size " ++ toString spec.size))

def validate (spec : RegionSpec) : Checked :=
  after (both (checkField 0 0x10000 spec.size) (each GeneratorSpec.validate spec.generators))
    (caught spec.checkBounds)

end RegionSpec

namespace DeviceSpec

/-- One bit region of `_check_regions`. -/
def checkBitRegion (spec : DeviceSpec) (r : Region) : Except PyError Unit := do
  raiseIf ((spec.region r).generators.length ≠ 0)
    (.valueError ("generators are not allowed on bit region '" ++ regionName r ++ "'"))
  (spec.region r).init.toList.forM fun init => raiseIf (∃ v ∈ init, v ∉ [0, 1])
    (.valueError (regionName r ++ " init values must be 0 or 1"))

/-- One register region of `_check_regions`. -/
def checkRegisterRegion (spec : DeviceSpec) (r : Region) : Except PyError Unit :=
  (spec.region r).init.toList.forM fun init => raiseIf (∃ v ∈ init, ¬ (0 ≤ v ∧ v ≤ 0xFFFF))
    (.valueError (regionName r ++ " init values must be in 0..65535"))

/-- `_check_regions` -/
def checkRegions (spec : DeviceSpec) : Except PyError Unit := do
  bitRegions.forM spec.checkBitRegion
  Device.registerRegions.forM spec.checkRegisterRegion

def validate (spec : DeviceSpec) : Checked :=
  after (both (checkField 1 247 spec.unitId) (both spec.coils.validate
      (both spec.discreteInputs.validate
        (both spec.holdingRegisters.validate spec.inputRegisters.validate))))
    (caught spec.checkRegions)

end DeviceSpec

namespace Config

/-- `_unique_unit_ids`, with the ids seen so far. -/
def uniqueUnitIds (seen : List Int) : List DeviceSpec → Except PyError Unit
  | [] => .ok ()
  | device :: devices =>
    if device.unitId ∈ seen then
      .error (.valueError ("duplicate unit_id " ++ toString device.unitId))
    else uniqueUnitIds (device.unitId :: seen) devices

def failures (config : Config) : Checked :=
  after (each DeviceSpec.validate config.devices) (caught (uniqueUnitIds [] config.devices))

/-- `Config.model_validate`, from the record on: the `ValidationError` is a `ValueError` and tells
all failures. -/
def validate (config : Config) : Except PyError Unit :=
  match config.failures with
  | .error e => .error e
  | .ok [] => .ok ()
  | .ok messages => .error (.valueError (String.intercalate "\n" messages))

end Config

/-! ### What a valid configuration says -/

theorem checkField_eq_nil {lo hi v : Int} : checkField lo hi v = .ok [] ↔ lo ≤ v ∧ v ≤ hi := by
  rw [checkField, both_eq_nil, failIf_eq_nil, failIf_eq_nil, not_lt, not_lt]

theorem caught_eq_nil {x : Except PyError Unit} : caught x = .ok [] ↔ x = .ok () := by
  unfold caught
  split <;> simp

structure RegionSpec.Valid (spec : RegionSpec) : Prop where
  size : 0 ≤ spec.size ∧ spec.size ≤ 0x10000
  fits : ∀ init, spec.init = some init → (init.length : Int) ≤ spec.size
  addresses : ∀ g ∈ spec.generators, 0 ≤ g.addr ∧ g.addr < spec.size
  made : ∀ g ∈ spec.generators, ∃ generator, makeGenerator g.fn g.args = .ok generator

structure DeviceSpec.Valid (spec : DeviceSpec) : Prop where
  unit : 1 ≤ spec.unitId ∧ spec.unitId ≤ 247
  regions : ∀ r, (spec.region r).Valid
  bits : ∀ r ∈ bitRegions, (spec.region r).generators = [] ∧
    ∀ init, (spec.region r).init = some init → ∀ v ∈ init, v = 0 ∨ v = 1
  words : ∀ r ∈ Device.registerRegions,
    ∀ init, (spec.region r).init = some init → ∀ v ∈ init, IsWord v

theorem GeneratorSpec.validate_eq_ok {spec : GeneratorSpec} (valid : spec.validate = .ok []) :
    (0 ≤ spec.addr ∧ spec.addr ≤ 0xFFFF) ∧
      ∃ generator, makeGenerator spec.fn spec.args = .ok generator := by
  obtain ⟨fields, checked⟩ := after_eq_nil.mp valid
  refine ⟨checkField_eq_nil.mp (both_eq_nil.mp fields).1, ?_⟩
  have returned := caught_eq_nil.mp checked
  rw [checkArgs] at returned
  split at returned
  next g made => exact ⟨g, made⟩
  all_goals cases returned

theorem RegionSpec.validate_eq_ok {spec : RegionSpec} (valid : spec.validate = .ok []) :
    spec.Valid := by
  obtain ⟨fields, checked⟩ := after_eq_nil.mp valid
  obtain ⟨bounds, specs⟩ := both_eq_nil.mp fields
  obtain ⟨init, addresses⟩ := seq_eq_ok.mp (caught_eq_nil.mp checked)
  have generators := each_eq_nil.mp specs
  refine ⟨checkField_eq_nil.mp bounds, fun values given => ?_, fun g member => ?_,
    fun g member => ?_⟩
  · exact not_lt.mp (raiseIf_eq_ok.mp (forM_eq_ok.mp init values (by simp [given])))
  · have below := not_le.mp (raiseIf_eq_ok.mp (forM_eq_ok.mp addresses g member))
    exact ⟨(GeneratorSpec.validate_eq_ok (generators g member)).1.1, below⟩
  · exact (GeneratorSpec.validate_eq_ok (generators g member)).2

theorem DeviceSpec.validate_eq_ok {spec : DeviceSpec} (valid : spec.validate = .ok []) :
    spec.Valid := by
  obtain ⟨fields, checked⟩ := after_eq_nil.mp valid
  obtain ⟨unit, rest⟩ := both_eq_nil.mp fields
  obtain ⟨coils, rest⟩ := both_eq_nil.mp rest
  obtain ⟨discreteInputs, rest⟩ := both_eq_nil.mp rest
  obtain ⟨holdingRegisters, inputRegisters⟩ := both_eq_nil.mp rest
  obtain ⟨bits, words⟩ := seq_eq_ok.mp (caught_eq_nil.mp checked)
  refine ⟨checkField_eq_nil.mp unit, fun r => ?_, fun r member => ?_,
    fun r member init given v slot => ?_⟩
  · cases r with
    | coils => exact RegionSpec.validate_eq_ok coils
    | discreteInputs => exact RegionSpec.validate_eq_ok discreteInputs
    | holdingRegisters => exact RegionSpec.validate_eq_ok holdingRegisters
    | inputRegisters => exact RegionSpec.validate_eq_ok inputRegisters
  · obtain ⟨none, flags⟩ := seq_eq_ok.mp (forM_eq_ok.mp bits r member)
    refine ⟨List.length_eq_zero_iff.mp (not_not.mp (raiseIf_eq_ok.mp none)),
      fun init given v slot => ?_⟩
    have all := raiseIf_eq_ok.mp (forM_eq_ok.mp flags init (by simp [given]))
    by_contra other
    exact all ⟨v, slot, by simpa using other⟩
  · have all := raiseIf_eq_ok.mp (forM_eq_ok.mp (forM_eq_ok.mp words r member) init (by simp [given]))
    by_contra outside
    exact all ⟨v, slot, outside⟩

theorem uniqueUnitIds_eq_ok {seen : List Int} {devices : List DeviceSpec}
    (unique : Config.uniqueUnitIds seen devices = .ok ()) :
    (devices.map DeviceSpec.unitId).Nodup ∧ ∀ device ∈ devices, device.unitId ∉ seen := by
  induction devices generalizing seen with
  | nil => simp
  | cons device devices ih =>
    rw [Config.uniqueUnitIds] at unique
    split at unique
    · cases unique
    next fresh =>
      obtain ⟨nodup, others⟩ := ih unique
      constructor
      · refine List.nodup_cons.mpr ⟨fun member => ?_, nodup⟩
        obtain ⟨other, listed, same⟩ := List.mem_map.mp member
        exact others other listed (by simp [same])
      · intro other member
        rcases List.mem_cons.mp member with rfl | later
        · exact fresh
        · exact fun known => others other later (by simp [known])

structure Config.Valid (config : Config) : Prop where
  devices : ∀ spec ∈ config.devices, spec.Valid
  unique : (config.devices.map DeviceSpec.unitId).Nodup

theorem failures_eq_nil {config : Config} :
    config.failures = .ok [] ↔ config.validate = .ok () := by
  rw [Config.validate]
  split <;> simp_all

theorem Config.validate_eq_ok {config : Config} (valid : config.validate = .ok ()) :
    config.Valid := by
  obtain ⟨devices, unique⟩ := after_eq_nil.mp (failures_eq_nil.mpr valid)
  exact ⟨fun spec member => DeviceSpec.validate_eq_ok (each_eq_nil.mp devices spec member),
    (uniqueUnitIds_eq_ok (caught_eq_nil.mp unique)).1⟩

end ModbusSim.Setup
