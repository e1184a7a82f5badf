import Mathlib.Logic.Relation
import ModbusSim.Setup.Build

/-!
# Runs of a configured store

A run interleaves requests to devices with updates of bindings. Whatever the order, the store
keeps to its configuration: sizes, booleans and 16-bit registers, so no answer and no update fails
for a reason of its own.
-/

namespace ModbusSim.Setup

open PyStruct ModbusSim.Frame Store Dispatch

structure World where
  store : DataStore
  bindings : List GeneratorBinding

/-- A PDU is processed on a device, or a binding is updated whose sample returns. -/
inductive World.Step (lib : MathLib) (w : World) : World → Prop
  | pdu {unitId : Int} {device device' : Device} {pdu : Bytes} {result : Except Exn Bytes}
    (found : w.store.get unitId = some device)
    (processed : processPdu device pdu = (result, device')) :
    Step lib w ⟨w.store.update unitId device', w.bindings⟩
  | update {i : Nat} {b b' : GeneratorBinding} {device device' : Device} {elapsed : ℚ} {up : Bool}
    {value : Int} {result : Except Exn Int} (listed : w.bindings[i]? = some b)
    (found : w.store.get b.unitId = some device)
    (sampled : (b.generator.sample lib elapsed up).1 = .ok value)
    (updated : b.update lib device elapsed up = (result, device', b')) :
    Step lib w ⟨w.store.update b.unitId device', w.bindings.set i b'⟩

/-- The store holds exactly the configured devices, as specified, and the bindings are theirs. -/
structure World.Realizes (config : Config) (w : World) : Prop where
  units : w.store.units = config.devices.map DeviceSpec.unitId
  devices : ∀ spec ∈ config.devices,
    ∃ device, w.store.get spec.unitId = some device ∧ Setup.Realizes spec device
  bindings : ∀ b ∈ w.bindings, ∃ spec ∈ config.devices, Bound spec b

theorem World.Realizes.spec {config : Config} {w : World} (realizes : w.Realizes config)
    {unitId : Int} {device : Device} (found : w.store.get unitId = some device) :
    ∃ spec ∈ config.devices, spec.unitId = unitId ∧ Setup.Realizes spec device := by
  have member := DataStore.mem_units_of_get found
  rw [realizes.units] at member
  obtain ⟨spec, listed, rfl⟩ := List.mem_map.mp member
  obtain ⟨_, there, holds⟩ := realizes.devices spec listed
  cases found.symm.trans there
  exact ⟨spec, listed, rfl, holds⟩

theorem World.Realizes.update {config : Config} {w : World} (realizes : w.Realizes config)
    {unitId : Int} {device device' : Device} (found : w.store.get unitId = some device)
    (keeps : ∀ spec, Setup.Realizes spec device → Setup.Realizes spec device')
    {bindings : List GeneratorBinding}
    (bounds : ∀ b ∈ bindings, ∃ spec ∈ config.devices, Bound spec b) :
    World.Realizes config ⟨w.store.update unitId device', bindings⟩ := by
  refine ⟨?_, fun spec member => ?_, bounds⟩
  · rw [← realizes.units]
    exact DataStore.units_update_of_mem (DataStore.mem_units_of_get found) device'
  · obtain ⟨before, there, holds⟩ := realizes.devices spec member
    by_cases same : spec.unitId = unitId
    · rw [same] at there
      cases found.symm.trans there
      exact ⟨device', by rw [DataStore.get_update, if_pos same], keeps spec holds⟩
    · exact ⟨before, by rw [DataStore.get_update, if_neg same, there], holds⟩

theorem bound_set {config : Config} {bindings : List GeneratorBinding} {b : GeneratorBinding}
    (bounds : ∀ b ∈ bindings, ∃ spec ∈ config.devices, Bound spec b)
    (bound : ∃ spec ∈ config.devices, Bound spec b) (i : Nat) :
    ∀ c ∈ bindings.set i b, ∃ spec ∈ config.devices, Bound spec c := by
  intro c member
  rcases List.mem_or_eq_of_mem_set member with before | rfl
  · exact bounds c before
  · exact bound

theorem World.Realizes.bound {config : Config} {w : World} (realizes : w.Realizes config)
    {b : GeneratorBinding} (member : b ∈ w.bindings) :
    ∃ spec ∈ config.devices, Bound spec b ∧
      ∃ device, w.store.get b.unitId = some device ∧ Setup.Realizes spec device := by
  obtain ⟨spec, listed, bound⟩ := realizes.bindings b member
  obtain ⟨device, found, holds⟩ := realizes.devices spec listed
  exact ⟨spec, listed, bound, device, bound.unit ▸ found, holds⟩

theorem Bound.congr {spec other : DeviceSpec} {device : Device} {b : GeneratorBinding}
    (bound : Bound spec b) (holds : Realizes spec device) (holds' : Realizes other device) :
    Bound other b := by
  refine ⟨?_, bound.register, ?_, bound.fits⟩
  · rw [bound.unit, ← holds.unit, holds'.unit]
  · rw [← holds'.sizes, holds.sizes]
    exact bound.address

theorem World.Step.realizes {lib : MathLib} {config : Config} {w w' : World}
    (step : World.Step lib w w') (realizes : w.Realizes config) : w'.Realizes config := by
  cases step with
  | @pdu _ device _ pdu _ found processed =>
    refine realizes.update found (fun spec holds => ?_) realizes.bindings
    have after := holds.processPdu pdu
    rw [processed] at after
    exact after
  | @update i b _ device _ elapsed up _ _ listed found _ updated =>
    obtain ⟨spec, member, bound, _, there, holds⟩ := realizes.bound (List.mem_of_getElem? listed)
    cases found.symm.trans there
    have spread := update_spec lib bound holds elapsed up
    rw [updated] at spread
    refine realizes.update found (fun other holds' => ?_)
      (bound_set realizes.bindings ⟨spec, member, spread.2.2⟩ i)
    have after := update_spec lib (bound.congr holds holds') holds' elapsed up
    rw [updated] at after
    exact after.2.1

theorem buildDatastore_realizes {lib : MathLib} {draws : Nat → Bool} {config : Config}
    {store : DataStore} {bindings : List GeneratorBinding} (valid : config.validate = .ok ())
    (built : buildDatastore lib draws config = .ok (store, bindings)) :
    World.Realizes config ⟨store, bindings⟩ := by
  obtain ⟨⟨devices, all⟩, made, rest⟩ := Raise.bind_eq_ok.mp built
  obtain ⟨_, added, result⟩ := Raise.bind_eq_ok.mp rest
  cases result
  obtain ⟨⟨_, rfl, realized⟩, _, rfl, bounds⟩ :=
    buildDevices_spec (Config.validate_eq_ok valid).devices made
  obtain ⟨units, found⟩ := DataStore.init_eq_ok added
  refine ⟨units.trans (units_of_realized realized), fun spec member => ?_, bounds⟩
  obtain ⟨device, listed, holds⟩ := exists_of_realized realized member
  exact ⟨device, holds.unit ▸ found device listed, holds⟩

theorem realizes_of_run {lib : MathLib} {config : Config} {w w' : World}
    (run : Relation.ReflTransGen (World.Step lib) w w') (realizes : w.Realizes config) :
    w'.Realizes config := by
  induction run with
  | refl => exact realizes
  | tail _ step ih => exact step.realizes ih

/-- In every reachable state the blocks have their configured sizes and slots of their kind, every
PDU is answered, and an update raises nothing but what its sample raises. -/
theorem run_wellTyped {lib : MathLib} {draws : Nat → Bool} {config : Config} {store : DataStore}
    {bindings : List GeneratorBinding} (valid : config.validate = .ok ())
    (built : buildDatastore lib draws config = .ok (store, bindings)) {w : World}
    (run : Relation.ReflTransGen (World.Step lib) ⟨store, bindings⟩ w) :
    w.store.units = config.devices.map DeviceSpec.unitId ∧
      (∀ spec ∈ config.devices, ∃ device, w.store.get spec.unitId = some device ∧
        ∀ r, ((device.block r).size : Int) = (spec.region r).size ∧
          (device.block r).values.length = (device.block r).size ∧
          ∀ slot ∈ (device.block r).values, SlotOf r slot) ∧
      (∀ unitId device pdu, w.store.get unitId = some device →
        ∃ response, (processPdu device pdu).1 = .ok response ∧
          2 ≤ response.length ∧ response.length ≤ maxPduLen) ∧
      ∀ b ∈ w.bindings, ∃ device, w.store.get b.unitId = some device ∧ ∀ elapsed up,
        (b.update lib device elapsed up).1 = (b.generator.sample lib elapsed up).1.mapError Exn.py := by
  have realizes := realizes_of_run run (buildDatastore_realizes valid built)
  refine ⟨realizes.units, fun spec member => ?_, fun unitId device pdu found => ?_,
    fun b member => ?_⟩
  · obtain ⟨device, found, holds⟩ := realizes.devices spec member
    exact ⟨device, found, fun r => ⟨holds.sizes r, holds.sized r, holds.slots r⟩⟩
  · obtain ⟨_, _, _, holds⟩ := realizes.spec found
    obtain ⟨response, _, answered, least, most, _⟩ := processPdu_isOk holds.wellFormed pdu
    exact ⟨response, by rw [answered], least, most⟩
  · obtain ⟨_, _, bound, device, found, holds⟩ := realizes.bound member
    exact ⟨device, found, fun elapsed up => (update_spec lib bound holds elapsed up).1⟩

def sampleConfig : Config :=
  ⟨[⟨1, "pump", .empty, .empty,
    ⟨2, some [7], [⟨1, "constant", [(.str "value", .int 300)]⟩]⟩, .empty⟩]⟩

def sampleLib : MathLib := .double fun _ => 0

theorem sampleLib_sine : ∀ x : ℚ, |(fun _ : ℚ => (0 : ℚ)) x| ≤ 1 := fun x => by simp

def sampleUnit (first : Int) : Device :=
  ⟨1, "pump", ⟨0, []⟩, ⟨0, []⟩, ⟨2, [.int first, .int 300]⟩, ⟨0, []⟩⟩

def sampleWorld (first : Int) : World :=
  ⟨.single (sampleUnit first), [newBinding (sampleUnit first) .holdingRegisters 1 (.constant 300)]⟩

/-- A run of one step that writes the first register. -/
theorem run_wellTyped_write : (sampleWorld 9).store.units = [1] := by
  have valid : sampleConfig.validate = .ok () := by decide +kernel
  have built : buildDatastore sampleLib (fun _ => true) sampleConfig =
      .ok ((sampleWorld 7).store, (sampleWorld 7).bindings) := by with_unfolding_all rfl
  have found : (sampleWorld 7).store.get 1 = some (sampleUnit 7) := rfl
  have written : processPdu (sampleUnit 7) [0x06, 0, 0, 0, 9] =
      (.ok [0x06, 0, 0, 0, 9], sampleUnit 9) := rfl
  exact (run_wellTyped valid built (.single (.pdu found written))).1

end ModbusSim.Setup
