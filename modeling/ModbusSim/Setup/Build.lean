import ModbusSim.Dispatch.Dispatcher
import ModbusSim.Setup.Config

/-!
# Building the store, and running it

`build_datastore` makes the devices and the bindings of a configuration. `Realizes` ties a device
to its specification: the configured sizes, booleans in the bit regions and 16-bit integers in the
register regions. It holds of what is built, and every step of a run keeps it.
-/

namespace ModbusSim.Setup

open PyStruct PyList ModbusSim.Frame Store Dispatch

/-! ### `build_datastore` -/

/-- `_build_block` -/
def buildBlock (region : RegionSpec) (bits : Bool) : Except Exn MemoryBlock :=
  let fill : Slot := if bits then .bool false else .int 0
  let values := region.init.map fun init =>
    if bits then init.map fun v => Slot.bool (v != 0) else init.map Slot.int
  MemoryBlock.init region.size values fill

/-- `GeneratorBinding(device, block, addr, generator, label)` -/
def newBinding (device : Device) (r : Region) (addr : Int) (generator : Generator) :
    GeneratorBinding :=
  ⟨device.unitId, r, addr, generator,
    device.name ++ "." ++ regionName r ++ "[" ++ toString addr ++ "]"⟩

/-- The loop over the generators of a region. A binding's first sample uses the draw of its
place in the list of bindings. -/
def bindGenerators (lib : MathLib) (draws : Nat → Bool) (r : Region) :
    List GeneratorSpec → Device → List GeneratorBinding →
      Except Exn (Device × List GeneratorBinding)
  | [], device, bindings => .ok (device, bindings)
  | gspec :: rest, device, bindings => do
    let generator ← liftPy (makeGenerator gspec.fn gspec.args)
    let binding := newBinding device r gspec.addr generator
    match binding.update lib device 0 (draws bindings.length) with
    | (.error e, _) => .error e
    | (.ok _, device, binding) => bindGenerators lib draws r rest device (bindings ++ [binding])

/-- The body of the loop over the devices. -/
def buildDevice (lib : MathLib) (draws : Nat → Bool) (spec : DeviceSpec)
    (bindings : List GeneratorBinding) : Except Exn (Device × List GeneratorBinding) := do
  let coils ← buildBlock spec.coils true
  let discreteInputs ← buildBlock spec.discreteInputs true
  let holdingRegisters ← buildBlock spec.holdingRegisters false
  let inputRegisters ← buildBlock spec.inputRegisters false
  let device : Device :=
    { unitId := spec.unitId
      name := if spec.name = "" then "device-" ++ toString spec.unitId else spec.name
      coils, discreteInputs, holdingRegisters, inputRegisters }
  let (device, bindings) ← bindGenerators lib draws .holdingRegisters
    spec.holdingRegisters.generators device bindings
  bindGenerators lib draws .inputRegisters spec.inputRegisters.generators device bindings

def buildDevices (lib : MathLib) (draws : Nat → Bool) :
    List DeviceSpec → List Device → List GeneratorBinding →
      Except Exn (List Device × List GeneratorBinding)
  | [], devices, bindings => .ok (devices, bindings)
  | spec :: specs, devices, bindings => do
    let (device, bindings) ← buildDevice lib draws spec bindings
    buildDevices lib draws specs (devices ++ [device]) bindings

def buildDatastore (lib : MathLib) (draws : Nat → Bool) (config : Config) :
    Except Exn (DataStore × List GeneratorBinding) := do
  let (devices, bindings) ← buildDevices lib draws config.devices [] []
  return (← DataStore.init devices, bindings)

/-! ### What a device keeps -/

def SlotOf (r : Region) (slot : Slot) : Prop :=
  match r with
  | .coils | .discreteInputs => ∃ b, slot = .bool b
  | .holdingRegisters | .inputRegisters => ∃ n, slot = .int n ∧ IsWord n

structure Realizes (spec : DeviceSpec) (device : Device) : Prop where
  unit : device.unitId = spec.unitId
  sizes : ∀ r, ((device.block r).size : Int) = (spec.region r).size
  sized : device.Sized
  slots : ∀ r, ∀ slot ∈ (device.block r).values, SlotOf r slot

theorem Realizes.wellFormed {spec : DeviceSpec} {device : Device} (realizes : Realizes spec device) :
    device.WellFormed := by
  refine ⟨realizes.sized, fun r register slot member => ?_⟩
  have kind := realizes.slots r slot member
  cases r with
  | coils | discreteInputs => exact absurd register (by decide)
  | holdingRegisters | inputRegisters =>
    obtain ⟨n, rfl, word⟩ := kind
    exact word

theorem transmitted_slotOf {r : Request} (encodable : r.Encodable) {slots : List Slot}
    (written : transmitted r = some slots) {slot : Slot} (member : slot ∈ slots) :
    SlotOf (region r) slot := by
  cases r with
  | readCoils | readDiscreteInputs | readHoldingRegisters | readInputRegisters => cases written
  | writeSingleCoil a v =>
    cases written
    exact ⟨v, List.mem_singleton.mp member⟩
  | writeMultipleCoils a values =>
    cases written
    obtain ⟨v, _, rfl⟩ := List.mem_map.mp member
    exact ⟨v, rfl⟩
  | writeSingleRegister a v =>
    cases written
    exact ⟨v, List.mem_singleton.mp member, encodable.2⟩
  | writeMultipleRegisters a values =>
    cases written
    obtain ⟨v, listed, rfl⟩ := List.mem_map.mp member
    exact ⟨v, rfl, encodable.2.2 v listed⟩

theorem size_execute (device : Device) (r : Request) (s : Region) :
    ((execute device r).block s).size = (device.block s).size := by
  rw [block_execute]
  split
  · split <;> rfl
  · rfl

theorem Realizes.execute {spec : DeviceSpec} {device : Device} (realizes : Realizes spec device)
    {r : Request} (encodable : r.Encodable) : Realizes spec (execute device r) := by
  refine ⟨(execute_unitId device r).trans realizes.unit, fun s => ?_,
    execute_sized realizes.sized r, fun s slot member => ?_⟩
  · rw [size_execute]
    exact realizes.sizes s
  · rcases mem_block_execute member with before | ⟨slots, written, now, rfl⟩
    · exact realizes.slots s slot before
    · exact transmitted_slotOf encodable written now

theorem Realizes.processPdu {spec : DeviceSpec} {device : Device} (realizes : Realizes spec device)
    (pdu : Bytes) : Realizes spec (Dispatch.processPdu device pdu).2 := by
  rcases processPdu_cases realizes.wellFormed pdu with ⟨_, _, answered⟩ |
    ⟨r, _, encodable, _, _, answered⟩
  · rw [answered]
    exact realizes
  · rw [answered]
    exact realizes.execute encodable

theorem slotOf_register {r : Region} (register : r ∈ Device.registerRegions) {n : Int}
    (word : IsWord n) : SlotOf r (.int n) := by
  cases r with
  | coils | discreteInputs => exact absurd register (by decide)
  | holdingRegisters | inputRegisters => exact ⟨n, rfl, word⟩

def withRegister (device : Device) (r : Region) (i : Nat) (n : Int) : Device :=
  device.setBlock { device.block r with values := (device.block r).values.set i (.int n) } r

theorem Realizes.withRegister {spec : DeviceSpec} {device : Device} (realizes : Realizes spec device)
    {r : Region} (register : r ∈ Device.registerRegions) {n : Int} (word : IsWord n) (i : Nat) :
    Realizes spec (withRegister device r i n) := by
  unfold Setup.withRegister
  refine ⟨(device.setBlock_unitId _ r).trans realizes.unit, fun s => ?_, fun s => ?_,
    fun s slot member => ?_⟩
  · rw [Device.block_setBlock]
    split
    next same => exact same ▸ realizes.sizes s
    next => exact realizes.sizes s
  · rw [Device.block_setBlock]
    split
    · exact (List.length_set ..).trans (realizes.sized r)
    · exact realizes.sized s
  · rw [Device.block_setBlock] at member
    split at member
    next same =>
      rcases List.mem_or_eq_of_mem_set member with before | rfl
      · exact same ▸ realizes.slots r slot before
      · exact same ▸ slotOf_register register word
    next => exact realizes.slots s slot member

structure Bound (spec : DeviceSpec) (b : GeneratorBinding) : Prop where
  unit : b.unitId = spec.unitId
  register : b.region ∈ Device.registerRegions
  address : 0 ≤ b.address ∧ b.address < (spec.region b.region).size
  fits : b.generator.Fits

theorem update_error {lib : MathLib} {b : GeneratorBinding} {elapsed : ℚ} {up : Bool} {e : PyError}
    {generator : Generator} (sampled : b.generator.sample lib elapsed up = (.error e, generator))
    (device : Device) :
    b.update lib device elapsed up = (.error (.py e), device, { b with generator }) := by
  simp only [GeneratorBinding.update, sampled]

theorem update_ok {lib : MathLib} {spec : DeviceSpec} {b : GeneratorBinding} {device : Device}
    (bound : Bound spec b) (realizes : Realizes spec device) {elapsed : ℚ} {up : Bool} {value : Int}
    {generator : Generator} (sampled : b.generator.sample lib elapsed up = (.ok value, generator)) :
    b.update lib device elapsed up =
      (.ok value, withRegister device b.region b.address.toNat value, { b with generator }) := by
  have sizes := realizes.sizes b.region
  have inside : (device.block b.region).Inside b.address 1 := by
    obtain ⟨start, stop⟩ := bound.address
    exact ⟨start, by omega, by omega⟩
  simp only [GeneratorBinding.update, sampled, MemoryBlock.set_eq (realizes.sized b.region),
    if_pos inside]
  rfl

/-- An update writes the sample, if there is one; it raises nothing of its own. -/
theorem update_spec (lib : MathLib) {spec : DeviceSpec} {b : GeneratorBinding} {device : Device}
    (bound : Bound spec b) (realizes : Realizes spec device) (elapsed : ℚ) (up : Bool) :
    (b.update lib device elapsed up).1 = (b.generator.sample lib elapsed up).1.mapError Exn.py ∧
      Realizes spec (b.update lib device elapsed up).2.1 ∧
      Bound spec (b.update lib device elapsed up).2.2 := by
  have fits := sample_fits bound.fits lib elapsed up
  have after : ∀ generator : Generator, generator.Fits → Bound spec { b with generator } :=
    fun generator fits => ⟨bound.unit, bound.register, bound.address, fits⟩
  cases sample : b.generator.sample lib elapsed up with
  | mk sampled generator =>
    rw [sample] at fits
    cases sampled with
    | error e =>
      rw [update_error sample]
      exact ⟨rfl, realizes, after generator fits⟩
    | ok value =>
      have word : IsWord value := sample_isWord bound.fits (by rw [sample])
      rw [update_ok bound realizes sample]
      exact ⟨rfl, realizes.withRegister bound.register word _, after generator fits⟩

/-! ### What is built -/

/-- What the slots of a region start with: the initial values, then the fill value. -/
def RegionSpec.initial (region : RegionSpec) (bits : Bool) (i : Nat) : Slot :=
  match (region.init.getD [])[i]? with
  | some v => if bits then .bool (v != 0) else .int v
  | none => if bits then .bool false else .int 0

def RegionSpec.block (region : RegionSpec) (bits : Bool) : MemoryBlock :=
  ⟨region.size.toNat, (List.range region.size.toNat).map (region.initial bits)⟩

/-- The device of a valid specification, before its generators are sampled. -/
def DeviceSpec.fresh (spec : DeviceSpec) : Device :=
  { unitId := spec.unitId
    name := if spec.name = "" then "device-" ++ toString spec.unitId else spec.name
    coils := spec.coils.block true
    discreteInputs := spec.discreteInputs.block true
    holdingRegisters := spec.holdingRegisters.block false
    inputRegisters := spec.inputRegisters.block false }

theorem block_fresh (spec : DeviceSpec) (r : Region) :
    spec.fresh.block r = (spec.region r).block (r ∈ bitRegions) := by
  cases r <;> rfl

theorem buildBlock_eq {region : RegionSpec} (valid : region.Valid) (bits : Bool) :
    buildBlock region bits = .ok (region.block bits) := by
  have nonneg := valid.size.1
  have fits : ((region.init.getD []).length : Int) ≤ region.size := by
    cases given : region.init with
    | none => exact nonneg
    | some init => exact valid.fits init given
  have values : (region.init.map fun init =>
      if bits then init.map fun v => Slot.bool (v != 0) else init.map Slot.int).getD [] =
        (region.init.getD []).map fun v => if bits then Slot.bool (v != 0) else Slot.int v := by
    cases region.init with
    | none => rfl
    | some init => cases bits <;> rfl
  rw [buildBlock, MemoryBlock.init, values, List.length_map, if_neg (by omega), if_neg (by omega),
    RegionSpec.block]
  refine congrArg Except.ok (congrArg (MemoryBlock.mk _) (List.ext_getElem? fun i => ?_))
  by_cases below : i < region.size.toNat
  · rw [List.getElem?_map, List.getElem?_range below, Option.map_some, RegionSpec.initial]
    cases given : (region.init.getD [])[i]? with
    | some v =>
      obtain ⟨within, _⟩ := List.getElem?_eq_some_iff.mp given
      rw [List.getElem?_append_left (by simpa using within), List.getElem?_map, given]
      rfl
    | none =>
      have beyond := List.getElem?_eq_none_iff.mp given
      rw [List.getElem?_append_right (by simpa using beyond), List.getElem?_replicate, List.length_map,
        if_pos (by omega)]
  · rw [List.getElem?_eq_none (by simp; omega), List.getElem?_eq_none (by simp; omega)]

theorem initial_slotOf {spec : DeviceSpec} (valid : spec.Valid) (r : Region) (i : Nat) :
    SlotOf r ((spec.region r).initial (r ∈ bitRegions) i) := by
  rw [RegionSpec.initial]
  cases given : ((spec.region r).init.getD [])[i]? with
  | none =>
    cases r with
    | coils | discreteInputs => exact ⟨false, rfl⟩
    | holdingRegisters | inputRegisters => exact ⟨0, rfl, by decide⟩
  | some v =>
    by_cases register : r ∈ Device.registerRegions
    · have word : IsWord v := by
        cases listed : (spec.region r).init with
        | none => simp [listed] at given
        | some init =>
          rw [listed] at given
          exact valid.words r register init listed v (List.mem_of_getElem? given)
      cases r with
      | coils | discreteInputs => exact absurd register (by decide)
      | holdingRegisters | inputRegisters => exact ⟨v, rfl, word⟩
    · cases r with
      | coils | discreteInputs => exact ⟨v != 0, rfl⟩
      | holdingRegisters | inputRegisters => exact absurd (by decide) register

theorem fresh_realizes {spec : DeviceSpec} (valid : spec.Valid) : Realizes spec spec.fresh := by
  refine ⟨rfl, fun r => ?_, fun r => ?_, fun r slot member => ?_⟩
  · rw [block_fresh]
    exact Int.toNat_of_nonneg (valid.regions r).size.1
  · rw [block_fresh]
    exact (List.length_map _).trans List.length_range
  · rw [block_fresh] at member
    obtain ⟨i, _, rfl⟩ := List.mem_map.mp member
    exact initial_slotOf valid r i

/-- A valid device is its fresh blocks, with its generators bound region by region. -/
theorem buildDevice_eq {spec : DeviceSpec} (valid : spec.Valid) (lib : MathLib) (draws : Nat → Bool)
    (bindings : List GeneratorBinding) :
    buildDevice lib draws spec bindings =
      (bindGenerators lib draws .holdingRegisters (spec.region .holdingRegisters).generators
          spec.fresh bindings >>= fun bound =>
        bindGenerators lib draws .inputRegisters (spec.region .inputRegisters).generators
          bound.1 bound.2) := by
  have coils := buildBlock_eq (valid.regions .coils) true
  have discreteInputs := buildBlock_eq (valid.regions .discreteInputs) true
  have holdingRegisters := buildBlock_eq (valid.regions .holdingRegisters) false
  have inputRegisters := buildBlock_eq (valid.regions .inputRegisters) false
  simp only [DeviceSpec.region] at coils discreteInputs holdingRegisters inputRegisters
  simp only [buildDevice, coils, discreteInputs, holdingRegisters, inputRegisters, Raise.ok_bind]
  rfl

def GeneratorSpec.first (lib : MathLib) (up : Bool) (g : GeneratorSpec) :
    Except PyError (Int × Generator) := do
  let generator ← makeGenerator g.fn g.args
  let value ← (generator.sample lib 0 up).1
  return (value, (generator.sample lib 0 up).2)

theorem first_eq_ok {lib : MathLib} {up : Bool} {g : GeneratorSpec} {started : Int × Generator}
    (first : g.first lib up = .ok started) :
    ∃ generator, makeGenerator g.fn g.args = .ok generator ∧
      generator.sample lib 0 up = (.ok started.1, started.2) := by
  obtain ⟨generator, made, rest⟩ := Raise.bind_eq_ok.mp first
  obtain ⟨value, sampled, result⟩ := Raise.bind_eq_ok.mp rest
  cases result
  exact ⟨generator, made, Prod.ext sampled rfl⟩

theorem first_fits {lib : MathLib} {up : Bool} {g : GeneratorSpec} {started : Int × Generator}
    (first : g.first lib up = .ok started) : IsWord started.1 ∧ started.2.Fits := by
  obtain ⟨generator, made, sampled⟩ := first_eq_ok first
  have fits := makeGenerator_fits made
  have after := sample_fits fits lib 0 up
  rw [sampled] at after
  exact ⟨sample_isWord fits (by rw [sampled]), after⟩

theorem bindGenerators_cons {lib : MathLib} {draws : Nat → Bool} {spec : DeviceSpec} {r : Region}
    (register : r ∈ Device.registerRegions) {g : GeneratorSpec} {rest : List GeneratorSpec}
    (address : 0 ≤ g.addr ∧ g.addr < (spec.region r).size) {device : Device}
    (realizes : Realizes spec device) (bindings : List GeneratorBinding) :
    bindGenerators lib draws r (g :: rest) device bindings =
      (liftPy (g.first lib (draws bindings.length)) >>= fun started =>
        bindGenerators lib draws r rest (withRegister device r g.addr.toNat started.1)
          (bindings ++ [newBinding device r g.addr started.2])) := by
  rw [bindGenerators, GeneratorSpec.first]
  cases made : makeGenerator g.fn g.args with
  | error e => rfl
  | ok generator =>
    have bound : Bound spec (newBinding device r g.addr generator) :=
      ⟨realizes.unit, register, address, makeGenerator_fits made⟩
    simp only [liftPy_ok, Raise.ok_bind]
    cases sampled : generator.sample lib 0 (draws bindings.length) with
    | mk value after =>
      cases value with
      | error e =>
        rw [update_error (b := newBinding device r g.addr generator) sampled]
        rfl
      | ok value =>
        rw [update_ok bound realizes sampled]
        rfl

theorem bindGenerators_spec {lib : MathLib} {draws : Nat → Bool} {spec : DeviceSpec} {r : Region}
    (register : r ∈ Device.registerRegions) {gspecs : List GeneratorSpec}
    (addresses : ∀ g ∈ gspecs, 0 ≤ g.addr ∧ g.addr < (spec.region r).size) {device last : Device}
    (realizes : Realizes spec device) {bindings all : List GeneratorBinding}
    (built : bindGenerators lib draws r gspecs device bindings = .ok (last, all)) :
    Realizes spec last ∧ ∃ new, all = bindings ++ new ∧ ∀ b ∈ new, Bound spec b := by
  induction gspecs generalizing device bindings with
  | nil =>
    cases built
    exact ⟨realizes, [], by simp, by simp⟩
  | cons g rest ih =>
    have address := addresses g List.mem_cons_self
    rw [bindGenerators_cons register address realizes, Raise.bind_eq_ok] at built
    obtain ⟨started, begun, built⟩ := built
    obtain ⟨word, fits⟩ := first_fits (liftPy_eq_ok.mp begun)
    obtain ⟨holds, new, rfl, bounds⟩ := ih (fun g member => addresses g (List.mem_cons_of_mem _ member))
      (realizes.withRegister register word _) built
    refine ⟨holds, _ :: new, List.append_assoc .., fun b member => ?_⟩
    rcases List.mem_cons.mp member with rfl | later
    · exact ⟨realizes.unit, register, address, fits⟩
    · exact bounds b later

theorem buildDevice_spec {lib : MathLib} {draws : Nat → Bool} {spec : DeviceSpec}
    (valid : spec.Valid) {bindings all : List GeneratorBinding} {device : Device}
    (built : buildDevice lib draws spec bindings = .ok (device, all)) :
    Realizes spec device ∧ ∃ new, all = bindings ++ new ∧ ∀ b ∈ new, Bound spec b := by
  rw [buildDevice_eq valid, Raise.bind_eq_ok] at built
  obtain ⟨⟨middle, some⟩, holding, input⟩ := built
  obtain ⟨holds, new, rfl, bounds⟩ := bindGenerators_spec (by decide)
    (valid.regions .holdingRegisters).addresses (fresh_realizes valid) holding
  obtain ⟨last, more, rfl, others⟩ := bindGenerators_spec (by decide)
    (valid.regions .inputRegisters).addresses holds input
  refine ⟨last, new ++ more, List.append_assoc .., fun b member => ?_⟩
  rcases List.mem_append.mp member with first | second
  · exact bounds b first
  · exact others b second

theorem buildDevices_spec {lib : MathLib} {draws : Nat → Bool} {specs : List DeviceSpec}
    (valid : ∀ spec ∈ specs, spec.Valid) {devices last : List Device}
    {bindings all : List GeneratorBinding}
    (built : buildDevices lib draws specs devices bindings = .ok (last, all)) :
    (∃ new, last = devices ++ new ∧ List.Forall₂ Realizes specs new) ∧
      ∃ new, all = bindings ++ new ∧ ∀ b ∈ new, ∃ spec ∈ specs, Bound spec b := by
  induction specs generalizing devices bindings with
  | nil =>
    cases built
    exact ⟨⟨[], by simp, .nil⟩, [], by simp, by simp⟩
  | cons spec specs ih =>
    obtain ⟨⟨device, middle⟩, first, rest⟩ := Raise.bind_eq_ok.mp built
    obtain ⟨realizes, mine, rfl, bounds⟩ := buildDevice_spec (valid spec (by simp)) first
    obtain ⟨⟨new, rfl, others⟩, more, rfl, later⟩ :=
      ih (fun spec member => valid spec (by simp [member])) rest
    refine ⟨⟨device :: new, by simp, .cons realizes others⟩, mine ++ more, by simp, ?_⟩
    intro b member
    rcases List.mem_append.mp member with here | there
    · exact ⟨spec, by simp, bounds b here⟩
    · obtain ⟨owner, listed, bound⟩ := later b there
      exact ⟨owner, by simp [listed], bound⟩

theorem units_of_realized {specs : List DeviceSpec} {devices : List Device}
    (realized : List.Forall₂ Realizes specs devices) :
    devices.map Device.unitId = specs.map DeviceSpec.unitId := by
  induction realized with
  | nil => rfl
  | cons holds _ ih => rw [List.map_cons, List.map_cons, holds.unit, ih]

theorem exists_of_realized {specs : List DeviceSpec} {devices : List Device}
    (realized : List.Forall₂ Realizes specs devices) {spec : DeviceSpec} (member : spec ∈ specs) :
    ∃ device ∈ devices, Realizes spec device := by
  induction realized with
  | nil => cases member
  | cons holds _ ih =>
    rcases List.mem_cons.mp member with rfl | later
    · exact ⟨_, List.mem_cons_self, holds⟩
    · obtain ⟨device, listed, realizes⟩ := ih later
      exact ⟨device, List.mem_cons_of_mem _ listed, realizes⟩

end ModbusSim.Setup
