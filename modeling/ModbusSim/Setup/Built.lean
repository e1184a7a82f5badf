import ModbusSim.Setup.History

/-!
# What is built

`build_datastore` returns exactly when every generator can be made and sampled. The units and the
bindings follow the configuration, and a slot holds the first sample of the last generator on it,
or else what its region starts with (`buildDatastore_seeded`).
-/

namespace ModbusSim.Setup

open PyStruct PyList ModbusSim.Frame Store Dispatch LastWriter

/-! ### The generators of a configuration -/

structure Placed where
  spec : DeviceSpec
  region : Region
  generator : GeneratorSpec

def Placed.place (p : Placed) : Place := (p.spec.unitId, p.region, p.generator.addr.toNat)

def DeviceSpec.placedIn (spec : DeviceSpec) (r : Region) : List Placed :=
  (spec.region r).generators.map (Placed.mk spec r)

/-- Holding registers before input registers. -/
def DeviceSpec.placed (spec : DeviceSpec) : List Placed :=
  Device.registerRegions.flatMap spec.placedIn

def Config.placed (config : Config) : List Placed := config.devices.flatMap DeviceSpec.placed

def Starts (lib : MathLib) (draws : Nat → Bool) (p : Placed × Nat) : Prop :=
  ∃ started, p.1.generator.first lib (draws p.2) = .ok started

def seed (lib : MathLib) (draws : Nat → Bool) (p : Placed × Nat) : Write Place Slot := fun place =>
  if place = p.1.place then
    (p.1.generator.first lib (draws p.2)).toOption.map fun started => .int started.1
  else none

/-- The binding of a generator: to its device, region and address, after its first sample. -/
structure Binds (lib : MathLib) (draws : Nat → Bool) (p : Placed × Nat) (b : GeneratorBinding) :
    Prop where
  unit : b.unitId = p.1.spec.unitId
  region : b.region = p.1.region
  address : b.address = p.1.generator.addr
  inside : 0 ≤ b.address ∧ b.address < (p.1.spec.region p.1.region).size
  started : ∃ value, p.1.generator.first lib (draws p.2) = .ok (value, b.generator)

theorem Binds.starts {lib : MathLib} {draws : Nat → Bool} {p : Placed × Nat} {b : GeneratorBinding}
    (binds : Binds lib draws p b) : Starts lib draws p := by
  obtain ⟨value, first⟩ := binds.started
  exact ⟨_, first⟩

/-- Every generator has its binding, and every binding its generator. -/
theorem exists_of_binds {lib : MathLib} {draws : Nat → Bool} {placed : List (Placed × Nat)}
    {bindings : List GeneratorBinding} (binds : List.Forall₂ (Binds lib draws) placed bindings) :
    (∀ p ∈ placed, ∃ b ∈ bindings, Binds lib draws p b) ∧
      ∀ b ∈ bindings, ∃ p ∈ placed, Binds lib draws p b := by
  induction binds with
  | nil => simp
  | @cons p b _ _ bind _ ih =>
    constructor
    · intro other member
      rcases List.mem_cons.mp member with rfl | later
      · exact ⟨b, List.mem_cons_self, bind⟩
      · obtain ⟨c, listed, binds⟩ := ih.1 other later
        exact ⟨c, List.mem_cons_of_mem b listed, binds⟩
    · intro c member
      rcases List.mem_cons.mp member with rfl | later
      · exact ⟨p, List.mem_cons_self, bind⟩
      · obtain ⟨other, listed, binds⟩ := ih.2 c later
        exact ⟨other, List.mem_cons_of_mem p listed, binds⟩

theorem seed_of_first {lib : MathLib} {draws : Nat → Bool} {p : Placed × Nat}
    {started : Int × Generator} (first : p.1.generator.first lib (draws p.2) = .ok started)
    (place : Place) :
    seed lib draws p place = if place = p.1.place then some (.int started.1) else none := by
  rw [seed, first]
  rfl

theorem seed_of_ne {lib : MathLib} {draws : Nat → Bool} {p : Placed × Nat} {place : Place}
    (other : place.1 ≠ p.1.spec.unitId) : seed lib draws p place = none := by
  rw [seed, if_neg]
  rintro rfl
  exact other rfl

theorem placed_eq (spec : DeviceSpec) :
    spec.placed = spec.placedIn .holdingRegisters ++ spec.placedIn .inputRegisters := by
  simp [DeviceSpec.placed, Device.registerRegions]

theorem spec_of_mem_placed {spec : DeviceSpec} {p : Placed} (member : p ∈ spec.placed) :
    p.spec = spec := by
  obtain ⟨r, _, placed⟩ := List.mem_flatMap.mp member
  obtain ⟨g, _, rfl⟩ := List.mem_map.mp placed
  rfl

/-! ### One region -/

section Loops

variable {lib : MathLib} {draws : Nat → Bool}

theorem bindGenerators_returns {spec : DeviceSpec} {r : Region}
    (register : r ∈ Device.registerRegions) {gspecs : List GeneratorSpec}
    (addresses : ∀ g ∈ gspecs, 0 ≤ g.addr ∧ g.addr < (spec.region r).size) {device : Device}
    (realizes : Realizes spec device) {bindings : List GeneratorBinding}
    (starts : ∀ p ∈ (gspecs.map (Placed.mk spec r)).zipIdx bindings.length, Starts lib draws p) :
    ∃ result, bindGenerators lib draws r gspecs device bindings = .ok result := by
  induction gspecs generalizing device bindings with
  | nil => exact ⟨_, rfl⟩
  | cons g rest ih =>
    rw [List.map_cons, List.zipIdx_cons, List.forall_mem_cons] at starts
    obtain ⟨⟨started, first⟩, later⟩ := starts
    obtain ⟨word, _⟩ := first_fits first
    rw [bindGenerators_cons register (addresses g List.mem_cons_self) realizes, first, liftPy_ok,
      Raise.ok_bind]
    apply ih (fun g member => addresses g (List.mem_cons_of_mem _ member))
      (realizes.withRegister register word _)
    rw [List.length_append, List.length_singleton]
    exact later

/-- What the loop over a region has returned: its bindings and its slots. -/
theorem bindGenerators_seeded {spec : DeviceSpec} {r : Region}
    (register : r ∈ Device.registerRegions) {gspecs : List GeneratorSpec}
    (addresses : ∀ g ∈ gspecs, 0 ≤ g.addr ∧ g.addr < (spec.region r).size) {device last : Device}
    (realizes : Realizes spec device) {bindings all : List GeneratorBinding}
    (built : bindGenerators lib draws r gspecs device bindings = .ok (last, all)) :
    (∃ new, all = bindings ++ new ∧ List.Forall₂ (Binds lib draws)
        ((gspecs.map (Placed.mk spec r)).zipIdx bindings.length) new) ∧
      ∀ place, slotAt last place =
        (latest (((gspecs.map (Placed.mk spec r)).zipIdx bindings.length).map (seed lib draws))
          (spec.unitId, place)).or (slotAt device place) := by
  induction gspecs generalizing device bindings with
  | nil =>
    cases built
    exact ⟨⟨[], by simp, .nil⟩, fun place => rfl⟩
  | cons g rest ih =>
    have address := addresses g List.mem_cons_self
    rw [bindGenerators_cons register address realizes, Raise.bind_eq_ok] at built
    obtain ⟨started, begun, built⟩ := built
    have first := liftPy_eq_ok.mp begun
    obtain ⟨word, _⟩ := first_fits first
    obtain ⟨⟨new, rfl, binds⟩, slots⟩ :=
      ih (fun g member => addresses g (List.mem_cons_of_mem _ member))
        (realizes.withRegister register word _) built
    rw [List.length_append, List.length_singleton] at binds slots
    rw [List.map_cons, List.zipIdx_cons]
    refine ⟨⟨_ :: new, List.append_assoc .., .cons ?_ binds⟩, fun place => ?_⟩
    · exact ⟨realizes.unit, rfl, rfl, address, _, first⟩
    · rw [slots, slotAt_withRegister (realizes.within address), List.map_cons, latest_cons,
        Option.or_assoc, seed_of_first first]
      by_cases here : place = (r, g.addr.toNat)
      · subst here
        have mine : (spec.unitId, r, g.addr.toNat) = Placed.place ⟨spec, r, g⟩ := rfl
        rw [if_pos rfl, if_pos mine, Option.some_or]
      · rw [if_neg here, if_neg fun same => here (congrArg Prod.snd same), Option.none_or]

/-! ### One device -/

theorem zipIdx_placed (spec : DeviceSpec) (k : Nat) :
    spec.placed.zipIdx k = (spec.placedIn .holdingRegisters).zipIdx k ++
      (spec.placedIn .inputRegisters).zipIdx (k + (spec.placedIn .holdingRegisters).length) := by
  rw [placed_eq, List.zipIdx_append]

theorem buildDevice_returns {spec : DeviceSpec} (valid : spec.Valid)
    {bindings : List GeneratorBinding}
    (starts : ∀ p ∈ spec.placed.zipIdx bindings.length, Starts lib draws p) :
    ∃ result, buildDevice lib draws spec bindings = .ok result := by
  rw [zipIdx_placed, List.forall_mem_append] at starts
  obtain ⟨first, second⟩ := starts
  have fresh := fresh_realizes valid
  have holdingIn := (valid.regions .holdingRegisters).addresses
  have inputIn := (valid.regions .inputRegisters).addresses
  obtain ⟨⟨middle, all⟩, holding⟩ := bindGenerators_returns (by decide) holdingIn fresh first
  obtain ⟨holds, _⟩ := bindGenerators_spec (by decide) holdingIn fresh holding
  obtain ⟨⟨new, rfl, binds⟩, _⟩ := bindGenerators_seeded (by decide) holdingIn fresh holding
  rw [buildDevice_eq valid, holding, Raise.ok_bind]
  apply bindGenerators_returns (by decide) inputIn holds
  rw [List.length_append, ← binds.length_eq, List.length_zipIdx]
  exact second

theorem buildDevice_seeded {spec : DeviceSpec} (valid : spec.Valid)
    {bindings all : List GeneratorBinding} {device : Device}
    (built : buildDevice lib draws spec bindings = .ok (device, all)) :
    (∃ new, all = bindings ++ new ∧
        List.Forall₂ (Binds lib draws) (spec.placed.zipIdx bindings.length) new) ∧
      ∀ place, slotAt device place =
        (latest ((spec.placed.zipIdx bindings.length).map (seed lib draws))
          (spec.unitId, place)).or (slotAt spec.fresh place) := by
  rw [buildDevice_eq valid, Raise.bind_eq_ok] at built
  obtain ⟨⟨middle, all⟩, holding, input⟩ := built
  have fresh := fresh_realizes valid
  have holdingIn := (valid.regions .holdingRegisters).addresses
  have inputIn := (valid.regions .inputRegisters).addresses
  obtain ⟨holds, _⟩ := bindGenerators_spec (by decide) holdingIn fresh holding
  obtain ⟨⟨new, rfl, binds⟩, slots⟩ := bindGenerators_seeded (by decide) holdingIn fresh holding
  obtain ⟨⟨more, rfl, others⟩, later⟩ := bindGenerators_seeded (by decide) inputIn holds input
  have count : (bindings ++ new).length =
      bindings.length + (spec.placedIn .holdingRegisters).length := by
    rw [List.length_append, ← binds.length_eq, List.length_zipIdx]
    rfl
  rw [count] at others later
  rw [zipIdx_placed]
  refine ⟨⟨new ++ more, List.append_assoc .., List.rel_append binds others⟩, fun place => ?_⟩
  rw [later, slots, List.map_append, latest_append, Option.or_assoc]
  rfl

/-! ### The store -/

theorem buildDevices_returns {specs : List DeviceSpec} (valid : ∀ spec ∈ specs, spec.Valid)
    {devices : List Device} {bindings : List GeneratorBinding}
    (starts : ∀ p ∈ (specs.flatMap DeviceSpec.placed).zipIdx bindings.length, Starts lib draws p) :
    ∃ result, buildDevices lib draws specs devices bindings = .ok result := by
  induction specs generalizing devices bindings with
  | nil => exact ⟨_, rfl⟩
  | cons spec specs ih =>
    rw [List.flatMap_cons, List.zipIdx_append, List.forall_mem_append] at starts
    obtain ⟨⟨device, all⟩, built⟩ := buildDevice_returns (valid spec List.mem_cons_self) starts.1
    obtain ⟨⟨new, rfl, binds⟩, _⟩ := buildDevice_seeded (valid spec List.mem_cons_self) built
    rw [buildDevices, built, Raise.ok_bind]
    apply ih fun spec member => valid spec (List.mem_cons_of_mem _ member)
    rw [List.length_append, ← binds.length_eq, List.length_zipIdx]
    exact starts.2

theorem latest_of_units {specs : List DeviceSpec} {unitId : Int}
    (others : unitId ∉ specs.map DeviceSpec.unitId) (k : Nat) (place : Region × Nat) :
    latest (((specs.flatMap DeviceSpec.placed).zipIdx k).map (seed lib draws)) (unitId, place) =
      none := by
  apply latest_eq_none_iff.mpr
  intro w member
  obtain ⟨⟨p, i⟩, listed, rfl⟩ := List.mem_map.mp member
  obtain ⟨spec, known, placed⟩ := List.mem_flatMap.mp (List.fst_mem_of_mem_zipIdx listed)
  apply seed_of_ne
  intro same
  rw [spec_of_mem_placed placed] at same
  exact others (List.mem_map.mpr ⟨spec, known, same.symm⟩)

theorem buildDevices_seeded {specs : List DeviceSpec} (valid : ∀ spec ∈ specs, spec.Valid)
    (unique : (specs.map DeviceSpec.unitId).Nodup) {devices last : List Device}
    {bindings all : List GeneratorBinding}
    (built : buildDevices lib draws specs devices bindings = .ok (last, all)) :
    (∃ new, all = bindings ++ new ∧ List.Forall₂ (Binds lib draws)
        ((specs.flatMap DeviceSpec.placed).zipIdx bindings.length) new) ∧
      ∀ spec ∈ specs, ∃ device ∈ last, device.unitId = spec.unitId ∧ ∀ place, slotAt device place =
        (latest (((specs.flatMap DeviceSpec.placed).zipIdx bindings.length).map (seed lib draws))
          (spec.unitId, place)).or (slotAt spec.fresh place) := by
  induction specs generalizing devices bindings with
  | nil =>
    cases built
    exact ⟨⟨[], by simp, .nil⟩, fun spec member => by cases member⟩
  | cons spec specs ih =>
    have others := fun spec member => valid spec (List.mem_cons_of_mem _ member)
    obtain ⟨⟨device, middle⟩, first, rest⟩ := Raise.bind_eq_ok.mp built
    obtain ⟨fresh, nodup⟩ := List.nodup_cons.mp unique
    obtain ⟨⟨_, rfl, _⟩, _⟩ := buildDevices_spec others rest
    obtain ⟨realizes, _⟩ := buildDevice_spec (valid spec List.mem_cons_self) first
    obtain ⟨⟨mine, rfl, binds⟩, slots⟩ := buildDevice_seeded (valid spec List.mem_cons_self) first
    obtain ⟨⟨more, rfl, later⟩, seeded⟩ := ih others nodup rest
    rw [List.length_append, ← binds.length_eq, List.length_zipIdx] at later seeded
    rw [List.flatMap_cons, List.zipIdx_append]
    refine ⟨⟨mine ++ more, List.append_assoc .., List.rel_append binds later⟩,
      fun other member => ?_⟩
    simp only [List.map_append, latest_append]
    rcases List.mem_cons.mp member with rfl | there
    · refine ⟨device, by simp, realizes.unit, fun place => ?_⟩
      rw [slots, latest_of_units fresh, Option.none_or]
    · obtain ⟨device, listed, unit, holds⟩ := seeded other there
      refine ⟨device, listed, unit, fun place => ?_⟩
      have apart : other.unitId ∉ [spec].map DeviceSpec.unitId := by
        intro same
        rw [List.map_singleton, List.mem_singleton] at same
        exact fresh (same ▸ List.mem_map_of_mem there)
      have own := @latest_of_units lib draws [spec] _ apart bindings.length place
      rw [List.flatMap_singleton] at own
      rw [holds, own, Option.or_none]

theorem buildDatastore_returns {config : Config} (valid : config.Valid)
    (starts : ∀ p ∈ config.placed.zipIdx, Starts lib draws p) :
    ∃ store bindings, buildDatastore lib draws config = .ok (store, bindings) := by
  have returns : ∃ result, buildDevices lib draws config.devices [] [] = .ok result :=
    buildDevices_returns valid.devices starts
  obtain ⟨⟨devices, bindings⟩, built⟩ := returns
  obtain ⟨⟨_, rfl, realized⟩, _⟩ := buildDevices_spec valid.devices built
  have unique := valid.unique
  rw [← units_of_realized realized] at unique
  obtain ⟨store, made⟩ := DataStore.init_returns unique
  refine ⟨store, bindings, ?_⟩
  rw [buildDatastore, built, Raise.ok_bind]
  simp only [made]
  rfl

theorem buildDatastore_binds {config : Config} (valid : config.Valid) {store : DataStore}
    {bindings : List GeneratorBinding}
    (built : buildDatastore lib draws config = .ok (store, bindings)) :
    List.Forall₂ (Binds lib draws) config.placed.zipIdx bindings ∧
      ∀ spec ∈ config.devices, ∃ device, store.get spec.unitId = some device ∧
        ∀ place, slotAt device place =
          (latest (config.placed.zipIdx.map (seed lib draws)) (spec.unitId, place)).or
            (slotAt spec.fresh place) := by
  obtain ⟨⟨devices, all⟩, made, rest⟩ := Raise.bind_eq_ok.mp built
  obtain ⟨_, added, result⟩ := Raise.bind_eq_ok.mp rest
  cases result
  obtain ⟨⟨new, rfl, binds⟩, seeded⟩ := buildDevices_seeded valid.devices valid.unique made
  obtain ⟨_, found⟩ := DataStore.init_eq_ok added
  refine ⟨binds, fun spec member => ?_⟩
  obtain ⟨device, listed, unit, slots⟩ := seeded spec member
  exact ⟨device, unit ▸ found device listed, slots⟩

end Loops

theorem slotAt_fresh (spec : DeviceSpec) {r : Region} {i : Nat}
    (below : (i : Int) < (spec.region r).size) :
    slotAt spec.fresh (r, i) = some ((spec.region r).initial (r ∈ bitRegions) i) := by
  have listed : i < (spec.region r).size.toNat := by omega
  rw [slotAt, block_fresh, RegionSpec.block, List.getElem?_map, List.getElem?_range listed,
    Option.map_some]

/-- If the generators of a valid configuration start, the store is built: its units in their order,
blocks of the configured sizes whose slots hold the last first sample or else their initial value,
and one binding for each generator, in their order. -/
theorem buildDatastore_seeded {lib : MathLib} {draws : Nat → Bool} {config : Config}
    (valid : config.validate = .ok ()) (starts : ∀ p ∈ config.placed.zipIdx, Starts lib draws p) :
    ∃ store bindings, buildDatastore lib draws config = .ok (store, bindings) ∧
      store.units = config.devices.map DeviceSpec.unitId ∧ store.units.Nodup ∧
      (∀ spec ∈ config.devices, ∃ device, store.get spec.unitId = some device ∧ ∀ r,
        ((device.block r).size : Int) = (spec.region r).size ∧
        (device.block r).values.length = (device.block r).size ∧
        ∀ i < (device.block r).size, (device.block r).values[i]? =
          some ((latest (config.placed.zipIdx.map (seed lib draws)) (spec.unitId, r, i)).getD
            ((spec.region r).initial (r ∈ bitRegions) i))) ∧
      List.Forall₂ (Binds lib draws) config.placed.zipIdx bindings := by
  have checked := Config.validate_eq_ok valid
  obtain ⟨store, bindings, built⟩ := buildDatastore_returns checked starts
  have realizes := buildDatastore_realizes valid built
  obtain ⟨binds, seeded⟩ := buildDatastore_binds checked built
  have units : store.units = config.devices.map DeviceSpec.unitId := realizes.units
  refine ⟨store, bindings, built, units, units ▸ checked.unique, fun spec member => ?_, binds⟩
  obtain ⟨device, found, slots⟩ := seeded spec member
  obtain ⟨_, there, holds⟩ := realizes.devices spec member
  cases found.symm.trans there
  refine ⟨device, found, fun r => ⟨holds.sizes r, holds.sized r, fun i below => ?_⟩⟩
  have sizes := holds.sizes r
  have slot := slots (r, i)
  rw [slotAt_fresh spec (by omega), Option.or_some] at slot
  exact slot

/-- The sample device: an initial value and a constant. -/
theorem buildDatastore_seeded_constant : ∃ store bindings,
    buildDatastore sampleLib (fun _ => true) sampleConfig = .ok (store, bindings) ∧
      store.units = [1] := by
  have valid : sampleConfig.validate = .ok () := by decide +kernel
  have starts : ∀ p ∈ sampleConfig.placed.zipIdx, Starts sampleLib (fun _ => true) p := by
    intro p member
    obtain rfl := List.mem_singleton.mp member
    exact ⟨(300, .constant 300), by with_unfolding_all rfl⟩
  obtain ⟨store, bindings, built, units, _⟩ := buildDatastore_seeded valid starts
  exact ⟨store, bindings, built, units⟩

end ModbusSim.Setup
