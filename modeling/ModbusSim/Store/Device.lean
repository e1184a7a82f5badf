import ModbusSim.Lib.Dict
import ModbusSim.Store.MemoryBlock

/-!
# Devices and the data store

A device owns four blocks; the store keeps devices by unit id, in the order they were added.
-/

namespace ModbusSim.Store

open PyStruct ModbusSim.Frame

inductive Region where
  | coils
  | discreteInputs
  | holdingRegisters
  | inputRegisters
  deriving DecidableEq, Repr

structure Device where
  unitId : Int
  name : String
  coils : MemoryBlock
  discreteInputs : MemoryBlock
  holdingRegisters : MemoryBlock
  inputRegisters : MemoryBlock
  deriving DecidableEq, Repr

namespace Device

def block (d : Device) : Region → MemoryBlock
  | .coils => d.coils
  | .discreteInputs => d.discreteInputs
  | .holdingRegisters => d.holdingRegisters
  | .inputRegisters => d.inputRegisters

def setBlock (d : Device) (b : MemoryBlock) : Region → Device
  | .coils => { d with coils := b }
  | .discreteInputs => { d with discreteInputs := b }
  | .holdingRegisters => { d with holdingRegisters := b }
  | .inputRegisters => { d with inputRegisters := b }

@[simp] theorem setBlock_unitId (d : Device) (b : MemoryBlock) (r : Region) :
    (d.setBlock b r).unitId = d.unitId := by cases r <;> rfl

@[simp] theorem setBlock_block (d : Device) (r : Region) : d.setBlock (d.block r) r = d := by
  cases r <;> rfl

theorem block_setBlock (d : Device) (b : MemoryBlock) (r s : Region) :
    (d.setBlock b r).block s = if s = r then b else d.block s := by
  cases r <;> cases s <;> rfl

def Sized (d : Device) : Prop := ∀ r, (d.block r).Sized

def registerRegions : List Region := [.holdingRegisters, .inputRegisters]

/-- Every block has as many slots as it declares, and every register slot is a 16-bit value. -/
structure WellFormed (d : Device) : Prop where
  sized : d.Sized
  words : ∀ r ∈ registerRegions, ∀ slot ∈ (d.block r).values, IsWord slot.toInt

theorem WellFormed.setBlock {d : Device} (wellFormed : d.WellFormed) {b : MemoryBlock} {r : Region}
    (sized : b.Sized) (words : r ∈ registerRegions → ∀ slot ∈ b.values, IsWord slot.toInt) :
    (d.setBlock b r).WellFormed := by
  refine ⟨fun s => ?_, fun s register slot member => ?_⟩
  · rw [block_setBlock]
    split
    · exact sized
    · exact wellFormed.sized s
  · rw [block_setBlock] at member
    split at member
    next same => exact words (same ▸ register) slot member
    next => exact wellFormed.words s register slot member

end Device

def sampleDevice : Device :=
  { unitId := 1
    name := "pump"
    coils := ⟨2, [.bool true, .bool false]⟩
    discreteInputs := ⟨0, []⟩
    holdingRegisters := ⟨2, [.int 7, .int 300]⟩
    inputRegisters := ⟨0, []⟩ }

theorem sampleDevice_wellFormed : sampleDevice.WellFormed := by
  refine ⟨fun r => by cases r <;> rfl, fun r register slot member => ?_⟩
  cases r with
  | coils | discreteInputs => exact absurd register (by decide)
  | inputRegisters => cases member
  | holdingRegisters =>
    rcases List.mem_pair.mp member with rfl | rfl <;> decide

/-! ### The store -/

structure DataStore where
  byUnit : Dict Int Device

namespace DataStore

def empty : DataStore := ⟨.empty⟩

def add (store : DataStore) (device : Device) : Except Exn DataStore :=
  if device.unitId ∈ store.byUnit.keys then
    .error (.py (.valueError ("duplicate unit id " ++ toString device.unitId)))
  else .ok ⟨store.byUnit.set device.unitId device⟩

/-- `DataStore(devices)` -/
def init (devices : List Device) : Except Exn DataStore := devices.foldlM add empty

def get (store : DataStore) (unitId : Int) : Option Device := store.byUnit.get? unitId

def units (store : DataStore) : List Int := store.byUnit.keys

def update (store : DataStore) (unitId : Int) (device : Device) : DataStore :=
  ⟨store.byUnit.set unitId device⟩

theorem get_update (store : DataStore) (unitId other : Int) (device : Device) :
    (store.update unitId device).get other =
      if other = unitId then some device else store.get other := Dict.get?_set ..

def All (store : DataStore) (P : Device → Prop) : Prop :=
  ∀ unitId device, store.get unitId = some device → P device

theorem All.update {store : DataStore} {P : Device → Prop} (all : store.All P) {device : Device}
    (holds : P device) (unitId : Int) : (store.update unitId device).All P := by
  intro other found member
  rw [get_update] at member
  split at member
  · exact Option.some.inj member ▸ holds
  · exact all other found member

def single (device : Device) : DataStore := empty.update device.unitId device

theorem single_all {device : Device} {P : Device → Prop} (holds : P device) :
    (single device).All P := by
  intro unitId other found
  rw [single, get_update] at found
  split at found
  · exact Option.some.inj found ▸ holds
  · cases found

theorem units_update_of_mem {store : DataStore} {unitId : Int} (present : unitId ∈ store.units)
    (device : Device) : (store.update unitId device).units = store.units :=
  Dict.keys_set_of_mem device present

theorem update_of_get {store : DataStore} {unitId : Int} {device : Device}
    (found : store.get unitId = some device) : store.update unitId device = store :=
  congrArg DataStore.mk (Dict.set_of_get? found)

theorem mem_units_of_get {store : DataStore} {unitId : Int} {device : Device}
    (found : store.get unitId = some device) : unitId ∈ store.units :=
  Dict.mem_keys_iff.mpr ⟨device, found⟩

theorem add_eq_ok {store last : DataStore} {device : Device} (added : store.add device = .ok last) :
    device.unitId ∉ store.units ∧ last = store.update device.unitId device := by
  rw [add] at added
  split at added
  · cases added
  next absent =>
    cases added
    exact ⟨absent, rfl⟩

theorem addAll_eq_ok {devices : List Device} {store last : DataStore}
    (added : devices.foldlM add store = .ok last) :
    last.units = store.units ++ devices.map Device.unitId ∧
      (∀ unitId ∈ store.units, last.get unitId = store.get unitId) ∧
      ∀ device ∈ devices, last.get device.unitId = some device := by
  induction devices generalizing store with
  | nil =>
    cases added
    simp
  | cons device devices ih =>
    obtain ⟨next, first, rest⟩ := Raise.bind_eq_ok.mp added
    obtain ⟨absent, rfl⟩ := add_eq_ok first
    obtain ⟨units, kept, found⟩ := ih rest
    have keys : (store.update device.unitId device).units = store.units ++ [device.unitId] :=
      Dict.keys_set_of_not_mem device absent
    rw [keys] at units kept
    refine ⟨by simp [units], fun unitId member => ?_, fun other member => ?_⟩
    · have different : unitId ≠ device.unitId := fun same => absent (same ▸ member)
      rw [kept unitId (by simp [member]), get_update, if_neg different]
    · rcases List.mem_cons.mp member with rfl | later
      · rw [kept _ (by simp), get_update, if_pos rfl]
      · exact found other later

theorem addAll_returns {devices : List Device} {store : DataStore}
    (nodup : (devices.map Device.unitId).Nodup) (fresh : ∀ device ∈ devices, device.unitId ∉ store.units) :
    ∃ last, devices.foldlM add store = .ok last := by
  induction devices generalizing store with
  | nil => exact ⟨store, rfl⟩
  | cons device devices ih =>
    obtain ⟨first, others⟩ := List.nodup_cons.mp nodup
    have absent := fresh device List.mem_cons_self
    have added : store.add device = .ok (store.update device.unitId device) := if_neg absent
    rw [List.foldlM_cons, added, Raise.ok_bind]
    apply ih others
    intro other member known
    have keys : (store.update device.unitId device).units = store.units ++ [device.unitId] :=
      Dict.keys_set_of_not_mem device absent
    rw [keys, List.mem_append, List.mem_singleton] at known
    rcases known with before | same
    · exact fresh other (List.mem_cons_of_mem _ member) before
    · exact first (same ▸ List.mem_map_of_mem member)

theorem init_returns {devices : List Device} (nodup : (devices.map Device.unitId).Nodup) :
    ∃ store, init devices = .ok store :=
  addAll_returns nodup fun _ _ known => by cases known

theorem init_eq_ok {devices : List Device} {store : DataStore} (made : init devices = .ok store) :
    store.units = devices.map Device.unitId ∧
      ∀ device ∈ devices, store.get device.unitId = some device := by
  obtain ⟨units, _, found⟩ := addAll_eq_ok made
  exact ⟨units, found⟩

end DataStore

end ModbusSim.Store
