import ModbusSim.Lib.Noninterference
import ModbusSim.Server.Handler

/-!
# Units do not interfere

The frames that a server receives, on whatever connections, are processed one after another. To
a unit only the Modbus frames with its id are there: what else arrives changes neither the
replies to these nor the device.
-/

namespace ModbusSim.Server

open PyStruct ModbusSim.Frame Store Dispatch Noninterference StatefulRun

def processItem (store : DataStore) (item : Item) : Except Exn Bytes × DataStore :=
  processFrame store item.1 item.2

def Addresses (unitId : Int) (item : Item) : Prop :=
  item.1.protocolId = protocolId ∧ item.1.unitId = unitId

instance (unitId : Int) : DecidablePred (Addresses unitId) := fun item =>
  inferInstanceAs (Decidable (item.1.protocolId = protocolId ∧ item.1.unitId = unitId))

theorem processItem_foreign {store : DataStore} {item : Item}
    (foreign : item.1.protocolId ≠ protocolId) : processItem store item = (.ok [], store) := by
  rw [processItem, processFrame, if_pos foreign]

theorem processItem_unknown {store : DataStore} {item : Item}
    (modbus : item.1.protocolId = protocolId) (unit : store.get item.1.unitId = none) :
    processItem store item = (.ok [], store) := by
  rw [processItem, processFrame, if_neg (not_not.mpr modbus), unit]

theorem processItem_known {store : DataStore} {item : Item} {device : Device}
    (modbus : item.1.protocolId = protocolId) (unit : store.get item.1.unitId = some device) :
    processItem store item =
      (do buildAdu item.1.transactionId item.1.unitId
            (← (processPdu device (item.2.drop mbapHeaderLen)).1),
        store.update item.1.unitId (processPdu device (item.2.drop mbapHeaderLen)).2) := by
  rw [processItem, processFrame, if_neg (not_not.mpr modbus), unit]

theorem get_processItem_of_not_addresses {unitId : Int} {item : Item}
    (other : ¬ Addresses unitId item) (store : DataStore) :
    (processItem store item).2.get unitId = store.get unitId := by
  by_cases modbus : item.1.protocolId = protocolId
  · cases unit : store.get item.1.unitId with
    | none => rw [processItem_unknown modbus unit]
    | some device =>
      have different : unitId ≠ item.1.unitId := fun same => other ⟨modbus, same.symm⟩
      rw [processItem_known modbus unit, DataStore.get_update, if_neg different]
  · rw [processItem_foreign modbus]

theorem processItem_of_addresses {unitId : Int} {item : Item} (addressed : Addresses unitId item)
    {store store' : DataStore} (same : store.get unitId = store'.get unitId) :
    (processItem store item).1 = (processItem store' item).1 ∧
      (processItem store item).2.get unitId = (processItem store' item).2.get unitId := by
  obtain ⟨modbus, rfl⟩ := addressed
  cases unit : store.get item.1.unitId with
  | none =>
    have unit' := same.symm.trans unit
    rw [processItem_unknown modbus unit, processItem_unknown modbus unit']
    exact ⟨rfl, same⟩
  | some device =>
    have unit' := same.symm.trans unit
    rw [processItem_known modbus unit, processItem_known modbus unit', DataStore.get_update,
      DataStore.get_update, if_pos rfl, if_pos rfl]
    exact ⟨rfl, rfl⟩

/-- A unit sees its own device and the Modbus frames with its id. -/
def unitObserver (unitId : Int) : Observer processItem (Option Device) where
  view store := store.get unitId
  Sees := Addresses unitId
  decSees := inferInstance
  hidden := get_processItem_of_not_addresses
  seen := processItem_of_addresses

def repliesFor (unitId : Int) (items : List Item) (replies : List (Except Exn Bytes)) :
    List (Except Exn Bytes) := (unitObserver unitId).observed items replies

/-- Frames that agree on those for a unit are answered alike for the unit, and leave its device
the same. -/
theorem units_isolated (store : DataStore) (unitId : Int) (items others : List Item)
    (agree : items.filter (Addresses unitId) = others.filter (Addresses unitId)) :
    repliesFor unitId items (run processItem store items).1 =
        repliesFor unitId others (run processItem store others).1 ∧
      (run processItem store items).2.get unitId = (run processItem store others).2.get unitId :=
  (unitObserver unitId).run_eq_of_seen_eq agree rfl

def twoUnits : DataStore := (DataStore.single sampleDevice).update 2 sampleDevice

def mixedItems : List Item :=
  [(⟨1, 0, 6, 2⟩, [0, 1, 0, 0, 0, 6, 2, 5, 0, 0, 0x00, 0]),
    (⟨2, 0, 6, 1⟩, [0, 2, 0, 0, 0, 6, 1, 1, 0, 0, 0, 1]), (⟨3, 9, 2, 1⟩, [0, 3, 0, 9, 0, 2, 1, 5])]

/-- The unit sees the read alone. -/
theorem units_isolated_read :
    repliesFor 1 mixedItems (run processItem twoUnits mixedItems).1 =
        repliesFor 1 [(⟨2, 0, 6, 1⟩, [0, 2, 0, 0, 0, 6, 1, 1, 0, 0, 0, 1])]
          (run processItem twoUnits [(⟨2, 0, 6, 1⟩, [0, 2, 0, 0, 0, 6, 1, 1, 0, 0, 0, 1])]).1 ∧
      (run processItem twoUnits mixedItems).2.get 1 =
        (run processItem twoUnits [(⟨2, 0, 6, 1⟩, [0, 2, 0, 0, 0, 6, 1, 1, 0, 0, 0, 1])]).2.get 1 :=
  units_isolated twoUnits 1 mixedItems _ (by decide)

end ModbusSim.Server
