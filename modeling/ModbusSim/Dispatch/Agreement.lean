import ModbusSim.Dispatch.Reference
import ModbusSim.Lib.LastWriter

/-!
# Single and multiple access agree

A multiple write does to a device what the single writes of the same slots do, in any order, and
a read gives what the reads of its pieces give. Both are seen slot by slot: a request in range
overwrites the slots it transmits and no others (`slotAt_execute`).
-/

namespace ModbusSim.Dispatch

open PyStruct PyList ModbusSim.Frame Store StatefulRun LastWriter

def submit (device : Device) (r : Request) : Except Exn Bytes × Device :=
  match encodeRequestPdu r with
  | .ok pdu => processPdu device pdu
  | .error e => (.error e, device)

theorem submit_eq {r : Request} (encodable : r.Encodable) (device : Device) :
    submit device r = processPdu device r.wire := by
  rw [submit, (encodeRequestPdu_eq r).1 encodable]

/-! ### The slots of a device -/

def slotAt (device : Device) (place : Region × Nat) : Option Slot :=
  (device.block place.1).values[place.2]?

def written (r : Request) : Write (Region × Nat) Slot := fun place =>
  if place.1 = region r ∧ (address r).toNat ≤ place.2 then
    ((transmitted r).getD [])[place.2 - (address r).toNat]?
  else none

theorem length_transmitted {r : Request} {slots : List Slot} (transmits : transmitted r = some slots) :
    quantity r = slots.length := by
  cases r with
  | readCoils | readDiscreteInputs | readHoldingRegisters | readInputRegisters => cases transmits
  | writeSingleCoil | writeSingleRegister =>
    cases transmits
    rfl
  | writeMultipleCoils | writeMultipleRegisters =>
    cases transmits
    simp [quantity]

/-- A request in range writes its slots, and every other slot keeps its value. -/
theorem slotAt_execute {device : Device} (sized : device.Sized) {r : Request}
    (inside : InRegion device r) (place : Region × Nat) :
    slotAt (execute device r) place = (written r place).or (slotAt device place) := by
  obtain ⟨s, j⟩ := place
  simp only [slotAt, block_execute, written]
  cases transmits : transmitted r with
  | none => simp
  | some slots =>
    simp only [Option.getD_some]
    by_cases here : s = region r
    · subst here
      obtain ⟨start, _, stop⟩ := inside
      rw [length_transmitted transmits] at stop
      have slotCount : (device.block (region r)).values.length = (device.block (region r)).size :=
        sized (region r)
      have within : (address r).toNat + slots.length ≤ (device.block (region r)).values.length := by
        rw [slotCount]
        omega
      simp only [if_true, true_and, getElem?_overwrite within]
      by_cases covered : (address r).toNat ≤ j
      · by_cases before : j < (address r).toNat + slots.length
        · have value : j - (address r).toNat < slots.length := by omega
          rw [if_pos ⟨covered, before⟩, if_pos covered, List.getElem?_eq_getElem value, Option.some_or]
        · have beyond : slots.length ≤ j - (address r).toNat := by omega
          rw [if_neg fun both => before both.2, if_pos covered, List.getElem?_eq_none beyond,
            Option.none_or]
      · rw [if_neg fun both => covered both.1, if_neg covered, Option.none_or]
    · rw [if_neg here, if_neg fun both => here both.1, Option.none_or]

structure Alike (device other : Device) : Prop where
  unitId : other.unitId = device.unitId
  name : other.name = device.name
  size : ∀ r, (other.block r).size = (device.block r).size

theorem Alike.refl (device : Device) : Alike device device := ⟨rfl, rfl, fun _ => rfl⟩

theorem Alike.inRegion {device other : Device} (alike : Alike device other) (r : Request) :
    InRegion other r ↔ InRegion device r := by
  simp only [InRegion, MemoryBlock.Inside, alike.size]

theorem alike_execute {device other : Device} (alike : Alike device other) (r : Request) :
    Alike device (execute other r) := by
  refine ⟨(execute_unitId other r).trans alike.unitId, ?_, fun s => ?_⟩
  · rw [← alike.name, execute]
    cases transmitted r with
    | none => rfl
    | some slots => cases region r <;> rfl
  · rw [block_execute, ← alike.size]
    cases transmitted r with
    | none => rfl
    | some slots =>
      simp only
      split <;> rfl

/-- A device is its unit, its name, the sizes of its regions and its slots. -/
theorem device_ext {device other third : Device} (first : Alike device other)
    (second : Alike device third) (same : ∀ place, slotAt other place = slotAt third place) :
    other = third := by
  have blocks : ∀ r, other.block r = third.block r := by
    intro r
    have sizes := (first.size r).trans (second.size r).symm
    have values : (other.block r).values = (third.block r).values :=
      List.ext_getElem? fun i => same (r, i)
    generalize other.block r = b at sizes values ⊢
    generalize third.block r = c at sizes values ⊢
    cases b
    cases c
    cases sizes
    cases values
    rfl
  have unitIds := first.unitId.trans second.unitId.symm
  have names := first.name.trans second.name.symm
  have coils := blocks .coils
  have discreteInputs := blocks .discreteInputs
  have holdingRegisters := blocks .holdingRegisters
  have inputRegisters := blocks .inputRegisters
  simp only [Device.block] at coils discreteInputs holdingRegisters inputRegisters
  cases other
  cases third
  cases unitIds
  cases names
  cases coils
  cases discreteInputs
  cases holdingRegisters
  cases inputRegisters
  rfl

/-! ### Writes in range -/

structure Writable (device : Device) (r : Request) : Prop where
  encodable : r.Encodable
  inRange : QuantityInRange r
  inside : InRegion device r
  writes : ∃ slots, transmitted r = some slots

theorem answer_encodable_of_write {device : Device} {r : Request} (writable : Writable device r) :
    (answer device r).Encodable := by
  obtain ⟨slots, transmits⟩ := writable.writes
  have encodable := writable.encodable
  cases r with
  | readCoils | readDiscreteInputs | readHoldingRegisters | readInputRegisters => cases transmits
  | writeSingleCoil | writeSingleRegister => exact encodable
  | writeMultipleCoils a values =>
    have few : values.length ≤ 2040 := encodable.2
    refine ⟨encodable.1, ?_⟩
    simp only [IsWord, registerMax]
    omega
  | writeMultipleRegisters a values =>
    have few : values.length ≤ 127 := encodable.2.1
    refine ⟨encodable.1, ?_⟩
    simp only [IsWord, registerMax]
    omega

theorem submit_write {device : Device} (sized : device.Sized) {r : Request}
    (writable : Writable device r) :
    submit device r = (.ok (r.wire.take 5), execute device r) := by
  obtain ⟨slots, transmits⟩ := writable.writes
  rw [submit_eq writable.encodable, processPdu_inRange sized
    (decodeRequestPdu_wire writable.encodable) writable.inRange writable.inside,
    (encodeResponsePdu_eq _).1 (answer_encodable_of_write writable), wire_answer transmits]

theorem Writable.of_alike {device other : Device} (alike : Alike device other) {r : Request}
    (writable : Writable device r) : Writable other r :=
  ⟨writable.encodable, writable.inRange, (alike.inRegion r).mpr writable.inside, writable.writes⟩

theorem run_submit {device other : Device} (sized : other.Sized) (alike : Alike device other)
    {requests : List Request} (writable : ∀ r ∈ requests, Writable device r) :
    (run submit other requests).1 = requests.map fun r => .ok (r.wire.take 5) := by
  induction requests generalizing other with
  | nil => rfl
  | cons r requests ih =>
    have now := submit_write sized ((writable r (by simp)).of_alike alike)
    have later := ih (execute_sized sized r) (alike_execute alike r)
      fun s member => writable s (by simp [member])
    rw [run, now, later, List.map_cons]

theorem records_submit (device : Device) :
    Records submit (fun other => other.Sized ∧ Alike device other) (Writable device) slotAt
      fun r _ => written r := by
  rintro other r ⟨sized, alike⟩ writable
  have now := writable.of_alike alike
  rw [submit_write sized now]
  exact ⟨⟨execute_sized sized r, alike_execute alike r⟩, slotAt_execute sized now.inside⟩

/-- After a sequence of writes every slot holds what the latest of them gave it. -/
theorem slotAt_run {device : Device} (sized : device.Sized) {requests : List Request}
    (writable : ∀ r ∈ requests, Writable device r) :
    Alike device (run submit device requests).2 ∧
      ∀ place, slotAt (run submit device requests).2 place =
        (latest (requests.map written) place).or (slotAt device place) := by
  obtain ⟨⟨_, alike⟩, slots⟩ := view_run (records_submit device) writable ⟨sized, .refl device⟩
  refine ⟨alike, fun place => ?_⟩
  rw [slots, history_of_input]

/-! ### A multiple write and its single writes -/

def SetsOne (r : Request) (s : Region) (a : Int) (slot : Slot) : Prop :=
  region r = s ∧ address r = a ∧ transmitted r = some [slot]

/-- The single requests set, one by one, the slots that the multiple one sets. -/
structure Splits (multiple : Request) (slots : List Slot) (singles : List Request) : Prop where
  transmits : transmitted multiple = some slots
  single : ∀ r ∈ singles, ∃ (i : Nat) (slot : Slot), slots[i]? = some slot ∧
    SetsOne r (region multiple) (address multiple + i) slot
  covered : ∀ (i : Nat) (slot : Slot), slots[i]? = some slot →
    ∃ r ∈ singles, SetsOne r (region multiple) (address multiple + i) slot

theorem written_of_setsOne {r : Request} {s : Region} {a : Int} (start : 0 ≤ a) {i : Nat} {slot : Slot}
    (one : SetsOne r s (a + i) slot) (place : Region × Nat) :
    written r place = if place = (s, a.toNat + i) then some slot else none := by
  obtain ⟨rfl, here, transmits⟩ := one
  obtain ⟨s, j⟩ := place
  have index : (a + i).toNat = a.toNat + i := by omega
  simp only [written, transmits, here, index, Option.getD_some, Prod.mk.injEq]
  by_cases hit : s = region r ∧ j = a.toNat + i
  · obtain ⟨same, rfl⟩ := hit
    simp [same]
  · rw [if_neg hit]
    split
    next covers =>
      have beyond : 1 ≤ j - (a.toNat + i) := by
        by_contra at_start
        exact hit ⟨covers.1, by omega⟩
      exact List.getElem?_eq_none (by simpa using beyond)
    next => rfl

theorem agree_singles {multiple : Request} {slots : List Slot} {singles : List Request}
    (splits : Splits multiple slots singles) (start : 0 ≤ address multiple) :
    Agree (singles.map written) := by
  intro w member w' member' place slot slot' value value'
  obtain ⟨r, isSingle, rfl⟩ := List.mem_map.mp member
  obtain ⟨r', isSingle', rfl⟩ := List.mem_map.mp member'
  obtain ⟨i, x, here, one⟩ := splits.single r isSingle
  obtain ⟨i', x', here', one'⟩ := splits.single r' isSingle'
  rw [written_of_setsOne start one] at value
  rw [written_of_setsOne start one'] at value'
  split at value
  next same =>
    split at value'
    next same' =>
      have index : i = i' := by
        rw [same, Prod.mk.injEq] at same'
        omega
      subst index
      cases here.symm.trans here'
      cases value
      cases value'
      rfl
    next => cases value'
  next => cases value

theorem latest_singles {multiple : Request} {slots : List Slot} {singles : List Request}
    (splits : Splits multiple slots singles) (start : 0 ≤ address multiple) (place : Region × Nat) :
    latest (singles.map written) place = written multiple place := by
  have agree := agree_singles splits start
  cases value : written multiple place with
  | some slot =>
    obtain ⟨s, j⟩ := place
    simp only [written, splits.transmits, Option.getD_some] at value
    split at value
    next covers =>
      obtain ⟨rfl, after⟩ := covers
      obtain ⟨r, member, one⟩ := splits.covered _ slot value
      refine latest_of_agree agree (List.mem_map_of_mem member) ?_
      rw [written_of_setsOne start one, if_pos]
      rw [Prod.mk.injEq]
      exact ⟨rfl, by omega⟩
    next => cases value
  | none =>
    apply latest_eq_none_iff.mpr
    intro w member
    obtain ⟨r, isSingle, rfl⟩ := List.mem_map.mp member
    obtain ⟨i, slot, here, one⟩ := splits.single r isSingle
    rw [written_of_setsOne start one, if_neg]
    rintro rfl
    simp [written, splits.transmits, here] at value

/-- A multiple write in range answers with its echo, and the single writes in any order with
theirs, leaving the same device. Out of range it answers 02 and changes nothing, though the single
writes that are in range succeed. -/
structure WriteAgrees (device : Device) (multiple : Request) (singles : List Request) : Prop where
  echoed : InRegion device multiple →
    (submit device multiple).1 = (encodeRequestPdu multiple).map fun pdu => pdu.take 5
  same : InRegion device multiple → ∀ order, order.Perm singles → (∀ r ∈ order, r.Encodable) →
    run submit device order = (order.map encodeRequestPdu, (submit device multiple).2)
  refused : ¬ InRegion device multiple → submit device multiple =
    (.ok [UInt8.ofNat multiple.functionCode ||| 0x80, 0x02], device)
  others : ∀ order, order.Perm (singles.filter fun r => InRegion device r) →
    (∀ r ∈ order, r.Encodable) → (run submit device order).1 = order.map encodeRequestPdu

theorem quantityInRange_of_one {r : Request} {slot : Slot} (one : transmitted r = some [slot]) :
    QuantityInRange r := by
  have count := length_transmitted one
  rw [List.length_singleton] at count
  rw [QuantityInRange, count]
  cases r <;> simp [limit, maxReadBits, maxReadRegisters, maxWriteCoils, maxWriteRegisters]

theorem inRegion_of_splits {device : Device} {multiple : Request} {slots : List Slot}
    {singles : List Request} (splits : Splits multiple slots singles)
    (inside : InRegion device multiple) {r : Request} (isSingle : r ∈ singles) :
    InRegion device r := by
  obtain ⟨start, _, stop⟩ := inside
  rw [length_transmitted splits.transmits] at stop
  obtain ⟨i, slot, here, rfl', address_eq, transmits⟩ := splits.single r isSingle
  have before := (List.getElem?_eq_some_iff.mp here).1
  have count := length_transmitted transmits
  rw [List.length_singleton] at count
  rw [InRegion, rfl', address_eq, count]
  exact ⟨by omega, by omega, by omega⟩

theorem run_singles {device : Device} (sized : device.Sized) {requests : List Request}
    (writable : ∀ r ∈ requests, Writable device r) (short : ∀ r ∈ requests, r.wire.length = 5) :
    (run submit device requests).1 = requests.map encodeRequestPdu := by
  rw [run_submit sized (.refl device) writable]
  apply List.map_congr_left
  intro r member
  rw [(encodeRequestPdu_eq r).1 (writable r member).encodable,
    List.take_of_length_le (short r member).le]

theorem write_agrees {device : Device} (sized : device.Sized) {multiple : Request}
    {slots : List Slot} {singles : List Request} (splits : Splits multiple slots singles)
    (encodable : multiple.Encodable) (inRange : QuantityInRange multiple)
    (short : ∀ r ∈ singles, r.wire.length = 5) : WriteAgrees device multiple singles := by
  have ones : ∀ r ∈ singles, r.Encodable → InRegion device r → Writable device r := by
    intro r isSingle fits inside
    obtain ⟨_, slot, _, _, _, transmits⟩ := splits.single r isSingle
    exact ⟨fits, quantityInRange_of_one transmits, inside, _, transmits⟩
  constructor
  · intro inside
    rw [submit_write sized ⟨encodable, inRange, inside, _, splits.transmits⟩,
      (encodeRequestPdu_eq multiple).1 encodable]
    rfl
  · intro inside order perm fits
    have writable : ∀ r ∈ order, Writable device r := by
      intro r member
      have isSingle := perm.mem_iff.mp member
      exact ones r isSingle (fits r member) (inRegion_of_splits splits inside isSingle)
    obtain ⟨alike, slotwise⟩ := slotAt_run sized writable
    have agree := agree_singles splits inside.1
    have whole := submit_write sized ⟨encodable, inRange, inside, _, splits.transmits⟩
    refine Prod.ext (run_singles sized writable fun r member => short r (perm.mem_iff.mp member)) ?_
    rw [whole]
    apply device_ext alike (alike_execute (.refl device) multiple)
    intro place
    rw [slotwise, latest_perm agree (perm.map written), latest_singles splits inside.1,
      slotAt_execute sized inside]
  · intro outside
    rw [submit_eq encodable, processPdu_decoded sized (head_wire multiple)
      (decodeRequestPdu_wire encodable), if_neg (not_not.mpr inRange), if_pos outside]
    rfl
  · intro order perm fits
    have listed : ∀ r ∈ order, r ∈ singles ∧ InRegion device r := by
      intro r member
      simpa using List.mem_filter.mp (perm.mem_iff.mp member)
    apply run_singles sized
    · intro r member
      exact ones r (listed r member).1 (fits r member) (listed r member).2
    · intro r member
      exact short r (listed r member).1

theorem splits_mapIdx {α : Type} {multiple : Request} {values : List α} {slot : α → Slot}
    {single : Int → α → Request} (transmits : transmitted multiple = some (values.map slot))
    (sets : ∀ (i : Nat) (v : α),
      SetsOne (single (address multiple + i) v) (region multiple) (address multiple + i) (slot v)) :
    Splits multiple (values.map slot)
      (values.mapIdx fun i v => single (address multiple + i) v) := by
  refine ⟨transmits, fun r isSingle => ?_, fun i value here => ?_⟩
  · obtain ⟨i, before, rfl⟩ := List.mem_mapIdx.mp isSingle
    exact ⟨i, slot values[i], by simp [before], sets i values[i]⟩
  · rw [List.getElem?_map, Option.map_eq_some_iff] at here
    obtain ⟨value, here, rfl⟩ := here
    obtain ⟨before, rfl⟩ := List.getElem?_eq_some_iff.mp here
    exact ⟨_, List.mem_mapIdx.mpr ⟨i, before, rfl⟩, sets i values[i]⟩

theorem splits_coils (a : Int) (values : List Bool) :
    Splits (.writeMultipleCoils a values) (values.map .bool)
      (values.mapIdx fun i v => .writeSingleCoil (a + i) v) :=
  splits_mapIdx rfl fun _ _ => ⟨rfl, rfl, rfl⟩

theorem splits_registers (a : Int) (values : List Int) :
    Splits (.writeMultipleRegisters a values) (values.map .int)
      (values.mapIdx fun i v => .writeSingleRegister (a + i) v) :=
  splits_mapIdx rfl fun _ _ => ⟨rfl, rfl, rfl⟩

/-! ### A read and the reads of its pieces -/

def readOf : Region → Int → Int → Request
  | .coils => .readCoils
  | .discreteInputs => .readDiscreteInputs
  | .holdingRegisters => .readHoldingRegisters
  | .inputRegisters => .readInputRegisters

def valuesOf : Response → List Slot
  | .readCoils bits | .readDiscreteInputs bits => bits.map .bool
  | .readHoldingRegisters regs | .readInputRegisters regs => regs.map .int
  | _ => []

def readAs : Region → Slot → Slot
  | .coils | .discreteInputs => fun slot => .bool slot.toBool
  | .holdingRegisters | .inputRegisters => fun slot => .int slot.toInt

def fetch (device : Device) (r : Region) (a n : Int) : Except Exn (List Slot) :=
  (handleRequest device (readOf r a n)).1.map valuesOf

/-- A read over the wire: the request is encoded, and the reply decoded for its quantity. -/
def fetchPdu (device : Device) (r : Region) (a n : Int) : Except Exn (List Slot) := do
  let reply ← (submit device (readOf r a n)).1
  return valuesOf (← decodeResponsePdu reply (some n))

def pieces (a : Int) : List Nat → List (Int × Int)
  | [] => []
  | n :: lengths => (a, n) :: pieces (a + n) lengths

theorem region_readOf (r : Region) (a n : Int) : region (readOf r a n) = r := by cases r <;> rfl

theorem address_readOf (r : Region) (a n : Int) : address (readOf r a n) = a := by cases r <;> rfl

theorem quantity_readOf (r : Region) (a n : Int) : quantity (readOf r a n) = n := by cases r <;> rfl

theorem valuesOf_answer (device : Device) (r : Region) (a n : Int) :
    valuesOf (answer device (readOf r a n)) =
      (slice (device.block r).values a.toNat (a + n).toNat).map (readAs r) := by
  cases r <;> simp [readOf, answer, valuesOf, readAs, addressed, region, address, quantity,
    Function.comp_def]

theorem requested_answer {device : Device} (sized : device.Sized) {r : Region} {a n : Int}
    (inside : InRegion device (readOf r a n)) :
    (answer device (readOf r a n)).Plain ∧ (answer device (readOf r a n)).Requested (some n) := by
  have count := length_addressed sized inside
  rw [quantity_readOf] at count
  cases r with
  | holdingRegisters | inputRegisters => exact ⟨trivial, trivial⟩
  | coils | discreteInputs =>
    refine ⟨trivial, ?_⟩
    simp only [readOf, answer, Response.Requested, List.length_map, Option.some_inj]
    exact count.symm

theorem fetch_eq {device : Device} (sized : device.Sized) {r : Region} {a n : Int}
    (inRange : QuantityInRange (readOf r a n)) (inside : InRegion device (readOf r a n)) :
    fetch device r a n =
      .ok ((slice (device.block r).values a.toNat (a + n).toNat).map (readAs r)) := by
  rw [fetch, handleRequest_inRange sized inRange inside, ← valuesOf_answer]
  rfl

theorem fetchPdu_eq {device : Device} (wellFormed : device.WellFormed) {r : Region} {a n : Int}
    (word : a + n ≤ 65536) (inRange : QuantityInRange (readOf r a n))
    (inside : InRegion device (readOf r a n)) :
    fetchPdu device r a n =
      .ok ((slice (device.block r).values a.toNat (a + n).toNat).map (readAs r)) := by
  have start := inside.1
  have least := inRange.1
  have most := inRange.2
  rw [quantity_readOf] at least most
  rw [address_readOf] at start
  have encodable : (readOf r a n).Encodable := by
    cases r <;> simp only [readOf, limit, maxReadBits, maxReadRegisters] at most <;>
      refine ⟨⟨start, ?_⟩, ⟨by omega, ?_⟩⟩ <;> simp only [registerMax] <;> omega
  obtain ⟨fits, _, _⟩ := answer_encodable wellFormed encodable inRange inside
  obtain ⟨plain, requested⟩ := requested_answer wellFormed.sized inside
  rw [fetchPdu, submit_eq encodable, processPdu_inRange wellFormed.sized
    (decodeRequestPdu_wire encodable) inRange inside, (encodeResponsePdu_eq _).1 fits,
    Raise.ok_bind, decodeResponsePdu_wire fits plain requested, Raise.ok_bind, valuesOf_answer]
  rfl

theorem pieces_eq (xs : List Slot) (f : Slot → Slot) {read : Int → Int → Except Exn (List Slot)}
    {lengths : List Nat} (nonempty : ∀ n ∈ lengths, 1 ≤ n) (a : Nat)
    (reads : ∀ b n : Nat, a ≤ b → 1 ≤ n → b + n ≤ a + lengths.sum →
      read b n = .ok ((slice xs b (b + n)).map f)) :
    ∃ parts, (pieces a lengths).mapM (fun piece => read piece.1 piece.2) = .ok parts ∧
      parts.flatten = (slice xs a (a + lengths.sum)).map f := by
  induction lengths generalizing a with
  | nil =>
    refine ⟨[], rfl, ?_⟩
    simp [slice]
  | cons n lengths ih =>
    rw [List.sum_cons, ← Nat.add_assoc] at reads ⊢
    have size := nonempty n (by simp)
    have now := reads a n (Nat.le_refl a) size (Nat.le_add_right ..)
    have rest : ∀ b m : Nat, a + n ≤ b → 1 ≤ m → b + m ≤ a + n + lengths.sum →
        read b m = .ok ((slice xs b (b + m)).map f) :=
      fun b m after => reads b m (by omega)
    obtain ⟨parts, later, whole⟩ := ih (fun m member => nonempty m (by simp [member])) (a + n) rest
    rw [Int.natCast_add] at later
    refine ⟨(slice xs a (a + n)).map f :: parts, ?_, ?_⟩
    · rw [pieces, List.mapM_cons, now, Raise.ok_bind, later]
      rfl
    · rw [List.flatten_cons, whole, ← List.map_append, slice_append]

def ReadAgrees (read : Int → Int → Except Exn (List Slot)) (a : Int) (lengths : List Nat) : Prop :=
  ∃ parts, (pieces a lengths).mapM (fun piece => read piece.1 piece.2) = .ok parts ∧
    read a lengths.sum = .ok parts.flatten

theorem read_agrees {device : Device} {r : Region} {read : Int → Int → Except Exn (List Slot)}
    {a : Int} {lengths : List Nat} (nonempty : ∀ n ∈ lengths, 1 ≤ n)
    (inRange : QuantityInRange (readOf r a lengths.sum))
    (inside : InRegion device (readOf r a lengths.sum))
    (reads : ∀ b n : Int, b + n ≤ a + lengths.sum → QuantityInRange (readOf r b n) →
      InRegion device (readOf r b n) →
      read b n = .ok ((slice (device.block r).values b.toNat (b + n).toNat).map (readAs r))) :
    ReadAgrees read a lengths := by
  have limits : ∀ b n : Int, limit (readOf r b n) = limit (readOf r 0 0) := by cases r <;> intros <;> rfl
  have whole := reads a lengths.sum (Int.le_refl _) inRange inside
  simp only [QuantityInRange, InRegion, region_readOf, address_readOf, quantity_readOf, limits,
    MemoryBlock.Inside] at inRange inside reads
  obtain ⟨a, rfl⟩ := Int.eq_ofNat_of_zero_le inside.1
  obtain ⟨parts, each, joined⟩ := pieces_eq (device.block r).values (readAs r) nonempty a
    fun b n after least within => reads b n (by omega) (by omega) (by omega)
  refine ⟨parts, each, ?_⟩
  rw [whole, joined]
  rfl

/-- Single and multiple access agree: writes of coils and of registers, in every order of the
single writes, and reads of every region, in every partition. -/
theorem single_multiple_agree {device : Device} (sized : device.Sized) :
    (∀ (a : Int) (values : List Bool), IsWord a → 1 ≤ values.length →
        (values.length : Int) ≤ maxWriteCoils →
        WriteAgrees device (.writeMultipleCoils a values)
          (values.mapIdx fun i v => .writeSingleCoil (a + i) v)) ∧
      (∀ (a : Int) (values : List Int), IsWord a → 1 ≤ values.length →
        (values.length : Int) ≤ maxWriteRegisters → (∀ v ∈ values, IsWord v) →
        WriteAgrees device (.writeMultipleRegisters a values)
          (values.mapIdx fun i v => .writeSingleRegister (a + i) v)) ∧
      ∀ (r : Region) (a : Int) (lengths : List Nat), (∀ n ∈ lengths, 1 ≤ n) →
        QuantityInRange (readOf r a lengths.sum) → InRegion device (readOf r a lengths.sum) →
        ReadAgrees (fetch device r) a lengths ∧
          (device.WellFormed → a + lengths.sum ≤ 65536 → ReadAgrees (fetchPdu device r) a lengths) := by
  refine ⟨fun a values word least most => ?_, fun a values word least most words => ?_,
    fun r a lengths nonempty inRange inside => ⟨?_, fun wellFormed word => ?_⟩⟩
  · simp only [maxWriteCoils] at most
    apply write_agrees sized (splits_coils a values) ⟨word, by omega⟩
    · simp only [QuantityInRange, quantity, limit, maxWriteCoils]
      omega
    · intro r isSingle
      obtain ⟨i, _, rfl⟩ := List.mem_mapIdx.mp isSingle
      rfl
  · simp only [maxWriteRegisters] at most
    apply write_agrees sized (splits_registers a values) ⟨word, by omega, words⟩
    · simp only [QuantityInRange, quantity, limit, maxWriteRegisters]
      omega
    · intro r isSingle
      obtain ⟨i, _, rfl⟩ := List.mem_mapIdx.mp isSingle
      rfl
  · apply read_agrees nonempty inRange inside
    intro b n _ inRange inside
    exact fetch_eq sized inRange inside
  · apply read_agrees nonempty inRange inside
    intro b n within inRange inside
    exact fetchPdu_eq wellFormed (by omega) inRange inside

/-- Two registers, written last first, and read back one by one. -/
theorem single_multiple_agree_registers :
    run submit sampleDevice [.writeSingleRegister 1 500, .writeSingleRegister 0 40000] =
        ([.ok [0x06, 0, 1, 1, 244], .ok [0x06, 0, 0, 156, 64]],
          (submit sampleDevice (.writeMultipleRegisters 0 [40000, 500])).2) ∧
      ReadAgrees (fetchPdu sampleDevice .holdingRegisters) 0 [1, 1] := by
  obtain ⟨_, registers, reads⟩ := single_multiple_agree sampleDevice_wellFormed.sized
  constructor
  · apply (registers 0 [40000, 500] (by decide) (by decide) (by decide) (by decide)).same (by decide)
    · exact .swap ..
    · intro r member
      rcases List.mem_pair.mp member with rfl | rfl <;> exact ⟨by decide, by decide⟩
  · exact (reads .holdingRegisters 0 [1, 1] (by decide) (by decide) (by decide)).2
      sampleDevice_wellFormed (by decide)

end ModbusSim.Dispatch
