import ModbusSim.Dispatch.Agreement
import ModbusSim.Setup.Run

/-!
# The history of a configured store

A run of a built store is a sequence of events: a PDU is processed on a device, or a binding is
updated. Each event that succeeds makes one write, to the slots it covers. Whatever the events, a
slot holds what the latest write that covers it put there (`last_writer_wins`).
-/

namespace ModbusSim.Setup

open PyStruct PyList ModbusSim.Frame Store Dispatch LastWriter StatefulRun

inductive Event where
  | pdu (unitId : Int) (pdu : Bytes)
  | update (index : Nat) (elapsed : ℚ) (up : Bool)

inductive Outcome where
  | replied (result : Except Exn Bytes)
  | updated (result : Except Exn Int)
  /-- There is no such unit or no such binding. -/
  | absent

def World.handle (lib : MathLib) (w : World) : Event → Outcome × World
  | .pdu unitId pdu =>
    match w.store.get unitId with
    | none => (.absent, w)
    | some device =>
      let (result, device') := processPdu device pdu
      (.replied result, ⟨w.store.update unitId device', w.bindings⟩)
  | .update index elapsed up =>
    match w.bindings[index]? with
    | none => (.absent, w)
    | some b =>
      match w.store.get b.unitId with
      | none => (.absent, w)
      | some device =>
        let (result, device', b') := b.update lib device elapsed up
        (.updated result, ⟨w.store.update b.unitId device', w.bindings.set index b'⟩)

/-! ### What an event writes -/

abbrev Place := Int × Region × Nat

def slotOf (w : World) (place : Place) : Option Slot :=
  (w.store.get place.1).bind fun device => slotAt device place.2

def placeOf (b : GeneratorBinding) : Place := (b.unitId, b.region, b.address.toNat)

/-- A write request that is answered without the exception bit covers the slots it addresses, and
nothing else covers any. -/
def pduWrite (pdu reply : Bytes) : Write (Region × Nat) Slot := fun place =>
  let fc := byteAt pdu 0
  if fc ∈ [0x05, 0x06, 0x0F, 0x10] ∧ byteAt reply 0 = fc ∧ place.1 = addressedRegion fc ∧
      wordAt pdu 1 ≤ place.2 then
    (transmittedSlots pdu fc)[place.2 - wordAt pdu 1]?
  else none

def Event.write (places : List Place) : Event → Outcome → Write Place Slot
  | .pdu unitId request, .replied (.ok reply) => fun place =>
    if place.1 = unitId then pduWrite request reply place.2 else none
  | .update index _ _, .updated (.ok value) => fun place =>
    if places[index]? = some place then some (.int value) else none
  | _, _ => fun _ => none

/-! ### One event -/

theorem write_cases {fc : Nat} (isWrite : fc ∈ [0x05, 0x06, 0x0F, 0x10]) :
    fc = 0x05 ∨ fc = 0x06 ∨ fc = 0x0F ∨ fc = 0x10 := by
  simpa using isWrite

theorem read_cases {fc : Nat} (isRead : fc ∈ [0x01, 0x02, 0x03, 0x04]) :
    fc = 0x01 ∨ fc = 0x02 ∨ fc = 0x03 ∨ fc = 0x04 := by
  simpa using isRead

theorem transmitted_spelled {fc : Nat} (pdu : Bytes) (isWrite : fc ∈ [0x05, 0x06, 0x0F, 0x10]) :
    transmitted (spelled pdu fc) = some (transmittedSlots pdu fc) := by
  rcases write_cases isWrite with rfl | rfl | rfl | rfl <;>
    simp [spelled, transmitted, transmittedSlots, Function.comp_def]

theorem transmitted_spelled_read {fc : Nat} (supported : fc ∈ supportedFunctionCodes) (pdu : Bytes)
    (isRead : fc ∉ [0x05, 0x06, 0x0F, 0x10]) : transmitted (spelled pdu fc) = none := by
  rcases mem_supported.mp supported with rfl | rfl | rfl | rfl | rfl | rfl | rfl | rfl
  all_goals first | rfl | exact absurd isRead (by decide)

theorem byteAt_zero {pdu : Bytes} {first : UInt8} (head : pdu.head? = some first) :
    byteAt pdu 0 = first.toNat := by
  cases pdu with
  | nil => cases head
  | cons b rest =>
    cases head
    rfl

theorem exception_large (first : UInt8) (code : Nat) : 128 ≤ byteAt (exceptionPdu first code) 0 := by
  simp only [exceptionPdu, byteAt, List.getD_cons_zero]
  exact exception_bit first

/-- A PDU is refused and changes nothing, or it spells a request in range, which is executed. -/
theorem processPdu_spelled {device : Device} (wellFormed : device.WellFormed) (pdu : Bytes) :
    (∃ first code, processPdu device pdu = (.ok (exceptionPdu first code), device)) ∨
      ∃ first, pdu.head? = some first ∧ first.toNat ∈ supportedFunctionCodes ∧
        (spelled pdu first.toNat).Encodable ∧ QuantityInRange (spelled pdu first.toNat) ∧
        InRegion device (spelled pdu first.toNat) ∧
        processPdu device pdu = (.ok (answer device (spelled pdu first.toNat)).wire,
          execute device (spelled pdu first.toNat)) := by
  rcases processPdu_cases wellFormed pdu with refused | ⟨r, decoded, rest⟩
  · exact .inl refused
  · right
    obtain ⟨first, head, supported⟩ := supported_of_decoded decoded
    have decodes := decodes_supported head supported
    by_cases structured : wellStructured pdu first.toNat
    · cases decoded.symm.trans (decodes.accepted structured)
      exact ⟨first, head, supported, rest⟩
    · obtain ⟨message, refused⟩ := decodes.refused structured
      cases decoded.symm.trans refused

theorem written_spelled {fc : Nat} (pdu : Bytes) (isWrite : fc ∈ [0x05, 0x06, 0x0F, 0x10])
    (place : Region × Nat) :
    written (spelled pdu fc) place =
      if place.1 = addressedRegion fc ∧ wordAt pdu 1 ≤ place.2 then
        (transmittedSlots pdu fc)[place.2 - wordAt pdu 1]?
      else none := by
  have supported : fc ∈ supportedFunctionCodes := by
    rcases write_cases isWrite with rfl | rfl | rfl | rfl <;> decide
  rw [written, region_spelled supported, address_spelled supported, transmitted_spelled pdu isWrite]
  rfl

/-- What a processed PDU makes of each slot. -/
theorem slotAt_processPdu {device : Device} (wellFormed : device.WellFormed) (pdu : Bytes) :
    ∃ reply, (processPdu device pdu).1 = .ok reply ∧ ∀ place,
      slotAt (processPdu device pdu).2 place =
        (pduWrite pdu reply place).or (slotAt device place) := by
  rcases processPdu_spelled wellFormed pdu with ⟨first, code, answered⟩ |
    ⟨first, head, supported, encodable, inRange, inside, answered⟩
  · rw [answered]
    refine ⟨_, rfl, fun place => ?_⟩
    rw [pduWrite, if_neg, Option.none_or]
    rintro ⟨isWrite, same, _⟩
    have large := exception_large first code
    have small := write_cases isWrite
    omega
  · rw [answered]
    refine ⟨_, rfl, fun place => ?_⟩
    rw [slotAt_execute wellFormed.sized inside, pduWrite, byteAt_zero head]
    by_cases isWrite : first.toNat ∈ [0x05, 0x06, 0x0F, 0x10]
    · have echoed : byteAt (answer device (spelled pdu first.toNat)).wire 0 = first.toNat := by
        rw [wire_answer (transmitted_spelled pdu isWrite)]
        apply byteAt_zero
        rw [List.head?_take, if_neg (by decide), head_wire]
        rcases write_cases isWrite with fc | fc | fc | fc <;> rw [fc] <;>
          exact congrArg some (UInt8.toNat_inj.mp fc.symm)
      simp only [written_spelled pdu isWrite, isWrite, echoed, true_and]
    · rw [if_neg fun all => isWrite all.1, written,
        transmitted_spelled_read supported pdu isWrite]
      simp

theorem slotAt_withRegister {device : Device} {r : Region} {i : Nat}
    (within : i < (device.block r).values.length) (n : Int) (place : Region × Nat) :
    slotAt (withRegister device r i n) place =
      if place = (r, i) then some (.int n) else slotAt device place := by
  obtain ⟨s, j⟩ := place
  simp only [slotAt, withRegister, Device.block_setBlock, Prod.mk.injEq]
  by_cases here : s = r
  · subst here
    simp only [if_true, true_and, List.getElem?_set, if_pos within]
    by_cases slot : i = j
    · rw [if_pos slot, if_pos slot.symm]
    · rw [if_neg slot, if_neg fun same => slot same.symm]
  · rw [if_neg here, if_neg fun both => here both.1]

theorem Realizes.within {spec : DeviceSpec} {device : Device} (realizes : Realizes spec device)
    {r : Region} {address : Int} (inside : 0 ≤ address ∧ address < (spec.region r).size) :
    address.toNat < (device.block r).values.length := by
  have sizes := realizes.sizes r
  have sized : (device.block r).values.length = (device.block r).size := realizes.sized r
  omega

/-- What an update makes of each slot: its own takes the sample, if there is one. -/
theorem slotAt_update (lib : MathLib) {spec : DeviceSpec} {b : GeneratorBinding} {device : Device}
    (bound : Bound spec b) (realizes : Realizes spec device) (elapsed : ℚ) (up : Bool)
    (place : Region × Nat) :
    (∀ value, (b.update lib device elapsed up).1 = .ok value →
        slotAt (b.update lib device elapsed up).2.1 place =
          if place = (b.region, b.address.toNat) then some (.int value) else slotAt device place) ∧
      ∀ e, (b.update lib device elapsed up).1 = .error e →
        slotAt (b.update lib device elapsed up).2.1 place = slotAt device place := by
  cases sampled : b.generator.sample lib elapsed up with
  | mk result generator =>
    cases result with
    | error e =>
      rw [update_error sampled]
      exact ⟨fun _ returned => by simp at returned, fun _ _ => rfl⟩
    | ok value =>
      rw [update_ok bound realizes sampled]
      refine ⟨fun sample returned => ?_, fun _ raised => by simp at raised⟩
      cases returned
      exact slotAt_withRegister (realizes.within bound.address) value place

/-! ### Any events -/

theorem placeOf_update (lib : MathLib) (b : GeneratorBinding) (device : Device) (elapsed : ℚ)
    (up : Bool) : placeOf (b.update lib device elapsed up).2.2 = placeOf b := by
  rw [GeneratorBinding.update]
  cases b.generator.sample lib elapsed up with
  | mk sampled generator => cases sampled <;> rfl

/-- A run keeps the store to its configuration, and the bindings at their places. -/
structure World.Kept (config : Config) (places : List Place) (w : World) : Prop where
  realizes : w.Realizes config
  places : w.bindings.map placeOf = places

theorem slotOf_update {w : World} {unitId : Int} {device : Device}
    {bindings : List GeneratorBinding} {place : Place} :
    slotOf ⟨w.store.update unitId device, bindings⟩ place =
      if place.1 = unitId then slotAt device place.2 else slotOf w place := by
  rw [slotOf, DataStore.get_update]
  split
  · rfl
  · rfl

theorem slotOf_of_get {w : World} {unitId : Int} {device : Device}
    (found : w.store.get unitId = some device) {place : Place} (here : place.1 = unitId) :
    slotOf w place = slotAt device place.2 := by
  rw [slotOf, here, found, Option.bind_some]

theorem World.Kept.pdu {lib : MathLib} {config : Config} {places : List Place} {w : World}
    (kept : w.Kept config places) (unitId : Int) (request : Bytes) :
    (w.handle lib (.pdu unitId request)).2.Kept config places ∧ ∀ place,
      slotOf (w.handle lib (.pdu unitId request)).2 place =
        (Event.write places (.pdu unitId request) (w.handle lib (.pdu unitId request)).1 place).or
          (slotOf w place) := by
  cases found : w.store.get unitId with
  | none =>
    simp only [World.handle, found]
    exact ⟨kept, fun _ => rfl⟩
  | some device =>
    obtain ⟨_, _, _, holds⟩ := kept.realizes.spec found
    obtain ⟨reply, answered, slots⟩ := slotAt_processPdu holds.wellFormed request
    simp only [World.handle, found, answered, Event.write]
    refine ⟨⟨kept.realizes.update found (fun spec holds => holds.processPdu request)
      kept.realizes.bindings, kept.places⟩, fun place => ?_⟩
    rw [slotOf_update]
    by_cases here : place.1 = unitId
    · rw [if_pos here, if_pos here, slots, slotOf_of_get found here]
    · rw [if_neg here, if_neg here, Option.none_or]

theorem World.Kept.update {lib : MathLib} {config : Config} {places : List Place} {w : World}
    (kept : w.Kept config places) (index : Nat) (elapsed : ℚ) (up : Bool) :
    (w.handle lib (.update index elapsed up)).2.Kept config places ∧ ∀ place,
      slotOf (w.handle lib (.update index elapsed up)).2 place =
        (Event.write places (.update index elapsed up)
          (w.handle lib (.update index elapsed up)).1 place).or (slotOf w place) := by
  cases listed : w.bindings[index]? with
  | none =>
    simp only [World.handle, listed]
    exact ⟨kept, fun _ => rfl⟩
  | some b =>
    obtain ⟨spec, member, bound, device, found, holds⟩ :=
      kept.realizes.bound (List.mem_of_getElem? listed)
    have after := update_spec lib bound holds elapsed up
    have slots := slotAt_update lib bound holds elapsed up
    have here : places[index]? = some (placeOf b) := by
      rw [← kept.places, List.getElem?_map, listed, Option.map_some]
    have stays : (w.bindings.set index (b.update lib device elapsed up).2.2).map placeOf = places := by
      rw [List.map_set, placeOf_update, kept.places]
      obtain ⟨inside, same⟩ := List.getElem?_eq_some_iff.mp here
      rw [← same, List.set_getElem_self]
    simp only [World.handle, listed, found]
    refine ⟨⟨kept.realizes.update found (fun other holds' => ?_)
      (bound_set kept.realizes.bindings ⟨spec, member, after.2.2⟩ index), stays⟩, fun place => ?_⟩
    · exact (update_spec lib (bound.congr holds holds') holds' elapsed up).2.1
    · rw [slotOf_update]
      cases result : (b.update lib device elapsed up).1 with
      | error e =>
        simp only [Event.write, Option.none_or, (slots place.2).2 e result]
        split
        next same => exact (slotOf_of_get found same).symm
        next => rfl
      | ok value =>
        obtain ⟨unit, rest⟩ := place
        simp only [Event.write, here, Option.some_inj, placeOf, Prod.mk.injEq,
          (slots rest).1 value result]
        by_cases same : unit = b.unitId
        · subst same
          rw [if_pos rfl, slotOf_of_get found rfl]
          by_cases slot : rest = (b.region, b.address.toNat)
          · subst slot
            simp
          · rw [if_neg slot, if_neg fun both => slot both.2.symm, Option.none_or]
        · rw [if_neg same, if_neg fun both => same both.1.symm, Option.none_or]

theorem records_handle (lib : MathLib) (config : Config) (places : List Place) :
    Records (World.handle lib) (World.Kept config places) (fun _ => True) slotOf
      (Event.write places) := by
  intro w event kept _
  cases event with
  | pdu unitId request => exact kept.pdu unitId request
  | update index elapsed up => exact kept.update index elapsed up

/-! ### Reading the slots back -/

theorem spelled_read {fc : Nat} (pdu : Bytes) (isRead : fc ∈ [0x01, 0x02, 0x03, 0x04]) :
    spelled pdu fc = readOf (addressedRegion fc) (wordAt pdu 1) (wordAt pdu 3) := by
  rcases read_cases isRead with rfl | rfl | rfl | rfl <;> rfl

theorem readAs_eq {r : Region} {slot : Slot} (kind : SlotOf r slot) : readAs r slot = slot := by
  cases r with
  | coils | discreteInputs =>
    obtain ⟨b, rfl⟩ := kind
    rfl
  | holdingRegisters | inputRegisters =>
    obtain ⟨n, rfl, _⟩ := kind
    rfl

def ReturnsSlots (w : World) (unitId : Int) (pdu reply : Bytes) : Prop :=
  ∃ response, decodeResponsePdu reply (some (wordAt pdu 3)) = .ok response ∧
    (valuesOf response).length = wordAt pdu 3 ∧
    ∀ j < wordAt pdu 3, (valuesOf response)[j]? =
      slotOf w (unitId, addressedRegion (byteAt pdu 0), wordAt pdu 1 + j)

theorem World.Realizes.returnsSlots {config : Config} {w : World} (realizes : w.Realizes config)
    {unitId : Int} {device device' : Device} {pdu reply : Bytes}
    (found : w.store.get unitId = some device) (isRead : byteAt pdu 0 ∈ [0x01, 0x02, 0x03, 0x04])
    (answered : processPdu device pdu = (.ok reply, device'))
    (success : byteAt reply 0 = byteAt pdu 0) : ReturnsSlots w unitId pdu reply := by
  obtain ⟨spec, _, _, holds⟩ := realizes.spec found
  rcases processPdu_spelled holds.wellFormed pdu with ⟨first, code, refused⟩ |
    ⟨first, head, _, encodable, inRange, inside, executed⟩
  · cases answered.symm.trans refused
    have large := exception_large first code
    have small := read_cases isRead
    omega
  · cases answered.symm.trans executed
    rw [byteAt_zero head] at isRead
    have spelledRead := spelled_read pdu isRead
    rw [spelledRead] at encodable inRange inside ⊢
    obtain ⟨fits, _, _⟩ := answer_encodable holds.wellFormed encodable inRange inside
    obtain ⟨plain, requested⟩ := requested_answer holds.sized inside
    have values := valuesOf_answer device (addressedRegion first.toNat) (wordAt pdu 1) (wordAt pdu 3)
    have start : ((wordAt pdu 1 : Nat) : Int).toNat = wordAt pdu 1 := Int.toNat_natCast _
    have stop : ((wordAt pdu 1 : Int) + wordAt pdu 3).toNat = wordAt pdu 1 + wordAt pdu 3 := by omega
    rw [start, stop] at values
    refine ⟨_, decodeResponsePdu_wire fits plain requested, ?_, fun j before => ?_⟩
    · have room := inside.2.2
      have sized : (device.block (addressedRegion first.toNat)).values.length =
          (device.block (addressedRegion first.toNat)).size := holds.sized _
      rw [region_readOf, address_readOf, quantity_readOf] at room
      rw [values, List.length_map, length_slice (by omega)]
    · rw [values, List.getElem?_map, getElem?_slice, if_pos (by omega), byteAt_zero head,
        slotOf_of_get found rfl, slotAt]
      cases slot : (device.block (addressedRegion first.toNat)).values[wordAt pdu 1 + j]? with
      | none => rfl
      | some value =>
        rw [Option.map_some, readAs_eq (holds.slots _ value (List.mem_of_getElem? slot))]

/-! ### The last writer wins -/

theorem pduWrite_region {pdu reply : Bytes} {place : Region × Nat} {slot : Slot}
    (wrote : pduWrite pdu reply place = some slot) :
    place.1 = .coils ∨ place.1 = .holdingRegisters := by
  rw [pduWrite] at wrote
  split at wrote
  next covers =>
    obtain ⟨isWrite, _, here, _⟩ := covers
    rcases write_cases isWrite with fc | fc | fc | fc
    · exact .inl (here.trans (by rw [fc]; rfl))
    · exact .inr (here.trans (by rw [fc]; rfl))
    · exact .inl (here.trans (by rw [fc]; rfl))
    · exact .inr (here.trans (by rw [fc]; rfl))
  next => cases wrote

/-- A slot that an event of a history covers is a coil, a holding register or one with a
binding. -/
theorem covered_of_history {places : List Place} {events : List Event} {outcomes : List Outcome}
    {w : Write Place Slot} (member : w ∈ history (Event.write places) events outcomes)
    {place : Place} {slot : Slot} (wrote : w place = some slot) :
    place.2.1 = .coils ∨ place.2.1 = .holdingRegisters ∨ place ∈ places := by
  rw [history, List.mem_iff_getElem?] at member
  obtain ⟨i, here⟩ := member
  rw [List.getElem?_zipWith] at here
  cases event : events[i]? with
  | none => simp [event] at here
  | some event =>
    cases outcome : outcomes[i]? with
    | none => simp_all
    | some outcome =>
      simp_all only [Option.some.injEq]
      subst here
      unfold Event.write at wrote
      split at wrote
      · split at wrote
        · rcases pduWrite_region wrote with coil | register
          · exact .inl coil
          · exact .inr (.inl register)
        · cases wrote
      · split at wrote
        next listed => exact .inr (.inr (List.mem_of_getElem? listed))
        next => cases wrote
      · cases wrote

/-- What no event of a history covers: any other place holds what it held before. -/
theorem unwritten_of_history {places : List Place} {events : List Event} {outcomes : List Outcome}
    {place : Place} (coil : place.2.1 ≠ .coils) (register : place.2.1 ≠ .holdingRegisters)
    (unbound : place ∉ places) :
    latest (history (Event.write places) events outcomes) place = none := by
  apply latest_eq_none_iff.mpr
  intro w member
  cases wrote : w place with
  | none => rfl
  | some slot =>
    rcases covered_of_history member wrote with coils | registers | bound
    · exact absurd coils coil
    · exact absurd registers register
    · exact absurd bound unbound

/-- After any events on a store that was built, every slot holds what the latest event that covers
it put there, or what it was built with. Discrete inputs keep their values, input registers change
only where a generator is bound, and successful reads return the slots. -/
theorem last_writer_wins {lib : MathLib} {draws : Nat → Bool} {config : Config} {store : DataStore}
    {bindings : List GeneratorBinding} (valid : config.validate = .ok ())
    (built : buildDatastore lib draws config = .ok (store, bindings)) (events : List Event)
    {outcomes : List Outcome} {w : World}
    (ran : run (World.handle lib) ⟨store, bindings⟩ events = (outcomes, w)) :
    (∀ place, slotOf w place =
      (latest (history (Event.write (bindings.map placeOf)) events outcomes) place).or
        (slotOf ⟨store, bindings⟩ place)) ∧
      (∀ unitId address, slotOf w (unitId, .discreteInputs, address) =
        slotOf ⟨store, bindings⟩ (unitId, .discreteInputs, address)) ∧
      (∀ unitId address, slotOf w (unitId, .inputRegisters, address) ≠
          slotOf ⟨store, bindings⟩ (unitId, .inputRegisters, address) →
        ∃ b ∈ bindings, b.unitId = unitId ∧ b.region = .inputRegisters ∧ b.address = address) ∧
      ∀ unitId device pdu reply device', w.store.get unitId = some device →
        byteAt pdu 0 ∈ [0x01, 0x02, 0x03, 0x04] → processPdu device pdu = (.ok reply, device') →
        byteAt reply 0 = byteAt pdu 0 → ReturnsSlots w unitId pdu reply := by
  have start : World.Kept config (bindings.map placeOf) ⟨store, bindings⟩ :=
    ⟨buildDatastore_realizes valid built, rfl⟩
  have valid_events : ∀ event ∈ events, (fun _ : Event => True) event := fun _ _ => trivial
  obtain ⟨kept, slots⟩ :=
    view_run (records_handle lib config (bindings.map placeOf)) valid_events start
  rw [ran] at kept slots
  refine ⟨slots, fun unitId address => ?_, fun unitId address changed => ?_,
    fun unitId device pdu reply device' found isRead answered success =>
      kept.realizes.returnsSlots found isRead answered success⟩
  · rw [slots, unwritten_of_history Region.noConfusion Region.noConfusion, Option.none_or]
    intro bound
    obtain ⟨b, member, same⟩ := List.mem_map.mp bound
    obtain ⟨_, _, holds, _⟩ := start.realizes.bound member
    have register := holds.register
    have bits : b.region = .discreteInputs := congrArg (fun place => place.2.1) same
    rw [bits] at register
    exact absurd register (by decide)
  · by_contra unbound
    apply changed
    rw [slots, unwritten_of_history Region.noConfusion Region.noConfusion, Option.none_or]
    intro bound
    obtain ⟨b, member, same⟩ := List.mem_map.mp bound
    obtain ⟨_, _, holds, _⟩ := start.realizes.bound member
    have nonneg := holds.address.1
    simp only [placeOf, Prod.mk.injEq] at same
    obtain ⟨unit, region, slot⟩ := same
    exact unbound ⟨b, member, unit, region, by omega⟩

/-- The second register of the sample device is updated, then the first one is written. -/
theorem last_writer_wins_write :
    slotOf (sampleWorld 9) (1, .holdingRegisters, 0) = some (.int 9) := by
  have valid : sampleConfig.validate = .ok () := by decide +kernel
  have built : buildDatastore sampleLib (fun _ => true) sampleConfig =
      .ok ((sampleWorld 7).store, (sampleWorld 7).bindings) := by with_unfolding_all rfl
  have ran : run (World.handle sampleLib) ⟨(sampleWorld 7).store, (sampleWorld 7).bindings⟩
      [.update 0 1 true, .pdu 1 [0x06, 0, 0, 0, 9]] =
        ([.updated (.ok 300), .replied (.ok [0x06, 0, 0, 0, 9])], sampleWorld 9) := rfl
  rw [(last_writer_wins valid built _ ran).1]
  rfl

end ModbusSim.Setup
