import ModbusSim.Dispatch.Dispatcher

/-!
# The reference behaviour of a device

What a device answers to a byte string, and what becomes of it, read off the bytes alone: the
function code first, then length, byte count, coil value and quantity, then the address range.
`process_pdu` computes exactly this (`processPdu_reference`).
-/

namespace ModbusSim.Dispatch

open PyStruct PyList BitPacking ModbusSim.Frame Store

/-- Length, byte count and coil value are as the function code asks. -/
def wellStructured (pdu : Bytes) : Nat → Bool
  | 0x01 | 0x02 | 0x03 | 0x04 | 0x06 => pdu.length = 5
  | 0x05 => pdu.length = 5 ∧ (wordAt pdu 3 = 0xFF00 ∨ wordAt pdu 3 = 0x0000)
  | 0x0F => 6 ≤ pdu.length ∧ pdu.length - 6 = byteAt pdu 5 ∧ byteAt pdu 5 = (wordAt pdu 3 + 7) / 8
  | 0x10 => 6 ≤ pdu.length ∧ pdu.length - 6 = byteAt pdu 5 ∧ byteAt pdu 5 = 2 * wordAt pdu 3
  | _ => false

def quantityAllowed (pdu : Bytes) : Nat → Bool
  | 0x01 | 0x02 => 1 ≤ wordAt pdu 3 ∧ wordAt pdu 3 ≤ 2000
  | 0x03 | 0x04 => 1 ≤ wordAt pdu 3 ∧ wordAt pdu 3 ≤ 125
  | 0x0F => 1 ≤ wordAt pdu 3 ∧ wordAt pdu 3 ≤ 1968
  | 0x10 => 1 ≤ wordAt pdu 3 ∧ wordAt pdu 3 ≤ 123
  | _ => true

def slotCount (pdu : Bytes) : Nat → Nat
  | 0x05 | 0x06 => 1
  | _ => wordAt pdu 3

def addressedRegion : Nat → Region
  | 0x01 | 0x05 | 0x0F => .coils
  | 0x02 => .discreteInputs
  | 0x04 => .inputRegisters
  | _ => .holdingRegisters

def addressedSlots (device : Device) (pdu : Bytes) (fc : Nat) : List Slot :=
  slice (device.block (addressedRegion fc)).values (wordAt pdu 1) (wordAt pdu 1 + slotCount pdu fc)

def readReply (first : UInt8) (payload : Bytes) : Bytes :=
  first :: UInt8.ofNat payload.length :: payload

def bigEndian (word : Nat) : Bytes := [UInt8.ofNat (word / 256), UInt8.ofNat (word % 256)]

def successReply (device : Device) (pdu : Bytes) (first : UInt8) : Bytes :=
  let slots := addressedSlots device pdu first.toNat
  match first.toNat with
  | 0x01 | 0x02 => readReply first (packed (slots.map Slot.toBool))
  | 0x03 | 0x04 => readReply first (slots.flatMap fun slot => bigEndian slot.toInt.toNat)
  | _ => pdu.take 5

def transmittedSlots (pdu : Bytes) : Nat → List Slot
  | 0x05 => [.bool (wordAt pdu 3 = 0xFF00)]
  | 0x06 => [.int (wordAt pdu 3)]
  | 0x0F => (unpacked (pdu.drop 6) (wordAt pdu 3)).map .bool
  | _ => (List.range (wordAt pdu 3)).map fun i => .int (wordAt pdu (6 + 2 * i))

def successDevice (device : Device) (pdu : Bytes) (fc : Nat) : Device :=
  let written (b : MemoryBlock) : MemoryBlock :=
    { b with values := overwrite b.values (wordAt pdu 1) (transmittedSlots pdu fc) }
  match fc with
  | 0x05 | 0x0F => { device with coils := written device.coils }
  | 0x06 | 0x10 => { device with holdingRegisters := written device.holdingRegisters }
  | _ => device

def reference (device : Device) (pdu : Bytes) : Bytes × Device :=
  match pdu.head? with
  | none => ([0x80, 0x03], device)
  | some first =>
    let fc := first.toNat
    if fc ∉ [0x01, 0x02, 0x03, 0x04, 0x05, 0x06, 0x0F, 0x10] then ([first ||| 0x80, 0x01], device)
    else if ¬ (wellStructured pdu fc ∧ quantityAllowed pdu fc) then ([first ||| 0x80, 0x03], device)
    else if (device.block (addressedRegion fc)).size < wordAt pdu 1 + slotCount pdu fc then
      ([first ||| 0x80, 0x02], device)
    else (successReply device pdu first, successDevice device pdu fc)

/-! ### The request that the bytes spell -/

/-- The request that a well-structured PDU spells. -/
def spelled (pdu : Bytes) : Nat → Request
  | 0x01 => .readCoils (wordAt pdu 1) (wordAt pdu 3)
  | 0x02 => .readDiscreteInputs (wordAt pdu 1) (wordAt pdu 3)
  | 0x03 => .readHoldingRegisters (wordAt pdu 1) (wordAt pdu 3)
  | 0x04 => .readInputRegisters (wordAt pdu 1) (wordAt pdu 3)
  | 0x05 => .writeSingleCoil (wordAt pdu 1) (wordAt pdu 3 = 0xFF00)
  | 0x06 => .writeSingleRegister (wordAt pdu 1) (wordAt pdu 3)
  | 0x0F => .writeMultipleCoils (wordAt pdu 1) (unpacked (pdu.drop 6) (wordAt pdu 3))
  | _ => .writeMultipleRegisters (wordAt pdu 1)
      ((List.range (wordAt pdu 3)).map fun i => (wordAt pdu (6 + 2 * i) : Int))

theorem readRequest_words {pdu : Bytes} (size : pdu.length = 5) :
    readRequest pdu = .ok (byteAt pdu 0, wordAt pdu 1, wordAt pdu 3) := by
  match pdu, size with
  | [_, _, _, _, _], _ => rfl

theorem decodeMultiWrite_words {pdu : Bytes} (long : 6 ≤ pdu.length) (fc : Nat) :
    decodeMultiWrite pdu fc =
      if ((pdu.drop 6).length : Int) ≠ byteAt pdu 5 then
        .error (illegalDataValueError "byte count does not match payload length" (some fc))
      else if (byteAt pdu 5 : Int) ≠ expectedBytes fc (wordAt pdu 3) then
        .error (illegalDataValueError "byte count inconsistent with quantity" (some fc))
      else .ok (wordAt pdu 1, wordAt pdu 3, pdu.drop 6) := by
  match pdu, long with
  | a :: b :: c :: d :: e :: f :: payload, _ =>
    have fields : unpackBHHB [a, b, c, d, e, f] =
      .ok (a.toNat, (256 * b.toNat + c.toNat : Nat), (256 * d.toNat + e.toNat : Nat), f.toNat) := rfl
    have short : ¬ (a :: b :: c :: d :: e :: f :: payload).length < 6 := by simp
    rw [decodeMultiWrite, if_neg short]
    simp only [List.take_succ_cons, List.take_zero, List.drop_succ_cons, List.drop_zero, fields]
    by_cases counted : (payload.length : Int) = f.toNat <;>
      simp [counted, byteAt, wordAt]

/-- The bytes that a multiple write must have, if its quantity asks for `n` of them. -/
def Counts (pdu : Bytes) (n : Nat) : Prop :=
  6 ≤ pdu.length ∧ pdu.length - 6 = byteAt pdu 5 ∧ byteAt pdu 5 = n

theorem decodeMultiWrite_accepted {pdu : Bytes} {fc n : Nat}
    (expected : expectedBytes fc (wordAt pdu 3) = n) (counts : Counts pdu n) :
    decodeMultiWrite pdu fc = .ok (wordAt pdu 1, wordAt pdu 3, pdu.drop 6) := by
  obtain ⟨long, counted, consistent⟩ := counts
  rw [decodeMultiWrite_words long, expected, List.length_drop, if_neg (by omega), if_neg (by omega)]

theorem decodeMultiWrite_refused {pdu : Bytes} {fc n : Nat}
    (expected : expectedBytes fc (wordAt pdu 3) = n) (broken : ¬ Counts pdu n) :
    ∃ message, decodeMultiWrite pdu fc = .error (illegalDataValueError message (some fc)) := by
  by_cases long : 6 ≤ pdu.length
  · rw [decodeMultiWrite_words long, expected, List.length_drop]
    split
    · exact ⟨_, rfl⟩
    · split
      · exact ⟨_, rfl⟩
      · exact absurd ⟨long, by omega, by omega⟩ broken
  · exact ⟨_, decodeMultiWrite_short fc (by omega)⟩

theorem unpackRegisters_words {data : Bytes} {n : Nat} (size : data.length = 2 * n) :
    unpackRegisters data = .ok ((List.range n).map fun i => (wordAt data (2 * i) : Int)) := by
  have half : data.length / 2 = n := by omega
  rw [unpackRegisters, if_neg (by omega), half]
  have fields : ∀ (n : Nat) (data : Bytes), data.length = 2 * n →
      unpack (List.replicate n .H) data =
        .ok ((List.range n).map fun i => (wordAt data (2 * i) : Int)) := by
    intro n
    induction n with
    | zero =>
      intro data size
      rw [List.length_eq_zero_iff.mp size]
      rfl
    | succ n ih =>
      intro data size
      rcases data with _ | ⟨a, _ | ⟨b, rest⟩⟩
      case nil => simp at size
      case cons.nil => simp at size; omega
      have later := ih rest (by simp at size; omega)
      simp only [List.replicate_succ, unpack, later, Except.map, List.range_succ_eq_map,
        List.map_cons, List.map_map, Except.ok.injEq, List.cons.injEq]
      refine ⟨by simp [wordAt], ?_⟩
      apply List.map_congr_left
      intro i _
      simp [wordAt, Nat.mul_add]
  rw [fields n data size, liftPy_ok]

/-- What decoding gives: the request that the bytes spell, or an illegal value under their own
function code. -/
structure Decodes (pdu : Bytes) (fc : Nat) : Prop where
  accepted : wellStructured pdu fc → decodeRequestPdu pdu = .ok (spelled pdu fc)
  refused : ¬ wellStructured pdu fc →
    ∃ message, decodeRequestPdu pdu = .error (illegalDataValueError message (some fc))

section Decoding

variable {pdu : Bytes} {first : UInt8}

theorem decodes_read (head : pdu.head? = some first)
    (isRead : first.toNat ∈
      [readCoils, readDiscreteInputs, readHoldingRegisters, readInputRegisters]) :
    Decodes pdu first.toNat := by
  have branch := decodeRequestPdu_read head isRead
  have shape : wellStructured pdu first.toNat ↔ pdu.length = 5 := by
    simp only [List.mem_cons, List.not_mem_nil, or_false] at isRead
    rcases isRead with fc | fc | fc | fc <;> simp [fc, wellStructured, readCoils,
      readDiscreteInputs, readHoldingRegisters, readInputRegisters]
  have request : readRequestClass first.toNat (wordAt pdu 1) (wordAt pdu 3) =
      spelled pdu first.toNat := by
    simp only [List.mem_cons, List.not_mem_nil, or_false] at isRead
    rcases isRead with fc | fc | fc | fc <;> rw [fc] <;> rfl
  constructor
  · intro structured
    rw [branch, readRequest_words (shape.mp structured), ← request]
    rfl
  · intro broken
    rw [branch, readRequest_of_length_ne head (mt shape.mpr broken)]
    exact ⟨_, rfl⟩

theorem decodes_coil (head : pdu.head? = some first) (fc : first.toNat = writeSingleCoil) :
    Decodes pdu writeSingleCoil := by
  have branch := decodeRequestPdu_coil head fc
  have shape : wellStructured pdu writeSingleCoil ↔
      pdu.length = 5 ∧ (wordAt pdu 3 = 0xFF00 ∨ wordAt pdu 3 = 0) := by
    simp [wellStructured, writeSingleCoil]
  by_cases size : pdu.length = 5
  · rw [readRequest_words size, Raise.ok_bind] at branch
    constructor
    · intro structured
      rcases (shape.mp structured).2 with on | off
      · simp [branch, spelled, writeSingleCoil, on, coilOn]
      · simp [branch, spelled, writeSingleCoil, off, coilOn, coilOff]
    · intro broken
      have notOn : ¬ wordAt pdu 3 = 0xFF00 := fun on => broken (shape.mpr ⟨size, .inl on⟩)
      have notOff : ¬ wordAt pdu 3 = 0 := fun off => broken (shape.mpr ⟨size, .inr off⟩)
      have notCoilOn : ¬ (wordAt pdu 3 : Int) = coilOn := by simp only [coilOn]; omega
      have notCoilOff : ¬ (wordAt pdu 3 : Int) = coilOff := by simp only [coilOff]; omega
      exact ⟨_, by simp only [branch, notCoilOn, notCoilOff, if_false]; rfl⟩
  · rw [readRequest_of_length_ne head size, fc] at branch
    exact ⟨fun structured => absurd (shape.mp structured).1 size, fun _ => ⟨_, branch⟩⟩

theorem decodes_register (head : pdu.head? = some first) (fc : first.toNat = writeSingleRegister) :
    Decodes pdu writeSingleRegister := by
  have branch := decodeRequestPdu_register head fc
  have shape : wellStructured pdu writeSingleRegister ↔ pdu.length = 5 := by
    simp [wellStructured, writeSingleRegister]
  constructor
  · intro structured
    rw [branch, readRequest_words (shape.mp structured)]
    rfl
  · intro broken
    rw [branch, readRequest_of_length_ne head (mt shape.mpr broken), fc]
    exact ⟨_, rfl⟩

theorem decodes_coils (head : pdu.head? = some first) (fc : first.toNat = writeMultipleCoils) :
    Decodes pdu writeMultipleCoils := by
  have branch := decodeRequestPdu_coils head fc
  have shape : wellStructured pdu writeMultipleCoils ↔ Counts pdu ((wordAt pdu 3 + 7) / 8) := by
    simp [wellStructured, writeMultipleCoils, Counts]
  have expected : expectedBytes writeMultipleCoils (wordAt pdu 3) =
      (((wordAt pdu 3 + 7) / 8 : Nat) : Int) := by
    rw [expectedBytes, if_neg (by decide)]
    omega
  constructor
  · intro structured
    have counts := shape.mp structured
    rw [branch, decodeMultiWrite_accepted expected counts, Raise.ok_bind]
    obtain ⟨long, counted, consistent⟩ := counts
    have size := List.length_drop (i := 6) (l := pdu)
    simp only
    rw [unpackBits_of_le (by omega)]
    rfl
  · intro broken
    obtain ⟨message, raised⟩ := decodeMultiWrite_refused expected (mt shape.mpr broken)
    exact ⟨message, by rw [branch, raised]; rfl⟩

theorem decodes_registers (head : pdu.head? = some first)
    (fc : first.toNat = writeMultipleRegisters) : Decodes pdu writeMultipleRegisters := by
  have branch := decodeRequestPdu_registers head fc
  have shape : wellStructured pdu writeMultipleRegisters ↔ Counts pdu (2 * wordAt pdu 3) := by
    simp [wellStructured, writeMultipleRegisters, Counts]
  have expected : expectedBytes writeMultipleRegisters (wordAt pdu 3) =
      ((2 * wordAt pdu 3 : Nat) : Int) := by
    rw [expectedBytes, if_pos rfl]
    omega
  constructor
  · intro structured
    have counts := shape.mp structured
    rw [branch, decodeMultiWrite_accepted expected counts, Raise.ok_bind]
    obtain ⟨long, counted, consistent⟩ := counts
    have size := List.length_drop (i := 6) (l := pdu)
    have words : ∀ i, wordAt (pdu.drop 6) i = wordAt pdu (6 + i) := by
      intro i
      simp [wordAt, Nat.add_assoc]
    simp only
    rw [unpackRegisters_words (n := wordAt pdu 3) (by omega)]
    simp [spelled, writeMultipleRegisters, words]
  · intro broken
    obtain ⟨message, raised⟩ := decodeMultiWrite_refused expected (mt shape.mpr broken)
    exact ⟨message, by rw [branch, raised]; rfl⟩

theorem decodes_supported (head : pdu.head? = some first)
    (supported : first.toNat ∈ supportedFunctionCodes) : Decodes pdu first.toNat := by
  rcases supported_cases supported with isRead | fc | fc | fc | fc
  · exact decodes_read head isRead
  · exact fc ▸ decodes_coil head fc
  · exact fc ▸ decodes_register head fc
  · exact fc ▸ decodes_coils head fc
  · exact fc ▸ decodes_registers head fc

end Decoding

/-! ### The request and the reference agree -/

theorem mem_supported {fc : Nat} : fc ∈ supportedFunctionCodes ↔
    fc = 1 ∨ fc = 2 ∨ fc = 3 ∨ fc = 4 ∨ fc = 5 ∨ fc = 6 ∨ fc = 15 ∨ fc = 16 := by
  simp [supportedFunctionCodes, readCoils, readDiscreteInputs, readHoldingRegisters,
    readInputRegisters, writeSingleCoil, writeSingleRegister, writeMultipleCoils,
    writeMultipleRegisters]

section Agreement

variable {fc : Nat} (supported : fc ∈ supportedFunctionCodes) (pdu : Bytes)

include supported

theorem region_spelled : region (spelled pdu fc) = addressedRegion fc := by
  rcases mem_supported.mp supported with rfl | rfl | rfl | rfl | rfl | rfl | rfl | rfl <;> rfl

theorem address_spelled : address (spelled pdu fc) = wordAt pdu 1 := by
  rcases mem_supported.mp supported with rfl | rfl | rfl | rfl | rfl | rfl | rfl | rfl <;> rfl

theorem quantity_spelled : quantity (spelled pdu fc) = slotCount pdu fc := by
  rcases mem_supported.mp supported with rfl | rfl | rfl | rfl | rfl | rfl | rfl | rfl <;>
    simp [spelled, quantity, slotCount]

theorem quantityInRange_spelled :
    QuantityInRange (spelled pdu fc) ↔ quantityAllowed pdu fc := by
  rw [QuantityInRange, quantity_spelled supported]
  rcases mem_supported.mp supported with rfl | rfl | rfl | rfl | rfl | rfl | rfl | rfl <;>
    simp only [spelled, limit, slotCount, quantityAllowed, maxReadBits, maxReadRegisters,
      maxWriteCoils, maxWriteRegisters, decide_eq_true_eq, iff_true] <;>
    omega

theorem inRegion_spelled (device : Device) :
    InRegion device (spelled pdu fc) ↔
      ¬ (device.block (addressedRegion fc)).size < wordAt pdu 1 + slotCount pdu fc := by
  rw [InRegion, region_spelled supported, address_spelled supported, quantity_spelled supported,
    MemoryBlock.Inside]
  omega

theorem addressed_spelled (device : Device) :
    addressed device (spelled pdu fc) = addressedSlots device pdu fc := by
  rw [addressed, region_spelled supported, address_spelled supported, quantity_spelled supported,
    addressedSlots]
  congr 1

theorem execute_spelled (device : Device) :
    execute device (spelled pdu fc) = successDevice device pdu fc := by
  rcases mem_supported.mp supported with rfl | rfl | rfl | rfl | rfl | rfl | rfl | rfl <;>
    simp [spelled, execute, transmitted, successDevice, transmittedSlots, region, address,
      Device.setBlock, Device.block, Function.comp_def]

end Agreement

theorem registerBytes_eq (registers : List Int) :
    registerBytes registers = registers.flatMap fun v => bigEndian v.toNat := by
  induction registers with
  | nil => rfl
  | cons v vs ih =>
    rw [List.flatMap_cons, ← ih]
    rfl

theorem take_clearUnusedBits (pdu : Bytes) : (clearUnusedBits pdu).take 5 = pdu.take 5 := by
  rw [clearUnusedBits]
  split
  next coils =>
    have front : (pdu.take 6).length = 6 := by rw [List.length_take]; omega
    rw [List.take_append_of_le_length (by omega), List.take_take]
    rfl
  next => rfl

theorem wire_answer {device : Device} {r : Request} {slots : List Slot}
    (written : transmitted r = some slots) : (answer device r).wire = r.wire.take 5 := by
  cases r with
  | readCoils | readDiscreteInputs | readHoldingRegisters | readInputRegisters => cases written
  | writeSingleCoil | writeSingleRegister | writeMultipleCoils | writeMultipleRegisters => rfl

theorem counted_eq (first : UInt8) (payload : Bytes) :
    counted first.toNat payload = readReply first payload := by
  simp [counted, readReply, layout_cons, layout_nil, Field.bytes]

theorem wire_spelled {pdu : Bytes} {first : UInt8} (supported : first.toNat ∈ supportedFunctionCodes)
    (decoded : decodeRequestPdu pdu = .ok (spelled pdu first.toNat)) (device : Device) :
    (answer device (spelled pdu first.toNat)).wire = successReply device pdu first := by
  have slots := addressed_spelled supported pdu device
  have lead := counted_eq first
  have echo : ∀ sent, transmitted (spelled pdu first.toNat) = some sent →
      (answer device (spelled pdu first.toNat)).wire = pdu.take 5 := by
    intro sent written
    rw [wire_answer written, ← (decodeRequestPdu_sound decoded).2, take_clearUnusedBits]
  have registers : ∀ slots : List Slot, registerBytes (slots.map Slot.toInt) =
      slots.flatMap fun slot => bigEndian slot.toInt.toNat := by
    intro slots
    rw [registerBytes_eq, List.flatMap_map]
  rw [successReply]
  rcases mem_supported.mp supported with fc | fc | fc | fc | fc | fc | fc | fc <;>
    simp only [fc] at slots lead echo ⊢
  · rw [← slots, ← lead]
    rfl
  · rw [← slots, ← lead]
    rfl
  · rw [← slots, ← registers, ← lead]
    rfl
  · rw [← slots, ← registers, ← lead]
    rfl
  · exact echo _ rfl
  · exact echo _ rfl
  · exact echo _ rfl
  · exact echo _ rfl

theorem processPdu_reference {device : Device} (wellFormed : device.WellFormed) (pdu : Bytes) :
    processPdu device pdu = (.ok (reference device pdu).1, (reference device pdu).2) := by
  rw [reference]
  cases head : pdu.head? with
  | none =>
    rw [List.head?_eq_none_iff.mp head]
    rfl
  | some first =>
    simp only
    by_cases supported : first.toNat ∈ supportedFunctionCodes
    · have listed : first.toNat ∈ [0x01, 0x02, 0x03, 0x04, 0x05, 0x06, 0x0F, 0x10] := supported
      rw [if_neg (not_not.mpr listed)]
      have decodes := decodes_supported head supported
      by_cases structured : wellStructured pdu first.toNat
      · have decoded := decodes.accepted structured
        rw [processPdu_decoded wellFormed.sized head decoded]
        by_cases allowed : QuantityInRange (spelled pdu first.toNat)
        · have value : wellStructured pdu first.toNat ∧ quantityAllowed pdu first.toNat :=
            ⟨structured, (quantityInRange_spelled supported pdu).mp allowed⟩
          rw [if_neg (not_not.mpr allowed), if_neg (not_not.mpr value)]
          by_cases inside : InRegion device (spelled pdu first.toNat)
          · have encodable := (decodeRequestPdu_sound decoded).1
            have wire := (answer_encodable wellFormed encodable allowed inside).1
            rw [if_neg (not_not.mpr inside), if_neg ((inRegion_spelled supported pdu device).mp inside),
              (encodeResponsePdu_eq _).1 wire, wire_spelled supported decoded,
              execute_spelled supported]
          · rw [if_pos inside, if_pos (not_not.mp (mt (inRegion_spelled supported pdu device).mpr inside))]
            rfl
        · rw [if_pos allowed, if_pos fun both =>
            allowed ((quantityInRange_spelled supported pdu).mpr both.2)]
          rfl
      · obtain ⟨message, refused⟩ := decodes.refused structured
        rw [if_pos fun both => structured both.1, processPdu_rejected refused rfl]
        rfl
    · have unlisted : first.toNat ∉ [0x01, 0x02, 0x03, 0x04, 0x05, 0x06, 0x0F, 0x10] := supported
      rw [if_pos unlisted, processPdu_rejected (decodeRequestPdu_unsupported head supported) rfl]
      rfl

theorem processPdu_reference_read :
    processPdu sampleDevice [0x03, 0, 0, 0, 2] = (.ok [0x03, 4, 0, 7, 1, 44], sampleDevice) :=
  (processPdu_reference sampleDevice_wellFormed _).trans rfl

end ModbusSim.Dispatch
