import ModbusSim.Frame.Response
import ModbusSim.Store.Device

/-!
# The dispatcher

`handle_request` and `process_pdu`. Both return the device afterwards beside the result, so an
exception on the way leaves whatever was done before it.

Over a sized device `handle_request` is one rule for all eight requests (`handleRequest_eq`): the
quantity is checked first, then the address range, and only then is anything read or written.
-/

namespace ModbusSim.Dispatch

open PyStruct PyList BitPacking ModbusSim.Frame Store

def quantityError (count limit : Int) : Exn :=
  illegalDataValueError
    ("quantity " ++ toString count ++ " outside [1, " ++ toString limit ++ "]") none

/-- `_require_quantity` -/
def requireQuantity (count limit : Int) : Except Exn Unit :=
  if count < 1 ∨ count > limit then .error (quantityError count limit) else .ok ()

def handleRequest (device : Device) : Request → Except Exn Response × Device
  | .readCoils addr count => (do
      requireQuantity count maxReadBits
      let bits ← device.coils.read addr count
      return .readCoils (bits.map Slot.toBool), device)
  | .readDiscreteInputs addr count => (do
      requireQuantity count maxReadBits
      let bits ← device.discreteInputs.read addr count
      return .readDiscreteInputs (bits.map Slot.toBool), device)
  | .readHoldingRegisters addr count => (do
      requireQuantity count maxReadRegisters
      let regs ← device.holdingRegisters.read addr count
      return .readHoldingRegisters (regs.map Slot.toInt), device)
  | .readInputRegisters addr count => (do
      requireQuantity count maxReadRegisters
      let regs ← device.inputRegisters.read addr count
      return .readInputRegisters (regs.map Slot.toInt), device)
  | .writeSingleCoil addr value =>
    let (result, coils) := device.coils.write addr [.bool value]
    (result.map fun _ => .writeSingleCoil addr value, { device with coils })
  | .writeSingleRegister addr value =>
    let (result, holdingRegisters) := device.holdingRegisters.write addr [.int value]
    (result.map fun _ => .writeSingleRegister addr value, { device with holdingRegisters })
  | .writeMultipleCoils addr values =>
    match requireQuantity values.length maxWriteCoils with
    | .error e => (.error e, device)
    | .ok () =>
      let (result, coils) := device.coils.write addr (values.map .bool)
      (result.map fun _ => .writeMultipleCoils addr values.length, { device with coils })
  | .writeMultipleRegisters addr values =>
    match requireQuantity values.length maxWriteRegisters with
    | .error e => (.error e, device)
    | .ok () =>
      let (result, holdingRegisters) := device.holdingRegisters.write addr (values.map .int)
      (result.map fun _ => .writeMultipleRegisters addr values.length,
        { device with holdingRegisters })

/-- The response to an exception: its own function code if it has one, else that of the PDU. -/
def exceptionResponse (fallbackFc : Nat) : Exn → Response
  | .modbus exc => .exception (exc.functionCode.getD fallbackFc) exc.exceptionCode
  | .py _ => .exception fallbackFc serverDeviceFailure

def fallbackFc (pdu : Bytes) : Nat :=
  match pdu.head? with
  | some first => withoutMask first.toNat
  | none => 0

def processPdu (device : Device) (pdu : Bytes) : Except Exn Bytes × Device :=
  let (result, device') := match decodeRequestPdu pdu with
    | .ok request => handleRequest device request
    | .error e => (.error e, device)
  let response := match result with
    | .ok response => response
    | .error e => exceptionResponse (fallbackFc pdu) e
  (encodeResponsePdu response, device')

/-! ### One rule for all requests -/

def region : Request → Region
  | .readCoils .. | .writeSingleCoil .. | .writeMultipleCoils .. => .coils
  | .readDiscreteInputs .. => .discreteInputs
  | .readHoldingRegisters .. | .writeSingleRegister .. | .writeMultipleRegisters .. =>
    .holdingRegisters
  | .readInputRegisters .. => .inputRegisters

def address : Request → Int
  | .readCoils a _ | .readDiscreteInputs a _ | .readHoldingRegisters a _ | .readInputRegisters a _
  | .writeSingleCoil a _ | .writeSingleRegister a _ | .writeMultipleCoils a _
  | .writeMultipleRegisters a _ => a

def quantity : Request → Int
  | .readCoils _ n | .readDiscreteInputs _ n | .readHoldingRegisters _ n
  | .readInputRegisters _ n => n
  | .writeSingleCoil .. | .writeSingleRegister .. => 1
  | .writeMultipleCoils _ values => values.length
  | .writeMultipleRegisters _ values => values.length

def limit : Request → Int
  | .readCoils .. | .readDiscreteInputs .. => maxReadBits
  | .readHoldingRegisters .. | .readInputRegisters .. => maxReadRegisters
  | .writeSingleCoil .. | .writeSingleRegister .. => 1
  | .writeMultipleCoils .. => maxWriteCoils
  | .writeMultipleRegisters .. => maxWriteRegisters

def transmitted : Request → Option (List Slot)
  | .writeSingleCoil _ value => some [.bool value]
  | .writeSingleRegister _ value => some [.int value]
  | .writeMultipleCoils _ values => some (values.map .bool)
  | .writeMultipleRegisters _ values => some (values.map .int)
  | _ => none

def addressed (device : Device) (r : Request) : List Slot :=
  slice (device.block (region r)).values (address r).toNat (address r + quantity r).toNat

/-- The device after a request in range: a write has set exactly the addressed slots. -/
def execute (device : Device) (r : Request) : Device :=
  match transmitted r with
  | none => device
  | some slots =>
    let b := device.block (region r)
    device.setBlock { b with values := overwrite b.values (address r).toNat slots } (region r)

def answer (device : Device) (r : Request) : Response :=
  match r with
  | .readCoils .. => .readCoils ((addressed device r).map Slot.toBool)
  | .readDiscreteInputs .. => .readDiscreteInputs ((addressed device r).map Slot.toBool)
  | .readHoldingRegisters .. => .readHoldingRegisters ((addressed device r).map Slot.toInt)
  | .readInputRegisters .. => .readInputRegisters ((addressed device r).map Slot.toInt)
  | .writeSingleCoil a value => .writeSingleCoil a value
  | .writeSingleRegister a value => .writeSingleRegister a value
  | .writeMultipleCoils a values => .writeMultipleCoils a values.length
  | .writeMultipleRegisters a values => .writeMultipleRegisters a values.length

def QuantityInRange (r : Request) : Prop := 1 ≤ quantity r ∧ quantity r ≤ limit r

instance (r : Request) : Decidable (QuantityInRange r) :=
  inferInstanceAs (Decidable (1 ≤ quantity r ∧ quantity r ≤ limit r))

def InRegion (device : Device) (r : Request) : Prop :=
  (device.block (region r)).Inside (address r) (quantity r)

instance (device : Device) (r : Request) : Decidable (InRegion device r) :=
  inferInstanceAs (Decidable ((device.block (region r)).Inside (address r) (quantity r)))

theorem requireQuantity_eq (count limit : Int) :
    requireQuantity count limit =
      if 1 ≤ count ∧ count ≤ limit then .ok () else .error (quantityError count limit) := by
  by_cases inRange : 1 ≤ count ∧ count ≤ limit
  · rw [requireQuantity, if_neg (by omega), if_pos inRange]
  · rw [requireQuantity, if_pos (by omega), if_neg inRange]

theorem read_rule (device : Device) (b : MemoryBlock) (addr count lim : Int)
    (cls : List Slot → Response) :
    ((do
        requireQuantity count lim
        let slots ← b.read addr count
        return cls slots : Except Exn Response), device) =
      if ¬ (1 ≤ count ∧ count ≤ lim) then (.error (quantityError count lim), device)
      else if ¬ b.Inside addr count then (.error (b.addressError addr count), device)
      else (.ok (cls (slice b.values addr.toNat (addr + count).toNat)), device) := by
  rw [requireQuantity_eq, MemoryBlock.read_eq]
  by_cases inRange : 1 ≤ count ∧ count ≤ lim
  · by_cases inside : b.Inside addr count <;> simp [inRange, inside]
  · simp [inRange]

theorem write_rule {device : Device} (sized : device.Sized) (r : Region) (addr : Int)
    {slots : List Slot} {n : Int} (count : slots.length = n) (response : Response) :
    (((device.block r).write addr slots).1.map fun _ => response,
        device.setBlock ((device.block r).write addr slots).2 r) =
      if ¬ (device.block r).Inside addr n then
        (.error ((device.block r).addressError addr n), device)
      else
        (.ok response, device.setBlock
          { device.block r with values := overwrite (device.block r).values addr.toNat slots } r) := by
  subst count
  rw [MemoryBlock.write_eq (sized r)]
  by_cases inside : (device.block r).Inside addr slots.length
  · simp [inside, Except.map]
  · simp [inside, Except.map]

theorem require_rule (device : Device) (count lim : Int) (next : Except Exn Response × Device) :
    (match requireQuantity count lim with
      | .error e => (.error e, device)
      | .ok () => next) =
      if ¬ (1 ≤ count ∧ count ≤ lim) then (.error (quantityError count lim), device) else next := by
  rw [requireQuantity_eq]
  by_cases inRange : 1 ≤ count ∧ count ≤ lim <;> simp [inRange]

/-- The quantity is checked before the address, and both before any effect. -/
theorem handleRequest_eq {device : Device} (sized : device.Sized) (r : Request) :
    handleRequest device r =
      if ¬ QuantityInRange r then (.error (quantityError (quantity r) (limit r)), device)
      else if ¬ InRegion device r then
        (.error ((device.block (region r)).addressError (address r) (quantity r)), device)
      else (.ok (answer device r), execute device r) := by
  cases r with
  | readCoils a n | readDiscreteInputs a n | readHoldingRegisters a n | readInputRegisters a n =>
    exact read_rule device _ a n _ _
  | writeSingleCoil a value =>
    have one : QuantityInRange (.writeSingleCoil a value) := by simp [QuantityInRange, quantity, limit]
    rw [if_neg (not_not.mpr one)]
    exact write_rule sized .coils a rfl _
  | writeSingleRegister a value =>
    have one : QuantityInRange (.writeSingleRegister a value) := by simp [QuantityInRange, quantity, limit]
    rw [if_neg (not_not.mpr one)]
    exact write_rule sized .holdingRegisters a rfl _
  | writeMultipleCoils a values =>
    exact (require_rule device _ _ _).trans
      (congrArg _ (write_rule sized .coils a (by simp [quantity]) _))
  | writeMultipleRegisters a values =>
    exact (require_rule device _ _ _).trans
      (congrArg _ (write_rule sized .holdingRegisters a (by simp [quantity]) _))

theorem handleRequest_inRange {device : Device} (sized : device.Sized) {r : Request}
    (inRange : QuantityInRange r) (inside : InRegion device r) :
    handleRequest device r = (.ok (answer device r), execute device r) := by
  rw [handleRequest_eq sized, if_neg (not_not.mpr inRange), if_neg (not_not.mpr inside)]

/-! ### What a request leaves behind -/

/-- The registers that an encodable request transmits are 16-bit values. -/
theorem transmitted_words {r : Request} (encodable : r.Encodable) {slots : List Slot}
    (some : transmitted r = some slots) {slot : Slot} (member : slot ∈ slots)
    (register : region r ∈ Device.registerRegions) : IsWord slot.toInt := by
  cases r with
  | readCoils | readDiscreteInputs | readHoldingRegisters | readInputRegisters => cases some
  | writeSingleCoil | writeMultipleCoils => exact absurd register (by simp [region, Device.registerRegions])
  | writeSingleRegister a v =>
    cases some
    cases List.mem_singleton.mp member
    exact encodable.2
  | writeMultipleRegisters a values =>
    cases some
    obtain ⟨v, listed, rfl⟩ := List.mem_map.mp member
    exact encodable.2.2 v listed

theorem block_execute {device : Device} {r : Request} (s : Region) :
    (execute device r).block s =
      match transmitted r with
      | some slots =>
        if s = region r then
          { device.block s with values := overwrite (device.block s).values (address r).toNat slots }
        else device.block s
      | none => device.block s := by
  cases written : transmitted r with
  | none => simp [execute, written]
  | some slots =>
    simp only [execute, written, Device.block_setBlock]
    split
    next same => rw [same]
    next => rfl

theorem execute_unitId (device : Device) (r : Request) :
    (execute device r).unitId = device.unitId := by
  cases written : transmitted r <;> simp [execute, written]

theorem execute_sized {device : Device} (sized : device.Sized) (r : Request) :
    (execute device r).Sized := by
  intro s
  rw [block_execute]
  split
  · split
    · exact (length_overwrite ..).trans (sized s)
    · exact sized s
  · exact sized s

theorem mem_block_execute {device : Device} {r : Request} {s : Region} {slot : Slot}
    (member : slot ∈ ((execute device r).block s).values) :
    slot ∈ (device.block s).values ∨
      ∃ slots, transmitted r = some slots ∧ slot ∈ slots ∧ region r = s := by
  rw [block_execute] at member
  split at member
  next slots written =>
    split at member
    next same =>
      rcases mem_of_mem_overwrite member with before | now
      · exact .inl before
      · exact .inr ⟨slots, written, now, same.symm⟩
    next => exact .inl member
  next => exact .inl member

theorem execute_wellFormed {device : Device} (wellFormed : device.WellFormed) {r : Request}
    (encodable : r.Encodable) : (execute device r).WellFormed := by
  refine ⟨execute_sized wellFormed.sized r, fun s register slot member => ?_⟩
  rcases mem_block_execute member with before | ⟨slots, written, now, rfl⟩
  · exact wellFormed.words s register slot before
  · exact transmitted_words encodable written now register

theorem handleRequest_wellFormed {device : Device} (wellFormed : device.WellFormed) {r : Request}
    (encodable : r.Encodable) : (handleRequest device r).2.WellFormed := by
  rw [handleRequest_eq wellFormed.sized]
  split
  · exact wellFormed
  · split
    · exact wellFormed
    · exact execute_wellFormed wellFormed encodable

theorem length_addressed {device : Device} (sized : device.Sized) {r : Request}
    (inside : InRegion device r) : ((addressed device r).length : Int) = quantity r := by
  obtain ⟨start, nonneg, stop⟩ := inside
  have bound : (address r + quantity r).toNat = (address r).toNat + (quantity r).toNat := by omega
  have slots := sized (region r)
  rw [MemoryBlock.Sized] at slots
  rw [addressed, bound, length_slice (by omega), Int.toNat_of_nonneg nonneg]

theorem addressed_words {device : Device} (wellFormed : device.WellFormed) (r : Request)
    (register : region r ∈ Device.registerRegions) :
    ∀ v ∈ (addressed device r).map Slot.toInt, IsWord v := by
  intro v member
  obtain ⟨slot, listed, rfl⟩ := List.mem_map.mp member
  exact wellFormed.words (region r) register slot (mem_of_mem_slice listed)

theorem answer_encodable {device : Device} (wellFormed : device.WellFormed) {r : Request}
    (encodable : r.Encodable) (inRange : QuantityInRange r) (inside : InRegion device r) :
    (answer device r).Encodable ∧ 2 ≤ (answer device r).wire.length ∧
      (answer device r).wire.length ≤ 252 := by
  have most := inRange.2
  have few := (length_addressed wellFormed.sized inside).trans_le most
  have words := addressed_words wellFormed r
  cases r with
  | readCoils a n | readDiscreteInputs a n =>
    simp only [limit, maxReadBits] at few
    simp only [answer, Response.Encodable, Response.wire, List.length_map, length_counted,
      length_packed, octets]
    omega
  | readHoldingRegisters a n | readInputRegisters a n =>
    simp only [limit, maxReadRegisters] at few
    have words := words (by simp [region, Device.registerRegions])
    have size := length_registerBytes words
    simp only [answer, Response.Encodable, Response.wire, List.length_map, length_counted] at size ⊢
    exact ⟨⟨by omega, words⟩, by omega, by omega⟩
  | writeSingleCoil a v | writeSingleRegister a v => exact ⟨encodable, by simp [answer, Response.wire]⟩
  | writeMultipleCoils a values =>
    refine ⟨⟨encodable.1, ?_⟩, by simp [answer, Response.wire]⟩
    simp only [quantity, limit, maxWriteCoils] at most
    simp only [IsWord, registerMax]
    omega
  | writeMultipleRegisters a values =>
    refine ⟨⟨encodable.1, ?_⟩, by simp [answer, Response.wire]⟩
    simp only [quantity, limit, maxWriteRegisters] at most
    simp only [IsWord, registerMax]
    omega

/-! ### The byte level -/

def exceptionPdu (first : UInt8) (code : Nat) : Bytes := [first ||| 0x80, UInt8.ofNat code]

theorem exception_bit (first : UInt8) : 128 ≤ (first ||| 0x80).toNat := by
  rw [UInt8.toNat_or]
  exact Nat.right_le_or

theorem encode_exception {first : UInt8} {fc code : Nat} (same : fc % 128 = first.toNat % 128)
    (byte : fc < 256) (small : code < 256) :
    encodeResponsePdu (.exception fc code) = .ok (exceptionPdu first code) := by
  have lead : UInt8.ofNat (fc % 128 + 128) = first ||| 0x80 := by
    apply UInt8.toNat_inj.mp
    have masked := withMask_eq first.toNat_lt
    rw [same, UInt8.toNat_or, UInt8.toNat_ofNat_of_lt' (show _ < 256 by omega)]
    exact masked.symm
  have encodable : (Response.exception fc code).Encodable := ⟨byte, small⟩
  rw [(encodeResponsePdu_eq _).1 encodable, Response.wire, withMask_eq byte, exceptionPdu, ← lead]
  rfl

theorem exceptionCode_lt (e : ModbusError) : e.exceptionCode < 256 := by
  cases kind : e.kind <;> simp [ModbusError.exceptionCode, kind] <;> decide

theorem processPdu_rejected {pdu : Bytes} {first : UInt8} {e : ModbusError}
    (decoded : decodeRequestPdu pdu = .error (.modbus e))
    (code : e.functionCode = some first.toNat) (device : Device) :
    processPdu device pdu = (.ok (exceptionPdu first e.exceptionCode), device) := by
  simp only [processPdu, decoded, exceptionResponse, code, Option.getD_some]
  rw [encode_exception rfl first.toNat_lt (exceptionCode_lt e)]

theorem encode_fallback {pdu : Bytes} {first : UInt8} (head : pdu.head? = some first)
    {e : ModbusError} (bare : e.functionCode = none) :
    encodeResponsePdu (exceptionResponse (fallbackFc pdu) (.modbus e)) =
      .ok (exceptionPdu first e.exceptionCode) := by
  have fallback : fallbackFc pdu = first.toNat % 128 := by
    simp only [fallbackFc, head]
    exact withoutMask_eq first.toNat_lt
  rw [exceptionResponse, bare, Option.getD_none, fallback]
  exact encode_exception (Nat.mod_mod ..) (by omega) (exceptionCode_lt e)

theorem processPdu_decoded {device : Device} (sized : device.Sized) {pdu : Bytes} {first : UInt8}
    (head : pdu.head? = some first) {r : Request} (decoded : decodeRequestPdu pdu = .ok r) :
    processPdu device pdu =
      if ¬ QuantityInRange r then (.ok (exceptionPdu first 3), device)
      else if ¬ InRegion device r then (.ok (exceptionPdu first 2), device)
      else (encodeResponsePdu (answer device r), execute device r) := by
  simp only [processPdu, decoded, handleRequest_eq sized]
  by_cases inRange : QuantityInRange r
  · by_cases inside : InRegion device r
    · simp only [inRange, inside, not_true, if_false]
    · simp only [inRange, inside, not_true, not_false_iff, if_false, if_true]
      rw [MemoryBlock.addressError, illegalDataAddressError, encode_fallback head rfl]
      rfl
  · simp only [inRange, not_false_iff, if_true]
    rw [quantityError, illegalDataValueError, encode_fallback head rfl]
    rfl

theorem processPdu_inRange {device : Device} (sized : device.Sized) {pdu : Bytes} {r : Request}
    (decoded : decodeRequestPdu pdu = .ok r) (inRange : QuantityInRange r)
    (inside : InRegion device r) :
    processPdu device pdu = (encodeResponsePdu (answer device r), execute device r) := by
  simp only [processPdu, decoded, handleRequest_inRange sized inRange inside]

/-- A PDU is answered with an exception and changes nothing, or it decodes to a request in range
that is executed. -/
theorem processPdu_cases {device : Device} (wellFormed : device.WellFormed) (pdu : Bytes) :
    (∃ first code, processPdu device pdu = (.ok (exceptionPdu first code), device)) ∨
      ∃ r, decodeRequestPdu pdu = .ok r ∧ r.Encodable ∧ QuantityInRange r ∧ InRegion device r ∧
        processPdu device pdu = (.ok (answer device r).wire, execute device r) := by
  cases head : pdu.head? with
  | none =>
    rw [List.head?_eq_none_iff.mp head]
    exact .inl ⟨0, 3, rfl⟩
  | some first =>
    cases decoded : decodeRequestPdu pdu with
    | error e =>
      rcases decodeRequestPdu_error decoded with ⟨_, lead, _, rfl⟩ | ⟨_, message, rfl⟩
      · exact .inl ⟨_, _, processPdu_rejected decoded rfl device⟩
      · exact .inl ⟨first, _, processPdu_rejected decoded (by rw [head]; rfl) device⟩
    | ok r =>
      have encodable := (decodeRequestPdu_sound decoded).1
      have rule := processPdu_decoded wellFormed.sized head decoded
      by_cases inRange : QuantityInRange r
      · by_cases inside : InRegion device r
        · have answered := processPdu_inRange wellFormed.sized decoded inRange inside
          rw [(encodeResponsePdu_eq _).1
            (answer_encodable wellFormed encodable inRange inside).1] at answered
          exact .inr ⟨r, rfl, encodable, inRange, inside, answered⟩
        · rw [if_neg (not_not.mpr inRange), if_pos inside] at rule
          exact .inl ⟨first, 2, rule⟩
      · rw [if_pos inRange] at rule
        exact .inl ⟨first, 3, rule⟩

/-- A device never fails to answer. -/
theorem processPdu_isOk {device : Device} (wellFormed : device.WellFormed) (pdu : Bytes) :
    ∃ response device', processPdu device pdu = (.ok response, device') ∧
      2 ≤ response.length ∧ response.length ≤ maxPduLen ∧ device'.WellFormed := by
  rcases processPdu_cases wellFormed pdu with ⟨first, code, answered⟩ |
    ⟨r, _, encodable, inRange, inside, answered⟩
  · exact ⟨_, _, answered, le_rfl, show 2 ≤ 253 by decide, wellFormed⟩
  · obtain ⟨_, least, most⟩ := answer_encodable wellFormed encodable inRange inside
    exact ⟨_, _, answered, least, most.trans (by decide), execute_wellFormed wellFormed encodable⟩

/-! ### The wire form of a request -/

def typedReply (device : Device) (r : Request) : Response :=
  match (handleRequest device r).1 with
  | .ok response => response
  | .error e => exceptionResponse r.functionCode e

theorem processPdu_wire {r : Request} (encodable : r.Encodable) (device : Device) :
    processPdu device r.wire =
      (encodeResponsePdu (typedReply device r), (handleRequest device r).2) := by
  have fallback : fallbackFc r.wire = r.functionCode := by cases r <;> rfl
  simp only [processPdu, decodeRequestPdu_wire encodable, fallback, typedReply]

theorem typedReply_cases {device : Device} (sized : device.Sized) (r : Request) :
    (QuantityInRange r ∧ InRegion device r ∧ (handleRequest device r).1 = .ok (answer device r) ∧
        typedReply device r = answer device r) ∨
      ∃ e, (handleRequest device r).1 = .error (.modbus e) ∧
        typedReply device r = .exception r.functionCode e.exceptionCode := by
  unfold typedReply
  by_cases inRange : QuantityInRange r
  · by_cases inside : InRegion device r
    · rw [handleRequest_inRange sized inRange inside]
      exact .inl ⟨inRange, inside, rfl, rfl⟩
    · rw [handleRequest_eq sized, if_neg (not_not.mpr inRange), if_pos inside]
      exact .inr ⟨_, rfl, rfl⟩
  · rw [handleRequest_eq sized, if_pos inRange]
    exact .inr ⟨_, rfl, rfl⟩

theorem functionCode_lt (r : Request) : r.functionCode < 128 := by
  cases r <;> simp only [Request.functionCode] <;> decide

theorem typedReply_encodable {device : Device} (wellFormed : device.WellFormed) {r : Request}
    (encodable : r.Encodable) :
    (typedReply device r).Encodable ∧ (typedReply device r).Plain ∧
      2 ≤ (typedReply device r).wire.length ∧ (typedReply device r).wire.length ≤ maxPduLen := by
  rcases typedReply_cases wellFormed.sized r with ⟨inRange, inside, _, reply⟩ | ⟨e, _, reply⟩
  · obtain ⟨fits, least, most⟩ := answer_encodable wellFormed encodable inRange inside
    have plain : (answer device r).Plain := by cases r <;> trivial
    rw [reply]
    exact ⟨fits, plain, least, most.trans (by decide)⟩
  · have small := functionCode_lt r
    rw [reply]
    exact ⟨⟨by omega, exceptionCode_lt e⟩, small, le_rfl, show 2 ≤ 253 by decide⟩

end ModbusSim.Dispatch
