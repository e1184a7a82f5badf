import ModbusSim.Frame.Packing

/-!
# Request PDUs

`decode_request_pdu` and `encode_request_pdu`, and what each step of the decoder accepts.
-/

namespace ModbusSim.Frame

open PyStruct BitPacking

/-- `struct.unpack(">BHH", data)`, assigned to three names. -/
def unpackBHH (data : Bytes) : Except Exn (Int × Int × Int) := do
  match ← liftPy (unpack [.B, .H, .H] data) with
  | [a, b, c] => return (a, b, c)
  | _ => throw (.py (.valueError "wrong number of values to unpack"))

/-- `struct.unpack(">BHHB", data)`, assigned to four names. -/
def unpackBHHB (data : Bytes) : Except Exn (Int × Int × Int × Int) := do
  match ← liftPy (unpack [.B, .H, .H, .B] data) with
  | [a, b, c, d] => return (a, b, c, d)
  | _ => throw (.py (.valueError "wrong number of values to unpack"))

def readRequest (pdu : Bytes) : Except Exn (Int × Int × Int) := do
  if pdu.length ≠ 5 then
    throw (illegalDataValueError "expected a 5-byte PDU" (some (← item pdu 0)))
  unpackBHH pdu

def expectedBytes (fc : Nat) (qty : Int) : Int :=
  if fc = writeMultipleRegisters then 2 * qty else (qty + 7) / 8

def decodeMultiWrite (pdu : Bytes) (fc : Nat) : Except Exn (Int × Int × Bytes) := do
  if pdu.length < 6 then
    throw (illegalDataValueError "multi-write PDU too short" (some fc))
  let (_, addr, qty, byteCount) ← unpackBHHB (pdu.take 6)
  let payload := pdu.drop 6
  if payload.length ≠ byteCount then
    throw (illegalDataValueError "byte count does not match payload length" (some fc))
  if byteCount ≠ expectedBytes fc qty then
    throw (illegalDataValueError "byte count inconsistent with quantity" (some fc))
  return (addr, qty, payload)

def readRequestClass (fc : Nat) : Int → Int → Request :=
  if fc = readCoils then .readCoils
  else if fc = readDiscreteInputs then .readDiscreteInputs
  else if fc = readHoldingRegisters then .readHoldingRegisters
  else .readInputRegisters

def decodeRequestPdu (pdu : Bytes) : Except Exn Request :=
  match pdu.head? with
  | none => .error (illegalDataValueError "empty PDU" none)
  | some first =>
    let fc := first.toNat
    if fc ∈ [readCoils, readDiscreteInputs, readHoldingRegisters, readInputRegisters] then do
      let (_, addr, qty) ← readRequest pdu
      return readRequestClass fc addr qty
    else if fc = writeSingleCoil then do
      let (_, addr, raw) ← readRequest pdu
      if raw = coilOn then return .writeSingleCoil addr true
      else if raw = coilOff then return .writeSingleCoil addr false
      else throw (illegalDataValueError "coil value must be 0xFF00 or 0x0000" (some writeSingleCoil))
    else if fc = writeSingleRegister then do
      let (_, addr, value) ← readRequest pdu
      return .writeSingleRegister addr value
    else if fc = writeMultipleCoils then do
      let (addr, qty, values) ← decodeMultiWrite pdu writeMultipleCoils
      return .writeMultipleCoils addr (← unpackBits values qty)
    else if fc = writeMultipleRegisters then do
      let (addr, _, values) ← decodeMultiWrite pdu writeMultipleRegisters
      return .writeMultipleRegisters addr (← unpackRegisters values)
    else .error (unsupportedFunctionCode fc)

def encodeRequestPdu : Request → Except Exn Bytes
  | .readCoils a c => liftPy (pack [.B, .H, .H] [readCoils, a, c])
  | .readDiscreteInputs a c => liftPy (pack [.B, .H, .H] [readDiscreteInputs, a, c])
  | .readHoldingRegisters a c => liftPy (pack [.B, .H, .H] [readHoldingRegisters, a, c])
  | .readInputRegisters a c => liftPy (pack [.B, .H, .H] [readInputRegisters, a, c])
  | .writeSingleCoil a v =>
    liftPy (pack [.B, .H, .H] [writeSingleCoil, a, if v then coilOn else coilOff])
  | .writeSingleRegister a v => liftPy (pack [.B, .H, .H] [writeSingleRegister, a, v])
  | .writeMultipleCoils a vals => do
    let body := packBits vals
    let head ← liftPy (pack [.B, .H, .H, .B] [writeMultipleCoils, a, vals.length, body.length])
    return head ++ body
  | .writeMultipleRegisters a vals => do
    let body ← packRegisters vals
    let head ← liftPy (pack [.B, .H, .H, .B] [writeMultipleRegisters, a, vals.length, body.length])
    return head ++ body

/-! ### The branches of the decoder -/

section Branches

variable {pdu : Bytes} {first : UInt8}

theorem decodeRequestPdu_read (head : pdu.head? = some first)
    (isRead : first.toNat ∈
      [readCoils, readDiscreteInputs, readHoldingRegisters, readInputRegisters]) :
    decodeRequestPdu pdu = (do
      let (_, addr, qty) ← readRequest pdu
      return readRequestClass first.toNat addr qty) := by
  simp only [decodeRequestPdu, head]
  rw [if_pos isRead]

theorem decodeRequestPdu_coil (head : pdu.head? = some first)
    (fc : first.toNat = writeSingleCoil) :
    decodeRequestPdu pdu = (do
      let (_, addr, raw) ← readRequest pdu
      if raw = coilOn then return .writeSingleCoil addr true
      else if raw = coilOff then return .writeSingleCoil addr false
      else throw (illegalDataValueError "coil value must be 0xFF00 or 0x0000"
        (some writeSingleCoil))) := by
  simp only [decodeRequestPdu, head, fc]
  rfl

theorem decodeRequestPdu_register (head : pdu.head? = some first)
    (fc : first.toNat = writeSingleRegister) :
    decodeRequestPdu pdu = (do
      let (_, addr, value) ← readRequest pdu
      return .writeSingleRegister addr value) := by
  simp only [decodeRequestPdu, head, fc]
  rfl

theorem decodeRequestPdu_coils (head : pdu.head? = some first)
    (fc : first.toNat = writeMultipleCoils) :
    decodeRequestPdu pdu = (do
      let (addr, qty, values) ← decodeMultiWrite pdu writeMultipleCoils
      return .writeMultipleCoils addr (← unpackBits values qty)) := by
  simp only [decodeRequestPdu, head, fc]
  rfl

theorem decodeRequestPdu_registers (head : pdu.head? = some first)
    (fc : first.toNat = writeMultipleRegisters) :
    decodeRequestPdu pdu = (do
      let (addr, _, values) ← decodeMultiWrite pdu writeMultipleRegisters
      return .writeMultipleRegisters addr (← unpackRegisters values)) := by
  simp only [decodeRequestPdu, head, fc]
  rfl

theorem decodeRequestPdu_unsupported (head : pdu.head? = some first)
    (unsupported : first.toNat ∉ supportedFunctionCodes) :
    decodeRequestPdu pdu = .error (unsupportedFunctionCode first.toNat) := by
  simp only [supportedFunctionCodes, List.mem_cons, List.not_mem_nil, or_false, not_or] at unsupported
  simp [decodeRequestPdu, head, unsupported]

theorem supported_cases {fc : Nat} (supported : fc ∈ supportedFunctionCodes) :
    fc ∈ [readCoils, readDiscreteInputs, readHoldingRegisters, readInputRegisters] ∨
      fc = writeSingleCoil ∨ fc = writeSingleRegister ∨ fc = writeMultipleCoils ∨
      fc = writeMultipleRegisters := by
  simp only [supportedFunctionCodes, List.mem_cons, List.not_mem_nil, or_false] at supported ⊢
  tauto

end Branches

/-! ### The steps of the decoder -/

/-- The five bytes of `fc + addr(2) + qty(2)`. -/
def triple (fc addr qty : Int) : Bytes := layout [.B, .H, .H] [fc, addr, qty]

/-- The six bytes of `fc + addr(2) + qty(2) + byte_count(1)`. -/
def multiHead (fc addr qty byteCount : Int) : Bytes :=
  layout [.B, .H, .H, .B] [fc, addr, qty, byteCount]

theorem unpackBHH_eq_ok {data : Bytes} {a b c : Int} :
    unpackBHH data = .ok (a, b, c) ↔ Fit [.B, .H, .H] [a, b, c] ∧ data = triple a b c := by
  constructor
  · intro unpacked
    cases fields : unpack [.B, .H, .H] data with
    | error e => simp [unpackBHH, fields] at unpacked
    | ok values =>
      obtain ⟨fit, same⟩ := unpack_eq_ok fields
      match values, fit with
      | [x, y, z], fit =>
        simp only [unpackBHH, fields, liftPy_ok, Raise.ok_bind, Raise.pure_eq, Except.ok.injEq,
          Prod.mk.injEq] at unpacked
        obtain ⟨rfl, rfl, rfl⟩ := unpacked
        exact ⟨fit, same.symm⟩
  · rintro ⟨fit, rfl⟩
    simp [unpackBHH, triple, unpack_layout fit]

theorem unpackBHHB_eq_ok {data : Bytes} {a b c d : Int} :
    unpackBHHB data = .ok (a, b, c, d) ↔
      Fit [.B, .H, .H, .B] [a, b, c, d] ∧ data = multiHead a b c d := by
  constructor
  · intro unpacked
    cases fields : unpack [.B, .H, .H, .B] data with
    | error e => simp [unpackBHHB, fields] at unpacked
    | ok values =>
      obtain ⟨fit, same⟩ := unpack_eq_ok fields
      match values, fit with
      | [w, x, y, z], fit =>
        simp only [unpackBHHB, fields, liftPy_ok, Raise.ok_bind, Raise.pure_eq, Except.ok.injEq,
          Prod.mk.injEq] at unpacked
        obtain ⟨rfl, rfl, rfl, rfl⟩ := unpacked
        exact ⟨fit, same.symm⟩
  · rintro ⟨fit, rfl⟩
    simp [unpackBHHB, multiHead, unpack_layout fit]

theorem unpackBHH_isOk {data : Bytes} (size : data.length = 5) :
    ∃ a b c, unpackBHH data = .ok (a, b, c) := by
  have sized : data.length = calcsize [.B, .H, .H] := size
  obtain ⟨values, unpacked⟩ := unpack_isOk_iff.mpr sized
  obtain ⟨fit, same⟩ := unpack_eq_ok unpacked
  match values, fit with
  | [a, b, c], fit => exact ⟨a, b, c, unpackBHH_eq_ok.mpr ⟨fit, same.symm⟩⟩

theorem unpackBHHB_isOk {data : Bytes} (size : data.length = 6) :
    ∃ a b c d, unpackBHHB data = .ok (a, b, c, d) := by
  have sized : data.length = calcsize [.B, .H, .H, .B] := size
  obtain ⟨values, unpacked⟩ := unpack_isOk_iff.mpr sized
  obtain ⟨fit, same⟩ := unpack_eq_ok unpacked
  match values, fit with
  | [a, b, c, d], fit => exact ⟨a, b, c, d, unpackBHHB_eq_ok.mpr ⟨fit, same.symm⟩⟩

@[simp] theorem length_triple (fc addr qty : Int) : (triple fc addr qty).length = 5 := rfl

@[simp] theorem length_multiHead (fc addr qty byteCount : Int) :
    (multiHead fc addr qty byteCount).length = 6 := rfl

theorem item_zero {data : Bytes} {first : UInt8} (head : data.head? = some first) :
    item data 0 = .ok first.toNat := by
  rw [List.head?_eq_getElem?] at head
  simp [item, head]

theorem readRequest_of_length {pdu : Bytes} (size : pdu.length = 5) :
    readRequest pdu = unpackBHH pdu := by simp [readRequest, size]

theorem readRequest_of_length_ne {pdu : Bytes} {first : UInt8} (head : pdu.head? = some first)
    (size : pdu.length ≠ 5) :
    readRequest pdu =
      .error (illegalDataValueError "expected a 5-byte PDU" (some first.toNat)) := by
  simp [readRequest, size, item_zero head]

theorem readRequest_eq_ok {pdu : Bytes} {fc addr qty : Int} :
    readRequest pdu = .ok (fc, addr, qty) ↔
      Fit [.B, .H, .H] [fc, addr, qty] ∧ pdu = triple fc addr qty := by
  rw [← unpackBHH_eq_ok]
  by_cases size : pdu.length = 5
  · rw [readRequest_of_length size]
  · constructor
    · intro read
      cases first : item pdu 0 <;> simp [readRequest, size, first] at read
    · intro read
      obtain ⟨_, rfl⟩ := unpackBHH_eq_ok.mp read
      exact absurd (length_triple ..) size

/-- Six bytes or more are a header followed by a payload. -/
theorem exists_multiHead {pdu : Bytes} (long : 6 ≤ pdu.length) :
    ∃ first addr qty byteCount payload, Fit [.B, .H, .H, .B] [first, addr, qty, byteCount] ∧
      pdu = multiHead first addr qty byteCount ++ payload := by
  have size : (pdu.take 6).length = 6 := by rw [List.length_take]; omega
  obtain ⟨first, addr, qty, byteCount, fields⟩ := unpackBHHB_isOk size
  obtain ⟨fit, front⟩ := unpackBHHB_eq_ok.mp fields
  exact ⟨first, addr, qty, byteCount, pdu.drop 6, fit, by rw [← front, List.take_append_drop]⟩

theorem decodeMultiWrite_short {pdu : Bytes} (fc : Nat) (short : pdu.length < 6) :
    decodeMultiWrite pdu fc =
      .error (illegalDataValueError "multi-write PDU too short" (some fc)) := by
  simp [decodeMultiWrite, short]

theorem decodeMultiWrite_append {first addr qty byteCount : Int}
    (fit : Fit [.B, .H, .H, .B] [first, addr, qty, byteCount]) (payload : Bytes) (fc : Nat) :
    decodeMultiWrite (multiHead first addr qty byteCount ++ payload) fc =
      if payload.length ≠ byteCount then
        .error (illegalDataValueError "byte count does not match payload length" (some fc))
      else if byteCount ≠ expectedBytes fc qty then
        .error (illegalDataValueError "byte count inconsistent with quantity" (some fc))
      else .ok (addr, qty, payload) := by
  have front : (multiHead first addr qty byteCount ++ payload).take 6 =
      multiHead first addr qty byteCount := List.take_left' (length_multiHead ..)
  have back : (multiHead first addr qty byteCount ++ payload).drop 6 = payload :=
    List.drop_left' (length_multiHead ..)
  have fields := unpackBHHB_eq_ok.mpr ⟨fit, rfl⟩
  simp only [decodeMultiWrite, front, back, fields]
  by_cases counted : (payload.length : Int) = byteCount <;> simp [counted]

theorem decodeMultiWrite_eq_ok {pdu : Bytes} {fc : Nat} {addr qty : Int} {payload : Bytes} :
    decodeMultiWrite pdu fc = .ok (addr, qty, payload) ↔
      ∃ first, Fit [.B, .H, .H, .B] [first, addr, qty, payload.length] ∧
        (payload.length : Int) = expectedBytes fc qty ∧
        pdu = multiHead first addr qty payload.length ++ payload := by
  constructor
  · intro decoded
    by_cases short : pdu.length < 6
    · simp [decodeMultiWrite_short fc short] at decoded
    · obtain ⟨first, a, q, n, body, fit, rfl⟩ := exists_multiHead (Nat.le_of_not_lt short)
      rw [decodeMultiWrite_append fit] at decoded
      split at decoded
      · cases decoded
      · split at decoded
        · cases decoded
        · cases decoded
          have counted : (payload.length : Int) = n := by omega
          have consistent : n = expectedBytes fc qty := by omega
          rw [counted]
          exact ⟨first, fit, consistent, rfl⟩
  · rintro ⟨first, fit, consistent, rfl⟩
    rw [decodeMultiWrite_append fit, if_neg (by omega), if_neg (by omega)]

end ModbusSim.Frame
