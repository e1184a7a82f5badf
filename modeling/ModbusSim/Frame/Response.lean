import ModbusSim.Frame.RequestCodec

/-!
# Response PDUs

`encode_response_pdu` and `decode_response_pdu`: what the encoder writes, that the decoder reads
it back given the number of bits asked for, and exactly when the decoder keeps to its errors.
-/

namespace ModbusSim.Frame

open PyStruct BitPacking

/-- `fc & ~EXCEPTION_MASK` -/
def withoutMask (fc : Nat) : Nat := fc ^^^ (fc &&& exceptionMask)

def encodeResponsePdu : Response → Except Exn Bytes
  | .readCoils b => do
    let body := packBits b
    return (← liftPy (pack [.B, .B] [readCoils, body.length])) ++ body
  | .readDiscreteInputs b => do
    let body := packBits b
    return (← liftPy (pack [.B, .B] [readDiscreteInputs, body.length])) ++ body
  | .readHoldingRegisters r => do
    let body ← packRegisters r
    return (← liftPy (pack [.B, .B] [readHoldingRegisters, body.length])) ++ body
  | .readInputRegisters r => do
    let body ← packRegisters r
    return (← liftPy (pack [.B, .B] [readInputRegisters, body.length])) ++ body
  | .writeSingleCoil a v =>
    liftPy (pack [.B, .H, .H] [writeSingleCoil, a, if v then coilOn else coilOff])
  | .writeSingleRegister a v => liftPy (pack [.B, .H, .H] [writeSingleRegister, a, v])
  | .writeMultipleCoils a q => liftPy (pack [.B, .H, .H] [writeMultipleCoils, a, q])
  | .writeMultipleRegisters a q => liftPy (pack [.B, .H, .H] [writeMultipleRegisters, a, q])
  | .exception fc ec => liftPy (pack [.B, .B] [(fc ||| exceptionMask : Nat), ec])

def readPayload (pdu : Bytes) : Except Exn (Nat × Bytes) := do
  let byteCount ← item pdu 1
  if pdu.length ≠ 2 + byteCount then
    throw (illegalDataValueError "byte count does not match response length" none)
  return (byteCount, pdu.drop 2)

def decodeResponsePdu (pdu : Bytes) (bitCount : Option Int) : Except Exn Response :=
  match pdu.head? with
  | none => .error (illegalDataValueError "empty PDU" none)
  | some first =>
    let fc := first.toNat
    if fc &&& exceptionMask ≠ 0 then
      if pdu.length ≠ 2 then
        .error (illegalDataValueError "exception response must be 2 bytes" none)
      else do return .exception (withoutMask fc) (← item pdu 1)
    else if fc ∈ [readCoils, readDiscreteInputs] then do
      let (byteCount, payload) ← readPayload pdu
      let bits ← unpackBits payload (bitCount.getD (byteCount * 8 : Nat))
      return if fc = readCoils then .readCoils bits else .readDiscreteInputs bits
    else if fc ∈ [readHoldingRegisters, readInputRegisters] then do
      let (_, payload) ← readPayload pdu
      let regs ← unpackRegisters payload
      return if fc = readHoldingRegisters then .readHoldingRegisters regs
        else .readInputRegisters regs
    else if fc ∈ [writeSingleCoil, writeSingleRegister] then do
      let (_, addr, raw) ← readRequest pdu
      return if fc = writeSingleCoil then .writeSingleCoil addr (raw == coilOn)
        else .writeSingleRegister addr raw
    else if fc ∈ [writeMultipleCoils, writeMultipleRegisters] then
      if pdu.length ≠ 5 then .error (illegalDataValueError "expected a 5-byte PDU" none)
      else do
        let (_, addr, qty) ← unpackBHH pdu
        return if fc = writeMultipleCoils then .writeMultipleCoils addr qty
          else .writeMultipleRegisters addr qty
    else .error (unsupportedFunctionCode fc)

/-! ### The exception bit of a byte -/

theorem hasMask_iff {fc : Nat} (byte : fc < 256) : fc &&& exceptionMask ≠ 0 ↔ 128 ≤ fc := by
  revert fc
  decide +kernel

theorem withoutMask_eq {fc : Nat} (byte : fc < 256) : withoutMask fc = fc % 128 := by
  revert fc
  decide +kernel

theorem withMask_eq {fc : Nat} (byte : fc < 256) : fc ||| exceptionMask = fc % 128 + 128 := by
  revert fc
  decide +kernel

/-! ### What the encoder writes -/

def Response.Encodable : Response → Prop
  | .readCoils bits | .readDiscreteInputs bits => bits.length ≤ 2040
  | .readHoldingRegisters regs | .readInputRegisters regs =>
    regs.length ≤ 127 ∧ ∀ v ∈ regs, IsWord v
  | .writeSingleCoil a _ => IsWord a
  | .writeSingleRegister a v | .writeMultipleCoils a v | .writeMultipleRegisters a v =>
    IsWord a ∧ IsWord v
  | .exception fc ec => fc < 256 ∧ ec < 256

def counted (fc : Nat) (payload : Bytes) : Bytes := layout [.B, .B] [fc, payload.length] ++ payload

def Response.wire : Response → Bytes
  | .readCoils bits => counted Frame.readCoils (packed bits)
  | .readDiscreteInputs bits => counted Frame.readDiscreteInputs (packed bits)
  | .readHoldingRegisters regs => counted Frame.readHoldingRegisters (registerBytes regs)
  | .readInputRegisters regs => counted Frame.readInputRegisters (registerBytes regs)
  | .writeSingleCoil a v => triple Frame.writeSingleCoil a (coilWord v)
  | .writeSingleRegister a v => triple Frame.writeSingleRegister a v
  | .writeMultipleCoils a q => triple Frame.writeMultipleCoils a q
  | .writeMultipleRegisters a q => triple Frame.writeMultipleRegisters a q
  | .exception fc ec => layout [.B, .B] [(fc ||| exceptionMask : Nat), ec]

@[simp] theorem length_counted (fc : Nat) (payload : Bytes) :
    (counted fc payload).length = 2 + payload.length := by
  simp [counted, layout_cons, layout_nil, Field.size]
  omega

theorem fit_pair_iff {a b : Nat} : Fit [.B, .B] [a, b] ↔ a < 256 ∧ b < 256 := by
  simp [Fit, Field.Fits, Field.max]
  omega

theorem pack_pair (a b : Nat) :
    liftPy (pack [.B, .B] [a, b]) =
      if a < 256 ∧ b < 256 then .ok (layout [.B, .B] [a, b]) else .error (.py .structError) := by
  by_cases bytes : a < 256 ∧ b < 256
  · rw [pack_of_fit (fit_pair_iff.mpr bytes), if_pos bytes, liftPy_ok]
  · rw [pack_of_not_fit fun fit => bytes (fit_pair_iff.mp fit), if_neg bytes, liftPy_error]

theorem withMask_lt_iff {fc : Nat} : fc ||| exceptionMask < 256 ↔ fc < 256 := by
  constructor
  · exact Nat.left_le_or.trans_lt
  · intro byte
    rw [withMask_eq byte]
    omega

theorem encodeResponsePdu_eq (r : Response) :
    (r.Encodable → encodeResponsePdu r = .ok r.wire) ∧
      (¬ r.Encodable → encodeResponsePdu r = .error (.py .structError)) := by
  cases r with
  | readCoils bits | readDiscreteInputs bits =>
    have room : octets bits.length < 256 ↔ bits.length ≤ 2040 := by simp only [octets]; omega
    simp only [encodeResponsePdu, packBits_eq_packed, length_packed]
    rw [pack_pair]
    constructor
    · intro few
      rw [if_pos ⟨by decide, room.mpr few⟩, Raise.ok_bind, Raise.pure_eq, Response.wire, counted,
        length_packed]
    · intro many
      rw [if_neg fun both => many (room.mp both.2), Raise.error_bind]
  | readHoldingRegisters regs | readInputRegisters regs =>
    simp only [encodeResponsePdu]
    by_cases words : ∀ v ∈ regs, IsWord v
    · have size := length_registerBytes words
      rw [packRegisters_of_fit words, Raise.ok_bind, pack_pair]
      constructor
      · rintro ⟨few, -⟩
        rw [if_pos ⟨by decide, by omega⟩, Raise.ok_bind, Raise.pure_eq, Response.wire, counted]
      · intro misfit
        rw [if_neg fun both => misfit ⟨by omega, words⟩, Raise.error_bind]
    · rw [packRegisters_of_not_fit words, Raise.error_bind]
      exact ⟨fun encodable => absurd encodable.2 words, fun _ => rfl⟩
  | writeSingleCoil a v =>
    have asWord : encodeResponsePdu (.writeSingleCoil a v) =
        liftPy (pack [.B, .H, .H] [(writeSingleCoil : Int), a, coilWord v]) := rfl
    rw [asWord, pack_triple (by decide)]
    exact ⟨fun word => if_pos ⟨word, coilWord_isWord v⟩, fun word => if_neg fun both => word both.1⟩
  | writeSingleRegister a v | writeMultipleCoils a v | writeMultipleRegisters a v =>
    simp only [encodeResponsePdu]
    rw [pack_triple (by decide)]
    exact ⟨fun words => if_pos words, fun words => if_neg words⟩
  | exception fc ec =>
    simp only [encodeResponsePdu]
    rw [pack_pair]
    constructor
    · rintro ⟨code, reason⟩
      rw [if_pos ⟨withMask_lt_iff.mpr code, reason⟩, Response.wire]
    · intro misfit
      rw [if_neg fun both => misfit ⟨withMask_lt_iff.mp both.1, both.2⟩]

theorem encodeResponsePdu_eq_ok {r : Response} {p : Bytes} :
    encodeResponsePdu r = .ok p ↔ r.Encodable ∧ p = r.wire := by
  by_cases encodable : r.Encodable
  · simp [(encodeResponsePdu_eq r).1 encodable, encodable, eq_comm]
  · simp [(encodeResponsePdu_eq r).2 encodable, encodable]

/-! ### Reading a wire form back -/

theorem item_one_counted {fc : Nat} {payload : Bytes} (few : payload.length < 256) :
    item (counted fc payload) 1 = .ok payload.length := by
  simp [item, counted, layout_cons, layout_nil, Field.bytes]
  omega

theorem readPayload_counted {fc : Nat} {payload : Bytes} (few : payload.length < 256) :
    readPayload (counted fc payload) = .ok (payload.length, payload) := by
  have back : (counted fc payload).drop 2 = payload := rfl
  simp [readPayload, item_one_counted few, back]

theorem unpackBHH_triple {fc : Nat} (byte : fc < 256) {a q : Int} (words : IsWord a ∧ IsWord q) :
    unpackBHH (triple fc a q) = .ok (fc, a, q) :=
  unpackBHH_eq_ok.mpr ⟨(fit_triple_iff byte).mpr words, rfl⟩

def Response.Requested (bitCount : Option Int) : Response → Prop
  | .readCoils bits | .readDiscreteInputs bits => bitCount = some (bits.length : Int)
  | _ => True

def Response.Plain : Response → Prop
  | .exception fc _ => fc < 128
  | _ => True

/-- Decoding undoes encoding, given the number of bits that were asked for. -/
theorem decodeResponsePdu_wire {r : Response} {bitCount : Option Int} (encodable : r.Encodable)
    (plain : r.Plain) (requested : r.Requested bitCount) :
    decodeResponsePdu r.wire bitCount = .ok r := by
  cases r with
  | readCoils bits | readDiscreteInputs bits =>
    have few : (packed bits).length < 256 := by
      rw [length_packed, octets]
      exact Nat.lt_of_le_of_lt (Nat.div_le_div_right (Nat.add_le_add_right encodable 7)) (by decide)
    have back := unpackBits_packBits bits
    rw [packBits_eq_packed] at back
    cases requested
    simp only [Response.wire, decodeResponsePdu]
    rw [readPayload_counted few]
    change (unpackBits (packed bits) bits.length >>= _) = _
    rw [back]
    rfl
  | readHoldingRegisters regs | readInputRegisters regs =>
    obtain ⟨few, words⟩ := encodable
    have size := length_registerBytes words
    simp only [Response.wire, decodeResponsePdu]
    rw [readPayload_counted (by omega)]
    change (unpackRegisters (registerBytes regs) >>= _) = _
    rw [unpackRegisters_registerBytes words]
    rfl
  | writeSingleCoil a v =>
    simp only [Response.wire, decodeResponsePdu]
    rw [readRequest_triple (by decide) ⟨encodable, coilWord_isWord v⟩]
    cases v <;> rfl
  | writeSingleRegister a v =>
    simp only [Response.wire, decodeResponsePdu]
    rw [readRequest_triple (by decide) encodable]
    rfl
  | writeMultipleCoils a q | writeMultipleRegisters a q =>
    simp only [Response.wire, decodeResponsePdu, length_triple]
    rw [unpackBHH_triple (by decide) encodable]
    rfl
  | exception fc ec =>
    obtain ⟨code, reason⟩ := encodable
    have bytes : (Response.exception fc ec).wire = [UInt8.ofNat (fc + 128), UInt8.ofNat ec] := by
      rw [Response.wire, withMask_eq code, Nat.mod_eq_of_lt plain]
      rfl
    have small : fc < 128 := plain
    have lead : (UInt8.ofNat (fc + 128)).toNat = fc + 128 :=
      UInt8.toNat_ofNat_of_lt' (show fc + 128 < 256 by omega)
    rw [bytes]
    simp only [decodeResponsePdu, List.head?_cons, lead]
    rw [if_pos ((hasMask_iff (by omega)).mpr (by omega)), withoutMask_eq (by omega)]
    have code : (fc + 128) % 128 = fc := by omega
    have value : (UInt8.ofNat ec).toNat = ec := UInt8.toNat_ofNat_of_lt' reason
    simp [item, code, value]

/-! ### The branches of the decoder -/

theorem supported_of_mem {fc : Nat} {codes : List Nat} (isOne : fc ∈ codes)
    (supported : codes ⊆ supportedFunctionCodes) : fc ∈ supportedFunctionCodes ∧ ¬ 128 ≤ fc := by
  have small : ∀ code ∈ supportedFunctionCodes, ¬ 128 ≤ code := by decide
  exact ⟨supported isOne, small fc (supported isOne)⟩

theorem hasMask_byte (first : UInt8) : first.toNat &&& exceptionMask ≠ 0 ↔ 128 ≤ first.toNat :=
  hasMask_iff first.toNat_lt

theorem not_bits_of_registers {fc : Nat}
    (isRegisters : fc ∈ [readHoldingRegisters, readInputRegisters]) :
    fc ∉ [readCoils, readDiscreteInputs] := by
  simp only [List.mem_cons, List.not_mem_nil, or_false] at isRegisters
  rcases isRegisters with rfl | rfl <;> decide

theorem not_read_of_write {fc : Nat}
    (isWrite : fc ∈ [writeSingleCoil, writeSingleRegister, writeMultipleCoils, writeMultipleRegisters]) :
    fc ∉ [readCoils, readDiscreteInputs] ∧ fc ∉ [readHoldingRegisters, readInputRegisters] := by
  simp only [List.mem_cons, List.not_mem_nil, or_false] at isWrite
  rcases isWrite with rfl | rfl | rfl | rfl <;> decide

section Decoder

variable {pdu : Bytes} {first : UInt8} (bitCount : Option Int)

theorem decodeResponsePdu_exception (head : pdu.head? = some first) (mask : 128 ≤ first.toNat) :
    decodeResponsePdu pdu bitCount =
      if pdu.length ≠ 2 then
        .error (illegalDataValueError "exception response must be 2 bytes" none)
      else do return .exception (withoutMask first.toNat) (← item pdu 1) := by
  simp only [decodeResponsePdu, head]
  rw [if_pos ((hasMask_byte first).mpr mask)]

theorem decodeResponsePdu_bits (head : pdu.head? = some first)
    (isBits : first.toNat ∈ [readCoils, readDiscreteInputs]) :
    decodeResponsePdu pdu bitCount = (do
      let (byteCount, payload) ← readPayload pdu
      let bits ← unpackBits payload (bitCount.getD (byteCount * 8 : Nat))
      return if first.toNat = readCoils then .readCoils bits else .readDiscreteInputs bits) := by
  obtain ⟨_, plain⟩ := supported_of_mem isBits (by decide)
  simp only [decodeResponsePdu, head]
  rw [if_neg (mt (hasMask_byte first).mp plain), if_pos isBits]

theorem decodeResponsePdu_registers (head : pdu.head? = some first)
    (isRegisters : first.toNat ∈ [readHoldingRegisters, readInputRegisters]) :
    decodeResponsePdu pdu bitCount = (do
      let (_, payload) ← readPayload pdu
      let regs ← unpackRegisters payload
      return if first.toNat = readHoldingRegisters then .readHoldingRegisters regs
        else .readInputRegisters regs) := by
  obtain ⟨_, plain⟩ := supported_of_mem isRegisters (by decide)
  have notBits := not_bits_of_registers isRegisters
  simp only [decodeResponsePdu, head]
  rw [if_neg (mt (hasMask_byte first).mp plain), if_neg notBits, if_pos isRegisters]

theorem decodeResponsePdu_single (head : pdu.head? = some first)
    (isSingle : first.toNat ∈ [writeSingleCoil, writeSingleRegister]) :
    decodeResponsePdu pdu bitCount = (do
      let (_, addr, raw) ← readRequest pdu
      return if first.toNat = writeSingleCoil then .writeSingleCoil addr (raw == coilOn)
        else .writeSingleRegister addr raw) := by
  obtain ⟨_, plain⟩ := supported_of_mem isSingle (by decide)
  obtain ⟨notBits, notRegisters⟩ := not_read_of_write
    (List.mem_append_left [writeMultipleCoils, writeMultipleRegisters] isSingle)
  simp only [decodeResponsePdu, head]
  rw [if_neg (mt (hasMask_byte first).mp plain), if_neg notBits, if_neg notRegisters, if_pos isSingle]

theorem decodeResponsePdu_multiple (head : pdu.head? = some first)
    (isMultiple : first.toNat ∈ [writeMultipleCoils, writeMultipleRegisters]) :
    decodeResponsePdu pdu bitCount =
      if pdu.length ≠ 5 then .error (illegalDataValueError "expected a 5-byte PDU" none)
      else do
        let (_, addr, qty) ← unpackBHH pdu
        return if first.toNat = writeMultipleCoils then .writeMultipleCoils addr qty
          else .writeMultipleRegisters addr qty := by
  obtain ⟨_, plain⟩ := supported_of_mem isMultiple (by decide)
  obtain ⟨notBits, notRegisters⟩ := not_read_of_write
    (List.mem_append_right [writeSingleCoil, writeSingleRegister] isMultiple)
  have notSingle : first.toNat ∉ [writeSingleCoil, writeSingleRegister] := by
    revert isMultiple
    generalize first.toNat = fc
    simp only [List.mem_cons, List.not_mem_nil, or_false]
    rintro (rfl | rfl) <;> decide
  simp only [decodeResponsePdu, head]
  rw [if_neg (mt (hasMask_byte first).mp plain), if_neg notBits, if_neg notRegisters,
    if_neg notSingle, if_pos isMultiple]

theorem decodeResponsePdu_unsupported (head : pdu.head? = some first) (plain : ¬ 128 ≤ first.toNat)
    (unsupported : first.toNat ∉ supportedFunctionCodes) :
    decodeResponsePdu pdu bitCount = .error (unsupportedFunctionCode first.toNat) := by
  simp only [supportedFunctionCodes, List.mem_cons, List.not_mem_nil, or_false, not_or]
    at unsupported
  simp only [decodeResponsePdu, head]
  rw [if_neg (mt (hasMask_byte first).mp plain)]
  simp [unsupported]

end Decoder

/-! ### What the decoder accepts, and how it fails -/

def WellFormedResponse (pdu : Bytes) (bitCount : Option Nat) : Prop :=
  match pdu with
  | [] => False
  | first :: rest =>
    if 128 ≤ first.toNat then rest.length = 1
    else if first.toNat ∈ [readCoils, readDiscreteInputs] then
      ∃ byteCount payload, rest = byteCount :: payload ∧ payload.length = byteCount.toNat ∧
        ∀ n, bitCount = some n → n ≤ 8 * payload.length
    else if first.toNat ∈ [readHoldingRegisters, readInputRegisters] then
      ∃ byteCount payload, rest = byteCount :: payload ∧ payload.length = byteCount.toNat ∧
        payload.length % 2 = 0
    else first.toNat ∈ supportedFunctionCodes ∧ rest.length = 4

def UnsupportedResponse (pdu : Bytes) : Prop :=
  ∃ first, pdu.head? = some first ∧ first.toNat < 128 ∧ first.toNat ∉ supportedFunctionCodes

/-- The decoder's contract: a response for a well-formed PDU, an illegal function for an
unsupported code, an illegal value for anything else. -/
def DecodesOrRaises (pdu : Bytes) (bitCount : Option Nat) : Prop :=
  (∃ r, decodeResponsePdu pdu (bitCount.map (↑)) = .ok r ∧ WellFormedResponse pdu bitCount) ∨
    ∃ e, decodeResponsePdu pdu (bitCount.map (↑)) = .error (.modbus e) ∧
      (e.kind = .illegalFunction ∧ UnsupportedResponse pdu ∨
        e.kind = .illegalDataValue ∧ ¬ UnsupportedResponse pdu ∧ ¬ WellFormedResponse pdu bitCount)

def BareRead (pdu : Bytes) : Prop :=
  ∃ first, pdu = [first] ∧
    first.toNat ∈ [readCoils, readDiscreteInputs, readHoldingRegisters, readInputRegisters]

theorem readPayload_eq (first : UInt8) :
    readPayload [first] = .error (.py .indexError) ∧
      ∀ byteCount payload, readPayload (first :: byteCount :: payload) =
        if payload.length = byteCount.toNat then .ok (byteCount.toNat, payload)
        else .error (illegalDataValueError "byte count does not match response length" none) := by
  refine ⟨by simp [readPayload, item], fun byteCount payload => ?_⟩
  by_cases whole : payload.length = byteCount.toNat
  · simp [readPayload, item, whole]
    omega
  · simp [readPayload, item, whole]
    omega

section Branches

variable {first : UInt8} {rest : Bytes} {bitCount : Option Nat}

theorem DecodesOrRaises.refuses {pdu : Bytes} {message : String} {fc : Option Nat}
    (refused : decodeResponsePdu pdu (bitCount.map (↑)) = .error (illegalDataValueError message fc))
    (supported : ¬ UnsupportedResponse pdu) (illFormed : ¬ WellFormedResponse pdu bitCount) :
    DecodesOrRaises pdu bitCount :=
  .inr ⟨_, refused, .inr ⟨rfl, supported, illFormed⟩⟩

theorem not_unsupported (known : 128 ≤ first.toNat ∨ first.toNat ∈ supportedFunctionCodes) :
    ¬ UnsupportedResponse (first :: rest) := by
  rintro ⟨_, ⟨⟩, plain, unknown⟩
  rcases known with mask | known
  · omega
  · exact unknown known

theorem decodesOrRaises_exception (mask : 128 ≤ first.toNat) :
    DecodesOrRaises (first :: rest) bitCount := by
  have head : (first :: rest).head? = some first := rfl
  have branch := decodeResponsePdu_exception (bitCount.map (↑)) head mask
  by_cases size : rest.length = 1
  · obtain ⟨code, rfl⟩ := List.length_eq_one_iff.mp size
    exact .inl ⟨_, branch, by simp [WellFormedResponse, mask]⟩
  · refine .refuses (branch.trans (if_pos ?_)) (not_unsupported (.inl mask)) ?_
    · simp only [List.length_cons]
      omega
    · simpa [WellFormedResponse, mask] using size

theorem decodesOrRaises_bits (isBits : first.toNat ∈ [readCoils, readDiscreteInputs])
    (byteCount : UInt8) (payload : Bytes) :
    DecodesOrRaises (first :: byteCount :: payload) bitCount := by
  obtain ⟨supported, plain⟩ := supported_of_mem isBits (by decide)
  have head : (first :: byteCount :: payload).head? = some first := rfl
  have branch := decodeResponsePdu_bits (bitCount.map (↑)) head isBits
  rw [(readPayload_eq first).2] at branch
  have known : ¬ UnsupportedResponse (first :: byteCount :: payload) :=
    not_unsupported (.inr supported)
  by_cases whole : payload.length = byteCount.toNat
  · rw [if_pos whole, Raise.ok_bind] at branch
    have count : ((bitCount.map (↑)).getD ((byteCount.toNat * 8 : Nat) : Int) : Int) =
        ((bitCount.getD (byteCount.toNat * 8) : Nat) : Int) := by cases bitCount <;> rfl
    simp only [count] at branch
    by_cases enough : bitCount.getD (byteCount.toNat * 8) ≤ 8 * payload.length
    · rw [unpackBits_of_le enough] at branch
      refine .inl ⟨_, branch, ?_⟩
      simp only [WellFormedResponse, if_neg plain, if_pos isBits]
      refine ⟨byteCount, payload, rfl, whole, ?_⟩
      rintro n rfl
      exact enough
    · rw [unpackBits_of_gt (by omega)] at branch
      apply DecodesOrRaises.refuses branch known
      simp only [WellFormedResponse, if_neg plain, if_pos isBits]
      rintro ⟨_, _, ⟨⟩, _, fits⟩
      cases bitCount with
      | none => exact enough (by rw [Option.getD_none]; omega)
      | some n => exact enough (fits n rfl)
  · rw [if_neg whole] at branch
    apply DecodesOrRaises.refuses branch known
    simp only [WellFormedResponse, if_neg plain, if_pos isBits]
    rintro ⟨_, _, ⟨⟩, size, _⟩
    exact whole size

theorem decodesOrRaises_registers
    (isRegisters : first.toNat ∈ [readHoldingRegisters, readInputRegisters])
    (byteCount : UInt8) (payload : Bytes) :
    DecodesOrRaises (first :: byteCount :: payload) bitCount := by
  obtain ⟨supported, plain⟩ := supported_of_mem isRegisters (by decide)
  have notBits := not_bits_of_registers isRegisters
  have head : (first :: byteCount :: payload).head? = some first := rfl
  have branch := decodeResponsePdu_registers (bitCount.map (↑)) head isRegisters
  rw [(readPayload_eq first).2] at branch
  have known : ¬ UnsupportedResponse (first :: byteCount :: payload) :=
    not_unsupported (.inr supported)
  have shape : WellFormedResponse (first :: byteCount :: payload) bitCount ↔
      payload.length = byteCount.toNat ∧ payload.length % 2 = 0 := by
    simp only [WellFormedResponse, if_neg plain, if_neg notBits, if_pos isRegisters]
    constructor
    · rintro ⟨_, _, ⟨⟩, size, even⟩
      exact ⟨size, even⟩
    · rintro ⟨size, even⟩
      exact ⟨_, _, rfl, size, even⟩
  by_cases whole : payload.length = byteCount.toNat
  · rw [if_pos whole, Raise.ok_bind] at branch
    by_cases even : payload.length % 2 = 0
    · obtain ⟨regs, unpacked, _⟩ := unpackRegisters_of_even even
      simp only [unpacked, Raise.ok_bind] at branch
      exact .inl ⟨_, branch, shape.mpr ⟨whole, even⟩⟩
    · have odd : unpackRegisters payload = .error
          (illegalDataValueError "register byte string must have even length" none) := by
        rw [unpackRegisters, if_pos even]
      simp only [odd, Raise.error_bind] at branch
      exact .refuses branch known fun both => even (shape.mp both).2
  · rw [if_neg whole] at branch
    exact .refuses branch known fun both => whole (shape.mp both).1

theorem decodesOrRaises_write (isWrite : first.toNat ∈
      [writeSingleCoil, writeSingleRegister, writeMultipleCoils, writeMultipleRegisters]) :
    DecodesOrRaises (first :: rest) bitCount := by
  obtain ⟨supported, plain⟩ := supported_of_mem isWrite (by decide)
  obtain ⟨notBits, notRegisters⟩ := not_read_of_write isWrite
  have known : ¬ UnsupportedResponse (first :: rest) := not_unsupported (.inr supported)
  have shape : WellFormedResponse (first :: rest) bitCount ↔ (first :: rest).length = 5 := by
    simp only [WellFormedResponse, if_neg plain, if_neg notBits, if_neg notRegisters, supported,
      true_and, List.length_cons]
    omega
  have head : (first :: rest).head? = some first := rfl
  have isOne : first.toNat ∈ [writeSingleCoil, writeSingleRegister] ∨
      first.toNat ∈ [writeMultipleCoils, writeMultipleRegisters] := List.mem_append.mp isWrite
  by_cases size : (first :: rest).length = 5
  · obtain ⟨a, b, c, fields⟩ := unpackBHH_isOk size
    left
    rcases isOne with single | multiple
    · have branch := decodeResponsePdu_single (bitCount.map (↑)) head single
      rw [readRequest_of_length size, fields] at branch
      exact ⟨_, branch, shape.mpr size⟩
    · have branch := decodeResponsePdu_multiple (bitCount.map (↑)) head multiple
      rw [if_neg (not_not.mpr size), fields] at branch
      exact ⟨_, branch, shape.mpr size⟩
  · rcases isOne with single | multiple
    · have branch := decodeResponsePdu_single (bitCount.map (↑)) head single
      rw [readRequest_of_length_ne head size] at branch
      exact .refuses branch known (mt shape.mp size)
    · have branch := decodeResponsePdu_multiple (bitCount.map (↑)) head multiple
      rw [if_pos size] at branch
      exact .refuses branch known (mt shape.mp size)

theorem decodesOrRaises_unsupported (plain : ¬ 128 ≤ first.toNat)
    (unsupported : first.toNat ∉ supportedFunctionCodes) :
    DecodesOrRaises (first :: rest) bitCount := by
  have head : (first :: rest).head? = some first := rfl
  have branch := decodeResponsePdu_unsupported (bitCount.map (↑)) head plain unsupported
  exact .inr ⟨_, branch, .inl ⟨rfl, first, rfl, by omega, unsupported⟩⟩

end Branches

theorem decodeResponsePdu_bareRead {pdu : Bytes} (bare : BareRead pdu) (bitCount : Option Int) :
    decodeResponsePdu pdu bitCount = .error (.py .indexError) := by
  obtain ⟨first, rfl, isRead⟩ := bare
  obtain ⟨_, plain⟩ := supported_of_mem isRead (by decide)
  simp only [decodeResponsePdu, List.head?_cons]
  rw [if_neg (mt (hasMask_byte first).mp plain), (readPayload_eq first).1]
  by_cases bits : first.toNat ∈ [readCoils, readDiscreteInputs]
  · rw [if_pos bits, Raise.error_bind]
  · have registers : first.toNat ∈ [readHoldingRegisters, readInputRegisters] := by
      simp only [List.mem_cons, List.not_mem_nil, or_false] at isRead bits ⊢
      tauto
    rw [if_neg bits, if_pos registers, Raise.error_bind]

/-- The decoder keeps its contract on every PDU but a read response of a single byte. -/
theorem decodesOrRaises_iff (pdu : Bytes) (bitCount : Option Nat) :
    DecodesOrRaises pdu bitCount ↔ ¬ BareRead pdu := by
  constructor
  · rintro keeps bare
    have escapes := decodeResponsePdu_bareRead bare (bitCount.map (↑))
    rcases keeps with ⟨r, decoded, _⟩ | ⟨e, raised, _⟩
    · exact absurd (decoded.symm.trans escapes) (by simp)
    · exact absurd (raised.symm.trans escapes) (by simp)
  · intro full
    cases pdu with
    | nil => exact .refuses rfl (by simp [UnsupportedResponse]) id
    | cons first rest =>
      by_cases mask : 128 ≤ first.toNat
      · exact decodesOrRaises_exception mask
      by_cases supported : first.toNat ∈ supportedFunctionCodes
      · by_cases isWrite : first.toNat ∈
            [writeSingleCoil, writeSingleRegister, writeMultipleCoils, writeMultipleRegisters]
        · exact decodesOrRaises_write isWrite
        · have isRead : first.toNat ∈
              [readCoils, readDiscreteInputs, readHoldingRegisters, readInputRegisters] := by
            simp only [supportedFunctionCodes, List.mem_cons, List.not_mem_nil, or_false]
              at supported isWrite ⊢
            tauto
          cases rest with
          | nil => exact absurd ⟨first, rfl, isRead⟩ full
          | cons byteCount payload =>
            by_cases bits : first.toNat ∈ [readCoils, readDiscreteInputs]
            · exact decodesOrRaises_bits bits byteCount payload
            · refine decodesOrRaises_registers ?_ byteCount payload
              simp only [List.mem_cons, List.not_mem_nil, or_false] at isRead bits ⊢
              tauto
      · exact decodesOrRaises_unsupported mask supported

/-- A lone function code of a read escapes with an index error. -/
theorem bareRead_escapes :
    decodeResponsePdu [0x03] none = .error (.py .indexError) ∧ ¬ DecodesOrRaises [0x03] none := by
  have escapes : decodeResponsePdu [0x03] none = .error (.py .indexError) := by decide
  refine ⟨escapes, ?_⟩
  rintro (⟨r, decoded, _⟩ | ⟨e, raised, _⟩)
  · exact absurd (decoded.symm.trans escapes) (by simp)
  · exact absurd (raised.symm.trans escapes) (by simp)

end ModbusSim.Frame
