import ModbusSim.Frame.Response

/-!
# The response grammar

What `decode_response_pdu` accepts, branch by branch (`decodeResponsePdu_eq_ok`). It reads back
whatever the encoder writes, and but for two kinds of PDU it accepts nothing else.
-/

namespace ModbusSim.Frame

open PyStruct BitPacking

/-- The PDUs that the decoder accepts, with the response it makes of each. -/
inductive Accepts (bitCount : Option Int) : Bytes → Response → Prop
  | readCoils (payload : Bytes) (count : Nat) (few : payload.length < 256)
      (asked : bitCount.getD (payload.length * 8 : Nat) = count)
      (enough : count ≤ 8 * payload.length) :
      Accepts bitCount (counted readCoils payload) (.readCoils (unpacked payload count))
  | readDiscreteInputs (payload : Bytes) (count : Nat) (few : payload.length < 256)
      (asked : bitCount.getD (payload.length * 8 : Nat) = count)
      (enough : count ≤ 8 * payload.length) :
      Accepts bitCount (counted readDiscreteInputs payload)
        (.readDiscreteInputs (unpacked payload count))
  | readHoldingRegisters (regs : List Int) (few : regs.length ≤ 127) (words : ∀ v ∈ regs, IsWord v) :
      Accepts bitCount (counted readHoldingRegisters (registerBytes regs))
        (.readHoldingRegisters regs)
  | readInputRegisters (regs : List Int) (few : regs.length ≤ 127) (words : ∀ v ∈ regs, IsWord v) :
      Accepts bitCount (counted readInputRegisters (registerBytes regs)) (.readInputRegisters regs)
  | writeSingleCoil (a raw : Int) (words : IsWord a ∧ IsWord raw) :
      Accepts bitCount (triple writeSingleCoil a raw) (.writeSingleCoil a (raw == coilOn))
  | writeSingleRegister (a v : Int) (words : IsWord a ∧ IsWord v) :
      Accepts bitCount (triple writeSingleRegister a v) (.writeSingleRegister a v)
  | writeMultipleCoils (a q : Int) (words : IsWord a ∧ IsWord q) :
      Accepts bitCount (triple writeMultipleCoils a q) (.writeMultipleCoils a q)
  | writeMultipleRegisters (a q : Int) (words : IsWord a ∧ IsWord q) :
      Accepts bitCount (triple writeMultipleRegisters a q) (.writeMultipleRegisters a q)
  | exception (fc code : UInt8) (mask : 128 ≤ fc.toNat) :
      Accepts bitCount [fc, code] (.exception (fc.toNat % 128) code.toNat)

/-! ### What each branch accepts -/

theorem readPayload_head {pdu payload : Bytes} {first : UInt8} {byteCount : Nat}
    (head : pdu.head? = some first) (read : readPayload pdu = .ok (byteCount, payload)) :
    payload.length < 256 ∧ byteCount = payload.length ∧ pdu = counted first.toNat payload := by
  match pdu, head with
  | [_], rfl =>
    rw [(readPayload_eq _).1] at read
    cases read
  | _ :: size :: body, rfl =>
    rw [(readPayload_eq _).2] at read
    split at read
    next whole =>
      cases read
      have bound := size.toNat_lt
      refine ⟨by omega, whole.symm, ?_⟩
      simp [counted, layout_cons, layout_nil, Field.bytes, whole]
    next => cases read

theorem unpackBits_eq_ok {data : Bytes} {count : Int} {bits : List Bool} :
    unpackBits data count = .ok bits ↔
      ∃ n : Nat, count = n ∧ n ≤ 8 * data.length ∧ bits = unpacked data n := by
  constructor
  · intro unpackedBits
    by_cases nonneg : 0 ≤ count
    · obtain ⟨n, rfl⟩ := Int.eq_ofNat_of_zero_le nonneg
      by_cases enough : n ≤ 8 * data.length
      · rw [unpackBits_of_le enough] at unpackedBits
        cases unpackedBits
        exact ⟨n, rfl, enough, rfl⟩
      · rw [unpackBits_of_gt (by omega)] at unpackedBits
        cases unpackedBits
    · rw [unpackBits, if_pos (by omega)] at unpackedBits
      cases unpackedBits
  · rintro ⟨n, rfl, enough, rfl⟩
    exact unpackBits_of_le enough

theorem unpackRegisters_eq_ok {data : Bytes} {regs : List Int} :
    unpackRegisters data = .ok regs ↔ (∀ v ∈ regs, IsWord v) ∧ data = registerBytes regs := by
  constructor
  · intro unpackedRegs
    by_cases even : data.length % 2 = 0
    · obtain ⟨values, same, _, words, bytes⟩ := unpackRegisters_of_even even
      cases unpackedRegs.symm.trans same
      exact ⟨words, bytes.symm⟩
    · rw [unpackRegisters, if_pos even] at unpackedRegs
      cases unpackedRegs
  · rintro ⟨words, rfl⟩
    exact unpackRegisters_registerBytes words

section Accepted

variable {pdu : Bytes} {first : UInt8} {bitCount : Option Int} {r : Response}

theorem accepts_exception (head : pdu.head? = some first) (mask : 128 ≤ first.toNat)
    (decoded : decodeResponsePdu pdu bitCount = .ok r) : Accepts bitCount pdu r := by
  rw [decodeResponsePdu_exception bitCount head mask] at decoded
  split at decoded
  next => cases decoded
  next size =>
    match pdu, head, not_not.mp size with
    | [_, code], rfl, _ =>
      rw [withoutMask_eq first.toNat_lt] at decoded
      cases decoded
      exact .exception first code mask

theorem accepts_bits (head : pdu.head? = some first)
    (isBits : first.toNat ∈ [readCoils, readDiscreteInputs])
    (decoded : decodeResponsePdu pdu bitCount = .ok r) : Accepts bitCount pdu r := by
  rw [decodeResponsePdu_bits bitCount head isBits] at decoded
  obtain ⟨⟨byteCount, payload⟩, read, rest⟩ := Raise.bind_eq_ok.mp decoded
  obtain ⟨bits, unpackedBits, result⟩ := Raise.bind_eq_ok.mp rest
  obtain ⟨few, rfl, rfl⟩ := readPayload_head head read
  obtain ⟨n, asked, enough, rfl⟩ := unpackBits_eq_ok.mp unpackedBits
  simp only [List.mem_cons, List.not_mem_nil, or_false] at isBits
  rcases isBits with coils | inputs
  · rw [coils] at result ⊢
    cases result
    exact .readCoils payload n few asked enough
  · rw [inputs] at result ⊢
    cases result
    exact .readDiscreteInputs payload n few asked enough

theorem accepts_registers (head : pdu.head? = some first)
    (isRegisters : first.toNat ∈ [readHoldingRegisters, readInputRegisters])
    (decoded : decodeResponsePdu pdu bitCount = .ok r) : Accepts bitCount pdu r := by
  rw [decodeResponsePdu_registers bitCount head isRegisters] at decoded
  obtain ⟨⟨byteCount, payload⟩, read, rest⟩ := Raise.bind_eq_ok.mp decoded
  obtain ⟨regs, unpackedRegs, result⟩ := Raise.bind_eq_ok.mp rest
  obtain ⟨few, rfl, rfl⟩ := readPayload_head head read
  obtain ⟨words, rfl⟩ := unpackRegisters_eq_ok.mp unpackedRegs
  rw [length_registerBytes words] at few
  simp only [List.mem_cons, List.not_mem_nil, or_false] at isRegisters
  rcases isRegisters with holding | input
  · rw [holding] at result ⊢
    cases result
    exact .readHoldingRegisters regs (by omega) words
  · rw [input] at result ⊢
    cases result
    exact .readInputRegisters regs (by omega) words

theorem accepts_single (head : pdu.head? = some first)
    (isSingle : first.toNat ∈ [writeSingleCoil, writeSingleRegister])
    (decoded : decodeResponsePdu pdu bitCount = .ok r) : Accepts bitCount pdu r := by
  rw [decodeResponsePdu_single bitCount head isSingle] at decoded
  obtain ⟨⟨fc, addr, raw⟩, read, result⟩ := Raise.bind_eq_ok.mp decoded
  obtain ⟨words, rfl⟩ := readRequest_head head read
  simp only [List.mem_cons, List.not_mem_nil, or_false] at isSingle
  rcases isSingle with coil | register
  · rw [coil] at result ⊢
    cases result
    exact .writeSingleCoil addr raw words
  · rw [register] at result ⊢
    cases result
    exact .writeSingleRegister addr raw words

theorem accepts_multiple (head : pdu.head? = some first)
    (isMultiple : first.toNat ∈ [writeMultipleCoils, writeMultipleRegisters])
    (decoded : decodeResponsePdu pdu bitCount = .ok r) : Accepts bitCount pdu r := by
  rw [decodeResponsePdu_multiple bitCount head isMultiple] at decoded
  split at decoded
  next => cases decoded
  next size =>
    obtain ⟨⟨fc, addr, qty⟩, read, result⟩ := Raise.bind_eq_ok.mp decoded
    rw [← readRequest_of_length (not_not.mp size)] at read
    obtain ⟨words, rfl⟩ := readRequest_head head read
    simp only [List.mem_cons, List.not_mem_nil, or_false] at isMultiple
    rcases isMultiple with coils | registers
    · rw [coils] at result ⊢
      cases result
      exact .writeMultipleCoils addr qty words
    · rw [registers] at result ⊢
      cases result
      exact .writeMultipleRegisters addr qty words

end Accepted

theorem accepts_of_decoded {pdu : Bytes} {bitCount : Option Int} {r : Response}
    (decoded : decodeResponsePdu pdu bitCount = .ok r) : Accepts bitCount pdu r := by
  cases head : pdu.head? with
  | none => simp [decodeResponsePdu, head] at decoded
  | some first =>
    by_cases mask : 128 ≤ first.toNat
    · exact accepts_exception head mask decoded
    by_cases isBits : first.toNat ∈ [readCoils, readDiscreteInputs]
    · exact accepts_bits head isBits decoded
    by_cases isRegisters : first.toNat ∈ [readHoldingRegisters, readInputRegisters]
    · exact accepts_registers head isRegisters decoded
    by_cases isSingle : first.toNat ∈ [writeSingleCoil, writeSingleRegister]
    · exact accepts_single head isSingle decoded
    by_cases isMultiple : first.toNat ∈ [writeMultipleCoils, writeMultipleRegisters]
    · exact accepts_multiple head isMultiple decoded
    have unsupported : first.toNat ∉ supportedFunctionCodes := by
      simp only [List.mem_cons, List.not_mem_nil, or_false, not_or] at isBits isRegisters isSingle isMultiple
      simp [supportedFunctionCodes, isBits, isRegisters, isSingle, isMultiple]
    rw [decodeResponsePdu_unsupported bitCount head mask unsupported] at decoded
    cases decoded

theorem decoded_of_accepts {pdu : Bytes} {bitCount : Option Int} {r : Response}
    (accepted : Accepts bitCount pdu r) : decodeResponsePdu pdu bitCount = .ok r := by
  cases accepted with
  | readCoils payload count few asked enough | readDiscreteInputs payload count few asked enough =>
    rw [decodeResponsePdu_bits bitCount rfl (by decide), readPayload_counted few, Raise.ok_bind]
    simp only [asked, unpackBits_of_le enough]
    rfl
  | readHoldingRegisters regs few words | readInputRegisters regs few words =>
    have size := length_registerBytes words
    rw [decodeResponsePdu_registers bitCount rfl (by decide), readPayload_counted (by omega),
      Raise.ok_bind]
    simp only [unpackRegisters_registerBytes words]
    rfl
  | writeSingleCoil a raw words | writeSingleRegister a raw words =>
    rw [decodeResponsePdu_single bitCount rfl (by decide), readRequest_triple (by decide) words]
    rfl
  | writeMultipleCoils a q words | writeMultipleRegisters a q words =>
    rw [decodeResponsePdu_multiple bitCount rfl (by decide), if_neg (not_not.mpr (length_triple ..)),
      unpackBHH_triple (by decide) words]
    rfl
  | exception fc code mask =>
    rw [decodeResponsePdu_exception bitCount rfl mask, withoutMask_eq fc.toNat_lt]
    rfl

theorem decodeResponsePdu_eq_ok {pdu : Bytes} {bitCount : Option Int} {r : Response} :
    decodeResponsePdu pdu bitCount = .ok r ↔ Accepts bitCount pdu r :=
  ⟨accepts_of_decoded, decoded_of_accepts⟩

/-! ### Reading back what the encoder writes -/

/-- What the decoder makes of the wire form when it is not told the number of bits: they are
filled up with zeros to whole bytes. -/
def Response.padded : Response → Response
  | .readCoils bits =>
    .readCoils (bits ++ List.replicate (8 * octets bits.length - bits.length) false)
  | .readDiscreteInputs bits =>
    .readDiscreteInputs (bits ++ List.replicate (8 * octets bits.length - bits.length) false)
  | r => r

theorem decodeResponsePdu_wire_none {r : Response} (encodable : r.Encodable) (plain : r.Plain) :
    decodeResponsePdu r.wire none = .ok r.padded := by
  cases r with
  | readCoils bits | readDiscreteInputs bits =>
    have size : (packed bits).length = octets bits.length := length_packed bits
    have few : (packed bits).length < 256 := by
      have short : bits.length ≤ 2040 := encodable
      rw [size, octets]
      omega
    apply decodeResponsePdu_eq_ok.mpr
    rw [Response.padded, ← unpacked_packed_octets]
    constructor
    · exact few
    · rw [Option.getD_none, size, Nat.mul_comm]
    · rw [size]
  | readHoldingRegisters | readInputRegisters | writeSingleCoil | writeSingleRegister
  | writeMultipleCoils | writeMultipleRegisters | exception =>
    exact decodeResponsePdu_wire encodable plain trivial

/-- Decoding undoes the encoding of every response: whole when the number of bits is given, and
with the padding of the last byte when it is not. -/
theorem decode_encodeResponsePdu (r : Response) :
    ((∃ p, encodeResponsePdu r = .ok p) ↔ r.Encodable) ∧
      ∀ p, encodeResponsePdu r = .ok p → r.Plain →
        (∀ bitCount, r.Requested bitCount → decodeResponsePdu p bitCount = .ok r) ∧
          decodeResponsePdu p none = .ok r.padded := by
  refine ⟨⟨?_, ?_⟩, ?_⟩
  · rintro ⟨p, encoded⟩
    exact (encodeResponsePdu_eq_ok.mp encoded).1
  · intro encodable
    exact ⟨r.wire, (encodeResponsePdu_eq r).1 encodable⟩
  · intro p encoded plain
    obtain ⟨encodable, rfl⟩ := encodeResponsePdu_eq_ok.mp encoded
    exact ⟨fun bitCount requested => decodeResponsePdu_wire encodable plain requested,
      decodeResponsePdu_wire_none encodable plain⟩

/-- Three coils, with their number and without it. -/
theorem decode_encodeResponsePdu_coils :
    decodeResponsePdu [0x01, 0x01, 0x05] (some 3) = .ok (.readCoils [true, false, true]) ∧
      decodeResponsePdu [0x01, 0x01, 0x05] none =
        .ok (.readCoils [true, false, true, false, false, false, false, false]) := by
  obtain ⟨whole, padded⟩ :=
    (decode_encodeResponsePdu (.readCoils [true, false, true])).2 [0x01, 0x01, 0x05] rfl trivial
  exact ⟨whole (some 3) rfl, padded⟩

/-! ### Accepting nothing else -/

/-- Clear the bits of the last data byte of a bit read that were not asked for; any other PDU is
left as it is. -/
def clearPadding (bitCount : Option Int) (pdu : Bytes) : Bytes :=
  if pdu.head? = some 0x01 ∨ pdu.head? = some 0x02 then
    match bitCount with
    | some n => pdu.take 2 ++ clearLast n.toNat (pdu.drop 2)
    | none => pdu
  else pdu

/-- The shapes that break the wire rules: a byte count that is not the one the number of bits
needs, an odd byte count of registers, a coil that is neither on nor off. -/
def Malformed (pdu : Bytes) (bitCount : Option Int) : Prop :=
  (pdu.head? = some 0x01 ∨ pdu.head? = some 0x02) ∧
      (∃ n, bitCount = some n ∧ (byteAt pdu 1 : Int) ≠ (n + 7) / 8) ∨
    (pdu.head? = some 0x03 ∨ pdu.head? = some 0x04) ∧ byteAt pdu 1 % 2 = 1 ∨
    pdu.head? = some 0x05 ∧ wordAt pdu 3 ≠ 0xFF00 ∧ wordAt pdu 3 ≠ 0x0000

/-- The decoder accepts the PDU only as the encoding of its response, and not at all when it
breaks the wire rules. -/
structure AcceptsOnlyEncodings (pdu : Bytes) (bitCount : Option Int) : Prop where
  reproduced : ∀ r, decodeResponsePdu pdu bitCount = .ok r →
    encodeResponsePdu r = .ok (clearPadding bitCount pdu)
  rejects : Malformed pdu bitCount → ∀ r, decodeResponsePdu pdu bitCount ≠ .ok r

def MisvaluedEcho (pdu : Bytes) : Prop :=
  pdu.length = 5 ∧ pdu.head? = some 0x05 ∧ wordAt pdu 3 ≠ 0xFF00 ∧ wordAt pdu 3 ≠ 0x0000

def SurplusBytes (pdu : Bytes) (bitCount : Option Int) : Prop :=
  (pdu.head? = some 0x01 ∨ pdu.head? = some 0x02) ∧ pdu.length = 2 + byteAt pdu 1 ∧
    ∃ n : Nat, bitCount = some (n : Int) ∧ octets n < byteAt pdu 1

theorem wordAt_triple {fc a q : Int} (word : IsWord q) : (wordAt (triple fc a q) 3 : Int) = q := by
  obtain ⟨nonneg, bounded⟩ := word
  obtain ⟨n, rfl⟩ := Int.eq_ofNat_of_zero_le nonneg
  simp only [registerMax] at bounded
  simp [wordAt, triple, layout_cons, layout_nil, Field.bytes]
  omega

theorem byteAt_counted {fc : Nat} {payload : Bytes} (few : payload.length < 256) :
    byteAt (counted fc payload) 1 = payload.length := by
  simp [byteAt, counted, layout_cons, layout_nil, Field.bytes]
  omega

/-- Asked for a number of bits that fills the payload's bytes, the padding is what packing the
bits again leaves out. -/
theorem clearPadding_counted {bitCount : Option Int} {fc : Nat} {payload : Bytes} {count : Nat}
    (isBits : fc = readCoils ∨ fc = readDiscreteInputs)
    (asked : bitCount.getD (payload.length * 8 : Nat) = count)
    (filled : payload.length = octets count) :
    clearPadding bitCount (counted fc payload) = counted fc (packed (unpacked payload count)) := by
  have lead : (counted fc payload).head? = some 0x01 ∨ (counted fc payload).head? = some 0x02 :=
    isBits.imp (fun coils => by rw [coils]; rfl) fun inputs => by rw [inputs]; rfl
  unfold clearPadding
  rw [packed_unpacked filled, if_pos lead]
  cases bitCount with
  | none =>
    have all : 8 * payload.length ≤ count := by
      rw [Option.getD_none] at asked
      omega
    rw [clearFrom_of_le all]
  | some n =>
    obtain rfl : n = (count : Int) := asked
    have front : (counted fc payload).take 2 = layout [.B, .B] [fc, payload.length] := rfl
    have back : (counted fc payload).drop 2 = payload := rfl
    simp only [front, back, Int.toNat_natCast]
    rw [clearLast_eq_clearFrom filled, counted, length_clearFrom]

theorem clearPadding_other {bitCount : Option Int} {pdu : Bytes} {first : UInt8}
    (head : pdu.head? = some first) (other : ¬ (first = 0x01 ∨ first = 0x02)) :
    clearPadding bitCount pdu = pdu := by
  unfold clearPadding
  rw [if_neg]
  rw [head, Option.some_inj, Option.some_inj]
  exact other

theorem filled_of_accepted {bitCount : Option Int} {fc : Nat} {payload : Bytes} {count : Nat}
    (isBits : fc = readCoils ∨ fc = readDiscreteInputs) (few : payload.length < 256)
    (asked : bitCount.getD (payload.length * 8 : Nat) = count)
    (enough : count ≤ 8 * payload.length)
    (noSurplus : ¬ SurplusBytes (counted fc payload) bitCount) :
    payload.length = octets count := by
  cases bitCount with
  | none =>
    rw [Option.getD_none] at asked
    rw [octets]
    omega
  | some n =>
    cases asked
    have needed : ¬ octets count < payload.length := by
      intro surplus
      apply noSurplus
      refine ⟨?_, ?_, count, rfl, ?_⟩
      · exact isBits.imp (fun coils => by rw [coils]; rfl) fun inputs => by rw [inputs]; rfl
      · rw [byteAt_counted few, length_counted]
      · rw [byteAt_counted few]
        exact surplus
    rw [octets] at needed ⊢
    omega

/-- Off the two defects an accepted PDU is the wire form of its response, up to padding. -/
theorem wire_of_accepted {pdu : Bytes} {bitCount : Option Int} {r : Response}
    (accepted : Accepts bitCount pdu r) (echoed : ¬ MisvaluedEcho pdu)
    (noSurplus : ¬ SurplusBytes pdu bitCount) :
    r.Encodable ∧ clearPadding bitCount pdu = r.wire := by
  cases accepted with
  | readCoils payload count few asked enough | readDiscreteInputs payload count few asked enough =>
    have filled := filled_of_accepted (by decide) few asked enough noSurplus
    rw [clearPadding_counted (by decide) asked filled]
    exact ⟨by simp only [Response.Encodable, length_unpacked]; omega, rfl⟩
  | readHoldingRegisters regs few words | readInputRegisters regs few words =>
    rw [clearPadding_other rfl (by decide)]
    exact ⟨⟨few, words⟩, rfl⟩
  | writeSingleCoil a raw words =>
    rw [clearPadding_other rfl (by decide)]
    have value := @wordAt_triple writeSingleCoil a raw words.2
    have valued : raw = coilOn ∨ raw = coilOff := by
      by_contra neither
      apply echoed
      refine ⟨rfl, rfl, ?_, ?_⟩
      · intro on
        exact neither (.inl (by rw [← value, on]; rfl))
      · intro off
        exact neither (.inr (by rw [← value, off]; rfl))
    refine ⟨words.1, ?_⟩
    rcases valued with rfl | rfl <;> rfl
  | writeSingleRegister a v words | writeMultipleCoils a v words
  | writeMultipleRegisters a v words =>
    rw [clearPadding_other rfl (by decide)]
    exact ⟨words, rfl⟩
  | exception fc code mask =>
    have small := fc.toNat_lt
    have byte : fc.toNat % 128 < 256 := by omega
    have lead : UInt8.ofNat (fc.toNat % 128 ||| exceptionMask) = fc := by
      have whole : fc.toNat % 128 % 128 + 128 = fc.toNat := by omega
      rw [withMask_eq byte, whole, UInt8.ofNat_toNat]
    refine ⟨⟨byte, code.toNat_lt⟩, ?_⟩
    rw [clearPadding_other rfl]
    · simp [Response.wire, layout_cons, layout_nil, Field.bytes, lead]
    · rintro (rfl | rfl)
      · exact absurd mask (by decide)
      · exact absurd mask (by decide)

theorem malformed_iff {pdu : Bytes} {bitCount : Option Int} {first : UInt8}
    (head : pdu.head? = some first) :
    Malformed pdu bitCount ↔
      (first = 0x01 ∨ first = 0x02) ∧
          (∃ n, bitCount = some n ∧ (byteAt pdu 1 : Int) ≠ (n + 7) / 8) ∨
        (first = 0x03 ∨ first = 0x04) ∧ byteAt pdu 1 % 2 = 1 ∨
        first = 0x05 ∧ wordAt pdu 3 ≠ 0xFF00 ∧ wordAt pdu 3 ≠ 0x0000 := by
  unfold Malformed
  simp only [head, Option.some_inj]

theorem byteCount_of_filled {bitCount : Option Int} {fc : Nat} {payload : Bytes} {count : Nat}
    (few : payload.length < 256) (asked : bitCount.getD (payload.length * 8 : Nat) = count)
    (filled : payload.length = octets count) :
    ¬ ∃ n, bitCount = some n ∧ (byteAt (counted fc payload) 1 : Int) ≠ (n + 7) / 8 := by
  rintro ⟨n, rfl, wrong⟩
  obtain rfl : n = (count : Int) := asked
  apply wrong
  rw [byteAt_counted few, filled, octets]
  omega

/-- Off the two defects an accepted PDU breaks no wire rule. -/
theorem not_malformed_of_accepted {pdu : Bytes} {bitCount : Option Int} {r : Response}
    (accepted : Accepts bitCount pdu r) (echoed : ¬ MisvaluedEcho pdu)
    (noSurplus : ¬ SurplusBytes pdu bitCount) : ¬ Malformed pdu bitCount := by
  cases accepted with
  | readCoils payload count few asked enough | readDiscreteInputs payload count few asked enough =>
    have filled := filled_of_accepted (by decide) few asked enough noSurplus
    rw [malformed_iff rfl]
    rintro (⟨_, wrong⟩ | ⟨registers, _⟩ | ⟨coil, _⟩)
    · exact byteCount_of_filled few asked filled wrong
    · exact absurd registers (by decide)
    · exact absurd coil (by decide)
  | readHoldingRegisters regs few words | readInputRegisters regs few words =>
    have size := length_registerBytes words
    rw [malformed_iff rfl, byteAt_counted (by omega)]
    rintro (⟨bits, _⟩ | ⟨_, odd⟩ | ⟨coil, _⟩)
    · exact absurd bits (by decide)
    · omega
    · exact absurd coil (by decide)
  | writeSingleCoil a raw words =>
    rw [malformed_iff rfl]
    rintro (⟨bits, _⟩ | ⟨registers, _⟩ | ⟨_, value⟩)
    · exact absurd bits (by decide)
    · exact absurd registers (by decide)
    · exact echoed ⟨rfl, rfl, value⟩
  | writeSingleRegister a v words | writeMultipleCoils a v words
  | writeMultipleRegisters a v words =>
    rw [malformed_iff rfl]
    rintro (⟨bits, _⟩ | ⟨registers, _⟩ | ⟨coil, _⟩)
    · exact absurd bits (by decide)
    · exact absurd registers (by decide)
    · exact absurd coil (by decide)
  | exception fc code mask =>
    rw [malformed_iff rfl]
    rintro (⟨rfl | rfl, _⟩ | ⟨rfl | rfl, _⟩ | ⟨rfl, _⟩) <;> exact absurd mask (by decide)

theorem decoded_of_misvaluedEcho {pdu : Bytes} (misvalued : MisvaluedEcho pdu)
    (bitCount : Option Int) : ∃ r, decodeResponsePdu pdu bitCount = .ok r := by
  obtain ⟨size, head, _⟩ := misvalued
  obtain ⟨a, b, c, fields⟩ := unpackBHH_isOk size
  rw [decodeResponsePdu_single bitCount head (by decide), readRequest_of_length size, fields]
  exact ⟨_, rfl⟩

theorem decoded_of_surplusBytes {pdu : Bytes} {bitCount : Option Int}
    (surplus : SurplusBytes pdu bitCount) : ∃ r, decodeResponsePdu pdu bitCount = .ok r := by
  obtain ⟨isBits, size, n, rfl, more⟩ := surplus
  match pdu, isBits, size, more with
  | first :: byteCount :: payload, isBits, size, more =>
    have bits : first.toNat ∈ [readCoils, readDiscreteInputs] := by
      rcases isBits with coils | inputs
      · cases coils
        decide
      · cases inputs
        decide
    have counts : byteAt (first :: byteCount :: payload) 1 = byteCount.toNat := rfl
    have whole : payload.length = byteCount.toNat := by
      rw [counts, List.length_cons, List.length_cons] at size
      omega
    rw [counts, octets] at more
    rw [decodeResponsePdu_bits _ rfl bits, (readPayload_eq first).2, if_pos whole, Raise.ok_bind]
    simp only [Option.getD_some]
    rw [unpackBits_of_le (by omega)]
    exact ⟨_, rfl⟩
  | [first], isBits, size, more => exact absurd size (by simp [byteAt])

/-- The decoder accepts only encodings except for coil echoes with another value and bit reads
with surplus bytes; it accepts all of those. -/
theorem acceptsOnlyEncodings_iff (pdu : Bytes) (bitCount : Option Int) :
    AcceptsOnlyEncodings pdu bitCount ↔ ¬ MisvaluedEcho pdu ∧ ¬ SurplusBytes pdu bitCount := by
  constructor
  · intro keeps
    constructor
    · intro misvalued
      obtain ⟨r, decoded⟩ := decoded_of_misvaluedEcho misvalued bitCount
      obtain ⟨_, head, value⟩ := misvalued
      exact keeps.rejects (.inr (.inr ⟨head, value⟩)) r decoded
    · intro surplus
      obtain ⟨r, decoded⟩ := decoded_of_surplusBytes surplus
      obtain ⟨isBits, _, n, asked, more⟩ := surplus
      refine keeps.rejects (.inl ⟨isBits, n, asked, ?_⟩) r decoded
      rw [octets] at more
      omega
  · rintro ⟨echoed, noSurplus⟩
    constructor
    · intro r decoded
      exact encodeResponsePdu_eq_ok.mpr (wire_of_accepted (accepts_of_decoded decoded) echoed noSurplus)
    · intro malformed r decoded
      exact not_malformed_of_accepted (accepts_of_decoded decoded) echoed noSurplus malformed

/-- A coil echo that is neither on nor off is read as off, and a bit read of one byte too many is
read as if the byte were not there. -/
theorem coilEcho_accepted :
    decodeResponsePdu [0x05, 0x00, 0x00, 0x12, 0x34] none = .ok (.writeSingleCoil 0 false) ∧
      ¬ AcceptsOnlyEncodings [0x05, 0x00, 0x00, 0x12, 0x34] none ∧
      decodeResponsePdu [0x01, 0x02, 0x01, 0x00] (some 1) = .ok (.readCoils [true]) ∧
      ¬ AcceptsOnlyEncodings [0x01, 0x02, 0x01, 0x00] (some 1) := by
  have echoed : decodeResponsePdu [0x05, 0x00, 0x00, 0x12, 0x34] none =
      .ok (.writeSingleCoil 0 false) := by decide
  have surplus : decodeResponsePdu [0x01, 0x02, 0x01, 0x00] (some 1) = .ok (.readCoils [true]) := by
    decide
  refine ⟨echoed, ?_, surplus, ?_⟩
  · intro keeps
    exact absurd (keeps.reproduced _ echoed) (by decide)
  · intro keeps
    exact absurd (keeps.reproduced _ surplus) (by decide)

end ModbusSim.Frame
