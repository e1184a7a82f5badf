import ModbusSim.Frame.Request

/-!
# The request grammar

What the encoder writes (`encodeRequestPdu_eq`), that the decoder reads it back, and that the
decoder accepts nothing else, up to the padding bits of a multiple-coil write.
-/

namespace ModbusSim.Frame

open PyStruct BitPacking

def Request.Encodable : Request → Prop
  | .readCoils a c | .readDiscreteInputs a c | .readHoldingRegisters a c | .readInputRegisters a c =>
    IsWord a ∧ IsWord c
  | .writeSingleCoil a _ => IsWord a
  | .writeSingleRegister a v => IsWord a ∧ IsWord v
  | .writeMultipleCoils a vals => IsWord a ∧ vals.length ≤ 2040
  | .writeMultipleRegisters a vals => IsWord a ∧ vals.length ≤ 127 ∧ ∀ v ∈ vals, IsWord v

def coilWord (value : Bool) : Int := if value then coilOn else coilOff

def Request.wire : Request → Bytes
  | .readCoils a c => triple Frame.readCoils a c
  | .readDiscreteInputs a c => triple Frame.readDiscreteInputs a c
  | .readHoldingRegisters a c => triple Frame.readHoldingRegisters a c
  | .readInputRegisters a c => triple Frame.readInputRegisters a c
  | .writeSingleCoil a v => triple Frame.writeSingleCoil a (coilWord v)
  | .writeSingleRegister a v => triple Frame.writeSingleRegister a v
  | .writeMultipleCoils a vals =>
    multiHead Frame.writeMultipleCoils a vals.length (packed vals).length ++ packed vals
  | .writeMultipleRegisters a vals =>
    multiHead Frame.writeMultipleRegisters a vals.length (registerBytes vals).length ++ registerBytes vals

theorem fit_triple_iff {fc : Nat} {addr qty : Int} (byte : fc < 256) :
    Fit [.B, .H, .H] [fc, addr, qty] ↔ IsWord addr ∧ IsWord qty := by
  simp [Fit, Field.Fits, Field.max, IsWord, registerMax]
  omega

theorem fit_multiHead_iff {fc : Nat} {addr : Int} {qty byteCount : Nat} (byte : fc < 256) :
    Fit [.B, .H, .H, .B] [fc, addr, qty, byteCount] ↔
      IsWord addr ∧ qty ≤ 65535 ∧ byteCount ≤ 255 := by
  simp [Fit, Field.Fits, Field.max, IsWord, registerMax]
  omega

theorem coilWord_isWord (value : Bool) : IsWord (coilWord value) := by
  cases value <;> decide

theorem pack_triple {fc : Nat} (byte : fc < 256) (addr qty : Int) :
    liftPy (pack [.B, .H, .H] [fc, addr, qty]) =
      if IsWord addr ∧ IsWord qty then .ok (triple fc addr qty) else .error (.py .structError) := by
  by_cases words : IsWord addr ∧ IsWord qty
  · rw [pack_of_fit ((fit_triple_iff byte).mpr words), if_pos words, liftPy_ok, triple]
  · rw [pack_of_not_fit fun fit => words ((fit_triple_iff byte).mp fit), if_neg words, liftPy_error]

theorem pack_multiHead {fc : Nat} (byte : fc < 256) (addr : Int) (qty byteCount : Nat) :
    liftPy (pack [.B, .H, .H, .B] [fc, addr, qty, byteCount]) =
      if IsWord addr ∧ qty ≤ 65535 ∧ byteCount ≤ 255 then .ok (multiHead fc addr qty byteCount)
      else .error (.py .structError) := by
  by_cases words : IsWord addr ∧ qty ≤ 65535 ∧ byteCount ≤ 255
  · rw [pack_of_fit ((fit_multiHead_iff byte).mpr words), if_pos words, liftPy_ok, multiHead]
  · rw [pack_of_not_fit fun fit => words ((fit_multiHead_iff byte).mp fit), if_neg words,
      liftPy_error]

/-- The encoder writes the wire form of an encodable request and rejects any other. -/
theorem encodeRequestPdu_eq (r : Request) :
    (r.Encodable → encodeRequestPdu r = .ok r.wire) ∧
      (¬ r.Encodable → encodeRequestPdu r = .error (.py .structError)) := by
  cases r with
  | readCoils a c | readDiscreteInputs a c | readHoldingRegisters a c | readInputRegisters a c
  | writeSingleRegister a c =>
    simp only [encodeRequestPdu]
    rw [pack_triple (by decide)]
    exact ⟨fun words => if_pos words, fun words => if_neg words⟩
  | writeSingleCoil a v =>
    have asWord : encodeRequestPdu (.writeSingleCoil a v) =
        liftPy (pack [.B, .H, .H] [(writeSingleCoil : Int), a, coilWord v]) := rfl
    rw [asWord, pack_triple (by decide)]
    exact ⟨fun word => if_pos ⟨word, coilWord_isWord v⟩, fun word => if_neg fun both => word both.1⟩
  | writeMultipleCoils a vals =>
    have room : octets vals.length ≤ 255 ↔ vals.length ≤ 2040 := by simp only [octets]; omega
    simp only [encodeRequestPdu, packBits_eq_packed, length_packed]
    rw [pack_multiHead (by decide)]
    constructor
    · rintro ⟨word, few⟩
      rw [if_pos ⟨word, by omega, room.mpr few⟩, Raise.ok_bind, Raise.pure_eq, Request.wire,
        length_packed]
    · intro misfit
      rw [if_neg fun all => misfit ⟨all.1, room.mp all.2.2⟩, Raise.error_bind]
  | writeMultipleRegisters a vals =>
    simp only [encodeRequestPdu]
    by_cases words : ∀ v ∈ vals, IsWord v
    · have size := length_registerBytes words
      rw [packRegisters_of_fit words, Raise.ok_bind, pack_multiHead (by decide)]
      constructor
      · rintro ⟨word, few, -⟩
        rw [if_pos ⟨word, by omega, by omega⟩, Raise.ok_bind, Raise.pure_eq, Request.wire]
      · intro misfit
        rw [if_neg fun all => misfit ⟨all.1, by omega, words⟩, Raise.error_bind]
    · rw [packRegisters_of_not_fit words, Raise.error_bind]
      exact ⟨fun encodable => absurd encodable.2.2 words, fun _ => rfl⟩

theorem encodeRequestPdu_eq_ok {r : Request} {p : Bytes} :
    encodeRequestPdu r = .ok p ↔ r.Encodable ∧ p = r.wire := by
  by_cases encodable : r.Encodable
  · simp [(encodeRequestPdu_eq r).1 encodable, encodable, eq_comm]
  · simp [(encodeRequestPdu_eq r).2 encodable, encodable]

/-! ### Reading a wire form back -/

theorem readRequest_triple {fc : Nat} (byte : fc < 256) {addr qty : Int}
    (words : IsWord addr ∧ IsWord qty) :
    readRequest (triple fc addr qty) = .ok (fc, addr, qty) :=
  readRequest_eq_ok.mpr ⟨(fit_triple_iff byte).mpr words, rfl⟩

theorem decodeRequestPdu_wire {r : Request} (encodable : r.Encodable) :
    decodeRequestPdu r.wire = .ok r := by
  cases r with
  | readCoils a c | readDiscreteInputs a c | readHoldingRegisters a c | readInputRegisters a c
  | writeSingleRegister a c =>
    simp only [Request.wire, decodeRequestPdu]
    rw [readRequest_triple (by decide) encodable]
    rfl
  | writeSingleCoil a v =>
    simp only [Request.wire, decodeRequestPdu]
    rw [readRequest_triple (by decide) ⟨encodable, coilWord_isWord v⟩]
    cases v <;> rfl
  | writeMultipleCoils a vals =>
    obtain ⟨word, few⟩ := encodable
    have consistent : ((packed vals).length : Int) = expectedBytes writeMultipleCoils vals.length := by
      rw [length_packed, octets, expectedBytes, if_neg (by decide)]
      omega
    have room : (packed vals).length ≤ 255 := by rw [length_packed, octets]; omega
    have decoded : decodeMultiWrite (Request.wire (.writeMultipleCoils a vals)) writeMultipleCoils =
        .ok (a, vals.length, packed vals) :=
      decodeMultiWrite_eq_ok.mpr ⟨writeMultipleCoils,
        (fit_multiHead_iff (by decide)).mpr ⟨word, by omega, room⟩, consistent, rfl⟩
    have bits := unpackBits_packBits vals
    rw [packBits_eq_packed] at bits
    rw [decodeRequestPdu_coils rfl rfl, decoded]
    simp [bits]
  | writeMultipleRegisters a vals =>
    obtain ⟨word, few, words⟩ := encodable
    have size := length_registerBytes words
    have consistent : ((registerBytes vals).length : Int) =
        expectedBytes writeMultipleRegisters vals.length := by
      rw [size, expectedBytes, if_pos rfl]
      omega
    have decoded : decodeMultiWrite (Request.wire (.writeMultipleRegisters a vals))
        writeMultipleRegisters = .ok (a, vals.length, registerBytes vals) :=
      decodeMultiWrite_eq_ok.mpr ⟨writeMultipleRegisters,
        (fit_multiHead_iff (by decide)).mpr ⟨word, by omega, by omega⟩, consistent, rfl⟩
    rw [decodeRequestPdu_registers rfl rfl, decoded]
    simp [unpackRegisters_registerBytes words]

/-- Encoding succeeds exactly on the encodable requests, fails on any other only with
`struct.error`, and loses nothing. -/
theorem request_roundtrip :
    (∀ r, (∃ p, encodeRequestPdu r = .ok p) ↔ r.Encodable) ∧
      (∀ r, ¬ r.Encodable → encodeRequestPdu r = .error (.py .structError)) ∧
      (∀ r p, encodeRequestPdu r = .ok p → decodeRequestPdu p = .ok r) ∧
      (∀ r s p, encodeRequestPdu r = .ok p → encodeRequestPdu s = .ok p → r = s) := by
  have decodes : ∀ r p, encodeRequestPdu r = .ok p → decodeRequestPdu p = .ok r := by
    intro r p encoded
    obtain ⟨encodable, rfl⟩ := encodeRequestPdu_eq_ok.mp encoded
    exact decodeRequestPdu_wire encodable
  refine ⟨fun r => ⟨?_, ?_⟩, fun r => (encodeRequestPdu_eq r).2, decodes, ?_⟩
  · rintro ⟨p, encoded⟩
    exact (encodeRequestPdu_eq_ok.mp encoded).1
  · intro encodable
    exact ⟨r.wire, (encodeRequestPdu_eq r).1 encodable⟩
  · intro r s p first second
    have same := (decodes r p first).symm.trans (decodes s p second)
    exact Except.ok.inj same

/-! ### What the decoder accepts -/

def usedBits (qty : Nat) : Nat := if qty % 8 = 0 then 8 else qty % 8

def clearLast (qty : Nat) (payload : Bytes) : Bytes :=
  match payload.getLast? with
  | none => payload
  | some last => payload.dropLast ++ [UInt8.ofNat (last.toNat % 2 ^ usedBits qty)]

/-- The byte at an offset, zero beyond the end. -/
def byteAt (data : Bytes) (i : Nat) : Nat := (data.getD i 0).toNat

/-- The 16-bit number at an offset, zero beyond the end. -/
def wordAt (data : Bytes) (i : Nat) : Nat :=
  256 * (data.getD i 0).toNat + (data.getD (i + 1) 0).toNat

/-- Clear the padding of a multiple-coil write; any other PDU is left as it is. -/
def clearUnusedBits (pdu : Bytes) : Bytes :=
  if pdu.head? = some 0x0F ∧ 6 ≤ pdu.length then
    pdu.take 6 ++ clearLast (wordAt pdu 3) (pdu.drop 6)
  else pdu

@[simp] theorem length_clearLast (qty : Nat) (payload : Bytes) :
    (clearLast qty payload).length = payload.length := by
  cases last : payload.getLast? with
  | none => simp [clearLast, last]
  | some b =>
    have nonempty : payload ≠ [] := by rintro rfl; cases last
    have := List.length_pos_iff.mpr nonempty
    simp only [clearLast, last, List.length_append, List.length_dropLast, List.length_singleton]
    omega

theorem clearLast_eq_clearFrom {qty : Nat} {payload : Bytes} (size : payload.length = octets qty) :
    clearLast qty payload = clearFrom payload qty := by
  rcases List.eq_nil_or_concat payload with rfl | ⟨front, last, rfl⟩
  · rfl
  · rw [List.length_concat, octets] at size
    have whole : front.mapIdx (fun j b => UInt8.ofNat (b.toNat % 2 ^ (qty - 8 * j))) = front := by
      apply List.ext_getElem (by simp)
      intro j _ inside
      have full : 2 ^ 8 ≤ 2 ^ (qty - 8 * j) := Nat.pow_le_pow_right (by decide) (by omega)
      rw [List.getElem_mapIdx, Nat.mod_eq_of_lt (front[j].toNat_lt.trans_le full), UInt8.ofNat_toNat]
    have used : qty - 8 * front.length = usedBits qty := by rw [usedBits]; split <;> omega
    simp only [List.concat_eq_append, clearLast, List.getLast?_append, List.getLast?_singleton,
      Option.some_or, List.dropLast_concat, clearFrom, List.mapIdx_append, whole]
    simp [used]

theorem eq_of_ofNat {v : Int} {first : UInt8} (fits : Field.B.Fits v)
    (same : UInt8.ofNat v.toNat = first) : v = first.toNat := by
  subst same
  obtain ⟨nonneg, bounded⟩ := fits
  simp only [Field.max] at bounded
  rw [UInt8.toNat_ofNat']
  omega

theorem readRequest_head {pdu : Bytes} {first : UInt8} {fc addr qty : Int}
    (head : pdu.head? = some first) (read : readRequest pdu = .ok (fc, addr, qty)) :
    (IsWord addr ∧ IsWord qty) ∧ pdu = triple first.toNat addr qty := by
  obtain ⟨fit, rfl⟩ := readRequest_eq_ok.mp read
  have byte := eq_of_ofNat (List.forall₂_cons.mp fit).1 (Option.some.inj head)
  subst byte
  exact ⟨(fit_triple_iff first.toNat_lt).mp fit, rfl⟩

theorem decodeMultiWrite_head {pdu : Bytes} {first : UInt8} {fc : Nat} {addr qty : Int}
    {payload : Bytes} (head : pdu.head? = some first)
    (decoded : decodeMultiWrite pdu fc = .ok (addr, qty, payload)) :
    (IsWord addr ∧ IsWord qty ∧ payload.length ≤ 255) ∧
      (payload.length : Int) = expectedBytes fc qty ∧
      pdu = multiHead first.toNat addr qty payload.length ++ payload := by
  obtain ⟨lead, fit, consistent, rfl⟩ := decodeMultiWrite_eq_ok.mp decoded
  have byte := eq_of_ofNat (List.forall₂_cons.mp fit).1 (Option.some.inj head)
  subst byte
  have word : IsWord qty := (List.forall₂_cons.mp (List.forall₂_cons.mp (List.forall₂_cons.mp fit).2).2).1
  obtain ⟨n, rfl⟩ := Int.eq_ofNat_of_zero_le word.1
  have bounds := (fit_multiHead_iff first.toNat_lt).mp fit
  exact ⟨⟨bounds.1, word, bounds.2.2⟩, consistent, rfl⟩

theorem wordAt_multiHead {fc addr byteCount : Int} {qty : Nat} (word : qty ≤ 65535) (payload : Bytes) :
    wordAt (multiHead fc addr qty byteCount ++ payload) 3 = qty := by
  simp [wordAt, multiHead, layout_cons, layout_nil, Field.bytes]
  omega

theorem size_of_multiCoils {payload : Bytes} {qty : Nat}
    (consistent : (payload.length : Int) = expectedBytes writeMultipleCoils qty) :
    payload.length = octets qty := by
  rw [expectedBytes, if_neg (by decide)] at consistent
  rw [octets]
  omega

theorem clearUnusedBits_multiCoils {addr byteCount : Int} {qty : Nat} {payload : Bytes}
    (word : qty ≤ 65535) (size : payload.length = octets qty) :
    clearUnusedBits (multiHead writeMultipleCoils addr qty byteCount ++ payload) =
      multiHead writeMultipleCoils addr qty byteCount ++ clearFrom payload qty := by
  have long : 6 ≤ (multiHead writeMultipleCoils addr qty byteCount ++ payload).length := by simp
  rw [clearUnusedBits, if_pos ⟨rfl, long⟩, wordAt_multiHead word,
    List.take_left' (length_multiHead ..), List.drop_left' (length_multiHead ..),
    clearLast_eq_clearFrom size]

theorem clearUnusedBits_other {pdu : Bytes} {first : UInt8} (head : pdu.head? = some first)
    (other : first.toNat ≠ writeMultipleCoils) : clearUnusedBits pdu = pdu := by
  rw [clearUnusedBits, if_neg]
  rintro ⟨coils, _⟩
  rw [head] at coils
  cases coils
  exact other rfl

theorem readRequestClass_spec {fc : Nat}
    (isRead : fc ∈ [readCoils, readDiscreteInputs, readHoldingRegisters, readInputRegisters])
    (addr qty : Int) :
    (readRequestClass fc addr qty).wire = triple fc addr qty ∧
      ((readRequestClass fc addr qty).Encodable ↔ IsWord addr ∧ IsWord qty) := by
  simp only [List.mem_cons, List.not_mem_nil, or_false] at isRead
  rcases isRead with rfl | rfl | rfl | rfl <;> exact ⟨rfl, Iff.rfl⟩

/-! ### What each branch accepts -/

section Accepted

variable {pdu : Bytes} {first : UInt8} {r : Request}

theorem sound_read (head : pdu.head? = some first)
    (isRead : first.toNat ∈
      [readCoils, readDiscreteInputs, readHoldingRegisters, readInputRegisters])
    (decoded : decodeRequestPdu pdu = .ok r) : r.Encodable ∧ clearUnusedBits pdu = r.wire := by
  rw [decodeRequestPdu_read head isRead] at decoded
  obtain ⟨⟨fc, addr, qty⟩, read, result⟩ := Raise.bind_eq_ok.mp decoded
  obtain ⟨words, rfl⟩ := readRequest_head head read
  obtain ⟨wire, encodable⟩ := readRequestClass_spec isRead addr qty
  cases result
  have other : first.toNat ≠ writeMultipleCoils := by
    intro coils
    rw [coils] at isRead
    exact absurd isRead (by decide)
  rw [clearUnusedBits_other head other, wire]
  exact ⟨encodable.mpr words, rfl⟩

theorem sound_coil (head : pdu.head? = some first) (coil : first.toNat = writeSingleCoil)
    (decoded : decodeRequestPdu pdu = .ok r) : r.Encodable ∧ clearUnusedBits pdu = r.wire := by
  rw [decodeRequestPdu_coil head coil] at decoded
  obtain ⟨⟨fc, addr, raw⟩, read, result⟩ := Raise.bind_eq_ok.mp decoded
  obtain ⟨words, rfl⟩ := readRequest_head head read
  rw [clearUnusedBits_other head (by rw [coil]; decide), coil]
  simp only at result
  split at result
  next on =>
    cases result
    change raw = coilOn at on
    subst on
    exact ⟨words.1, rfl⟩
  split at result
  next off =>
    cases result
    change raw = coilOff at off
    subst off
    exact ⟨words.1, rfl⟩
  next => cases result

theorem sound_register (head : pdu.head? = some first)
    (register : first.toNat = writeSingleRegister) (decoded : decodeRequestPdu pdu = .ok r) :
    r.Encodable ∧ clearUnusedBits pdu = r.wire := by
  rw [decodeRequestPdu_register head register] at decoded
  obtain ⟨⟨fc, addr, value⟩, read, result⟩ := Raise.bind_eq_ok.mp decoded
  obtain ⟨words, rfl⟩ := readRequest_head head read
  cases result
  rw [clearUnusedBits_other head (by rw [register]; decide), register]
  exact ⟨words, rfl⟩

theorem sound_coils (head : pdu.head? = some first) (coils : first.toNat = writeMultipleCoils)
    (decoded : decodeRequestPdu pdu = .ok r) : r.Encodable ∧ clearUnusedBits pdu = r.wire := by
  rw [decodeRequestPdu_coils head coils] at decoded
  obtain ⟨⟨addr, qty, payload⟩, multi, rest⟩ := Raise.bind_eq_ok.mp decoded
  obtain ⟨bits, unpackedBits, result⟩ := Raise.bind_eq_ok.mp rest
  obtain ⟨bounds, consistent, rfl⟩ := decodeMultiWrite_head head multi
  obtain ⟨n, rfl⟩ := Int.eq_ofNat_of_zero_le bounds.2.1.1
  have size := size_of_multiCoils consistent
  have word : n ≤ 65535 := by have := bounds.2.1.2; simp only [registerMax] at this; omega
  have few : n ≤ 2040 := by rw [octets] at size; omega
  rw [unpackBits_of_le (by rw [size, octets]; omega)] at unpackedBits
  cases unpackedBits
  cases result
  rw [coils, clearUnusedBits_multiCoils word size, ← packed_unpacked size]
  refine ⟨⟨bounds.1, by simpa using few⟩, ?_⟩
  simp only [Request.wire, length_unpacked, length_packed, size]

theorem sound_registers (head : pdu.head? = some first)
    (registers : first.toNat = writeMultipleRegisters) (decoded : decodeRequestPdu pdu = .ok r) :
    r.Encodable ∧ clearUnusedBits pdu = r.wire := by
  rw [decodeRequestPdu_registers head registers] at decoded
  obtain ⟨⟨addr, qty, payload⟩, multi, rest⟩ := Raise.bind_eq_ok.mp decoded
  obtain ⟨vals, unpackedVals, result⟩ := Raise.bind_eq_ok.mp rest
  obtain ⟨bounds, consistent, rfl⟩ := decodeMultiWrite_head head multi
  obtain ⟨n, rfl⟩ := Int.eq_ofNat_of_zero_le bounds.2.1.1
  rw [expectedBytes, if_pos rfl] at consistent
  obtain ⟨regs, unpackedRegs, count, words, bytes⟩ :=
    unpackRegisters_of_even (show payload.length % 2 = 0 by omega)
  cases unpackedVals.symm.trans unpackedRegs
  cases result
  have quantity : vals.length = n := by omega
  rw [clearUnusedBits_other head (by rw [registers]; decide), registers]
  refine ⟨⟨bounds.1, by omega, words⟩, ?_⟩
  simp only [Request.wire, bytes, quantity]

end Accepted

/-- An accepted PDU starts with a supported function code. -/
theorem supported_of_decoded {pdu : Bytes} {r : Request} (decoded : decodeRequestPdu pdu = .ok r) :
    ∃ first, pdu.head? = some first ∧ first.toNat ∈ supportedFunctionCodes := by
  cases head : pdu.head? with
  | none => simp [decodeRequestPdu, head] at decoded
  | some first =>
    refine ⟨first, rfl, ?_⟩
    by_contra unsupported
    rw [decodeRequestPdu_unsupported head unsupported] at decoded
    cases decoded

/-- An accepted PDU is the wire form of its request, up to padding. -/
theorem decodeRequestPdu_sound {pdu : Bytes} {r : Request} (decoded : decodeRequestPdu pdu = .ok r) :
    r.Encodable ∧ clearUnusedBits pdu = r.wire := by
  obtain ⟨first, head, supported⟩ := supported_of_decoded decoded
  rcases supported_cases supported with isRead | coil | register | coils | registers
  · exact sound_read head isRead decoded
  · exact sound_coil head coil decoded
  · exact sound_register head register decoded
  · exact sound_coils head coils decoded
  · exact sound_registers head registers decoded

/-! ### What each branch refuses -/

theorem readRequest_error {pdu : Bytes} {first : UInt8} {e : Exn} (head : pdu.head? = some first)
    (rejected : readRequest pdu = .error e) :
    e = illegalDataValueError "expected a 5-byte PDU" (some first.toNat) := by
  by_cases size : pdu.length = 5
  · obtain ⟨a, b, c, fields⟩ := unpackBHH_isOk size
    rw [readRequest_of_length size, fields] at rejected
    cases rejected
  · rw [readRequest_of_length_ne head size] at rejected
    exact (Except.error.inj rejected).symm

theorem decodeMultiWrite_error {pdu : Bytes} {fc : Nat} {e : Exn}
    (rejected : decodeMultiWrite pdu fc = .error e) :
    ∃ message, e = illegalDataValueError message (some fc) := by
  by_cases short : pdu.length < 6
  · rw [decodeMultiWrite_short fc short] at rejected
    exact ⟨_, (Except.error.inj rejected).symm⟩
  · obtain ⟨first, addr, qty, byteCount, payload, fit, rfl⟩ := exists_multiHead (Nat.le_of_not_lt short)
    rw [decodeMultiWrite_append fit] at rejected
    split at rejected
    · exact ⟨_, (Except.error.inj rejected).symm⟩
    · split at rejected
      · exact ⟨_, (Except.error.inj rejected).symm⟩
      · cases rejected

theorem unpackBits_isOk {pdu : Bytes} {addr qty : Int} {payload : Bytes}
    (decoded : decodeMultiWrite pdu writeMultipleCoils = .ok (addr, qty, payload)) :
    ∃ bits, unpackBits payload qty = .ok bits := by
  obtain ⟨first, fit, consistent, rfl⟩ := decodeMultiWrite_eq_ok.mp decoded
  have nonneg : 0 ≤ qty :=
    (List.forall₂_cons.mp (List.forall₂_cons.mp (List.forall₂_cons.mp fit).2).2).1.1
  obtain ⟨n, rfl⟩ := Int.eq_ofNat_of_zero_le nonneg
  have size := size_of_multiCoils consistent
  exact ⟨_, unpackBits_of_le (by rw [size, octets]; omega)⟩

theorem unpackRegisters_isOk {pdu : Bytes} {addr qty : Int} {payload : Bytes}
    (decoded : decodeMultiWrite pdu writeMultipleRegisters = .ok (addr, qty, payload)) :
    ∃ registers, unpackRegisters payload = .ok registers := by
  obtain ⟨_, _, consistent, _⟩ := decodeMultiWrite_eq_ok.mp decoded
  rw [expectedBytes, if_pos rfl] at consistent
  obtain ⟨registers, unpacked, _⟩ :=
    unpackRegisters_of_even (show payload.length % 2 = 0 by omega)
  exact ⟨registers, unpacked⟩

section Refused

variable {pdu : Bytes} {first : UInt8} {e : Exn}

theorem refused_read (head : pdu.head? = some first)
    (isRead : first.toNat ∈
      [readCoils, readDiscreteInputs, readHoldingRegisters, readInputRegisters])
    (rejected : decodeRequestPdu pdu = .error e) :
    ∃ message, e = illegalDataValueError message (some first.toNat) := by
  rw [decodeRequestPdu_read head isRead] at rejected
  rcases Raise.bind_eq_error.mp rejected with read | ⟨_, _, result⟩
  · exact ⟨_, readRequest_error head read⟩
  · cases result

theorem refused_coil (head : pdu.head? = some first) (coil : first.toNat = writeSingleCoil)
    (rejected : decodeRequestPdu pdu = .error e) :
    ∃ message, e = illegalDataValueError message (some first.toNat) := by
  rw [decodeRequestPdu_coil head coil] at rejected
  rcases Raise.bind_eq_error.mp rejected with read | ⟨_, _, result⟩
  · exact ⟨_, readRequest_error head read⟩
  · simp only at result
    split at result
    · cases result
    · split at result
      · cases result
      · rw [coil]
        exact ⟨_, (Except.error.inj result).symm⟩

theorem refused_register (head : pdu.head? = some first)
    (register : first.toNat = writeSingleRegister) (rejected : decodeRequestPdu pdu = .error e) :
    ∃ message, e = illegalDataValueError message (some first.toNat) := by
  rw [decodeRequestPdu_register head register] at rejected
  rcases Raise.bind_eq_error.mp rejected with read | ⟨_, _, result⟩
  · exact ⟨_, readRequest_error head read⟩
  · cases result

theorem refused_coils (head : pdu.head? = some first) (coils : first.toNat = writeMultipleCoils)
    (rejected : decodeRequestPdu pdu = .error e) :
    ∃ message, e = illegalDataValueError message (some first.toNat) := by
  rw [decodeRequestPdu_coils head coils] at rejected
  rcases Raise.bind_eq_error.mp rejected with multi | ⟨⟨addr, qty, payload⟩, multi, rest⟩
  · rw [coils]
    exact decodeMultiWrite_error multi
  · obtain ⟨bits, unpacked⟩ := unpackBits_isOk multi
    simp [unpacked] at rest

theorem refused_registers (head : pdu.head? = some first)
    (registers : first.toNat = writeMultipleRegisters) (rejected : decodeRequestPdu pdu = .error e) :
    ∃ message, e = illegalDataValueError message (some first.toNat) := by
  rw [decodeRequestPdu_registers head registers] at rejected
  rcases Raise.bind_eq_error.mp rejected with multi | ⟨⟨addr, qty, payload⟩, multi, rest⟩
  · rw [registers]
    exact decodeMultiWrite_error multi
  · obtain ⟨vals, unpacked⟩ := unpackRegisters_isOk multi
    simp [unpacked] at rest

theorem refused_supported (head : pdu.head? = some first)
    (supported : first.toNat ∈ supportedFunctionCodes) (rejected : decodeRequestPdu pdu = .error e) :
    ∃ message, e = illegalDataValueError message (some first.toNat) := by
  rcases supported_cases supported with isRead | coil | register | coils | registers
  · exact refused_read head isRead rejected
  · exact refused_coil head coil rejected
  · exact refused_register head register rejected
  · exact refused_coils head coils rejected
  · exact refused_registers head registers rejected

end Refused

/-- How a rejected PDU is rejected: by its function code, or as an illegal value. -/
theorem decodeRequestPdu_error {pdu : Bytes} {e : Exn} (rejected : decodeRequestPdu pdu = .error e) :
    (∃ first, pdu.head? = some first ∧ first.toNat ∉ supportedFunctionCodes ∧
        e = unsupportedFunctionCode first.toNat) ∨
      ((∀ first, pdu.head? = some first → first.toNat ∈ supportedFunctionCodes) ∧
        ∃ message, e = illegalDataValueError message (pdu.head?.map UInt8.toNat)) := by
  cases head : pdu.head? with
  | none =>
    simp only [decodeRequestPdu, head] at rejected
    exact .inr ⟨by simp, _, (Except.error.inj rejected).symm⟩
  | some first =>
    by_cases supported : first.toNat ∈ supportedFunctionCodes
    · right
      refine ⟨?_, refused_supported head supported rejected⟩
      intro other same
      exact Option.some.inj same ▸ supported
    · rw [decodeRequestPdu_unsupported head supported] at rejected
      exact .inl ⟨first, rfl, supported, (Except.error.inj rejected).symm⟩

theorem head_wire (r : Request) : r.wire.head? = some (UInt8.ofNat r.functionCode) := by
  cases r <;> rfl

theorem wire_ne_nil (r : Request) : r.wire ≠ [] := by
  intro empty
  have lead := head_wire r
  rw [empty] at lead
  cases lead

/-- A PDU that is a wire form up to padding is accepted as that request. -/
theorem decodeRequestPdu_complete {pdu : Bytes} {r : Request} (encodable : r.Encodable)
    (same : clearUnusedBits pdu = r.wire) : decodeRequestPdu pdu = .ok r := by
  by_cases coils : pdu.head? = some 0x0F ∧ 6 ≤ pdu.length
  · rw [clearUnusedBits, if_pos coils] at same
    have front : (pdu.take 6).length = 6 := by rw [List.length_take]; omega
    have lead : r.wire.head? = some 0x0F := by
      rw [← same, List.head?_append_of_ne_nil _ (List.ne_nil_of_length_eq_add_one front),
        List.head?_take, if_neg (by decide), coils.1]
    rw [head_wire] at lead
    cases r with
    | writeMultipleCoils a vals =>
      obtain ⟨word, few⟩ := encodable
      obtain ⟨header, body⟩ := List.append_inj same (by rw [front, length_multiHead])
      have split : pdu = multiHead Frame.writeMultipleCoils a vals.length (packed vals).length ++
          pdu.drop 6 := by rw [← header, List.take_append_drop]
      have quantity : wordAt pdu 3 = vals.length := by
        rw [split]
        exact wordAt_multiHead (by omega) _
      have size : (pdu.drop 6).length = (packed vals).length := by rw [← body, length_clearLast]
      have octetSize : (pdu.drop 6).length = octets vals.length := by rw [size, length_packed]
      rw [quantity, clearLast_eq_clearFrom octetSize] at body
      have consistent : ((pdu.drop 6).length : Int) =
          expectedBytes Frame.writeMultipleCoils vals.length := by
        rw [octetSize, octets, expectedBytes, if_neg (by decide)]
        omega
      have decoded : decodeMultiWrite pdu Frame.writeMultipleCoils =
          .ok (a, vals.length, pdu.drop 6) :=
        decodeMultiWrite_eq_ok.mpr ⟨Frame.writeMultipleCoils, (fit_multiHead_iff (by decide)).mpr
          ⟨word, by omega, by rw [octetSize, octets]; omega⟩, consistent, by rw [size]; exact split⟩
      have bits : unpackBits (pdu.drop 6) vals.length = .ok vals := by
        rw [unpackBits_of_le (by rw [octetSize, octets]; omega), ← unpacked_clearFrom, body,
          unpacked_packed]
      rw [decodeRequestPdu_coils coils.1 rfl, decoded]
      simp [bits]
    | readCoils | readDiscreteInputs | readHoldingRegisters | readInputRegisters | writeSingleCoil
    | writeSingleRegister | writeMultipleRegisters =>
      simp only [Request.functionCode] at lead
      exact absurd lead (by decide)
  · rw [clearUnusedBits, if_neg coils] at same
    rw [same]
    exact decodeRequestPdu_wire encodable

def Unsupported (pdu : Bytes) : Prop :=
  ∃ first, pdu.head? = some first ∧ first.toNat ∉ supportedFunctionCodes

/-- The decoder accepts exactly the wire forms, up to the padding of a multiple-coil write, and
rejects everything else as an unknown function or an illegal value. Its helpers' own length checks
never fire. -/
theorem decodeRequestPdu_exact (pdu : Bytes) :
    (∀ r, decodeRequestPdu pdu = .ok r ↔ encodeRequestPdu r = .ok (clearUnusedBits pdu)) ∧
      ((∃ message, decodeRequestPdu pdu =
          .error (.modbus ⟨.illegalFunction, message, pdu.head?.map UInt8.toNat⟩)) ↔ Unsupported pdu) ∧
      (∀ e, decodeRequestPdu pdu = .error e → ¬ Unsupported pdu →
        ∃ message, e = .modbus ⟨.illegalDataValue, message, pdu.head?.map UInt8.toNat⟩) ∧
      (∀ addr qty payload, decodeMultiWrite pdu writeMultipleCoils = .ok (addr, qty, payload) →
        ∃ bits, unpackBits payload qty = .ok bits) ∧
      (∀ addr qty payload, decodeMultiWrite pdu writeMultipleRegisters = .ok (addr, qty, payload) →
        ∃ registers, unpackRegisters payload = .ok registers) := by
  refine ⟨fun r => ⟨fun decoded => ?_, fun encoded => ?_⟩, ⟨?_, ?_⟩, ?_,
    fun _ _ _ => unpackBits_isOk, fun _ _ _ => unpackRegisters_isOk⟩
  · exact encodeRequestPdu_eq_ok.mpr (decodeRequestPdu_sound decoded)
  · obtain ⟨encodable, same⟩ := encodeRequestPdu_eq_ok.mp encoded
    exact decodeRequestPdu_complete encodable same
  · rintro ⟨message, rejected⟩
    rcases decodeRequestPdu_error rejected with ⟨first, head, unsupported, _⟩ | ⟨_, _, same⟩
    · exact ⟨first, head, unsupported⟩
    · cases same
  · rintro ⟨first, head, unsupported⟩
    rw [decodeRequestPdu_unsupported head unsupported, head]
    exact ⟨_, rfl⟩
  · intro e rejected known
    rcases decodeRequestPdu_error rejected with ⟨first, head, unsupported, _⟩ | ⟨_, message, same⟩
    · exact absurd ⟨first, head, unsupported⟩ known
    · exact ⟨message, same⟩

end ModbusSim.Frame
