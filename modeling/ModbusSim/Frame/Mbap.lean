import ModbusSim.Frame.RequestCodec

/-!
# The MBAP header

`decode_mbap`, `encode_mbap` and `build_adu`. A header is read from the first seven bytes, and
what follows them makes no difference.
-/

namespace ModbusSim.Frame

open PyStruct

def headerFormat : List Field := [.H, .H, .H, .B]

def decodeMbap (data : Bytes) : Except Exn MBAPHeader := do
  if data.length < mbapHeaderLen then
    throw (.py (.valueError ("need at least " ++ toString mbapHeaderLen ++ " bytes for an MBAP header")))
  match ← liftPy (unpack headerFormat (data.take mbapHeaderLen)) with
  | [transactionId, protocolId, length, unitId] =>
    return ⟨transactionId, protocolId, length, unitId⟩
  | _ => throw (.py (.valueError "wrong number of values to unpack"))

def encodeMbap (header : MBAPHeader) : Except Exn Bytes :=
  liftPy (pack headerFormat
    [header.transactionId, header.protocolId, header.length, header.unitId])

def buildAdu (transactionId unitId : Int) (pdu : Bytes) : Except Exn Bytes := do
  let length : Int := 1 + pdu.length
  return (← liftPy (pack headerFormat [transactionId, protocolId, length, unitId])) ++ pdu

/-! ### Reading a header -/

def MBAPHeader.Fits (header : MBAPHeader) : Prop :=
  IsWord header.transactionId ∧ IsWord header.protocolId ∧ IsWord header.length ∧
    0 ≤ header.unitId ∧ header.unitId ≤ 255

def MBAPHeader.wire (header : MBAPHeader) : Bytes :=
  layout headerFormat [header.transactionId, header.protocolId, header.length, header.unitId]

@[simp] theorem MBAPHeader.length_wire (header : MBAPHeader) :
    header.wire.length = mbapHeaderLen := rfl

theorem MBAPHeader.fits_iff {header : MBAPHeader} :
    header.Fits ↔
      Fit headerFormat [header.transactionId, header.protocolId, header.length, header.unitId] := by
  simp [MBAPHeader.Fits, headerFormat, Fit, Field.Fits, Field.max, IsWord, registerMax]

theorem decodeMbap_short {data : Bytes} (short : data.length < mbapHeaderLen) :
    decodeMbap data = .error (.py (.valueError
      ("need at least " ++ toString mbapHeaderLen ++ " bytes for an MBAP header"))) := by
  simp [decodeMbap, short]

theorem decodeMbap_long {data : Bytes} (long : mbapHeaderLen ≤ data.length) :
    ∃ header, decodeMbap data = .ok header ∧ header.Fits ∧ data.take mbapHeaderLen = header.wire := by
  have size : (data.take mbapHeaderLen).length = calcsize headerFormat := by
    rw [List.length_take, Nat.min_eq_left long]
    rfl
  obtain ⟨values, unpacked⟩ := unpack_isOk_iff.mpr size
  obtain ⟨fit, same⟩ := unpack_eq_ok unpacked
  match values, fit with
  | [transactionId, protocolId, length, unitId], fit =>
    refine ⟨⟨transactionId, protocolId, length, unitId⟩, ?_, MBAPHeader.fits_iff.mpr fit, same.symm⟩
    have enough : ¬ data.length < mbapHeaderLen := by omega
    simp [decodeMbap, enough, unpacked]

/-- A header is read back from its bytes, whatever follows them. -/
theorem decodeMbap_wire {header : MBAPHeader} (fits : header.Fits) (rest : Bytes) :
    decodeMbap (header.wire ++ rest) = .ok header := by
  have enough : ¬ (header.wire ++ rest).length < mbapHeaderLen := by
    rw [List.length_append, MBAPHeader.length_wire]
    omega
  have front : (header.wire ++ rest).take mbapHeaderLen = header.wire :=
    List.take_left' header.length_wire
  have fields := unpack_layout (MBAPHeader.fits_iff.mp fits)
  simp only [decodeMbap, if_neg enough, front]
  rw [MBAPHeader.wire, fields]
  rfl

theorem decodeMbap_append {data : Bytes} (long : mbapHeaderLen ≤ data.length) (rest : Bytes) :
    decodeMbap (data ++ rest) = decodeMbap data := by
  obtain ⟨header, decoded, fits, front⟩ := decodeMbap_long long
  have whole : data ++ rest = header.wire ++ (data.drop mbapHeaderLen ++ rest) := by
    rw [← front, ← List.append_assoc, List.take_append_drop]
  rw [decoded, whole, decodeMbap_wire fits]

theorem decodeMbap_take {data : Bytes} {n : Nat} (long : mbapHeaderLen ≤ data.length)
    (whole : mbapHeaderLen ≤ n) : decodeMbap (data.take n) = decodeMbap data := by
  have front : mbapHeaderLen ≤ (data.take n).length := by
    rw [List.length_take]
    omega
  rw [← decodeMbap_append front (data.drop n), List.take_append_drop]

theorem long_of_decoded {data : Bytes} {header : MBAPHeader} (decoded : decodeMbap data = .ok header) :
    mbapHeaderLen ≤ data.length := by
  by_contra short
  rw [decodeMbap_short (by omega)] at decoded
  cases decoded

theorem header_of_decoded {data : Bytes} {header : MBAPHeader}
    (decoded : decodeMbap data = .ok header) :
    header = ⟨wordAt data 0, wordAt data 2, wordAt data 4, byteAt data 6⟩ := by
  have long := long_of_decoded decoded
  match data, long, decoded with
  | a :: b :: c :: d :: e :: f :: g :: rest, _, decoded =>
    have fields : decodeMbap (a :: b :: c :: d :: e :: f :: g :: rest) =
        .ok ⟨(256 * a.toNat + b.toNat : Nat), (256 * c.toNat + d.toNat : Nat),
          (256 * e.toNat + f.toNat : Nat), g.toNat⟩ := rfl
    exact Except.ok.inj (decoded.symm.trans fields)

theorem encodeMbap_eq {header : MBAPHeader} (fits : header.Fits) :
    encodeMbap header = .ok header.wire := by
  rw [encodeMbap, pack_of_fit (MBAPHeader.fits_iff.mp fits), liftPy_ok, MBAPHeader.wire]

/-! ### Building an ADU -/

/-- The header that a PDU is sent under. -/
def aduHeader (transactionId unitId : Int) (pdu : Bytes) : MBAPHeader :=
  ⟨transactionId, protocolId, 1 + pdu.length, unitId⟩

theorem aduHeader_fits {transactionId unitId : Int} {pdu : Bytes} (id : IsWord transactionId)
    (unit : 0 ≤ unitId ∧ unitId ≤ 255) (short : pdu.length ≤ maxPduLen) :
    (aduHeader transactionId unitId pdu).Fits := by
  simp only [maxPduLen] at short
  have protocol : IsWord protocolId := by decide
  refine ⟨id, protocol, ?_, unit⟩
  simp only [aduHeader, IsWord, registerMax]
  omega

theorem buildAdu_eq {transactionId unitId : Int} {pdu : Bytes}
    (fits : (aduHeader transactionId unitId pdu).Fits) :
    buildAdu transactionId unitId pdu = .ok ((aduHeader transactionId unitId pdu).wire ++ pdu) := by
  have packed := pack_of_fit (MBAPHeader.fits_iff.mp fits)
  simp only [aduHeader] at packed
  rw [buildAdu, packed]
  rfl

theorem buildAdu_eq_ok {transactionId unitId : Int} {pdu adu : Bytes}
    (built : buildAdu transactionId unitId pdu = .ok adu) :
    (aduHeader transactionId unitId pdu).Fits ∧
      adu = (aduHeader transactionId unitId pdu).wire ++ pdu := by
  by_cases fits : (aduHeader transactionId unitId pdu).Fits
  · rw [buildAdu_eq fits] at built
    cases built
    exact ⟨fits, rfl⟩
  · have refused := pack_of_not_fit (mt MBAPHeader.fits_iff.mpr fits)
    simp only [aduHeader] at refused
    rw [buildAdu, refused] at built
    cases built

end ModbusSim.Frame
