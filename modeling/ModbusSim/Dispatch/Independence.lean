import ModbusSim.Dispatch.Agreement
import ModbusSim.Lib.Footprint

/-!
# Independent and repeated requests

Whether a PDU is carried out depends on the sizes of the regions, which never change. Its footprint
on a device is then fixed: the slots that it reads, and those that it writes with their values
(`pduFootprint`). Requests that keep out of each other's slots can be exchanged, and a request that
is sent again is answered as before.
-/

namespace ModbusSim.Dispatch

open PyStruct PyList ModbusSim.Frame Store StatefulRun LastWriter

/-- The request that a PDU decodes to, if the device carries it out. -/
def carriedOut (device : Device) (pdu : Bytes) : Option Request :=
  match decodeRequestPdu pdu with
  | .ok r =>
    match (handleRequest device r).1 with
    | .ok _ => some r
    | .error _ => none
  | .error _ => none

def Covers (r : Request) (place : Region × Nat) : Prop :=
  place.1 = region r ∧ address r ≤ place.2 ∧ place.2 < address r + quantity r

def Reads (device : Device) (pdu : Bytes) (place : Region × Nat) : Prop :=
  ∃ r, carriedOut device pdu = some r ∧ transmitted r = none ∧ Covers r place

def Writes (device : Device) (pdu : Bytes) (place : Region × Nat) : Prop :=
  ∃ r, carriedOut device pdu = some r ∧ transmitted r ≠ none ∧ Covers r place

def Refused (device : Device) (pdu : Bytes) : Prop :=
  ∃ first code, (processPdu device pdu).1 = .ok (exceptionPdu first code)

/-! ### Carried out or not -/

theorem carriedOut_eq_some {device : Device} (sized : device.Sized) {pdu : Bytes} {r : Request} :
    carriedOut device pdu = some r ↔
      decodeRequestPdu pdu = .ok r ∧ QuantityInRange r ∧ InRegion device r := by
  cases decoded : decodeRequestPdu pdu with
  | error e => simp [carriedOut, decoded]
  | ok s =>
    have rule : carriedOut device pdu =
        if QuantityInRange s ∧ InRegion device s then some s else none := by
      simp only [carriedOut, decoded, handleRequest_eq sized]
      by_cases inRange : QuantityInRange s
      · by_cases inside : InRegion device s <;> simp [inRange, inside]
      · simp [inRange]
    rw [rule, Option.ite_none_right_eq_some, Option.some_inj, Except.ok.injEq]
    constructor
    · rintro ⟨within, rfl⟩
      exact ⟨rfl, within⟩
    · rintro ⟨rfl, within⟩
      exact ⟨within, rfl⟩

theorem decoded_of_carriedOut {device : Device} {pdu : Bytes} {r : Request}
    (carried : carriedOut device pdu = some r) : decodeRequestPdu pdu = .ok r := by
  unfold carriedOut at carried
  split at carried
  next decoded =>
    split at carried
    · cases carried
      exact decoded
    · cases carried
  next => cases carried

/-- Devices with regions of the same sizes carry out the same PDUs. -/
theorem carriedOut_congr {device other : Device} (sized : device.Sized) (sized' : other.Sized)
    (alike : Alike device other) (pdu : Bytes) : carriedOut other pdu = carriedOut device pdu := by
  apply Option.ext
  intro r
  rw [carriedOut_eq_some sized, carriedOut_eq_some sized', alike.inRegion]

theorem processPdu_carriedOut {device : Device} (sized : device.Sized) {pdu : Bytes} {r : Request}
    (carried : carriedOut device pdu = some r) :
    processPdu device pdu = (encodeResponsePdu (answer device r), execute device r) := by
  obtain ⟨decoded, inRange, inside⟩ := (carriedOut_eq_some sized).mp carried
  exact processPdu_inRange sized decoded inRange inside

/-- A PDU that is not carried out changes nothing, and its reply is the same on every device with
regions of these sizes. -/
theorem processPdu_not_carriedOut {device other : Device} (sized : device.Sized)
    (sized' : other.Sized) (alike : Alike device other) {pdu : Bytes}
    (refused : carriedOut device pdu = none) :
    processPdu other pdu = ((processPdu device pdu).1, other) := by
  cases decoded : decodeRequestPdu pdu with
  | error e => simp only [processPdu, decoded]
  | ok r =>
    simp only [processPdu, decoded, handleRequest_eq sized, handleRequest_eq sized', alike.inRegion]
    by_cases inRange : QuantityInRange r
    · by_cases inside : InRegion device r
      · have carried := (carriedOut_eq_some sized).mpr ⟨decoded, inRange, inside⟩
        cases refused.symm.trans carried
      · simp only [inRange, inside, not_true, not_false_iff, if_false, if_true]
        rfl
    · simp only [inRange, not_false_iff, if_true]

theorem encode_answer_ne (device : Device) (r : Request) (first : UInt8) (code : Nat) :
    encodeResponsePdu (answer device r) ≠ .ok (exceptionPdu first code) := by
  intro same
  obtain ⟨_, same⟩ := encodeResponsePdu_eq_ok.mp same
  have lead : (answer device r).wire.head? = some (UInt8.ofNat r.functionCode) := by cases r <;> rfl
  rw [← same, exceptionPdu, List.head?_cons, Option.some_inj] at lead
  have large := exception_bit first
  have small := functionCode_lt r
  rw [lead, UInt8.toNat_ofNat_of_lt' (show _ < 256 by omega)] at large
  omega

theorem carriedOut_of_refused {device : Device} (sized : device.Sized) {pdu : Bytes}
    (refused : Refused device pdu) : carriedOut device pdu = none := by
  cases carried : carriedOut device pdu with
  | none => rfl
  | some r =>
    obtain ⟨first, code, answered⟩ := refused
    rw [processPdu_carriedOut sized carried] at answered
    exact absurd answered (encode_answer_ne device r first code)

/-! ### The footprint of a PDU -/

def pduWritten (device : Device) (pdu : Bytes) : Write (Region × Nat) Slot := fun place =>
  match carriedOut device pdu with
  | some r => written r place
  | none => none

theorem written_ne_none_iff {device : Device} {r : Request} (inside : InRegion device r)
    (place : Region × Nat) : written r place ≠ none ↔ transmitted r ≠ none ∧ Covers r place := by
  have start := inside.1
  unfold written Covers
  cases transmits : transmitted r with
  | none => simp
  | some slots =>
    have count := length_transmitted transmits
    simp only [Option.getD_some, ne_eq, reduceCtorEq, not_false_iff, true_and]
    by_cases covers : place.1 = region r ∧ (address r).toNat ≤ place.2
    · rw [if_pos covers, List.getElem?_eq_none_iff]
      obtain ⟨here, after⟩ := covers
      constructor
      · intro before
        exact ⟨here, by omega, by omega⟩
      · rintro ⟨_, _, stop⟩
        omega
    · rw [if_neg covers]
      constructor
      · intro impossible
        exact absurd rfl impossible
      · rintro ⟨here, after, _⟩
        exact absurd ⟨here, by omega⟩ covers

theorem pduWritten_ne_none_iff {device : Device} (sized : device.Sized) (pdu : Bytes)
    (place : Region × Nat) : pduWritten device pdu place ≠ none ↔ Writes device pdu place := by
  unfold pduWritten Writes
  cases carried : carriedOut device pdu with
  | none => simp
  | some r =>
    have inside := ((carriedOut_eq_some sized).mp carried).2.2
    simp only [Option.some_inj, exists_eq_left']
    exact written_ne_none_iff inside place

theorem answer_congr {device other : Device} {r : Request} (inside : InRegion device r)
    (same : transmitted r = none →
      ∀ place, Covers r place → slotAt device place = slotAt other place) :
    answer device r = answer other r := by
  have slots : transmitted r = none → addressed device r = addressed other r := by
    intro reads
    apply List.ext_getElem?
    intro i
    simp only [addressed, getElem?_slice]
    by_cases within : (address r).toNat + i < (address r + quantity r).toNat
    · have start := inside.1
      rw [if_pos within, if_pos within]
      apply same reads (region r, (address r).toNat + i)
      refine ⟨rfl, ?_, ?_⟩ <;> simp only <;> omega
    · rw [if_neg within, if_neg within]
  cases r with
  | readCoils | readDiscreteInputs | readHoldingRegisters | readInputRegisters =>
    simp only [answer, slots rfl]
  | writeSingleCoil | writeSingleRegister | writeMultipleCoils | writeMultipleRegisters => rfl

def pduFootprint {device : Device} (sized : device.Sized) :
    Footprint processPdu (fun other => other.Sized ∧ Alike device other) slotAt where
  reads := Reads device
  write := pduWritten device
  apart := by
    rintro pdu place ⟨r, carried, reads, _⟩
    simp only [pduWritten, carried, written, reads, Option.getD_none, List.getElem?_nil, ite_self]
  records := by
    rintro other pdu ⟨sized', alike⟩ _
    have same := carriedOut_congr sized sized' alike pdu
    cases carried : carriedOut device pdu with
    | none =>
      simp only [processPdu_not_carriedOut sized sized' alike carried, pduWritten, carried,
        Option.none_or]
      exact ⟨⟨sized', alike⟩, fun _ => trivial⟩
    | some r =>
      rw [carried] at same
      have inside := ((carriedOut_eq_some sized').mp same).2.2
      simp only [processPdu_carriedOut sized' same, pduWritten, carried]
      exact ⟨⟨execute_sized sized' r, alike_execute alike r⟩, slotAt_execute sized' inside⟩
  depends := by
    rintro pdu other third ⟨sized₁, alike₁⟩ ⟨sized₂, alike₂⟩ agree
    have same₁ := carriedOut_congr sized sized₁ alike₁ pdu
    have same₂ := carriedOut_congr sized sized₂ alike₂ pdu
    cases carried : carriedOut device pdu with
    | none =>
      rw [processPdu_not_carriedOut sized sized₁ alike₁ carried,
        processPdu_not_carriedOut sized sized₂ alike₂ carried]
    | some r =>
      rw [carried] at same₁ same₂
      have inside := ((carriedOut_eq_some sized₁).mp same₁).2.2
      rw [processPdu_carriedOut sized₁ same₁, processPdu_carriedOut sized₂ same₂,
        answer_congr inside fun reads place covers => agree place ⟨r, carried, reads, covers⟩]
  ext := fun first second => device_ext first.2 second.2

theorem spares_iff {device : Device} (sized : device.Sized) (p q : Bytes) :
    (pduFootprint sized).Spares p q ↔
      ∀ place, Writes device p place → ¬ (Reads device q place ∨ Writes device q place) := by
  constructor
  · intro spares place writes touches
    rw [← pduWritten_ne_none_iff sized q] at touches
    exact (pduWritten_ne_none_iff sized p place).mpr writes (spares place touches)
  · intro apart place touches
    by_contra written
    refine apart place ((pduWritten_ne_none_iff sized p place).mp written) ?_
    rw [← pduWritten_ne_none_iff sized q]
    exact touches

/-! ### Requests in either order -/

/-- One of the PDUs is answered with an exception, or is a read outside the slots that the other
writes, or they address different regions, or both are writes of disjoint ranges. -/
inductive Independent (device : Device) (p q : Bytes) : Prop where
  | refused (exception : Refused device p ∨ Refused device q)
  | readFirst {r : Request} (decoded : decodeRequestPdu p = .ok r) (read : transmitted r = none)
      (outside : ∀ place, Covers r place → ¬ Writes device q place)
  | readSecond {r : Request} (decoded : decodeRequestPdu q = .ok r) (read : transmitted r = none)
      (outside : ∀ place, Covers r place → ¬ Writes device p place)
  | regions {r s : Request} (first : decodeRequestPdu p = .ok r)
      (second : decodeRequestPdu q = .ok s) (different : region r ≠ region s)
  | writes {r s : Request} (first : decodeRequestPdu p = .ok r)
      (second : decodeRequestPdu q = .ok s) (write : transmitted r ≠ none)
      (write' : transmitted s ≠ none) (disjoint : ∀ place, Covers r place → ¬ Covers s place)

theorem Independent.symm {device : Device} {p q : Bytes} (independent : Independent device p q) :
    Independent device q p := by
  cases independent with
  | refused exception => exact .refused exception.symm
  | readFirst decoded read outside => exact .readSecond decoded read outside
  | readSecond decoded read outside => exact .readFirst decoded read outside
  | regions first second different => exact .regions second first different.symm
  | writes first second write write' disjoint =>
    exact .writes second first write' write fun place covers covers' => disjoint place covers' covers

theorem covers_of_touches {device : Device} {pdu : Bytes} {place : Region × Nat}
    (touches : Reads device pdu place ∨ Writes device pdu place) :
    ∃ r, carriedOut device pdu = some r ∧ decodeRequestPdu pdu = .ok r ∧ Covers r place := by
  rcases touches with ⟨r, carried, _, covers⟩ | ⟨r, carried, _, covers⟩
  · exact ⟨r, carried, decoded_of_carriedOut carried, covers⟩
  · exact ⟨r, carried, decoded_of_carriedOut carried, covers⟩

theorem Independent.spares {device : Device} (sized : device.Sized) {p q : Bytes}
    (independent : Independent device p q) : (pduFootprint sized).Spares p q := by
  rw [spares_iff]
  intro place writes touches
  obtain ⟨r, carried, decoded, covers⟩ := covers_of_touches (.inr writes)
  obtain ⟨s, carried', decoded', covers'⟩ := covers_of_touches touches
  cases independent with
  | refused exception =>
    rcases exception with refused | refused
    · cases carried.symm.trans (carriedOut_of_refused sized refused)
    · cases carried'.symm.trans (carriedOut_of_refused sized refused)
  | readFirst first read outside =>
    cases decoded.symm.trans first
    obtain ⟨_, again, transmits, _⟩ := writes
    cases carried.symm.trans again
    exact transmits read
  | readSecond second read outside =>
    cases decoded'.symm.trans second
    exact outside place covers' writes
  | regions first second different =>
    cases decoded.symm.trans first
    cases decoded'.symm.trans second
    exact different (covers.1.symm.trans covers'.1)
  | writes first second write write' disjoint =>
    cases decoded.symm.trans first
    cases decoded'.symm.trans second
    exact disjoint place covers covers'

/-- Independent requests can be processed in either order: the device is the same afterwards, and so
is the reply to each of them. -/
theorem independent_commute {device : Device} (sized : device.Sized) {p q : Bytes}
    (independent : Independent device p q) :
    (processPdu (processPdu device p).2 q).2 = (processPdu (processPdu device q).2 p).2 ∧
      (processPdu device p).1 = (processPdu (processPdu device q).2 p).1 ∧
      (processPdu (processPdu device p).2 q).1 = (processPdu device q).1 :=
  (pduFootprint sized).commute (independent.spares sized) (independent.symm.spares sized)
    ⟨sized, .refl device⟩

/-- The two registers of the sample device are written, in either order. -/
theorem independent_commute_registers :
    (processPdu (processPdu sampleDevice [0x06, 0, 0, 0, 9]).2 [0x06, 0, 1, 0, 7]).2 =
      (processPdu (processPdu sampleDevice [0x06, 0, 1, 0, 7]).2 [0x06, 0, 0, 0, 9]).2 := by
  have first : decodeRequestPdu [0x06, 0, 0, 0, 9] = .ok (.writeSingleRegister 0 9) := rfl
  have second : decodeRequestPdu [0x06, 0, 1, 0, 7] = .ok (.writeSingleRegister 1 7) := rfl
  apply (independent_commute sampleDevice_wellFormed.sized (.writes first second _ _ _)).1
  · exact Option.some_ne_none _
  · exact Option.some_ne_none _
  · rintro place ⟨_, _, before⟩ ⟨_, after, _⟩
    simp only [address, quantity] at before after
    omega

/-! ### Requests sent again -/

/-- A request that is sent again, after others that wrote no slot it reads or writes, is answered as
before and changes nothing. -/
theorem retransmission_harmless {device : Device} (sized : device.Sized) (p : Bytes)
    {qs : List Bytes}
    (spared : ∀ before q, before ++ [q] <+: qs → ∀ place,
      Writes (run processPdu (processPdu device p).2 before).2 q place →
        ¬ (Reads device p place ∨ Writes device p place)) :
    processPdu (run processPdu (processPdu device p).2 qs).2 p =
      ((processPdu device p).1, (run processPdu (processPdu device p).2 qs).2) := by
  apply (pduFootprint sized).repeated _ ⟨sized, .refl device⟩
  intro q member
  rw [spares_iff]
  intro place writes
  obtain ⟨before, after, rfl⟩ := List.mem_iff_append.mp member
  apply spared before q ⟨after, by simp⟩ place
  obtain ⟨r, carried, rest⟩ := writes
  have once := (pduFootprint sized).keeps ⟨sized, .refl device⟩ p
  obtain ⟨sized', alike⟩ := (pduFootprint sized).run_keeps once before
  exact ⟨r, (carriedOut_congr sized sized' alike q).trans carried, rest⟩

/-- The first register is written, then the second one, and a coil is read, and the first one is
written again. -/
theorem retransmission_harmless_register :
    processPdu (run processPdu (processPdu sampleDevice [0x06, 0, 0, 0, 9]).2
        [[0x06, 0, 1, 0, 7], [0x01, 0, 0, 0, 1]]).2 [0x06, 0, 0, 0, 9] =
      (.ok [0x06, 0, 0, 0, 9], (run processPdu (processPdu sampleDevice [0x06, 0, 0, 0, 9]).2
        [[0x06, 0, 1, 0, 7], [0x01, 0, 0, 0, 1]]).2) := by
  apply retransmission_harmless sampleDevice_wellFormed.sized [0x06, 0, 0, 0, 9]
  rintro before q listed place writes touches
  obtain ⟨s, _, decoded, _, below, above⟩ := covers_of_touches touches
  obtain ⟨r, carried, transmits, _, low, high⟩ := writes
  have decoded' := decoded_of_carriedOut carried
  cases decoded.symm.trans (show decodeRequestPdu [0x06, 0, 0, 0, 9] =
    .ok (.writeSingleRegister 0 9) from rfl)
  have member : q ∈ [[0x06, 0, 1, 0, 7], [0x01, 0, 0, 0, 1]] := listed.subset (by simp)
  rcases List.mem_pair.mp member with rfl | rfl
  · cases decoded'.symm.trans (show decodeRequestPdu [0x06, 0, 1, 0, 7] =
      .ok (.writeSingleRegister 1 7) from rfl)
    simp only [address, quantity] at above low
    omega
  · cases decoded'.symm.trans (show decodeRequestPdu [0x01, 0, 0, 0, 1] =
      .ok (.readCoils 0 1) from rfl)
    exact transmits rfl

end ModbusSim.Dispatch
