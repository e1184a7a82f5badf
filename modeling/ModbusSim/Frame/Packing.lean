import ModbusSim.Frame.Types
import ModbusSim.Lib.BitPacking
import Mathlib.Data.List.Forall2

/-!
# Bit and register packing

The packing helpers of `frame.py`. The mutable loop of `pack_bits` computes the packing of the
library (`packBits_eq_packed`), and the range check of `unpack_bits` is the only way it fails.
Nothing is lost on the way there and back (`packing_round_trips`).
-/

namespace ModbusSim.Frame

open PyStruct BitPacking

/-- The loop of `pack_bits`, from bit number `i` on. -/
def packBitsLoop (out : Bytes) (i : Nat) : List Bool → Bytes
  | [] => out
  | bit :: bits =>
    packBitsLoop
      (if bit then out.modify (i >>> 3) (· ||| UInt8.ofNat (1 <<< (i &&& 7))) else out) (i + 1) bits

def packBits (bits : List Bool) : Bytes :=
  packBitsLoop (List.replicate ((bits.length + 7) / 8) 0) 0 bits

def unpackBits (data : Bytes) (count : Int) : Except Exn (List Bool) :=
  if count < 0 then .error (.py (.valueError "count must be non-negative"))
  else if count > data.length * 8 then
    .error (illegalDataValueError "not enough bytes to unpack the requested bits" none)
  else
    -- the index is in range: i < count ≤ 8 * len(data)
    .ok ((List.range count.toNat).map fun i =>
      (((data.getD (i >>> 3) 0).toNat >>> (i &&& 7)) &&& 1) != 0)

def packRegisters (registers : List Int) : Except Exn Bytes :=
  liftPy (pack (List.replicate registers.length .H) registers)

def unpackRegisters (data : Bytes) : Except Exn (List Int) :=
  if data.length % 2 ≠ 0 then
    .error (illegalDataValueError "register byte string must have even length" none)
  else liftPy (unpack (List.replicate (data.length / 2) .H) data)

/-! ### Bits -/

@[simp] theorem length_packBitsLoop (out : Bytes) (i : Nat) (bits : List Bool) :
    (packBitsLoop out i bits).length = out.length := by
  induction bits generalizing out i with
  | nil => rfl
  | cons b bits ih =>
    rw [packBitsLoop, ih]
    split <;> simp

theorem bit_modify (out : Bytes) (i j : Nat) (inside : i < 8 * out.length) :
    bit (out.modify (i >>> 3) (· ||| UInt8.ofNat (1 <<< (i &&& 7)))) j =
      (bit out j || decide (i = j)) := by
  have byteIndex : i >>> 3 = i / 8 := Nat.shiftRight_eq_div_pow i 3
  have bitIndex : i &&& 7 = i % 8 := Nat.and_two_pow_sub_one_eq_mod i 3
  have mask : (UInt8.ofNat (1 <<< (i % 8))).toNat = 2 ^ (i % 8) := by
    rw [Nat.one_shiftLeft, UInt8.toNat_ofNat', Nat.mod_eq_of_lt]
    exact Nat.pow_lt_pow_right (by decide) (by omega)
  rw [byteIndex, bitIndex]
  simp only [bit, List.getD_eq_getElem?_getD, List.getElem?_modify]
  by_cases sameByte : i / 8 = j / 8
  · have slot : j / 8 < out.length := by omega
    have place : i % 8 = j % 8 ↔ i = j := by omega
    simp [sameByte, List.getElem?_eq_getElem slot, mask, Nat.testBit_two_pow, place]
  · have other : i ≠ j := fun same => sameByte (by rw [same])
    simp [sameByte, other]

/-- After the loop a bit is set if it was before or if the loop's list sets it. -/
theorem bit_packBitsLoop (bits : List Bool) (out : Bytes) (i j : Nat)
    (room : i + bits.length ≤ 8 * out.length) :
    bit (packBitsLoop out i bits) j =
      (bit out j || (decide (i ≤ j) && bits.getD (j - i) false)) := by
  induction bits generalizing out i with
  | nil => simp [packBitsLoop]
  | cons b bits ih =>
    rw [List.length_cons] at room
    have written : bit (if b then out.modify (i >>> 3) (· ||| UInt8.ofNat (1 <<< (i &&& 7))) else out) j =
        (bit out j || (b && decide (i = j))) := by
      cases b with
      | false => simp
      | true => simp [bit_modify out i j (by omega)]
    have size : (if b then out.modify (i >>> 3) (· ||| UInt8.ofNat (1 <<< (i &&& 7))) else out).length =
        out.length := by
      split <;> simp
    rw [packBitsLoop, ih _ _ (by omega), written, Bool.or_assoc]
    congr 1
    rcases Nat.lt_trichotomy i j with before | here | after
    · have step : j - i = (j - (i + 1)) + 1 := by omega
      simp [step, Nat.ne_of_lt before, Nat.succ_le_of_lt before, Nat.le_of_lt before]
    · subst here
      simp
    · simp [Nat.not_le_of_lt after, Nat.ne_of_gt after, Nat.not_le_of_lt (Nat.lt_succ_of_lt after)]

theorem packBits_eq_packed (bits : List Bool) : packBits bits = packed bits := by
  apply ext_bit
  · simp [packBits, octets]
  · intro i _
    have room : 0 + bits.length ≤ 8 * (List.replicate ((bits.length + 7) / 8) (0 : UInt8)).length := by
      rw [List.length_replicate]
      omega
    have blank : bit (List.replicate ((bits.length + 7) / 8) 0) i = false := by
      by_cases inside : i / 8 < (bits.length + 7) / 8 <;> simp [bit, inside]
    rw [packBits, bit_packBitsLoop bits _ _ _ room, bit_packed, blank]
    simp

@[simp] theorem length_packBits (bits : List Bool) : (packBits bits).length = octets bits.length := by
  rw [packBits_eq_packed, length_packed]

theorem unpackBits_of_le {data : Bytes} {n : Nat} (enough : n ≤ 8 * data.length) :
    unpackBits data n = .ok (unpacked data n) := by
  have nonneg : ¬ (n : Int) < 0 := by omega
  have fits : ¬ (n : Int) > data.length * 8 := by omega
  simp only [unpackBits, nonneg, fits, if_false, Int.toNat_natCast, unpacked, Except.ok.injEq]
  apply List.map_congr_left
  intro i _
  have byteIndex : i >>> 3 = i / 8 := Nat.shiftRight_eq_div_pow i 3
  have bitIndex : i &&& 7 = i % 8 := Nat.and_two_pow_sub_one_eq_mod i 3
  rw [byteIndex, bitIndex, bit, Nat.testBit, Nat.and_comm]

theorem unpackBits_of_gt {data : Bytes} {n : Nat} (short : 8 * data.length < n) :
    unpackBits data n =
      .error (illegalDataValueError "not enough bytes to unpack the requested bits" none) := by
  have nonneg : ¬ (n : Int) < 0 := by omega
  have exceeds : (n : Int) > data.length * 8 := by omega
  simp only [unpackBits, nonneg, exceeds, if_false, if_true]

theorem unpackBits_packBits (bits : List Bool) : unpackBits (packBits bits) bits.length = .ok bits := by
  rw [packBits_eq_packed, unpackBits_of_le, unpacked_packed]
  simp only [length_packed, octets]
  omega

/-! ### Registers -/

/-- A value of 16 bits: a register, an address or a quantity. -/
def IsWord (v : Int) : Prop := 0 ≤ v ∧ v ≤ registerMax

instance (v : Int) : Decidable (IsWord v) :=
  inferInstanceAs (Decidable (0 ≤ v ∧ v ≤ registerMax))

theorem fit_registers_iff {registers : List Int} :
    Fit (List.replicate registers.length .H) registers ↔ ∀ v ∈ registers, IsWord v := by
  induction registers with
  | nil => simp [Fit]
  | cons v vs ih =>
    unfold Fit at ih ⊢
    rw [List.length_cons, List.replicate_succ, List.forall₂_cons, ih]
    simp [Field.Fits, Field.max, IsWord, registerMax]

def registerBytes (registers : List Int) : Bytes :=
  layout (List.replicate registers.length .H) registers

theorem length_registerBytes {registers : List Int} (fit : ∀ v ∈ registers, IsWord v) :
    (registerBytes registers).length = 2 * registers.length := by
  rw [registerBytes, length_layout (fit_registers_iff.mpr fit), calcsize_replicate]
  simp [Field.size, Nat.mul_comm]

theorem packRegisters_of_fit {registers : List Int} (fit : ∀ v ∈ registers, IsWord v) :
    packRegisters registers = .ok (registerBytes registers) := by
  rw [packRegisters, pack_of_fit (fit_registers_iff.mpr fit), liftPy_ok, registerBytes]

theorem packRegisters_of_not_fit {registers : List Int} (misfit : ¬ ∀ v ∈ registers, IsWord v) :
    packRegisters registers = .error (.py .structError) := by
  rw [packRegisters, pack_of_not_fit fun fit => misfit (fit_registers_iff.mp fit), liftPy_error]

theorem unpackRegisters_registerBytes {registers : List Int} (fit : ∀ v ∈ registers, IsWord v) :
    unpackRegisters (registerBytes registers) = .ok registers := by
  have size := length_registerBytes fit
  have even : ¬ (registerBytes registers).length % 2 ≠ 0 := by omega
  have half : (registerBytes registers).length / 2 = registers.length := by omega
  rw [unpackRegisters, if_neg even, half, registerBytes,
    unpack_layout (fit_registers_iff.mpr fit), liftPy_ok]

theorem unpackRegisters_of_even {data : Bytes} (even : data.length % 2 = 0) :
    ∃ registers, unpackRegisters data = .ok registers ∧ registers.length = data.length / 2 ∧
      (∀ v ∈ registers, IsWord v) ∧ registerBytes registers = data := by
  have size : data.length = calcsize (List.replicate (data.length / 2) .H) := by
    rw [calcsize_replicate, Field.size]
    omega
  obtain ⟨registers, unpacked⟩ := unpack_isOk_iff.mpr size
  obtain ⟨fit, same⟩ := unpack_eq_ok unpacked
  have count : registers.length = data.length / 2 := by
    rw [← fit.length_eq, List.length_replicate]
  rw [← count] at fit same
  refine ⟨registers, ?_, count, fit_registers_iff.mp fit, same⟩
  rw [unpackRegisters, if_neg (by omega), unpacked, liftPy_ok]

/-! ### Round trips -/

theorem unpackBits_raises_iff (data : Bytes) (count : Int) :
    (∃ e : ModbusError, unpackBits data count = .error (.modbus e) ∧ e.kind = .illegalDataValue) ↔
      8 * (data.length : Int) < count := by
  constructor
  · rintro ⟨e, raised, kind⟩
    unfold unpackBits at raised
    split at raised
    · cases raised
    · split at raised
      next exceeds => omega
      next => cases raised
  · intro short
    obtain ⟨n, rfl⟩ := Int.eq_ofNat_of_zero_le (show 0 ≤ count by omega)
    exact ⟨_, unpackBits_of_gt (by omega), rfl⟩

/-- Bits and registers are packed without loss. Bytes are packed from what they unpack to, less the
bits that were not asked for, and bits are missing only past the last byte. -/
theorem packing_round_trips :
    (∀ bits : List Bool, (packBits bits).length = octets bits.length ∧
        (∀ j k, j < (packBits bits).length → k < 8 →
          ((packBits bits).getD j 0).toNat.testBit k = bits.getD (8 * j + k) false) ∧
        unpackBits (packBits bits) bits.length = .ok bits) ∧
      (∀ (data : Bytes) (n : Nat), data.length = octets n →
        ∃ bits, unpackBits data n = .ok bits ∧ packBits bits = clearFrom data n) ∧
      (∀ (data : Bytes) (n : Int),
        (∃ e : ModbusError, unpackBits data n = .error (.modbus e) ∧ e.kind = .illegalDataValue) ↔
          8 * (data.length : Int) < n) ∧
      (∀ registers : List Int, (∀ v ∈ registers, IsWord v) →
        ∃ data, packRegisters registers = .ok data ∧ unpackRegisters data = .ok registers) ∧
      ∀ data : Bytes, data.length % 2 = 0 →
        ∃ registers, unpackRegisters data = .ok registers ∧ packRegisters registers = .ok data := by
  refine ⟨fun bits => ⟨length_packBits bits, ?_, unpackBits_packBits bits⟩, ?_, unpackBits_raises_iff,
    ?_, ?_⟩
  · intro j k _ low
    rw [testBit_bit _ j k low, packBits_eq_packed, bit_packed]
  · intro data n size
    have enough : n ≤ 8 * data.length := by
      rw [size, octets]
      omega
    refine ⟨_, unpackBits_of_le enough, ?_⟩
    rw [packBits_eq_packed, packed_unpacked size]
  · intro registers words
    exact ⟨_, packRegisters_of_fit words, unpackRegisters_registerBytes words⟩
  · intro data even
    obtain ⟨registers, unpacked, _, words, same⟩ := unpackRegisters_of_even even
    refine ⟨registers, unpacked, ?_⟩
    rw [packRegisters_of_fit words, same]

/-- Nine bits of two bytes are kept, and two registers. -/
theorem packing_round_trips_bits :
    (∃ bits, unpackBits [0xFF, 0xFF] 9 = .ok bits ∧ packBits bits = [0xFF, 0x01]) ∧
      ∃ registers, unpackRegisters [156, 64, 1, 244] = .ok registers ∧
        packRegisters registers = .ok [156, 64, 1, 244] := by
  obtain ⟨_, bytes, _, _, pairs⟩ := packing_round_trips
  exact ⟨bytes [0xFF, 0xFF] 9 (by decide), pairs [156, 64, 1, 244] (by decide)⟩

end ModbusSim.Frame
