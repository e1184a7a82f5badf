import Mathlib.Data.List.Basic
import Mathlib.Data.Nat.Bitwise

/-!
# Packing bits into bytes

Bit `i` of a byte string is bit `i % 8` of byte `i / 8`. `packed` writes a list of bits into
the fewest bytes, with zeros above the last bit; `unpacked` reads a number of bits back.
-/

namespace BitPacking

/-- The number of bytes that `n` bits need. -/
def octets (n : Nat) : Nat := (n + 7) / 8

def bit (bs : List UInt8) (i : Nat) : Bool := (bs.getD (i / 8) 0).toNat.testBit (i % 8)

def packed (bits : List Bool) : List UInt8 :=
  (List.range (octets bits.length)).map fun j =>
    UInt8.ofNat (Nat.ofBits fun k : Fin 8 => bits.getD (8 * j + k) false)

def unpacked (bs : List UInt8) (n : Nat) : List Bool := (List.range n).map (bit bs)

/-- Clear every bit from position `n` on. -/
def clearFrom (bs : List UInt8) (n : Nat) : List UInt8 :=
  bs.mapIdx fun j b => UInt8.ofNat (b.toNat % 2 ^ (n - 8 * j))

theorem testBit_byte (b : UInt8) {k : Nat} (high : 8 ≤ k) : b.toNat.testBit k = false :=
  Nat.testBit_lt_two_pow (b.toNat_lt.trans_le (Nat.pow_le_pow_right (by decide) high))

theorem testBit_bit (bs : List UInt8) (j k : Nat) (low : k < 8) :
    (bs.getD j 0).toNat.testBit k = bit bs (8 * j + k) := by
  have index : (8 * j + k) / 8 = j := by omega
  have offset : (8 * j + k) % 8 = k := by omega
  rw [bit, index, offset]

theorem bit_of_le {bs : List UInt8} {i : Nat} (beyond : 8 * bs.length ≤ i) : bit bs i = false := by
  have index : bs.length ≤ i / 8 := by omega
  simp [bit, List.getElem?_eq_none index]

/-- A byte string is its length and its bits. -/
theorem ext_bit {as bs : List UInt8} (size : as.length = bs.length)
    (same : ∀ i < 8 * as.length, bit as i = bit bs i) : as = bs := by
  apply List.ext_getElem size
  intro j inA inB
  apply UInt8.toNat_inj.mp
  apply Nat.eq_of_testBit_eq
  intro k
  by_cases low : k < 8
  · have here := same (8 * j + k) (by omega)
    rw [← testBit_bit as j k low, ← testBit_bit bs j k low] at here
    simpa [inA, inB] using here
  · rw [testBit_byte _ (by omega), testBit_byte _ (by omega)]

@[simp] theorem length_packed (bits : List Bool) :
    (packed bits).length = octets bits.length := by simp [packed]

@[simp] theorem length_unpacked (bs : List UInt8) (n : Nat) : (unpacked bs n).length = n := by
  simp [unpacked]

@[simp] theorem length_clearFrom (bs : List UInt8) (n : Nat) :
    (clearFrom bs n).length = bs.length := by simp [clearFrom]

theorem bit_packed (bits : List Bool) (i : Nat) : bit (packed bits) i = bits.getD i false := by
  by_cases inside : i < 8 * octets bits.length
  · have index : i / 8 < octets bits.length := by omega
    have offset : i % 8 < 8 := by omega
    have whole : 8 * (i / 8) + i % 8 = i := by omega
    have bound := Nat.ofBits_lt_two_pow fun k : Fin 8 => bits.getD (8 * (i / 8) + k) false
    simp only [bit, packed, List.getD_eq_getElem?_getD, List.getElem?_map,
      List.getElem?_range index, Option.map_some, Option.getD_some, UInt8.toNat_ofNat'] at bound ⊢
    rw [Nat.mod_eq_of_lt bound, Nat.testBit_ofBits_lt _ _ offset, whole]
  · have beyond : bits.length ≤ i := by simp only [octets] at inside; omega
    rw [bit_of_le (by simpa using inside)]
    simp [List.getElem?_eq_none beyond]

theorem getElem?_unpacked (bs : List UInt8) (n i : Nat) :
    (unpacked bs n)[i]? = if i < n then some (bit bs i) else none := by
  by_cases inside : i < n <;> simp [unpacked, inside]

theorem unpacked_packed (bits : List Bool) : unpacked (packed bits) bits.length = bits := by
  apply List.ext_getElem?
  intro i
  rw [getElem?_unpacked, bit_packed]
  by_cases inside : i < bits.length
  · simp [inside]
  · simp [inside]

theorem unpacked_packed_octets (bits : List Bool) :
    unpacked (packed bits) (8 * octets bits.length) =
      bits ++ List.replicate (8 * octets bits.length - bits.length) false := by
  apply List.ext_getElem?
  intro i
  have room : bits.length ≤ 8 * octets bits.length := by
    rw [octets]
    omega
  rw [getElem?_unpacked, bit_packed, List.getD_eq_getElem?_getD]
  by_cases inside : i < bits.length
  · rw [List.getElem?_append_left inside, if_pos (by omega), List.getElem?_eq_getElem inside,
      Option.getD_some]
  · rw [List.getElem?_append_right (by omega), List.getElem?_replicate,
      List.getElem?_eq_none (by omega), Option.getD_none]
    by_cases padding : i < 8 * octets bits.length
    · rw [if_pos padding, if_pos (by omega)]
    · rw [if_neg padding, if_neg (by omega)]

theorem bit_clearFrom (bs : List UInt8) (n i : Nat) :
    bit (clearFrom bs n) i = (decide (i < n) && bit bs i) := by
  by_cases inside : i / 8 < bs.length
  · have small : bs[i / 8].toNat % 2 ^ (n - 8 * (i / 8)) < 2 ^ 8 :=
      (Nat.mod_le _ _).trans_lt bs[i / 8].toNat_lt
    have below : i % 8 < n - 8 * (i / 8) ↔ i < n := by omega
    simp only [bit, clearFrom, List.getD_eq_getElem?_getD, List.getElem?_mapIdx,
      List.getElem?_eq_getElem inside, Option.map_some, Option.getD_some, UInt8.toNat_ofNat',
      Nat.mod_eq_of_lt small, Nat.testBit_mod_two_pow, below]
  · rw [bit_of_le (by rw [length_clearFrom]; omega), bit_of_le (by omega), Bool.and_false]

theorem clearFrom_of_le {bs : List UInt8} {n : Nat} (beyond : 8 * bs.length ≤ n) :
    clearFrom bs n = bs := by
  apply ext_bit (length_clearFrom bs n)
  intro i inside
  rw [length_clearFrom] at inside
  rw [bit_clearFrom, decide_eq_true (Nat.lt_of_lt_of_le inside beyond), Bool.true_and]

theorem bit_unpacked (bs : List UInt8) (n i : Nat) :
    (unpacked bs n).getD i false = (decide (i < n) && bit bs i) := by
  rw [List.getD_eq_getElem?_getD, getElem?_unpacked]
  by_cases inside : i < n <;> simp [inside]

/-- Packing what was unpacked clears the bits that were not read. -/
theorem packed_unpacked {bs : List UInt8} {n : Nat} (size : bs.length = octets n) :
    packed (unpacked bs n) = clearFrom bs n := by
  apply ext_bit (by simp [size])
  intro i _
  rw [bit_packed, bit_unpacked, bit_clearFrom]

theorem unpacked_clearFrom (bs : List UInt8) (n : Nat) :
    unpacked (clearFrom bs n) n = unpacked bs n := by
  apply List.ext_getElem?
  intro i
  rw [getElem?_unpacked, getElem?_unpacked, bit_clearFrom]
  by_cases inside : i < n <;> simp [inside]

end BitPacking
