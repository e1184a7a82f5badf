import ModbusSim.Frame.Packing
import ModbusSim.Lib.Slice

/-!
# Memory blocks

`MemoryBlock`: a list of slots with a declared size. Its methods return the block afterwards
beside the value or the exception, so that what an exception leaves behind is part of the result.
-/

namespace ModbusSim.Store

open PyStruct PyList ModbusSim.Frame

/-- A value of type `int | bool`. -/
inductive Slot where
  | bool (b : Bool)
  | int (n : Int)
  deriving DecidableEq, Repr

/-- `bool(slot)` -/
def Slot.toBool : Slot → Bool
  | .bool b => b
  | .int n => n != 0

/-- `int(slot)` -/
def Slot.toInt : Slot → Int
  | .bool b => if b then 1 else 0
  | .int n => n

structure MemoryBlock where
  size : Nat
  values : List Slot
  deriving DecidableEq, Repr

namespace MemoryBlock

/-- `MemoryBlock(size, values, fill=fill)` -/
def init (size : Int) (values : Option (List Slot)) (fill : Slot) : Except Exn MemoryBlock :=
  let vals := values.getD []
  if size < 0 then .error (.py (.valueError "size must be non-negative"))
  else if vals.length > size then
    .error (.py (.valueError
      (toString vals.length ++ " initial values exceed block size " ++ toString size)))
  else .ok ⟨size.toNat, vals ++ List.replicate (size.toNat - vals.length) fill⟩

def addressError (b : MemoryBlock) (address count : Int) : Exn :=
  illegalDataAddressError ("address range [" ++ toString address ++ ", " ++
    toString (address + count) ++ ") outside [0, " ++ toString b.size ++ ")")

/-- `_check` -/
def check (b : MemoryBlock) (address count : Int) : Except Exn Unit :=
  if address < 0 ∨ count < 0 ∨ address + count > b.size then .error (b.addressError address count)
  else .ok ()

def read (b : MemoryBlock) (address count : Int) : Except Exn (List Slot) := do
  b.check address count
  return slice b.values address.toNat (address + count).toNat

def write (b : MemoryBlock) (address : Int) (values : List Slot) :
    Except Exn Unit × MemoryBlock :=
  match b.check address values.length with
  | .error e => (.error e, b)
  | .ok () =>
    let stop := address + values.length
    (.ok (), { b with values := sliceAssign b.values address.toNat stop.toNat values })

def set (b : MemoryBlock) (address : Int) (value : Slot) : Except Exn Unit × MemoryBlock :=
  match b.check address 1 with
  | .error e => (.error e, b)
  | .ok () =>
    if address.toNat < b.values.length then
      (.ok (), { b with values := b.values.set address.toNat value })
    else (.error (.py .indexError), b)

def Sized (b : MemoryBlock) : Prop := b.values.length = b.size

def Inside (b : MemoryBlock) (address count : Int) : Prop :=
  0 ≤ address ∧ 0 ≤ count ∧ address + count ≤ b.size

instance (b : MemoryBlock) (address count : Int) : Decidable (b.Inside address count) :=
  inferInstanceAs (Decidable (0 ≤ address ∧ 0 ≤ count ∧ address + count ≤ b.size))

theorem check_eq (b : MemoryBlock) (address count : Int) :
    b.check address count =
      if b.Inside address count then .ok () else .error (b.addressError address count) := by
  by_cases inside : b.Inside address count
  · obtain ⟨start, nonneg, stop⟩ := inside
    rw [check, if_neg (by omega), if_pos ⟨start, nonneg, stop⟩]
  · rw [if_neg inside, check, if_pos]
    by_contra within
    exact inside ⟨by omega, by omega, by omega⟩

theorem read_eq (b : MemoryBlock) (address count : Int) :
    b.read address count =
      if b.Inside address count then .ok (slice b.values address.toNat (address + count).toNat)
      else .error (b.addressError address count) := by
  rw [read, check_eq]
  by_cases inside : b.Inside address count <;> simp [inside]

/-- A write changes exactly the addressed slots. -/
theorem write_eq {b : MemoryBlock} (sized : b.Sized) (address : Int) (values : List Slot) :
    b.write address values =
      if b.Inside address values.length then
        (.ok (), { b with values := overwrite b.values address.toNat values })
      else (.error (b.addressError address values.length), b) := by
  rw [write, check_eq]
  by_cases inside : b.Inside address values.length
  · obtain ⟨start, nonneg, stop⟩ := inside
    have within : address.toNat + values.length ≤ b.values.length := by rw [sized]; omega
    have bound : (address + values.length).toNat = address.toNat + values.length := by omega
    simp only [if_pos (show b.Inside address values.length from ⟨start, nonneg, stop⟩), bound,
      sliceAssign_eq_overwrite within]
  · simp only [if_neg inside]

theorem set_eq {b : MemoryBlock} (sized : b.Sized) (address : Int) (value : Slot) :
    b.set address value =
      if b.Inside address 1 then
        (.ok (), { b with values := b.values.set address.toNat value })
      else (.error (b.addressError address 1), b) := by
  rw [set, check_eq]
  by_cases inside : b.Inside address 1
  · obtain ⟨start, _, stop⟩ := inside
    have within : address.toNat < b.values.length := by rw [sized]; omega
    simp only [if_pos (show b.Inside address 1 from ⟨start, by omega, stop⟩), if_pos within]
  · simp only [if_neg inside]

end MemoryBlock

end ModbusSim.Store
