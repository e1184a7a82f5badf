import Mathlib.Data.List.Basic

/-!
# List slices

`slice` and `sliceAssign` are the language's `xs[a:b]` and `xs[a:b] = ys` for non-negative
bounds: out-of-range bounds are clamped and an assignment may change the length. `overwrite`
says what an assignment of the right length does, slot by slot.
-/

namespace PyList

variable {α : Type*}

def slice (xs : List α) (start stop : Nat) : List α := (xs.take stop).drop start

def sliceAssign (xs : List α) (start stop : Nat) (ys : List α) : List α :=
  xs.take start ++ ys ++ xs.drop (max start stop)

/-- Slots `start`, `start + 1`, … take the values of `ys`; every other slot keeps its own. -/
def overwrite (xs : List α) (start : Nat) (ys : List α) : List α :=
  xs.mapIdx fun i x => if start ≤ i then ys.getD (i - start) x else x

theorem getElem?_slice (xs : List α) (start stop i : Nat) :
    (slice xs start stop)[i]? = if start + i < stop then xs[start + i]? else none := by
  simp [slice, List.getElem?_take]

theorem length_slice {xs : List α} {start count : Nat} (inside : start + count ≤ xs.length) :
    (slice xs start (start + count)).length = count := by
  simp only [slice, List.length_drop, List.length_take]
  omega

theorem slice_append (xs : List α) (start count more : Nat) :
    slice xs start (start + count) ++ slice xs (start + count) (start + count + more) =
      slice xs start (start + count + more) := by
  simp only [slice, List.drop_take]
  have first : start + count - start = count := by omega
  have second : start + count + more - (start + count) = more := by omega
  have both : start + count + more - start = count + more := by omega
  rw [first, second, both, List.take_add, List.drop_drop]

theorem mem_of_mem_slice {xs : List α} {start stop : Nat} {x : α} (member : x ∈ slice xs start stop) :
    x ∈ xs :=
  List.mem_of_mem_take (List.mem_of_mem_drop member)

@[simp] theorem length_overwrite (xs : List α) (start : Nat) (ys : List α) :
    (overwrite xs start ys).length = xs.length := by simp [overwrite]

theorem getElem?_overwrite {xs ys : List α} {start : Nat} (inside : start + ys.length ≤ xs.length)
    (i : Nat) :
    (overwrite xs start ys)[i]? =
      if start ≤ i ∧ i < start + ys.length then ys[i - start]? else xs[i]? := by
  simp only [overwrite, List.getElem?_mapIdx]
  by_cases within : start ≤ i ∧ i < start + ys.length
  · have slot : i < xs.length := by omega
    have value : i - start < ys.length := by omega
    simp [within, List.getElem?_eq_getElem slot, value]
  · rw [if_neg within]
    cases slot : xs[i]? with
    | none => rfl
    | some x =>
      by_cases before : start ≤ i
      · have beyond : ys.length ≤ i - start := by omega
        simp [before, List.getElem?_eq_none beyond]
      · simp [before]

theorem sliceAssign_eq_overwrite {xs ys : List α} {start : Nat}
    (inside : start + ys.length ≤ xs.length) :
    sliceAssign xs start (start + ys.length) ys = overwrite xs start ys := by
  apply List.ext_getElem?
  intro i
  rw [getElem?_overwrite inside]
  have front : (xs.take start).length = start := by simp; omega
  have stop : max start (start + ys.length) = start + ys.length := by omega
  rw [sliceAssign, stop, List.append_assoc]
  by_cases before : i < start
  · rw [List.getElem?_append_left (by omega), List.getElem?_take, if_pos before, if_neg (by omega)]
  · rw [List.getElem?_append_right (by omega), front]
    by_cases within : i < start + ys.length
    · rw [List.getElem?_append_left (by omega), if_pos (by omega)]
    · rw [List.getElem?_append_right (by omega), List.getElem?_drop, if_neg (by omega)]
      congr 1
      omega

theorem slice_overwrite {xs ys : List α} {start : Nat} (inside : start + ys.length ≤ xs.length) :
    slice (overwrite xs start ys) start (start + ys.length) = ys := by
  apply List.ext_getElem?
  intro i
  rw [getElem?_slice, getElem?_overwrite inside]
  by_cases within : i < ys.length
  · rw [if_pos (by omega), if_pos (by omega)]
    congr 1
    omega
  · rw [if_neg (by omega), List.getElem?_eq_none (by omega)]

theorem mem_of_mem_overwrite {xs ys : List α} {start : Nat} {x : α}
    (member : x ∈ overwrite xs start ys) : x ∈ xs ∨ x ∈ ys := by
  obtain ⟨i, bound, rfl⟩ := List.mem_mapIdx.mp member
  split
  · cases value : ys[i - start]? with
    | none => exact .inl (by simp [value])
    | some y => exact .inr (by simpa [value] using List.mem_of_getElem? value)
  · exact .inl (List.getElem_mem _)

end PyList
