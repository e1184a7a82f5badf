import Mathlib.Tactic.Common

/-!
# Places of a subsequence

Where in a list its elements with a property stand. A list that grows keeps the places that are
taken, and the places it adds are beyond its old end.
-/

namespace Places

universe u

variable {α : Type u} (p : α → Bool)

/-- The place of the element number `i` among those with the property. -/
def place : Nat → List α → Nat
  | _, [] => 0
  | i, a :: l =>
    match p a, i with
    | true, 0 => 0
    | true, i + 1 => place i l + 1
    | false, i => place i l + 1

theorem getElem?_place {i : Nat} {l : List α} {a : α} (own : (l.filter p)[i]? = some a) :
    l[place p i l]? = some a := by
  induction l generalizing i with
  | nil => cases own
  | cons b l ih =>
    rw [List.filter_cons] at own
    unfold place
    cases holds : p b with
    | true =>
      rw [if_pos holds] at own
      cases i with
      | zero => exact own
      | succ i => exact ih own
    | false =>
      rw [if_neg (by simp [holds])] at own
      exact ih own

theorem place_append {i : Nat} {l : List α} (within : i < (l.filter p).length) (more : List α) :
    place p i (l ++ more) = place p i l := by
  induction l generalizing i with
  | nil => cases within
  | cons b l ih =>
    rw [List.filter_cons] at within
    rw [List.cons_append]
    unfold place
    cases holds : p b with
    | true =>
      rw [if_pos holds, List.length_cons] at within
      cases i with
      | zero => rfl
      | succ i => exact congrArg Nat.succ (ih (Nat.lt_of_succ_lt_succ within))
    | false =>
      rw [if_neg (by simp [holds])] at within
      exact congrArg Nat.succ (ih within)

theorem le_place_append {i : Nat} {l more : List α} (beyond : (l.filter p).length ≤ i)
    (within : i < ((l ++ more).filter p).length) : l.length ≤ place p i (l ++ more) := by
  induction l generalizing i with
  | nil => exact Nat.zero_le _
  | cons b l ih =>
    rw [List.filter_cons] at beyond
    rw [List.cons_append, List.filter_cons] at within
    rw [List.cons_append]
    unfold place
    cases holds : p b with
    | true =>
      rw [if_pos holds, List.length_cons] at beyond within
      cases i with
      | zero => cases beyond
      | succ i =>
        exact Nat.succ_le_succ (ih (Nat.le_of_succ_le_succ beyond) (Nat.lt_of_succ_lt_succ within))
    | false =>
      rw [if_neg (by simp [holds])] at beyond within
      exact Nat.succ_le_succ (ih beyond within)

theorem place_lt {i j : Nat} {l : List α} (before : i < j) (within : j < (l.filter p).length) :
    place p i l < place p j l := by
  induction l generalizing i j with
  | nil => cases within
  | cons b l ih =>
    rw [List.filter_cons] at within
    unfold place
    cases holds : p b with
    | true =>
      rw [if_pos holds, List.length_cons] at within
      cases j with
      | zero => cases before
      | succ j =>
        cases i with
        | zero => exact Nat.zero_lt_succ _
        | succ i =>
          exact Nat.succ_lt_succ (ih (Nat.lt_of_succ_lt_succ before) (Nat.lt_of_succ_lt_succ within))
    | false =>
      rw [if_neg (by simp [holds])] at within
      exact Nat.succ_lt_succ (ih before within)

theorem getElem?_filter {l : List α} {c : Nat} {a : α} (listed : l[c]? = some a)
    (holds : p a = true) : (l.filter p)[((l.take c).filter p).length]? = some a := by
  induction l generalizing c with
  | nil => cases listed
  | cons b l ih =>
    cases c with
    | zero =>
      cases listed
      rw [List.filter_cons, if_pos holds]
      rfl
    | succ c =>
      have later := ih listed
      rw [List.take_succ_cons, List.filter_cons, List.filter_cons]
      split
      · exact later
      · exact later

end Places
