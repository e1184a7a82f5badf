import ModbusSim.Lib.StatefulRun
import Mathlib.Data.List.Perm.Basic

/-!
# The last writer wins

A write is a partial map: the places it covers, each with its new value. Of a list of writes, the
latest one that covers a place decides what it holds (`latest`). A stateful function whose steps
each make one write to what is seen of the state makes, in a run, these writes in their order
(`view_run`); where the writes agree, their order makes no difference (`latest_perm`).
-/

namespace LastWriter

open StatefulRun

universe u v w x y

variable {κ : Type u} {α : Type v}

abbrev Write (κ : Type u) (α : Type v) := κ → Option α

def latest (writes : List (Write κ α)) (k : κ) : Option α := writes.reverse.findSome? fun w => w k

@[simp] theorem latest_nil (k : κ) : latest ([] : List (Write κ α)) k = none := rfl

@[simp] theorem latest_cons (w : Write κ α) (writes : List (Write κ α)) (k : κ) :
    latest (w :: writes) k = (latest writes k).or (w k) := by
  rw [latest, List.reverse_cons, List.findSome?_append, List.findSome?_singleton]
  rfl

theorem latest_append (writes others : List (Write κ α)) (k : κ) :
    latest (writes ++ others) k = (latest others k).or (latest writes k) := by
  rw [latest, List.reverse_append, List.findSome?_append]
  rfl

theorem latest_eq_none_iff {writes : List (Write κ α)} {k : κ} :
    latest writes k = none ↔ ∀ w ∈ writes, w k = none := by
  induction writes with
  | nil => simp
  | cons w writes ih =>
    rw [latest_cons, Option.or_eq_none_iff, ih, List.forall_mem_cons, and_comm]

theorem mem_of_latest {writes : List (Write κ α)} {k : κ} {a : α} (written : latest writes k = some a) :
    ∃ w ∈ writes, w k = some a := by
  obtain ⟨w, member, value⟩ := List.exists_of_findSome?_eq_some written
  exact ⟨w, List.mem_reverse.mp member, value⟩

/-- The latest covering write has a place in the list, and no write after it covers. -/
theorem latest_eq_some_iff {writes : List (Write κ α)} {k : κ} {a : α} :
    latest writes k = some a ↔ ∃ (i : Nat) (w : Write κ α), writes[i]? = some w ∧ w k = some a ∧
      ∀ (j : Nat) (v : Write κ α), i < j → writes[j]? = some v → v k = none := by
  induction writes with
  | nil => simp
  | cons first writes ih =>
    rw [latest_cons, Option.or_eq_some_iff, ih, latest_eq_none_iff]
    constructor
    · rintro (⟨i, w, here, value, last⟩ | ⟨none, value⟩)
      · refine ⟨i + 1, w, here, value, fun j v after later => ?_⟩
        cases j with
        | zero => cases after
        | succ j => exact last j v (Nat.lt_of_succ_lt_succ after) later
      · refine ⟨0, first, rfl, value, fun j v after later => ?_⟩
        cases j with
        | zero => cases after
        | succ j => exact none v (List.mem_of_getElem? later)
    · rintro ⟨i, w, here, value, last⟩
      cases i with
      | zero =>
        cases here
        refine .inr ⟨fun v member => ?_, value⟩
        obtain ⟨j, later⟩ := List.mem_iff_getElem?.mp member
        exact last (j + 1) v (Nat.succ_pos j) later
      | succ i =>
        exact .inl ⟨i, w, here, value, fun j v after later =>
          last (j + 1) v (Nat.succ_lt_succ after) later⟩

theorem latest_since {writes : List (Write κ α)} {k : κ} {a : α} {n : Nat} {w : Write κ α}
    (here : writes[n]? = some w) (covers : w k = some a) : ∃ (i : Nat) (v : Write κ α) (b : α),
      n ≤ i ∧ writes[i]? = some v ∧ v k = some b ∧ latest writes k = some b ∧
        ∀ (j : Nat) (u : Write κ α), i < j → writes[j]? = some u → u k = none := by
  cases written : latest writes k with
  | none =>
    have none := latest_eq_none_iff.mp written w (List.mem_of_getElem? here)
    cases covers.symm.trans none
  | some b =>
    obtain ⟨i, v, place, value, last⟩ := latest_eq_some_iff.mp written
    refine ⟨i, v, b, ?_, place, value, rfl, last⟩
    by_contra before
    cases covers.symm.trans (last n w (Nat.not_le.mp before) here)

def Agree (writes : List (Write κ α)) : Prop :=
  ∀ w ∈ writes, ∀ w' ∈ writes, ∀ k a a', w k = some a → w' k = some a' → a = a'

theorem latest_of_agree {writes : List (Write κ α)} (agree : Agree writes) {w : Write κ α}
    (member : w ∈ writes) {k : κ} {a : α} (value : w k = some a) : latest writes k = some a := by
  cases written : latest writes k with
  | none => exact absurd (latest_eq_none_iff.mp written w member) (by simp [value])
  | some a' =>
    obtain ⟨w', member', value'⟩ := mem_of_latest written
    rw [agree w' member' w member k a' a value' value]

/-- Writes that agree can be made in any order. -/
theorem latest_perm {writes others : List (Write κ α)} (agree : Agree writes)
    (perm : others.Perm writes) (k : κ) : latest others k = latest writes k := by
  have agree' : Agree others := fun w member w' member' =>
    agree w (perm.mem_iff.mp member) w' (perm.mem_iff.mp member')
  cases written : latest writes k with
  | none =>
    apply latest_eq_none_iff.mpr
    intro w member
    exact latest_eq_none_iff.mp written w (perm.mem_iff.mp member)
  | some a =>
    obtain ⟨w, member, value⟩ := mem_of_latest written
    exact latest_of_agree agree' (perm.mem_iff.mpr member) value

section Runs

variable {σ : Type w} {ι : Type x} {ο : Type y}

/-- Each step keeps the invariant and makes, to what is seen of the state, the write that is told
by its input and its output. -/
def Records (step : σ → ι → ο × σ) (invariant : σ → Prop) (valid : ι → Prop)
    (view : σ → κ → Option α) (write : ι → ο → Write κ α) : Prop :=
  ∀ s i, invariant s → valid i → invariant (step s i).2 ∧
    ∀ k, view (step s i).2 k = (write i (step s i).1 k).or (view s k)

def history (write : ι → ο → Write κ α) (inputs : List ι) (outputs : List ο) : List (Write κ α) :=
  List.zipWith write inputs outputs

@[simp] theorem history_cons (write : ι → ο → Write κ α) (i : ι) (inputs : List ι) (o : ο)
    (outputs : List ο) :
    history write (i :: inputs) (o :: outputs) = write i o :: history write inputs outputs := rfl

theorem history_of_input (step : σ → ι → ο × σ) (write : ι → Write κ α) (inputs : List ι) (s : σ) :
    history (fun i _ => write i) inputs (run step s inputs).1 = inputs.map write := by
  induction inputs generalizing s with
  | nil => rfl
  | cons i inputs ih => rw [run, history_cons, ih, List.map_cons]

/-- After a run a place holds what the latest covering write put there, or what it held before. -/
theorem view_run {step : σ → ι → ο × σ} {invariant : σ → Prop} {valid : ι → Prop}
    {view : σ → κ → Option α} {write : ι → ο → Write κ α}
    (records : Records step invariant valid view write) {inputs : List ι}
    (all : ∀ i ∈ inputs, valid i) {s : σ} (start : invariant s) :
    invariant (run step s inputs).2 ∧
      ∀ k, view (run step s inputs).2 k =
        (latest (history write inputs (run step s inputs).1) k).or (view s k) := by
  induction inputs generalizing s with
  | nil => exact ⟨start, fun k => rfl⟩
  | cons i inputs ih =>
    obtain ⟨next, wrote⟩ := records s i start (all i (by simp))
    obtain ⟨last, later⟩ := ih (fun j member => all j (by simp [member])) next
    refine ⟨last, fun k => ?_⟩
    rw [run, later, wrote]
    simp only [history_cons, latest_cons, Option.or_assoc]

end Runs

end LastWriter
