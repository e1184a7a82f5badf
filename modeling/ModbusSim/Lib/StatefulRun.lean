import Mathlib.Tactic.Common

/-!
# Runs of stateful functions

A stateful function takes a state and an input to an output and the next state. `run` applies it
to inputs one after another. A run keeps what every step keeps (`run_keeps`). Where one such
function simulates another step by step, their runs give the same outputs (`run_simulates`).
-/

namespace StatefulRun

universe u v w x y

variable {σ : Type u} {τ : Type v} {ι : Type w} {ο : Type x} {ω : Type y}

def run (step : σ → ι → ο × σ) (s : σ) : List ι → List ο × σ
  | [] => ([], s)
  | i :: inputs =>
    ((step s i).1 :: (run step (step s i).2 inputs).1, (run step (step s i).2 inputs).2)

theorem run_append (step : σ → ι → ο × σ) (s : σ) (inputs more : List ι) :
    run step s (inputs ++ more) =
      ((run step s inputs).1 ++ (run step (run step s inputs).2 more).1,
        (run step (run step s inputs).2 more).2) := by
  induction inputs generalizing s with
  | nil => rfl
  | cons i inputs ih => simp only [List.cons_append, run, ih]

theorem length_run (step : σ → ι → ο × σ) (s : σ) (inputs : List ι) :
    (run step s inputs).1.length = inputs.length := by
  induction inputs generalizing s with
  | nil => rfl
  | cons i inputs ih => simp only [run, List.length_cons, ih]

theorem run_take (step : σ → ι → ο × σ) (s : σ) (inputs : List ι) (n : Nat) :
    (run step s (inputs.take n)).1 = (run step s inputs).1.take n := by
  conv => rhs; rw [← List.take_append_drop n inputs, run_append]
  rcases Nat.le_total n inputs.length with within | beyond
  · rw [List.take_left']
    rw [length_run, List.length_take, Nat.min_eq_left within]
  · rw [List.take_of_length_le beyond, List.drop_of_length_le beyond, run, List.append_nil,
      List.take_of_length_le]
    rw [length_run]
    exact beyond

theorem run_getElem? (step : σ → ι → ο × σ) {s : σ} {inputs : List ι} {n : Nat} {i : ι}
    (place : inputs[n]? = some i) :
    (run step s inputs).1[n]? = some (step (run step s (inputs.take n)).2 i).1 := by
  induction inputs generalizing s n with
  | nil => cases place
  | cons j inputs ih =>
    cases n with
    | zero =>
      cases place
      rfl
    | succ n => exact ih place

theorem run_map {κ : Type y} (step : σ → ι → ο × σ) (f : κ → ι) (s : σ) (inputs : List κ) :
    run step s (inputs.map f) = run (fun s k => step s (f k)) s inputs := by
  induction inputs generalizing s with
  | nil => rfl
  | cons k inputs ih => simp only [List.map_cons, run, ih]

theorem run_congr {step other : σ → ι → ο × σ} {inputs : List ι}
    (same : ∀ i ∈ inputs, ∀ s, step s i = other s i) (s : σ) :
    run step s inputs = run other s inputs := by
  induction inputs generalizing s with
  | nil => rfl
  | cons i inputs ih =>
    have first := same i List.mem_cons_self s
    simp only [run, first, ih fun j member => same j (List.mem_cons_of_mem i member)]

theorem run_state_congr {step : σ → ι → ο × σ} {other : σ → ι → ω × σ}
    (same : ∀ s i, (step s i).2 = (other s i).2) (inputs : List ι) (s : σ) :
    (run step s inputs).2 = (run other s inputs).2 := by
  induction inputs generalizing s with
  | nil => rfl
  | cons i inputs ih =>
    rw [run, run, same]
    exact ih (other s i).2

theorem run_keeps {step : σ → ι → ο × σ} {invariant : σ → Prop}
    (keeps : ∀ s i, invariant s → invariant (step s i).2) (inputs : List ι) {s : σ}
    (start : invariant s) : invariant (run step s inputs).2 := by
  induction inputs generalizing s with
  | nil => exact start
  | cons i inputs ih => exact ih (keeps s i start)

def loudInputs (loud : ο → Bool) (inputs : List ι) (outputs : List ο) : List ι :=
  ((inputs.zip outputs).filter fun p => loud p.2).map Prod.fst

theorem mem_of_mem_loudInputs {loud : ο → Bool} {inputs : List ι} {outputs : List ο} {i : ι}
    (member : i ∈ loudInputs loud inputs outputs) : i ∈ inputs := by
  obtain ⟨⟨i, o⟩, listed, rfl⟩ := List.mem_map.mp member
  exact (List.of_mem_zip (List.mem_filter.mp listed).1).1

theorem loudInputs_map (loud : ω → Bool) (f : ο → ω) (inputs : List ι) (outputs : List ο) :
    loudInputs loud inputs (outputs.map f) = loudInputs (loud ∘ f) inputs outputs := by
  rw [loudInputs, List.zip_map_right, List.filter_map, List.map_map]
  rfl

theorem loudInputs_take (loud : ο → Bool) (inputs : List ι) (outputs : List ο) :
    loudInputs loud (inputs.take outputs.length) outputs = loudInputs loud inputs outputs := by
  induction outputs generalizing inputs with
  | nil => simp [loudInputs]
  | cons o outputs ih =>
    cases inputs with
    | nil => rfl
    | cons i inputs =>
      have later := ih inputs
      simp only [loudInputs] at later ⊢
      simp only [List.length_cons, List.take_succ_cons, List.zip_cons_cons, List.filter_cons]
      split <;> simp [later]

/-- If only steps with a loud output change the state, these steps alone have the same outputs and
lead to the same state. -/
theorem run_loudInputs {step : σ → ι → ο × σ} {loud : ο → Bool} {invariant : σ → Prop}
    {valid : ι → Prop} (keeps : ∀ s i, invariant s → valid i → invariant (step s i).2)
    (quiet : ∀ s i, invariant s → valid i → loud (step s i).1 = false → (step s i).2 = s)
    {inputs : List ι} (all : ∀ i ∈ inputs, valid i) {s : σ} (start : invariant s) :
    run step s (loudInputs loud inputs (run step s inputs).1) =
      ((run step s inputs).1.filter loud, (run step s inputs).2) := by
  induction inputs generalizing s with
  | nil => rfl
  | cons i inputs ih =>
    obtain ⟨first, others⟩ := List.forall_mem_cons.mp all
    have later := ih others (keeps s i start first)
    rw [loudInputs] at later ⊢
    simp only [run, List.zip_cons_cons, List.filter_cons]
    cases heard : loud (step s i).1 with
    | true => simp only [if_true, List.map_cons, run, later]
    | false =>
      have same := quiet s i start first heard
      simp only [Bool.false_eq_true, if_false]
      rw [same] at later ⊢
      exact later

/-- What the outputs to all valid inputs are, from states that every step keeps to, those of a run
are. -/
theorem run_valid_outputs {step : σ → ι → ο × σ} {invariant : σ → Prop} {valid : ι → Prop}
    {good : ο → Prop}
    (keeps : ∀ s i, invariant s → valid i → good (step s i).1 ∧ invariant (step s i).2)
    {inputs : List ι} (all : ∀ i ∈ inputs, valid i) {s : σ} (start : invariant s) :
    ∀ o ∈ (run step s inputs).1, good o := by
  induction inputs generalizing s with
  | nil => simp [run]
  | cons i inputs ih =>
    obtain ⟨first, others⟩ := List.forall_mem_cons.mp all
    obtain ⟨holds, next⟩ := keeps s i start first
    rw [run, List.forall_mem_cons]
    exact ⟨holds, ih others next⟩

theorem run_outputs {step : σ → ι → ο × σ} {invariant : σ → Prop} {good : ο → Prop}
    (keeps : ∀ s i, invariant s → good (step s i).1 ∧ invariant (step s i).2) (inputs : List ι)
    {s : σ} (start : invariant s) : ∀ o ∈ (run step s inputs).1, good o :=
  run_valid_outputs (fun s i holds (_ : True) => keeps s i holds) (fun _ _ => trivial) start

/-- From related states a valid input leads to related states; the output seen through `view` is
that of the specification, and is a good one for its input. -/
def Simulates (step : σ → ι → ο × σ) (spec : τ → ι → ω × τ) (related : σ → τ → Prop)
    (valid : ι → Prop) (view : ο → ω) (good : ι → ο → Prop) : Prop :=
  ∀ s t i, related s t → valid i →
    view (step s i).1 = (spec t i).1 ∧ good i (step s i).1 ∧ related (step s i).2 (spec t i).2

theorem run_simulates {step : σ → ι → ο × σ} {spec : τ → ι → ω × τ} {related : σ → τ → Prop}
    {valid : ι → Prop} {view : ο → ω} {good : ι → ο → Prop}
    (simulates : Simulates step spec related valid view good) {inputs : List ι}
    (all : ∀ i ∈ inputs, valid i) {s : σ} {t : τ} (start : related s t) :
    (run step s inputs).1.map view = (run spec t inputs).1 ∧
      List.Forall₂ good inputs (run step s inputs).1 ∧
      related (run step s inputs).2 (run spec t inputs).2 := by
  induction inputs generalizing s t with
  | nil => exact ⟨rfl, .nil, start⟩
  | cons i inputs ih =>
    obtain ⟨same, holds, next⟩ := simulates s t i start (all i (by simp))
    obtain ⟨others, good, last⟩ := ih (fun j member => all j (by simp [member])) next
    refine ⟨?_, .cons holds good, last⟩
    simp only [run, List.map_cons, same, others]

end StatefulRun
