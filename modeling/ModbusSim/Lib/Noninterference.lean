import ModbusSim.Lib.StatefulRun

/-!
# Noninterference

An observer of a stateful function sees a part of its state, some of its inputs, and the outputs
to these. Two laws on single steps make the observer blind to all else: an input that is not seen
leaves the view of the state as it is, and one that is seen is answered by the view alone. Then
leaving out the inputs that are not seen changes nothing that is (`run_purge`), so that runs whose
seen inputs agree look the same (`run_eq_of_seen_eq`).
-/

namespace Noninterference

open StatefulRun

universe u v w x

variable {σ : Type u} {ι : Type v} {ο : Type w} {ν : Type x}

structure Observer (step : σ → ι → ο × σ) (ν : Type x) where
  view : σ → ν
  Sees : ι → Prop
  decSees : DecidablePred Sees
  hidden : ∀ {i}, ¬ Sees i → ∀ s, view (step s i).2 = view s
  seen : ∀ {i}, Sees i → ∀ {s t}, view s = view t →
    (step s i).1 = (step t i).1 ∧ view (step s i).2 = view (step t i).2

namespace Observer

variable {step : σ → ι → ο × σ} (O : Observer step ν)

instance : DecidablePred O.Sees := O.decSees

def purge (inputs : List ι) : List ι := inputs.filter O.Sees

theorem purge_cons (i : ι) (inputs : List ι) :
    O.purge (i :: inputs) = if O.Sees i then i :: O.purge inputs else O.purge inputs := by
  by_cases sees : O.Sees i <;> simp [purge, sees]

def observed : List ι → List ο → List ο
  | i :: inputs, o :: outputs =>
    if O.Sees i then o :: observed inputs outputs else observed inputs outputs
  | _, _ => []

theorem observed_cons (i : ι) (inputs : List ι) (o : ο) (outputs : List ο) :
    O.observed (i :: inputs) (o :: outputs) =
      if O.Sees i then o :: O.observed inputs outputs else O.observed inputs outputs := by
  rw [observed]

/-- The observer cannot tell a run from the run of the inputs it sees. -/
theorem run_purge (inputs : List ι) {s t : σ} (same : O.view s = O.view t) :
    O.observed inputs (run step s inputs).1 = (run step t (O.purge inputs)).1 ∧
      O.view (run step s inputs).2 = O.view (run step t (O.purge inputs)).2 := by
  induction inputs generalizing s t with
  | nil => exact ⟨rfl, same⟩
  | cons i inputs ih =>
    rw [run, observed_cons, purge_cons]
    by_cases sees : O.Sees i
    · obtain ⟨output, next⟩ := O.seen sees same
      obtain ⟨outputs, last⟩ := ih next
      rw [if_pos sees, if_pos sees, run, output, outputs]
      exact ⟨rfl, last⟩
    · rw [if_neg sees, if_neg sees]
      exact ih ((O.hidden sees s).trans same)

theorem run_eq_of_seen_eq {inputs others : List ι} (seen : O.purge inputs = O.purge others)
    {s t : σ} (same : O.view s = O.view t) :
    O.observed inputs (run step s inputs).1 = O.observed others (run step t others).1 ∧
      O.view (run step s inputs).2 = O.view (run step t others).2 := by
  obtain ⟨outputs, last⟩ := O.run_purge inputs same
  obtain ⟨outputs', last'⟩ := O.run_purge others (s := t) rfl
  rw [outputs, last, outputs', last', seen]
  exact ⟨rfl, rfl⟩

end Observer

end Noninterference
