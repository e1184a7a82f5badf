import ModbusSim.Lib.LockedTasks
import ModbusSim.Lib.StatefulRun

/-!
# The history of tasks under locks

The history of a state that tasks reach is a run of their jobs, one after another, with the outputs
that they have had (`Reaches.run_history`). It only grows, and every job in it was one that its task
wanted.
-/

namespace LockedTasks

open StatefulRun

universe u v w x y z

variable {ι : Type u} {κ : Type v} {σ : Type w} {α : Type x} {ο : Type y} {π : ι → Type z}
variable {P : Program ι κ σ α ο π} {s s' : State ι κ σ α ο π}

def Program.perform (P : Program ι κ σ α ο π) (shared : σ) (job : α) : ο × σ := P.run job shared

theorem replay_eq_run (init : σ) (entries : List (Entry ι α ο)) :
    P.replay init entries = (run P.perform init (entries.map Entry.job)).2 := by
  induction entries generalizing init with
  | nil => rfl
  | cons e entries ih => exact ih (P.run e.job init).2

theorem Serial.run_eq {init : σ} (serial : Serial P init s) :
    run P.perform init (s.history.map Entry.job) = (s.history.map Entry.out, s.shared) := by
  refine Prod.ext ?_ ?_
  · apply List.ext_getElem?
    intro n
    rw [List.getElem?_map]
    cases place : s.history[n]? with
    | none =>
      have beyond := List.getElem?_eq_none_iff.mp place
      rw [Option.map_none, List.getElem?_eq_none_iff, length_run, List.length_map]
      exact beyond
    | some e =>
      have here : (s.history.map Entry.job)[n]? = some e.job := by
        rw [List.getElem?_map, place, Option.map_some]
      rw [run_getElem? P.perform here, ← List.map_take, ← replay_eq_run, Option.map_some,
        serial.outputs n e place]
      rfl
  · rw [← replay_eq_run, serial.shared]

variable [DecidableEq ι] [DecidableEq κ]

theorem Step.history_grows (step : Step P s s') : s.history <+: s'.history := by
  cases step with
  | move | acquire | release | write => exact List.prefix_rfl
  | run => exact List.prefix_append ..

/-- What has run stays, and in its place. -/
theorem Reaches.history_grows (reaches : Reaches P s s') : s.history <+: s'.history := by
  induction reaches with
  | refl => exact List.prefix_rfl
  | tail _ step ih => exact ih.trans step.history_grows

variable {own : (i : ι) → π i} {init : σ}

theorem Reaches.run_history (reaches : Reaches P (.start own init) s) :
    run P.perform init (s.history.map Entry.job) = (s.history.map Entry.out, s.shared) :=
  reaches.serial.run_eq

/-- Every job that has run was one that its task wanted, where it stood. -/
theorem Reaches.wanted (reaches : Reaches P (.start own init) s) {e : Entry ι α ο}
    (ran : e ∈ s.history) : ∃ l, P.wants e.task l e.job := by
  induction reaches with
  | refl => cases ran
  | tail before step ih =>
    have tracked := Reaches.tracked before
    cases step with
    | move | acquire | release | write => exact ih ran
    | @run i job holding =>
      rcases List.mem_append.mp ran with earlier | now
      · exact ih earlier
      · obtain rfl := List.mem_singleton.mp now
        exact ⟨_, tracked.wanted i job (by rw [holding]; rfl)⟩

end LockedTasks
