import ModbusSim.Lib.LastWriter

/-!
# Footprints

A footprint tells, for each input of a stateful function, the places that it reads and the write
that it makes. The output depends on nothing but the places read. Two inputs of which neither
writes what the other reads or writes can be exchanged (`commute`). An input that comes again, after
others that wrote nothing it reads or writes, finds its output again and changes nothing
(`repeated`).
-/

namespace LastWriter

open StatefulRun

universe u v w x y

variable {κ : Type u} {α : Type v} {σ : Type w} {ι : Type x} {ο : Type y}

/-- The view shows all of a state that matters, and the laws hold in the states of the invariant. No
input reads what it writes. -/
structure Footprint (step : σ → ι → ο × σ) (invariant : σ → Prop) (view : σ → κ → Option α) where
  reads : ι → κ → Prop
  write : ι → Write κ α
  apart : ∀ {i k}, reads i k → write i k = none
  records : Records step invariant (fun _ => True) view fun i _ => write i
  depends : ∀ {i s t}, invariant s → invariant t → (∀ k, reads i k → view s k = view t k) →
    (step s i).1 = (step t i).1
  ext : ∀ {s t}, invariant s → invariant t → (∀ k, view s k = view t k) → s = t

namespace Footprint

variable {step : σ → ι → ο × σ} {invariant : σ → Prop} {view : σ → κ → Option α}

theorem keeps (F : Footprint step invariant view) {s : σ} (start : invariant s) (i : ι) :
    invariant (step s i).2 :=
  (F.records s i start trivial).1

theorem run_keeps (F : Footprint step invariant view) {s : σ} (start : invariant s)
    (inputs : List ι) : invariant (run step s inputs).2 :=
  (view_run F.records (fun _ _ => trivial) start).1

variable (F : Footprint step invariant view)

theorem view_step {s : σ} (start : invariant s) (i : ι) (k : κ) :
    view (step s i).2 k = (F.write i k).or (view s k) :=
  (F.records s i start trivial).2 k

theorem view_step_of_none {s : σ} (start : invariant s) {i : ι} {k : κ}
    (unwritten : F.write i k = none) : view (step s i).2 k = view s k := by
  rw [F.view_step start, unwritten, Option.none_or]

theorem view_run_of_none {s : σ} (start : invariant s) {inputs : List ι} {k : κ}
    (unwritten : ∀ i ∈ inputs, F.write i k = none) :
    view (run step s inputs).2 k = view s k := by
  rw [(view_run F.records (fun _ _ => trivial) start).2, history_of_input]
  have spared : latest (inputs.map F.write) k = none := by
    apply latest_eq_none_iff.mpr
    intro w member
    obtain ⟨i, listed, rfl⟩ := List.mem_map.mp member
    exact unwritten i listed
  rw [spared, Option.none_or]

/-- The first input writes nothing that the second one reads or writes. -/
def Spares (i j : ι) : Prop := ∀ k, F.reads j k ∨ F.write j k ≠ none → F.write i k = none

theorem output_of_spares {i j : ι} (spares : F.Spares i j) {s : σ} (start : invariant s) :
    (step (step s i).2 j).1 = (step s j).1 := by
  apply F.depends (F.keeps start i) start
  intro k read
  exact F.view_step_of_none start (spares k (.inl read))

theorem commute {i j : ι} (first : F.Spares i j) (second : F.Spares j i) {s : σ}
    (start : invariant s) :
    (step (step s i).2 j).2 = (step (step s j).2 i).2 ∧
      (step s i).1 = (step (step s j).2 i).1 ∧ (step (step s i).2 j).1 = (step s j).1 := by
  refine ⟨?_, (F.output_of_spares second start).symm, F.output_of_spares first start⟩
  apply F.ext (F.keeps (F.keeps start i) j) (F.keeps (F.keeps start j) i)
  intro k
  rw [F.view_step (F.keeps start i), F.view_step start, F.view_step (F.keeps start j),
    F.view_step start]
  -- At most one of the two writes covers the place.
  cases value : F.write j k with
  | none => rw [Option.none_or, Option.none_or]
  | some a =>
    have other : F.write i k = none := first k (.inr (by simp [value]))
    rw [other, Option.none_or, Option.none_or]

/-- An input that comes again after inputs that spare it has its output again and changes nothing. -/
theorem repeated {i : ι} {inputs : List ι} (spared : ∀ j ∈ inputs, F.Spares j i) {s : σ}
    (start : invariant s) :
    step (run step (step s i).2 inputs).2 i = ((step s i).1, (run step (step s i).2 inputs).2) := by
  have once := F.keeps start i
  have last := F.run_keeps once inputs
  refine Prod.ext ?_ ?_
  · apply F.depends last start
    intro k read
    rw [F.view_run_of_none once fun j member => spared j member k (.inl read)]
    exact F.view_step_of_none start (F.apart read)
  · apply F.ext (F.keeps last i) last
    intro k
    rw [F.view_step last]
    cases value : F.write i k with
    | none => rw [Option.none_or]
    | some a =>
      -- What it wrote the first time is still there.
      rw [F.view_run_of_none once fun j member => spared j member k (.inr (by simp [value])),
        F.view_step start, value, Option.some_or]
      rfl

end Footprint

end LastWriter
