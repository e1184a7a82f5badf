import ModbusSim.Lib.LockedTasks

/-!
# Tasks under locks can go on

A task waits for a lock and for nothing else, and a lock that is held is held by a task inside
(`Occupied`), which waits for nothing. So a lock can be freed (`Reaches.vacate`), a task can finish
the job it is at (`Reaches.settle`) and do the one it wants (`Reaches.perform`). As long as its jobs
and its moves bring it nearer to an end, it can come to this end (`Reaches.exhaust`).
-/

namespace LockedTasks

universe u v w x y z

variable {ι : Type u} {κ : Type v} {σ : Type w} {α : Type x} {ο : Type y} {π : ι → Type z}
variable {P : Program ι κ σ α ο π} {s s' : State ι κ σ α ο π}

/-- Every lock that is held is held by a task inside. -/
def Occupied (P : Program ι κ σ α ο π) (s : State ι κ σ α ο π) : Prop :=
  ∀ k, s.locked k = true → ∃ i job, (s.pc i).Inside job ∧ P.lock job = k

@[simp] theorem Pc.pending_idle (i : ι) : (Pc.idle : Pc α ο).pending i = [] := rfl

variable [DecidableEq ι]

theorem inside_update_of_ne {pc : ι → Pc α ο} {i j : ι} {p : Pc α ο} {job : α}
    (within : (pc j).Inside job) (other : j ≠ i) : (Function.update pc i p j).Inside job := by
  rw [Function.update_of_ne other]
  exact within

variable [DecidableEq κ]

theorem Occupied.step (step : Step P s s') (occupied : Occupied P s) : Occupied P s' := by
  intro k held
  cases step with
  | move => exact occupied k held
  | @acquire i job idle =>
    by_cases same : k = P.lock job
    · refine ⟨i, job, ?_, same.symm⟩
      simp only [Function.update_self]
      rfl
    · simp only [Function.update_of_ne same] at held
      obtain ⟨j, a, within, lock⟩ := occupied k held
      refine ⟨j, a, inside_update_of_ne within ?_, lock⟩
      rintro rfl
      rw [idle] at within
      exact within
  | @run i job holding =>
    obtain ⟨j, a, within, lock⟩ := occupied k held
    by_cases same : j = i
    · subst same
      rw [holding] at within
      refine ⟨j, a, ?_, lock⟩
      simp only [Function.update_self]
      exact within
    · exact ⟨j, a, inside_update_of_ne within same, lock⟩
  | @release i job out ran =>
    -- the lock that is still held is not the one that has been freed
    have other : k ≠ P.lock job := by
      rintro rfl
      simp only [Function.update_self] at held
      cases held
    simp only [Function.update_of_ne other] at held
    obtain ⟨j, a, within, lock⟩ := occupied k held
    refine ⟨j, a, inside_update_of_ne within ?_, lock⟩
    rintro rfl
    rw [ran] at within
    cases within
    exact other lock.symm
  | @write i job out released =>
    obtain ⟨j, a, within, lock⟩ := occupied k held
    refine ⟨j, a, inside_update_of_ne within ?_, lock⟩
    rintro rfl
    rw [released] at within
    exact within

theorem Reaches.trans {s'' : State ι κ σ α ο π} (first : Reaches P s s') (second : Reaches P s' s'') :
    Reaches P s s'' :=
  Relation.ReflTransGen.trans first second

section Reached

variable {own : (i : ι) → π i} {init : σ}

theorem Reaches.occupied (reaches : Reaches P (.start own init) s) : Occupied P s :=
  reaches.invariant (fun _ held => by cases held) Occupied.step

theorem Reaches.shared {S : σ → Prop} (keeps : ∀ job shared, S shared → S (P.run job shared).2)
    (holds : S init) (reaches : Reaches P (.start own init) s) : S s.shared := by
  rw [reaches.serial.shared]
  exact replay_invariant keeps holds s.history

/-- Every output of the history came out of a shared state that the jobs keep to. -/
theorem Reaches.output {S : σ → Prop} (keeps : ∀ job shared, S shared → S (P.run job shared).2)
    (holds : S init) (reaches : Reaches P (.start own init) s) {e : Entry ι α ο}
    (ran : e ∈ s.history) : ∃ shared, S shared ∧ e.out = (P.run e.job shared).1 := by
  obtain ⟨n, place⟩ := List.mem_iff_getElem?.mp ran
  exact ⟨_, replay_invariant keeps holds _, reaches.serial.outputs n e place⟩

theorem Reaches.output_of_pending {S : σ → Prop}
    (keeps : ∀ job shared, S shared → S (P.run job shared).2) (holds : S init)
    (reaches : Reaches P (.start own init) s) {i : ι} {job : α} {out : ο}
    (pending : (s.pc i).pending i = [⟨i, job, out⟩]) :
    ∃ shared, S shared ∧ out = (P.run job shared).1 := by
  have entries := reaches.tracked.entries i
  rw [pending] at entries
  have ran : (⟨i, job, out⟩ : Entry ι α ο) ∈ s.entriesOf i := by
    rw [entries]
    exact List.mem_append_right _ List.mem_cons_self
  exact reaches.output keeps holds (List.mem_of_mem_filter ran)

end Reached

/-! ### What a task at a job can do -/

theorem reaches_acquire {i : ι} {job : α} (idle : s.pc i = .idle) (wants : P.wants i (s.own i) job)
    (free : s.locked (P.lock job) = false) :
    ∃ s', Reaches P s s' ∧ s'.pc i = .holding job ∧ s'.own = s.own := by
  refine ⟨_, .single (.acquire idle wants free), ?_, rfl⟩
  simp only [Function.update_self]

theorem reaches_release {i : ι} {job : α} {out : ο} (ran : s.pc i = .ran job out) :
    ∃ s', Reaches P s s' ∧ s'.pc i = .released job out ∧ s'.locked (P.lock job) = false ∧
      s'.own = s.own ∧ ∀ j, s.pc j = .idle → s'.pc j = .idle := by
  refine ⟨_, .single (.release ran), ?_, ?_, rfl, fun j idle => ?_⟩
  · simp only [Function.update_self]
  · simp only [Function.update_self]
  · have other : j ≠ i := by
      rintro rfl
      cases ran.symm.trans idle
    simp only [Function.update_of_ne other]
    exact idle

theorem reaches_run {i : ι} {job : α} (holding : s.pc i = .holding job) :
    ∃ s', Reaches P s s' ∧ s'.pc i = .ran job (P.run job s.shared).1 ∧ s'.own = s.own ∧
      ∀ j, s.pc j = .idle → s'.pc j = .idle := by
  refine ⟨_, .single (.run holding), ?_, rfl, fun j idle => ?_⟩
  · simp only [Function.update_self]
  · have other : j ≠ i := by
      rintro rfl
      cases holding.symm.trans idle
    simp only [Function.update_of_ne other]
    exact idle

theorem reaches_write {i : ι} {job : α} {out : ο} (released : s.pc i = .released job out) :
    ∃ s', Reaches P s s' ∧ s'.pc i = .idle ∧
      s'.own = Function.update s.own i (P.after i (s.own i) job out) := by
  refine ⟨_, .single (.write released), ?_, rfl⟩
  simp only [Function.update_self]

theorem reaches_finish {i : ι} {job : α} {out : ο} (ran : s.pc i = .ran job out) :
    ∃ s', Reaches P s s' ∧ s'.pc i = .idle ∧
      s'.own = Function.update s.own i (P.after i (s.own i) job out) := by
  obtain ⟨s₁, first, released, _, own, _⟩ := reaches_release ran
  obtain ⟨s₂, second, idle, after⟩ := reaches_write released
  rw [own] at after
  exact ⟨s₂, first.trans second, idle, after⟩

theorem reaches_finish_of_holding {i : ι} {job : α} (holding : s.pc i = .holding job) :
    ∃ s', Reaches P s s' ∧ s'.pc i = .idle ∧
      s'.own = Function.update s.own i (P.after i (s.own i) job (P.run job s.shared).1) := by
  obtain ⟨s₁, first, ran, own, _⟩ := reaches_run holding
  obtain ⟨s₂, second, idle, after⟩ := reaches_finish ran
  rw [own] at after
  exact ⟨s₂, first.trans second, idle, after⟩

/-- The task inside goes on until the lock is free; tasks between jobs stay there. -/
theorem Occupied.vacate (occupied : Occupied P s) (k : κ) :
    ∃ s', Reaches P s s' ∧ s'.locked k = false ∧ s'.own = s.own ∧
      ∀ j, s.pc j = .idle → s'.pc j = .idle := by
  cases held : s.locked k with
  | false => exact ⟨s, .refl, held, rfl, fun _ idle => idle⟩
  | true =>
    obtain ⟨i, job, within, rfl⟩ := occupied k held
    cases pc : s.pc i with
    | idle | released =>
      rw [pc] at within
      exact within.elim
    | ran a out =>
      rw [pc] at within
      cases within
      obtain ⟨s₁, steps, _, free, own, others⟩ := reaches_release pc
      exact ⟨s₁, steps, free, own, others⟩
    | holding a =>
      rw [pc] at within
      cases within
      obtain ⟨s₁, first, ran, own₁, others₁⟩ := reaches_run pc
      obtain ⟨s₂, second, _, free, own₂, others₂⟩ := reaches_release ran
      exact ⟨s₂, first.trans second, free, own₂.trans own₁, fun j idle => others₂ j (others₁ j idle)⟩

section Reached

variable {own : (i : ι) → π i} {init : σ}

theorem Reaches.perform {S : σ → Prop} (keeps : ∀ job shared, S shared → S (P.run job shared).2)
    (holds : S init) (reaches : Reaches P (.start own init) s) {i : ι} {job : α}
    (idle : s.pc i = .idle) (wants : P.wants i (s.own i) job) :
    ∃ s' shared, Reaches P s s' ∧ s'.pc i = .idle ∧ S shared ∧
      s'.own = Function.update s.own i (P.after i (s.own i) job (P.run job shared).1) := by
  obtain ⟨s₁, first, free, own₁, others⟩ := reaches.occupied.vacate (P.lock job)
  have wants₁ : P.wants i (s₁.own i) job := own₁ ▸ wants
  obtain ⟨s₂, second, holding, own₂⟩ := reaches_acquire (others i idle) wants₁ free
  obtain ⟨s₃, third, rests, after⟩ := reaches_finish_of_holding holding
  have steps := first.trans second
  refine ⟨s₃, s₂.shared, steps.trans third, rests, (reaches.trans steps).shared keeps holds, ?_⟩
  rw [after, own₂, own₁]

theorem Reaches.settle {S : σ → Prop} (keeps : ∀ job shared, S shared → S (P.run job shared).2)
    (holds : S init) (reaches : Reaches P (.start own init) s) (i : ι) :
    ∃ s', Reaches P s s' ∧ s'.pc i = .idle ∧
      (s'.own = s.own ∨ ∃ job shared, P.wants i (s.own i) job ∧ S shared ∧
        s'.own = Function.update s.own i (P.after i (s.own i) job (P.run job shared).1)) := by
  have wanted := reaches.tracked.wanted i
  cases pc : s.pc i with
  | idle => exact ⟨s, .refl, pc, .inl rfl⟩
  | holding job =>
    obtain ⟨s₁, steps, idle, after⟩ := reaches_finish_of_holding pc
    have wants := wanted job (by rw [pc]; rfl)
    exact ⟨s₁, steps, idle, .inr ⟨job, s.shared, wants, reaches.shared keeps holds, after⟩⟩
  | ran job out =>
    have pending : (s.pc i).pending i = [⟨i, job, out⟩] := by rw [pc]; rfl
    obtain ⟨shared, sound, rfl⟩ := reaches.output_of_pending keeps holds pending
    obtain ⟨s₁, steps, idle, after⟩ := reaches_finish pc
    exact ⟨s₁, steps, idle, .inr ⟨job, shared, wanted job (by rw [pc]; rfl), sound, after⟩⟩
  | released job out =>
    have pending : (s.pc i).pending i = [⟨i, job, out⟩] := by rw [pc]; rfl
    obtain ⟨shared, sound, rfl⟩ := reaches.output_of_pending keeps holds pending
    obtain ⟨s₁, steps, idle, after⟩ := reaches_write pc
    exact ⟨s₁, steps, idle, .inr ⟨job, shared, wanted job (by rw [pc]; rfl), sound, after⟩⟩

/-- A task comes to its end, if from where it stands, short of it, a move or a job that it wants
leads to where it may stand and nearer to the end. The others wait for it as they stand, or go on
with the jobs they are at. -/
theorem Reaches.exhaust {S : σ → Prop} (keeps : ∀ job shared, S shared → S (P.run job shared).2)
    (holds : S init) {i : ι} {Good Done : π i → Prop} (size : π i → Nat)
    (job : ∀ l job shared, Good l → P.wants i l job → S shared →
      Good (P.after i l job (P.run job shared).1) ∧
        size (P.after i l job (P.run job shared).1) < size l)
    (onward : ∀ l, Good l → Done l ∨ (∃ job, P.wants i l job) ∨
      ∃ next, P.moves i l next ∧ Good next ∧ size next < size l)
    (reaches : Reaches P (.start own init) s) (good : Good (s.own i)) :
    ∃ s', Reaches P s s' ∧ s'.pc i = .idle ∧ Done (s'.own i) ∧ Good (s'.own i) ∧
      ∀ j, j ≠ i → s'.own j = s.own j := by
  -- first the job at hand, then from idle on by induction on the size
  obtain ⟨s₁, settled, idle, here⟩ := reaches.settle keeps holds i
  have good₁ : Good (s₁.own i) ∧ ∀ j, j ≠ i → s₁.own j = s.own j := by
    rcases here with same | ⟨a, shared, wants, sound, after⟩
    · rw [same]
      exact ⟨good, fun _ _ => rfl⟩
    · rw [after, Function.update_self]
      exact ⟨(job _ a shared good wants sound).1, fun j other => Function.update_of_ne other ..⟩
  suffices rest : ∀ n (s₁ : State ι κ σ α ο π), Reaches P (.start own init) s₁ → s₁.pc i = .idle →
      Good (s₁.own i) → size (s₁.own i) = n →
        ∃ s', Reaches P s₁ s' ∧ s'.pc i = .idle ∧ Done (s'.own i) ∧ Good (s'.own i) ∧
          ∀ j, j ≠ i → s'.own j = s₁.own j by
    obtain ⟨s', steps, rests, done, good', others⟩ :=
      rest _ s₁ (reaches.trans settled) idle good₁.1 rfl
    exact ⟨s', settled.trans steps, rests, done, good',
      fun j other => (others j other).trans (good₁.2 j other)⟩
  intro n
  induction n using Nat.strongRecOn with
  | ind n ih =>
    intro s₁ reaches idle good size
    rcases onward _ good with done | ⟨a, wants⟩ | ⟨next, moves, good', smaller⟩
    · exact ⟨s₁, .refl, idle, done, good, fun _ _ => rfl⟩
    · obtain ⟨s₂, shared, steps, idle', sound, after⟩ := reaches.perform keeps holds idle wants
      obtain ⟨good', smaller⟩ := job _ a shared good wants sound
      have own : s₂.own i = P.after i (s₁.own i) a (P.run a shared).1 := by
        rw [after, Function.update_self]
      rw [← own] at good' smaller
      obtain ⟨s₃, more, rests, done, good₃, others⟩ :=
        ih _ (size ▸ smaller) s₂ (reaches.trans steps) idle' good' rfl
      refine ⟨s₃, steps.trans more, rests, done, good₃, fun j other => ?_⟩
      rw [others j other, after, Function.update_of_ne other]
    · have step := Step.move idle moves
      have own : Function.update s₁.own i next i = next := Function.update_self ..
      obtain ⟨s₃, more, rests, done, good₃, others⟩ := ih _ (size ▸ smaller) _ (reaches.tail step)
        idle (by simp only [own]; exact good') (by simp only [own])
      refine ⟨s₃, (Relation.ReflTransGen.single step).trans more, rests, done, good₃,
        fun j other => ?_⟩
      rw [others j other]
      exact Function.update_of_ne other ..

/-- Where no step takes up a job or goes on with one, no task is at one or wants one. -/
theorem Reaches.resting (reaches : Reaches P (.start own init) s)
    (rests : ∀ s', Step P s s' → s'.pc = s.pc) (i : ι) :
    s.pc i = .idle ∧ ∀ job, ¬ P.wants i (s.own i) job := by
  have idle : ∀ j, s.pc j = .idle := by
    intro j
    cases pc : s.pc j with
    | idle => rfl
    | holding job =>
      have same := congrFun (rests _ (.run pc)) j
      simp only [Function.update_self, pc] at same
      cases same
    | ran job out =>
      have same := congrFun (rests _ (.release pc)) j
      simp only [Function.update_self, pc] at same
      cases same
    | released job out =>
      have same := congrFun (rests _ (.write pc)) j
      simp only [Function.update_self, pc] at same
      cases same
  refine ⟨idle i, fun job wants => ?_⟩
  cases held : s.locked (P.lock job) with
  | true =>
    obtain ⟨j, a, within, _⟩ := reaches.occupied _ held
    rw [idle j] at within
    exact within
  | false =>
    have same := congrFun (rests _ (.acquire (idle i) wants held)) i
    simp only [Function.update_self, idle i] at same
    cases same

end Reached

end LockedTasks
