import Mathlib.Data.List.Basic
import Mathlib.Logic.Function.Basic
import Mathlib.Logic.Relation

/-!
# Tasks that share a state under locks

Each task takes up jobs one after another. A job takes a lock, runs on the shared state, releases
the lock, and only then is its output written. Tasks interleave in any way; a lock is a flag that
is taken only when it is free.

Whatever the interleaving, no two tasks are inside jobs of the same lock (`Exclusive`), the shared
state is what the jobs leave when run one after another in the order of their completion
(`Serial`), and the jobs of a task appear there in its own order (`Tracked`).
-/

namespace LockedTasks

universe u v w x y z

/-- What a task may do: the job it takes up next, what it does between jobs, and where it stands
after one. -/
structure Program (ι : Type u) (κ : Type v) (σ : Type w) (α : Type x) (ο : Type y)
    (π : ι → Type z) where
  lock : α → κ
  run : α → σ → ο × σ
  wants : (i : ι) → π i → α → Prop
  moves : (i : ι) → π i → π i → Prop
  after : (i : ι) → π i → α → ο → π i

inductive Pc (α : Type x) (ο : Type y) where
  | idle
  | holding (job : α)
  | ran (job : α) (out : ο)
  | released (job : α) (out : ο)

/-- A job that has run: whose it is and what came out. -/
structure Entry (ι : Type u) (α : Type x) (ο : Type y) where
  task : ι
  job : α
  out : ο

structure State (ι : Type u) (κ : Type v) (σ : Type w) (α : Type x) (ο : Type y)
    (π : ι → Type z) where
  pc : ι → Pc α ο
  own : (i : ι) → π i
  locked : κ → Bool
  shared : σ
  history : List (Entry ι α ο)
  finished : ι → List (Entry ι α ο)

variable {ι : Type u} {κ : Type v} {σ : Type w} {α : Type x} {ο : Type y} {π : ι → Type z}

def State.start (own : (i : ι) → π i) (shared : σ) : State ι κ σ α ο π :=
  ⟨fun _ => .idle, own, fun _ => false, shared, [], fun _ => []⟩

def Pc.Inside : Pc α ο → α → Prop
  | .holding j, job | .ran j _, job => j = job
  | _, _ => False

/-- The job that a task has taken up and not finished. -/
def Pc.Busy : Pc α ο → α → Prop
  | .holding j, job | .ran j _, job | .released j _, job => j = job
  | .idle, _ => False

/-- The job that a task has run and not finished. -/
def Pc.pending (i : ι) : Pc α ο → List (Entry ι α ο)
  | .ran job out | .released job out => [⟨i, job, out⟩]
  | _ => []

theorem Pc.pending_cases (p : Pc α ο) (i : ι) :
    p.pending i = [] ∨ ∃ job out, p.pending i = [⟨i, job, out⟩] ∧ p.Busy job := by
  cases p with
  | idle | holding => exact .inl rfl
  | ran job out | released job out => exact .inr ⟨job, out, rfl, rfl⟩

def Program.replay (P : Program ι κ σ α ο π) (init : σ) (entries : List (Entry ι α ο)) : σ :=
  entries.foldl (fun shared e => (P.run e.job shared).2) init

variable {P : Program ι κ σ α ο π} {s s' : State ι κ σ α ο π}

@[simp] theorem replay_concat (init : σ) (entries : List (Entry ι α ο)) (e : Entry ι α ο) :
    P.replay init (entries ++ [e]) = (P.run e.job (P.replay init entries)).2 := by
  simp [Program.replay]

theorem replay_invariant {S : σ → Prop} (run : ∀ job shared, S shared → S (P.run job shared).2)
    {init : σ} (start : S init) (entries : List (Entry ι α ο)) : S (P.replay init entries) := by
  induction entries generalizing init with
  | nil => exact start
  | cons e entries ih => exact ih (run e.job init start)

/-! ### What holds of every state that is reached -/

structure Exclusive (P : Program ι κ σ α ο π) (s : State ι κ σ α ο π) : Prop where
  locked : ∀ i job, (s.pc i).Inside job → s.locked (P.lock job) = true
  alone : ∀ i j a b, (s.pc i).Inside a → (s.pc j).Inside b → P.lock a = P.lock b → i = j

/-- The shared state is that of the history, and every output was computed from the state at its
place in it. -/
structure Serial (P : Program ι κ σ α ο π) (init : σ) (s : State ι κ σ α ο π) : Prop where
  shared : s.shared = P.replay init s.history
  outputs : ∀ n e, s.history[n]? = some e →
    e.out = (P.run e.job (P.replay init (s.history.take n))).1

/-- Steps that take no lock and free none keep exclusion, if they put no task inside. -/
theorem Exclusive.of_inside (exclusive : Exclusive P s) (locked : s'.locked = s.locked)
    (inside : ∀ i job, (s'.pc i).Inside job → (s.pc i).Inside job) : Exclusive P s' where
  locked i job within := by
    rw [locked]
    exact exclusive.locked i job (inside i job within)
  alone i j a b first second := exclusive.alone i j a b (inside i a first) (inside j b second)

variable [DecidableEq ι]

def State.entriesOf (s : State ι κ σ α ο π) (i : ι) : List (Entry ι α ο) :=
  s.history.filter fun e => e.task = i

/-- The history holds the jobs of a task in its own order: the finished ones, and then the one it
is at. A task at a job still wants it. -/
structure Tracked (P : Program ι κ σ α ο π) (s : State ι κ σ α ο π) : Prop where
  entries : ∀ i, s.entriesOf i = s.finished i ++ (s.pc i).pending i
  wanted : ∀ i job, (s.pc i).Busy job → P.wants i (s.own i) job

theorem entriesOf_append_of_ne {history : List (Entry ι α ο)} {e : Entry ι α ο} {j : ι}
    (other : j ≠ e.task) :
    (history ++ [e]).filter (fun e => e.task = j) = history.filter fun e => e.task = j := by
  simp [List.filter_append, Ne.symm other]

theorem entriesOf_append_self {history : List (Entry ι α ο)} {e : Entry ι α ο} {i : ι}
    (own : e.task = i) :
    (history ++ [e]).filter (fun e => e.task = i) =
      history.filter (fun e => e.task = i) ++ [e] := by
  simp [List.filter_append, own]

theorem Tracked.of_task (tracked : Tracked P s) (i : ι)
    (others : ∀ j, j ≠ i → s'.pc j = s.pc j ∧ s'.own j = s.own j ∧ s'.finished j = s.finished j ∧
      s'.entriesOf j = s.entriesOf j)
    (entries : s'.entriesOf i = s'.finished i ++ (s'.pc i).pending i)
    (wanted : ∀ job, (s'.pc i).Busy job → P.wants i (s'.own i) job) : Tracked P s' := by
  refine ⟨fun j => ?_, fun j job busy => ?_⟩
  · by_cases same : j = i
    · exact same ▸ entries
    · obtain ⟨pc, _, finished, unchanged⟩ := others j same
      rw [unchanged, finished, pc]
      exact tracked.entries j
  · by_cases same : j = i
    · subst same
      exact wanted job busy
    · obtain ⟨pc, own, _⟩ := others j same
      rw [pc] at busy
      rw [own]
      exact tracked.wanted j job busy

theorem Tracked.of_pc (tracked : Tracked P s) {i : ι} {pc : Pc α ο} (locked : κ → Bool)
    (pending : (s.pc i).pending i = pc.pending i)
    (wanted : ∀ job, pc.Busy job → P.wants i (s.own i) job) :
    Tracked P { s with pc := Function.update s.pc i pc, locked := locked } := by
  have entries := tracked.entries i
  rw [pending] at entries
  refine tracked.of_task i (fun j other => ⟨Function.update_of_ne other .., rfl, rfl, rfl⟩) ?_ ?_
  · simp only [Function.update_self]
    exact entries
  · simp only [Function.update_self]
    exact wanted

variable [DecidableEq κ]

inductive Step (P : Program ι κ σ α ο π) (s : State ι κ σ α ο π) : State ι κ σ α ο π → Prop
  | move {i : ι} {next : π i} (idle : s.pc i = .idle) (moves : P.moves i (s.own i) next) :
    Step P s { s with own := Function.update s.own i next }
  | acquire {i : ι} {job : α} (idle : s.pc i = .idle) (wants : P.wants i (s.own i) job)
    (free : s.locked (P.lock job) = false) :
    Step P s { s with
      pc := Function.update s.pc i (.holding job)
      locked := Function.update s.locked (P.lock job) true }
  | run {i : ι} {job : α} (holding : s.pc i = .holding job) :
    Step P s { s with
      pc := Function.update s.pc i (.ran job (P.run job s.shared).1)
      shared := (P.run job s.shared).2
      history := s.history ++ [⟨i, job, (P.run job s.shared).1⟩] }
  | release {i : ι} {job : α} {out : ο} (ran : s.pc i = .ran job out) :
    Step P s { s with
      pc := Function.update s.pc i (.released job out)
      locked := Function.update s.locked (P.lock job) false }
  | write {i : ι} {job : α} {out : ο} (released : s.pc i = .released job out) :
    Step P s { s with
      pc := Function.update s.pc i .idle
      own := Function.update s.own i (P.after i (s.own i) job out)
      finished := Function.update s.finished i (s.finished i ++ [⟨i, job, out⟩]) }

theorem Step.run_eq {i : ι} {job : α} {out : ο} {shared : σ} (holding : s.pc i = .holding job)
    (result : P.run job s.shared = (out, shared)) :
    Step P s { s with
      pc := Function.update s.pc i (.ran job out)
      shared
      history := s.history ++ [⟨i, job, out⟩] } := by
  have step := Step.run (P := P) holding
  rwa [result] at step

def Reaches (P : Program ι κ σ α ο π) : State ι κ σ α ο π → State ι κ σ α ο π → Prop :=
  Relation.ReflTransGen (Step P)

/-- What every step keeps holds of every state that is reached. -/
theorem Reaches.invariant {I : State ι κ σ α ο π → Prop} (reaches : Reaches P s s')
    (start : I s) (step : ∀ {s s'}, Step P s s' → I s → I s') : I s' := by
  induction reaches with
  | refl => exact start
  | tail _ last ih => exact step last ih

/-! ### Mutual exclusion -/

theorem inside_update {pc : ι → Pc α ο} {i j : ι} {p : Pc α ο} {job : α}
    (within : (Function.update pc i p j).Inside job) :
    j = i ∧ p.Inside job ∨ j ≠ i ∧ (pc j).Inside job := by
  by_cases same : j = i
  · subst same
    rw [Function.update_self] at within
    exact .inl ⟨rfl, within⟩
  · rw [Function.update_of_ne same] at within
    exact .inr ⟨same, within⟩

theorem Exclusive.acquire (exclusive : Exclusive P s) {i : ι} {job : α}
    (free : s.locked (P.lock job) = false) :
    Exclusive P { s with
      pc := Function.update s.pc i (.holding job)
      locked := Function.update s.locked (P.lock job) true } := by
  -- the lock was free, so nobody was inside a job of it
  have others : ∀ j a, (s.pc j).Inside a → P.lock a ≠ P.lock job := by
    intro j a within same
    have held := exclusive.locked j a within
    rw [same, free] at held
    cases held
  refine ⟨fun j a within => ?_, fun j k a b first second same => ?_⟩
  · by_cases key : P.lock a = P.lock job
    · simp [key]
    · rcases inside_update within with ⟨_, now⟩ | ⟨_, before⟩
      · cases now
        exact absurd rfl key
      · simp only [Function.update_of_ne key]
        exact exclusive.locked j a before
  · rcases inside_update first with ⟨rfl, now⟩ | ⟨_, before⟩
    · rcases inside_update second with ⟨rfl, _⟩ | ⟨_, other⟩
      · rfl
      · cases now
        exact absurd same.symm (others k b other)
    · rcases inside_update second with ⟨rfl, now⟩ | ⟨_, other⟩
      · cases now
        exact absurd same (others j a before)
      · exact exclusive.alone j k a b before other same

theorem Exclusive.release (exclusive : Exclusive P s) {i : ι} {job : α} {out : ο}
    (ran : s.pc i = .ran job out) :
    Exclusive P { s with
      pc := Function.update s.pc i (.released job out)
      locked := Function.update s.locked (P.lock job) false } := by
  have here : (s.pc i).Inside job := by rw [ran]; rfl
  refine ⟨fun j a within => ?_, fun j k a b first second same => ?_⟩
  · rcases inside_update within with ⟨_, outside⟩ | ⟨other, before⟩
    · exact outside.elim
    · have key : P.lock a ≠ P.lock job := fun same =>
        other (exclusive.alone j i a job before here same)
      simp only [Function.update_of_ne key]
      exact exclusive.locked j a before
  · rcases inside_update first with ⟨_, outside⟩ | ⟨_, before⟩
    · exact outside.elim
    · rcases inside_update second with ⟨_, outside⟩ | ⟨_, other⟩
      · exact outside.elim
      · exact exclusive.alone j k a b before other same

theorem Exclusive.step (step : Step P s s') (exclusive : Exclusive P s) : Exclusive P s' := by
  cases step with
  | move => exact exclusive.of_inside rfl fun _ _ within => within
  | acquire _ _ free => exact exclusive.acquire free
  | run holding =>
    refine exclusive.of_inside rfl fun j a within => ?_
    rcases inside_update within with ⟨rfl, now⟩ | ⟨_, before⟩
    · rw [holding]
      exact now
    · exact before
  | release ran => exact exclusive.release ran
  | write =>
    refine exclusive.of_inside rfl fun j a within => ?_
    rcases inside_update within with ⟨_, outside⟩ | ⟨_, before⟩
    · exact outside.elim
    · exact before

theorem Reaches.exclusive {own : (i : ι) → π i} {init : σ} (reaches : Reaches P (.start own init) s) :
    Exclusive P s :=
  reaches.invariant ⟨fun _ _ outside => outside.elim, fun _ _ _ _ outside => outside.elim⟩
    Exclusive.step

/-! ### One serial history -/

theorem Serial.step {init : σ} (step : Step P s s') (serial : Serial P init s) :
    Serial P init s' := by
  cases step with
  | move | acquire | release | write => exact ⟨serial.shared, serial.outputs⟩
  | @run i job holding =>
    refine ⟨?_, fun n e listed => ?_⟩
    · simp only [replay_concat, ← serial.shared]
    · rcases Nat.lt_trichotomy n s.history.length with before | now | beyond
      · rw [List.getElem?_append_left before] at listed
        rw [List.take_append_of_le_length (Nat.le_of_lt before)]
        exact serial.outputs n e listed
      · subst now
        rw [List.getElem?_concat_length] at listed
        cases listed
        rw [List.take_left' rfl, ← serial.shared]
      · rw [List.getElem?_eq_none (by simp; omega)] at listed
        cases listed

theorem Reaches.serial {own : (i : ι) → π i} {init : σ} (reaches : Reaches P (.start own init) s) :
    Serial P init s :=
  reaches.invariant ⟨rfl, fun _ _ listed => by cases listed⟩ Serial.step

/-! ### The jobs of one task -/

theorem Tracked.step (step : Step P s s') (tracked : Tracked P s) : Tracked P s' := by
  cases step with
  | @move i next idle =>
    have entries := tracked.entries i
    refine tracked.of_task i (fun j other => ⟨rfl, Function.update_of_ne other .., rfl, rfl⟩)
      entries fun job busy => ?_
    rw [idle] at busy
    exact busy.elim
  | acquire idle wants =>
    apply tracked.of_pc
    · rw [idle]
      rfl
    · intro a busy
      exact busy ▸ wants
  | @run i job holding =>
    have entries := tracked.entries i
    have wanted := tracked.wanted i
    rw [holding] at entries wanted
    refine tracked.of_task i (fun j other =>
      ⟨Function.update_of_ne other .., rfl, rfl, entriesOf_append_of_ne other⟩) ?_ fun a busy => ?_
    · simp only [Function.update_self, State.entriesOf]
      rw [entriesOf_append_self (i := i) rfl, ← State.entriesOf, entries]
      simp [Pc.pending]
    · simp only [Function.update_self] at busy
      exact wanted a busy
  | @release i job out ran =>
    have wanted := tracked.wanted i
    rw [ran] at wanted
    apply tracked.of_pc
    · rw [ran]
      rfl
    · exact wanted
  | @write i job out released =>
    have entries := tracked.entries i
    rw [released] at entries
    refine tracked.of_task i (fun j other => ⟨Function.update_of_ne other ..,
      Function.update_of_ne other .., Function.update_of_ne other .., rfl⟩) ?_ fun a busy => ?_
    · simp only [Function.update_self]
      apply entries.trans
      simp [Pc.pending]
    · simp only [Function.update_self] at busy
      exact busy.elim

theorem Reaches.tracked {own : (i : ι) → π i} {init : σ} (reaches : Reaches P (.start own init) s) :
    Tracked P s :=
  reaches.invariant ⟨fun _ => rfl, fun _ _ busy => busy.elim⟩ Tracked.step

/-- What a task keeps between jobs and over each job it wants holds of it in every state. -/
theorem Reaches.own_invariant {own : (i : ι) → π i} {init : σ}
    (reaches : Reaches P (.start own init) s) {L : (i : ι) → π i → List (Entry ι α ο) → Prop}
    (start : ∀ i, L i (own i) [])
    (moves : ∀ i l next done, P.moves i l next → L i l done → L i next done)
    (after : ∀ i l done job out, P.wants i l job → L i l done →
      L i (P.after i l job out) (done ++ [⟨i, job, out⟩])) (i : ι) :
    L i (s.own i) (s.finished i) := by
  induction reaches with
  | refl => exact start i
  | @tail s s' before step ih =>
    have tracked := Reaches.tracked before
    cases step with
    | acquire | run | release => exact ih
    | @move j next idle moved =>
      by_cases same : i = j
      · subst same
        simp only [Function.update_self]
        exact moves i _ _ _ moved ih
      · simp only [Function.update_of_ne same]
        exact ih
    | @write j job out released =>
      by_cases same : i = j
      · subst same
        have wants := tracked.wanted i job (by rw [released]; rfl)
        simp only [Function.update_self]
        exact after i _ _ job out wants ih
      · simp only [Function.update_of_ne same]
        exact ih

end LockedTasks
