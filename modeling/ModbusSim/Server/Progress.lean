import ModbusSim.Lib.Progress
import ModbusSim.Server.Tasks

/-!
# Every frame can be answered

No connection is kept from its replies by the others: from every state that is reached a handler
can answer all frames it has received, and where the server has come to rest it has done so.
-/

namespace ModbusSim.Server

open PyStruct ModbusSim.Frame Framing Store Dispatch Setup LockedTasks

/-- All accepted frames that the connection has received are processed, and their replies are
written. -/
structure Answered (units : List Int) (s : ServerState) (n : Nat) : Prop where
  jobs : (s.entriesOf (.handler n)).map Entry.job = acceptedJobs units (connection s n).received
  written : (connection s n).written.map some = (s.entriesOf (.handler n)).map Completed.reply

/-- No job is taken up or gone on with and no frame leaves a buffer: bytes are read, a tick begins
or a handler ends. -/
structure Waits (s s' : ServerState) : Prop where
  jobs : s'.pc = s.pc
  buffers : ∀ n, (connection s n).buffer.length ≤ (connection s' n).buffer.length

theorem Connection.Wants.answered {units : List Int} {c : Connection} {job : Job}
    (wants : c.Wants units job) {out : Except Exn Bytes} (replies : (job.reply out).isSome) :
    (c.after job out).running = true ∧ (c.after job out).received = c.received ∧
      (c.after job out).buffer.length < c.buffer.length := by
  obtain ⟨running, header, adu, framer, next, _, rfl⟩ := wants
  obtain ⟨n, start, rfl, _, size, _⟩ := verdict_of_next_some next
  obtain ⟨reply, written⟩ := Option.isSome_iff_exists.mp replies
  have bound := aduProtocol.frame_bound start
  simp only [Connection.after, written, size, List.length_drop]
  exact ⟨running, trivial, by omega⟩

/-- A handler has no accepted frame in its buffer, or wants to process one, or can drop one. -/
theorem Connection.onward (units : List Int) {c : Connection} (running : c.running = true) :
    acceptedJobs units c.buffer = [] ∨ (∃ job, c.Wants units job) ∨
      ∃ next, c.Moves units next ∧ next.running = true ∧ next.received = c.received ∧
        next.buffer.length < c.buffer.length := by
  cases start : verdict c.buffer with
  | more =>
    left
    rw [acceptedJobs, aduProtocol.drain_more start]
    rfl
  | bad e =>
    left
    rw [acceptedJobs, aduProtocol.drain_bad start]
    rfl
  | frame n =>
    right
    obtain ⟨header, decoded, _, next⟩ := nextFrame_frame start
    by_cases accepts : Accepted units header
    · exact .inl ⟨_, running, header, _, _, next, accepts, rfl⟩
    · have bound := aduProtocol.frame_bound start
      refine .inr ⟨_, .drop running next accepts, running, rfl, ?_⟩
      simp only [List.length_drop]
      omega

theorem entries_initial {lib : MathLib} {init : World} {s : ServerState}
    (reaches : Reaches (server lib init) (serving init) s) (n : Nat) :
    (s.entriesOf (.handler n)).map Entry.job <+:
      acceptedJobs init.store.units (connection s n).received := by
  have tracked := reaches.tracked
  rw [tracked.entries, (reaches_kept reaches n).jobs, List.map_append]
  apply (List.prefix_append_right_inj _).mpr
  rcases Pc.pending_cases (s.pc (.handler n)) (Task.handler n) with none | ⟨job, out, one, busy⟩
  · rw [none]
    exact List.nil_prefix
  · obtain ⟨later, first⟩ := Connection.Wants.head (tracked.wanted _ _ busy)
    rw [one]
    exact ⟨later, first.symm⟩

/-- An idle handler without an accepted frame in its buffer has answered all it received. -/
theorem answered_of_idle {lib : MathLib} {init : World} {s : ServerState}
    (reaches : Reaches (server lib init) (serving init) s) {n : Nat}
    (idle : s.pc (.handler n) = .idle) (running : (connection s n).running = true)
    (done : acceptedJobs init.store.units (connection s n).buffer = []) :
    Answered init.store.units s n := by
  have kept := reaches_kept reaches n
  have entries := reaches.tracked.entries (.handler n)
  rw [idle, Pc.pending_idle, List.append_nil] at entries
  have jobs := kept.jobs
  rw [done, List.append_nil] at jobs
  refine ⟨?_, ?_⟩
  · rw [entries, jobs]
  · rw [entries]
    exact kept.all running

def SoundOver (units : List Int) (w : World) : Prop := Sound w ∧ w.store.units = units

theorem access_soundOver (lib : MathLib) (units : List Int) (job : Job) (w : World)
    (sound : SoundOver units w) : SoundOver units (access lib job w).2 :=
  ⟨access_sound lib job sound.1, (access_units lib job w).trans sound.2⟩

theorem Connection.Wants.replied {lib : MathLib} {units : List Int} {w : World} {c : Connection}
    {job : Job} (wants : c.Wants units job) (sound : SoundOver units w) :
    (job.reply (access lib job w).1).isSome := by
  obtain ⟨_, header, adu, framer, next, accepts, rfl⟩ := wants
  obtain ⟨n, _, _, _, _, decoded⟩ := verdict_of_next_some next
  exact access_reply lib sound.1 decoded (sound.2 ▸ accepts.2)

/-- In a well-formed world a handler has written the reply to every job it has finished. -/
theorem written_finished {lib : MathLib} {init : World} (sound : Sound init) {s : ServerState}
    (reaches : Reaches (server lib init) (serving init) s) (n : Nat) :
    (connection s n).written.map some =
      (s.finished (.handler n)).map Completed.reply := by
  rw [(reaches_kept reaches n).written, List.map_filterMap_some_eq_filter_map_isSome,
    List.filter_eq_self]
  intro reply listed
  obtain ⟨e, done, rfl⟩ := List.mem_map.mp listed
  have own : e ∈ s.entriesOf (.handler n) := by
    rw [reaches.tracked.entries]
    exact List.mem_append_left _ done
  have frame := (entries_initial reaches n).subset (List.mem_map_of_mem own)
  exact reply_isSome sound reaches (List.mem_of_mem_filter own) frame

/-- A running handler can come to where it has no accepted frame in its buffer; the others stay
where they are. -/
theorem reaches_emptied {lib : MathLib} {init : World} (sound : Sound init) {s : ServerState}
    (reaches : Reaches (server lib init) (serving init) s) {n : Nat}
    (running : (connection s n).running = true) :
    ∃ s', Reaches (server lib init) s s' ∧ s'.pc (.handler n) = .idle ∧
      acceptedJobs init.store.units (connection s' n).buffer = [] ∧
      (connection s' n).running = true ∧
      ∀ m, (connection s' m).received = (connection s m).received := by
  let Good : Connection → Prop := fun c =>
    c.running = true ∧ c.received = (connection s n).received
  have after : ∀ (c : Connection) job w, Good c → c.Wants init.store.units job →
      SoundOver init.store.units w → Good (c.after job (access lib job w).1) ∧
        (c.after job (access lib job w).1).buffer.length < c.buffer.length := by
    intro c job w good wants sound
    obtain ⟨goesOn, received, shorter⟩ := wants.answered (wants.replied sound)
    exact ⟨⟨goesOn, received.trans good.2⟩, shorter⟩
  have onward : ∀ c : Connection, Good c → acceptedJobs init.store.units c.buffer = [] ∨
      (∃ job, c.Wants init.store.units job) ∨
        ∃ next, c.Moves init.store.units next ∧ Good next ∧
          next.buffer.length < c.buffer.length := by
    intro c good
    rcases c.onward init.store.units good.1 with done | wants | ⟨next, moves, goesOn, received, less⟩
    · exact .inl done
    · exact .inr (.inl wants)
    · exact .inr (.inr ⟨next, moves, ⟨goesOn, received.trans good.2⟩, less⟩)
  obtain ⟨s', steps, idle, done, ⟨goesOn, received⟩, others⟩ :=
    reaches.exhaust (i := Task.handler n) (access_soundOver lib init.store.units) ⟨sound, rfl⟩
      (fun c : Connection => c.buffer.length) after onward ⟨running, rfl⟩
  refine ⟨s', steps, idle, done, goesOn, fun m => ?_⟩
  by_cases same : m = n
  · rw [same]
    exact received
  · exact congrArg Connection.received (others (.handler m) fun other => same (Task.handler.inj other))

/-- From every state that is reached, each running handler can answer all frames that it has
received, without another byte to anybody; and a state in which nothing is left but to wait for
bytes, ticks and ends of connections has answered them. -/
theorem frames_answered {lib : MathLib} {init : World} (sound : Sound init) {s : ServerState}
    (reaches : Reaches (server lib init) (serving init) s) :
    (∀ n, (connection s n).running = true →
        ∃ s', Reaches (server lib init) s s' ∧
          (∀ m, (connection s' m).received = (connection s m).received) ∧
          (connection s' n).running = true ∧ Answered init.store.units s' n) ∧
      ((∀ s', Step (server lib init) s s' → Waits s s') →
        ∀ n, (connection s n).running = true → Answered init.store.units s n) := by
  refine ⟨fun n running => ?_, fun rests n running => ?_⟩
  · obtain ⟨s', steps, idle, done, goesOn, received⟩ := reaches_emptied sound reaches running
    exact ⟨s', steps, received, goesOn, answered_of_idle (reaches.trans steps) idle goesOn done⟩
  · obtain ⟨idle, wantsNone⟩ := reaches.resting (fun s' step => (rests s' step).jobs) (.handler n)
    rcases (connection s n).onward init.store.units running with
      done | ⟨job, wants⟩ | ⟨next, moves, _, _, shorter⟩
    · exact answered_of_idle reaches idle running done
    · exact absurd wants (wantsNone job)
    · have waits := (rests _ (.move (i := Task.handler n) idle moves)).buffers n
      have own : Function.update s.own (Task.handler n) next (Task.handler n) = next :=
        Function.update_self ..
      simp only [connection] at waits shorter
      rw [own] at waits
      omega

theorem own_update {own : (i : Task) → i.Own} {n m : Nat} (other : m ≠ n) (c : Connection) :
    (Function.update own (Task.handler n) c (Task.handler m) : Connection) = own (.handler m) :=
  Function.update_of_ne (fun same => other (Task.handler.inj same)) ..

theorem sampleWorld_sound (first : Int) (word : IsWord first) : Sound (sampleWorld first) := by
  refine ⟨DataStore.single_all ⟨fun r => ?_, fun r register slot member => ?_⟩, fun b member => ?_⟩
  · cases r <;> rfl
  · cases r with
    | coils | discreteInputs => exact absurd register (by decide)
    | inputRegisters => cases member
    | holdingRegisters =>
      rcases List.mem_pair.mp member with rfl | rfl
      · exact word
      · decide
  · obtain rfl := List.mem_singleton.mp member
    exact (show IsWord 300 by decide)

theorem pairWorld_sound : Sound pairWorld := by
  have pump := sampleWorld_sound 7 (by decide)
  refine ⟨pump.devices.update ⟨fun r => ?_, fun r register slot member => ?_⟩ 2, pump.generators⟩
  · cases r <;> rfl
  · cases r with
    | coils | discreteInputs => exact absurd register (by decide)
    | inputRegisters => cases member
    | holdingRegisters =>
      obtain rfl := List.mem_singleton.mp member
      exact (show IsWord 40 by decide)

/-- The first client waits for a reply, and gets it. -/
theorem frames_answered_pair : ∃ s s' : ServerState, (connection s 0).written = [writeReply] ∧
    Reaches (server sampleLib pairWorld) s s' ∧
    (∀ m, (connection s' m).received = pairStream m) ∧ Answered [1, 2] s' 0 := by
  obtain ⟨s, _, reaches, served, _⟩ := reaches_pair
  obtain ⟨s', steps, received, _, answered⟩ :=
    (frames_answered pairWorld_sound reaches).1 0 (served.running 0)
  exact ⟨s, s', served.first, steps, fun m => (received m).trans (served.received m), answered⟩

end ModbusSim.Server
