import ModbusSim.Lib.LockedTasks
import ModbusSim.Server.Handler
import ModbusSim.Setup.Run

/-!
# The server's tasks

Any number of connection handlers and the generator task, as tasks that share the devices under
their locks. A handler takes its frames from the framer in stream order; a frame that is not
dropped takes the lock of its device, is processed, and is answered after the lock is released.
The generator task updates its bindings one after another, tick after tick.

Their interleaving has one serial history (`interleaving_serial`), and each connection gets the
replies to its own frames in their order.
-/

namespace ModbusSim.Server

open PyStruct ModbusSim.Frame Framing Store Dispatch Setup LockedTasks

inductive Task where
  | handler (connection : Nat)
  | generators
  deriving DecidableEq, Repr

/-- What is done under the lock of a device: a frame is processed, or a binding is updated at an
elapsed time, with the step that its random walk draws. -/
inductive Job where
  | frame (header : MBAPHeader) (adu : Bytes)
  | update (index : Nat) (unitId : Int) (elapsed : ℚ) (up : Bool)

def Job.unitId : Job → Int
  | .frame header _ => header.unitId
  | .update _ unitId _ _ => unitId

/-- The body of `async with device.lock`: the response PDU of a frame, nothing for an update. -/
def access (lib : MathLib) : Job → World → Except Exn Bytes × World
  | .frame header adu, w =>
    match w.store.get header.unitId with
    | none => (.ok [], w)
    | some device =>
      let (response, device') := processPdu device (adu.drop mbapHeaderLen)
      (response, { w with store := w.store.update header.unitId device' })
  | .update index unitId elapsed up, w =>
    match w.bindings[index]? with
    | none => (.ok [], w)
    | some b =>
      match w.store.get unitId with
      | none => (.ok [], w)
      | some device =>
        let (result, device', b') := b.update lib device elapsed up
        (result.map fun _ => [], ⟨w.store.update unitId device', w.bindings.set index b'⟩)

def Job.reply : Job → Except Exn Bytes → Option Bytes
  | .frame header _, out =>
    (do buildAdu header.transactionId header.unitId (← out) : Except Exn Bytes).toOption
  | .update .., _ => none

/-! ### Connection handlers -/

/-- A handler: all bytes read so far, those from the frame in progress on, what it has written,
and whether its loop goes on. -/
structure Connection where
  received : Bytes
  buffer : Bytes
  written : List Bytes
  running : Bool

def Accepted (units : List Int) (header : MBAPHeader) : Prop :=
  header.protocolId = protocolId ∧ header.unitId ∈ units

instance (units : List Int) (header : MBAPHeader) : Decidable (Accepted units header) :=
  inferInstanceAs (Decidable (header.protocolId = protocolId ∧ header.unitId ∈ units))

/-- Alone, the access and the reply of a frame that is not dropped are `_process_frame`. -/
theorem processFrame_accepted (lib : MathLib) {w : World} {header : MBAPHeader}
    (accepts : Accepted w.store.units header) (adu : Bytes) :
    (processFrame w.store header adu).1.toOption =
        (Job.frame header adu).reply (access lib (.frame header adu) w).1 ∧
      (processFrame w.store header adu).2 = (access lib (.frame header adu) w).2.store := by
  obtain ⟨modbus, known⟩ := accepts
  obtain ⟨device, unit⟩ : ∃ device, w.store.get header.unitId = some device :=
    Dict.mem_keys_iff.mp known
  unfold processFrame
  rw [if_neg (not_not.mpr modbus)]
  simp only [access, Job.reply, unit, and_self]

theorem processFrame_refused {w : World} {header : MBAPHeader}
    (refused : ¬ Accepted w.store.units header) (adu : Bytes) :
    processFrame w.store header adu = (.ok [], w.store) := by
  unfold processFrame
  by_cases foreign : header.protocolId ≠ protocolId
  · exact if_pos foreign
  · rw [if_neg foreign]
    cases unit : w.store.get header.unitId with
    | none => rfl
    | some device => exact absurd ⟨not_not.mp foreign, DataStore.mem_units_of_get unit⟩ refused

def Connection.Wants (units : List Int) (c : Connection) (job : Job) : Prop :=
  c.running = true ∧ ∃ header adu framer,
    StreamFramer.nextFrame ⟨c.buffer⟩ = (.ok (some (header, adu)), framer) ∧
      Accepted units header ∧ job = .frame header adu

/-- Between jobs a handler reads when no frame is complete, drops a frame, or ends: at the end of
the stream or on a framing error. -/
inductive Connection.Moves (units : List Int) (c : Connection) : Connection → Prop
  | read {data : Bytes} {framer : StreamFramer} (running : c.running = true)
    (wanting : StreamFramer.nextFrame ⟨c.buffer⟩ = (.ok none, framer)) :
    Moves units c { c with received := c.received ++ data, buffer := c.buffer ++ data }
  | drop {header : MBAPHeader} {adu : Bytes} {framer : StreamFramer} (running : c.running = true)
    (next : StreamFramer.nextFrame ⟨c.buffer⟩ = (.ok (some (header, adu)), framer))
    (refused : ¬ Accepted units header) : Moves units c { c with buffer := framer.buffer }
  | stop : Moves units c { c with running := false }

def Connection.after (c : Connection) : Job → Except Exn Bytes → Connection
  | .frame header adu, out =>
    let c := { c with buffer := c.buffer.drop adu.length }
    match (Job.frame header adu).reply out with
    | some reply => { c with written := c.written ++ [reply] }
    | none => { c with running := false }
  | .update .., _ => c

/-! ### The generator task -/

/-- The elapsed time of the tick, the binding that is next in it, and whether the loop goes on. -/
structure Ticker where
  elapsed : ℚ
  next : Nat
  running : Bool

def Ticker.Wants (bindings : List GeneratorBinding) (t : Ticker) (job : Job) : Prop :=
  t.running = true ∧ ∃ b up, bindings[t.next]? = some b ∧
    job = .update t.next b.unitId t.elapsed up

inductive Ticker.Moves (bindings : List GeneratorBinding) (t : Ticker) : Ticker → Prop
  | tick {elapsed : ℚ} (running : t.running = true) (done : bindings.length ≤ t.next) :
    Moves bindings t { t with elapsed, next := 0 }

def Ticker.after (t : Ticker) : Except Exn Bytes → Ticker
  | .ok _ => { t with next := t.next + 1 }
  | .error _ => { t with running := false }

/-! ### The server -/

def Task.Own : Task → Type
  | .handler _ => Connection
  | .generators => Ticker

/-- The tasks of a server over a store and its bindings; their units never change. -/
def server (lib : MathLib) (w : World) :
    Program Task Int World Job (Except Exn Bytes) Task.Own where
  lock := Job.unitId
  run := access lib
  wants
    | .handler _ => Connection.Wants w.store.units
    | .generators => Ticker.Wants w.bindings
  moves
    | .handler _ => Connection.Moves w.store.units
    | .generators => Ticker.Moves w.bindings
  after
    | .handler _ => Connection.after
    | .generators => fun t _ out => Ticker.after t out

abbrev ServerState := State Task Int World Job (Except Exn Bytes) Task.Own

def serving (w : World) : ServerState :=
  .start (fun
    | .handler _ => (⟨[], [], [], true⟩ : Connection)
    | .generators => (⟨0, w.bindings.length, true⟩ : Ticker)) w

abbrev Completed := Entry Task Job (Except Exn Bytes)

def Completed.reply (e : Completed) : Option Bytes := e.job.reply e.out

def connection (s : ServerState) (n : Nat) : Connection := s.own (.handler n)

/-! ### A handler keeps to its frames -/

theorem verdict_of_next_none {s : Bytes} {framer : StreamFramer}
    (next : StreamFramer.nextFrame ⟨s⟩ = (.ok none, framer)) : verdict s = .more := by
  cases start : verdict s with
  | more => rfl
  | bad e =>
    rw [nextFrame_bad start] at next
    cases next
  | frame n =>
    obtain ⟨_, _, _, taken⟩ := nextFrame_frame start
    rw [taken] at next
    cases next

theorem verdict_of_next_some {s adu : Bytes} {header : MBAPHeader} {framer : StreamFramer}
    (next : StreamFramer.nextFrame ⟨s⟩ = (.ok (some (header, adu)), framer)) :
    ∃ n, verdict s = .frame n ∧ adu = s.take n ∧ framer.buffer = s.drop n ∧
      adu.length = n ∧ decodeMbap adu = .ok header := by
  cases start : verdict s with
  | more =>
    rw [nextFrame_more start] at next
    cases next
  | bad e =>
    rw [nextFrame_bad start] at next
    cases next
  | frame n =>
    obtain ⟨_, decoded, _, taken⟩ := nextFrame_frame start
    have bound := aduProtocol.frame_bound start
    rw [taken] at next
    cases next
    exact ⟨n, rfl, rfl, rfl, by rw [List.length_take, Nat.min_eq_left bound.2], decoded⟩

def accepted (units : List Int) (adu : Bytes) : Bool := decide (Accepted units (headerOf adu))

def frameJob (adu : Bytes) : Job := .frame (headerOf adu) adu

def acceptedJobs (units : List Int) (stream : Bytes) : List Job :=
  ((aduProtocol.drain stream).frames.filter (accepted units)).map frameJob

/-- What a handler has done are the accepted frames before its buffer, and what it has written are
their replies. -/
structure Connection.Kept (units : List Int) (c : Connection) (done : List Completed) : Prop where
  stream : ∃ taken, aduProtocol.drain c.received =
      ⟨taken ++ (aduProtocol.drain c.buffer).frames, (aduProtocol.drain c.buffer).rest,
        (aduProtocol.drain c.buffer).stop⟩ ∧
    (taken.filter (accepted units)).map frameJob = done.map Entry.job
  written : c.written = done.filterMap Completed.reply
  all : c.running = true → c.written.map some = done.map Completed.reply

theorem headerOf_eq {adu : Bytes} {header : MBAPHeader} (decoded : decodeMbap adu = .ok header) :
    headerOf adu = header := by
  rw [headerOf, decoded]

theorem Connection.Kept.moves {units : List Int} {c next : Connection} {done : List Completed}
    (kept : c.Kept units done) (moves : c.Moves units next) : next.Kept units done := by
  obtain ⟨taken, drained, jobs⟩ := kept.stream
  cases moves with
  | @read data framer _ wanting =>
    have start := verdict_of_next_none wanting
    rw [aduProtocol.drain_more start] at drained
    have longer := aduProtocol.drain_append c.received data
    rw [drained] at longer
    exact ⟨⟨taken, by simpa using longer, jobs⟩, kept.written, kept.all⟩
  | @drop header adu framer _ next refused =>
    obtain ⟨n, start, rfl, rest, _, decoded⟩ := verdict_of_next_some next
    rw [aduProtocol.drain_frame start, ← rest] at drained
    refine ⟨⟨taken ++ [c.buffer.take n], by simpa using drained, ?_⟩, kept.written, kept.all⟩
    have dropped : accepted units (c.buffer.take n) = false := by
      rw [accepted, headerOf_eq decoded]
      exact decide_eq_false refused
    simp [List.filter_append, dropped, jobs]
  | stop => exact ⟨⟨taken, drained, jobs⟩, kept.written, nofun⟩

theorem Connection.Kept.after {units : List Int} {c : Connection} {done : List Completed}
    (kept : c.Kept units done) {job : Job} (wants : c.Wants units job) (task : Task)
    (out : Except Exn Bytes) : (c.after job out).Kept units (done ++ [⟨task, job, out⟩]) := by
  obtain ⟨taken, drained, jobs⟩ := kept.stream
  obtain ⟨running, header, adu, framer, next, accepts, rfl⟩ := wants
  obtain ⟨n, start, rfl, _, size, decoded⟩ := verdict_of_next_some next
  rw [aduProtocol.drain_frame start] at drained
  have stream : ∃ taken, aduProtocol.drain c.received =
      ⟨taken ++ (aduProtocol.drain (c.buffer.drop n)).frames,
        (aduProtocol.drain (c.buffer.drop n)).rest, (aduProtocol.drain (c.buffer.drop n)).stop⟩ ∧
      (taken.filter (accepted units)).map frameJob =
        (done ++ [(⟨task, .frame header (c.buffer.take n), out⟩ : Completed)]).map Entry.job := by
    refine ⟨taken ++ [c.buffer.take n], by simpa using drained, ?_⟩
    have taking : accepted units (c.buffer.take n) = true := by
      rw [accepted, headerOf_eq decoded]
      exact decide_eq_true accepts
    simp [List.filter_append, taking, jobs, frameJob, headerOf_eq decoded]
  have before := kept.all running
  unfold Connection.after
  simp only [size]
  split
  next reply answered =>
    refine ⟨stream, ?_, fun _ => ?_⟩
    · simp [kept.written, Completed.reply, answered]
    · simp [before, Completed.reply, answered]
  next silent =>
    refine ⟨stream, ?_, nofun⟩
    simp [kept.written, Completed.reply, silent]

/-! ### Well-formed worlds -/

/-- The devices are well formed, and so are the generators. -/
structure Sound (w : World) : Prop where
  devices : w.store.All Device.WellFormed
  generators : ∀ b ∈ w.bindings, b.generator.Fits

theorem access_units (lib : MathLib) (job : Job) (w : World) :
    (access lib job w).2.store.units = w.store.units := by
  cases job with
  | frame header adu =>
    simp only [access]
    cases unit : w.store.get header.unitId with
    | none => rfl
    | some device => exact DataStore.units_update_of_mem (DataStore.mem_units_of_get unit) _
  | update index unitId elapsed up =>
    simp only [access]
    cases w.bindings[index]? with
    | none => rfl
    | some b =>
      cases unit : w.store.get unitId with
      | none => rfl
      | some device => exact DataStore.units_update_of_mem (DataStore.mem_units_of_get unit) _

theorem access_sound (lib : MathLib) (job : Job) {w : World} (sound : Sound w) :
    Sound (access lib job w).2 := by
  cases job with
  | frame header adu =>
    simp only [access]
    cases unit : w.store.get header.unitId with
    | none => exact sound
    | some device =>
      obtain ⟨_, device', answered, _, _, stays⟩ :=
        processPdu_isOk (sound.devices _ _ unit) (adu.drop mbapHeaderLen)
      simp only [answered]
      exact ⟨sound.devices.update stays _, sound.generators⟩
  | update index unitId elapsed up =>
    simp only [access]
    cases listed : w.bindings[index]? with
    | none => exact sound
    | some b =>
      cases unit : w.store.get unitId with
      | none => exact sound
      | some device =>
        have fits := sound.generators b (List.mem_of_getElem? listed)
        obtain ⟨stays, next⟩ :=
          update_wellFormed lib fits (sound.devices _ _ unit) elapsed up
        refine ⟨sound.devices.update stays _, fun other member => ?_⟩
        rcases List.mem_or_eq_of_mem_set member with before | rfl
        · exact sound.generators other before
        · exact next

theorem access_reply (lib : MathLib) {w : World} (sound : Sound w) {header : MBAPHeader}
    {adu : Bytes} (decoded : decodeMbap adu = .ok header) (known : header.unitId ∈ w.store.units) :
    ((Job.frame header adu).reply (access lib (.frame header adu) w).1).isSome := by
  obtain ⟨device, unit⟩ : ∃ device, w.store.get header.unitId = some device :=
    Dict.mem_keys_iff.mp known
  obtain ⟨response, device', answered, _, short, _⟩ :=
    processPdu_isOk (sound.devices _ _ unit) (adu.drop mbapHeaderLen)
  obtain ⟨_, found, fits, _⟩ := decodeMbap_long (long_of_decoded decoded)
  cases decoded.symm.trans found
  have built := buildAdu_eq (aduHeader_fits fits.1 fits.2.2.2 short)
  simp [access, unit, answered, Job.reply, built, Except.toOption]

/-! ### One serial history -/

/-- The jobs of a handler are the first accepted frames of its stream, and it has written the
replies to them, save the one that it is at. -/
structure Replied (init : World) (s : ServerState) (n : Nat) : Prop where
  jobs : (s.entriesOf (.handler n)).map Entry.job <+:
    acceptedJobs init.store.units (connection s n).received
  written : ∃ answered,
    s.entriesOf (.handler n) = answered ++ (s.pc (.handler n)).pending (.handler n) ∧
    (connection s n).written = answered.filterMap Completed.reply ∧
    ((connection s n).running = true ∨ Sound init →
      (connection s n).written.map some = answered.map Completed.reply)

theorem Connection.Wants.head {units : List Int} {c : Connection} {job : Job}
    (wants : c.Wants units job) : ∃ later, acceptedJobs units c.buffer = job :: later := by
  obtain ⟨_, header, adu, framer, next, accepts, rfl⟩ := wants
  obtain ⟨n, start, rfl, _, _, decoded⟩ := verdict_of_next_some next
  have taking : accepted units (c.buffer.take n) = true := by
    rw [accepted, headerOf_eq decoded]
    exact decide_eq_true accepts
  unfold acceptedJobs
  rw [aduProtocol.drain_frame start, List.filter_cons_of_pos taking, List.map_cons, frameJob,
    headerOf_eq decoded]
  exact ⟨_, rfl⟩

theorem Connection.Kept.jobs {units : List Int} {c : Connection} {done : List Completed}
    (kept : c.Kept units done) :
    acceptedJobs units c.received = done.map Entry.job ++ acceptedJobs units c.buffer := by
  obtain ⟨taken, drained, jobs⟩ := kept.stream
  simp [acceptedJobs, drained, List.filter_append, jobs]

theorem reaches_kept {lib : MathLib} {init : World} {s : ServerState}
    (reaches : Reaches (server lib init) (serving init) s) (n : Nat) :
    (connection s n).Kept init.store.units (s.finished (.handler n)) := by
  let L : (i : Task) → i.Own → List Completed → Prop
    | .handler _ => Connection.Kept init.store.units
    | .generators => fun _ _ => True
  refine reaches.own_invariant (L := L) (fun i => ?_) (fun i l next done moves kept => ?_)
    (fun i l done job out wants kept => ?_) (.handler n)
  · cases i with
    | handler => exact ⟨⟨[], rfl, rfl⟩, rfl, fun _ => rfl⟩
    | generators => trivial
  · cases i with
    | handler => exact Connection.Kept.moves kept moves
    | generators => trivial
  · cases i with
    | handler => exact Connection.Kept.after kept wants _ out
    | generators => trivial

/-- In a well-formed world every frame that a handler has done has a reply. -/
theorem reply_isSome {lib : MathLib} {init : World} {s : ServerState} (sound : Sound init)
    (reaches : Reaches (server lib init) (serving init) s) {e : Completed} (ran : e ∈ s.history)
    {stream : Bytes} (listed : e.job ∈ acceptedJobs init.store.units stream) :
    e.reply.isSome := by
  obtain ⟨k, place⟩ := List.mem_iff_getElem?.mp ran
  have out := reaches.serial.outputs k e place
  have before : Sound ((server lib init).replay init (s.history.take k)) ∧
      ((server lib init).replay init (s.history.take k)).store.units = init.store.units := by
    refine replay_invariant (S := fun w : World => Sound w ∧ w.store.units = init.store.units) ?_
      ⟨sound, rfl⟩ _
    rintro job w ⟨holds, units⟩
    exact ⟨access_sound lib job holds, (access_units lib job w).trans units⟩
  obtain ⟨adu, member, job⟩ := List.mem_map.mp listed
  obtain ⟨frame, accepts⟩ := List.mem_filter.mp member
  obtain ⟨header, decoded, _⟩ := verdict_frame_iff.mp (aduProtocol.head_of_mem_frames frame)
  have known := (of_decide_eq_true accepts).2
  rw [headerOf_eq decoded] at known
  rw [Completed.reply, out, ← job, frameJob, headerOf_eq decoded]
  exact access_reply lib before.1 decoded (before.2 ▸ known)

/-- Whatever the interleaving: no two tasks are inside a critical section of one device; the store
is what the completed operations leave in the order of their completion, each computed from the
store at its place; and every connection gets the replies to its own accepted frames in their
order, each once. -/
theorem interleaving_serial {lib : MathLib} {init : World} {s : ServerState}
    (reaches : Reaches (server lib init) (serving init) s) :
    (∀ i j a b, (s.pc i).Inside a → (s.pc j).Inside b → a.unitId = b.unitId → i = j) ∧
      s.shared = (server lib init).replay init s.history ∧
      (∀ n e, s.history[n]? = some e →
        e.out = (access lib e.job ((server lib init).replay init (s.history.take n))).1) ∧
      ∀ n, Replied init s n := by
  refine ⟨reaches.exclusive.alone, reaches.serial.shared, reaches.serial.outputs, fun n => ?_⟩
  have tracked := reaches.tracked
  have kept := reaches_kept reaches n
  have entries := tracked.entries (.handler n)
  have jobs : (s.entriesOf (.handler n)).map Entry.job <+:
      acceptedJobs init.store.units (connection s n).received := by
    rw [entries, kept.jobs, List.map_append]
    apply (List.prefix_append_right_inj _).mpr
    rcases Pc.pending_cases (s.pc (.handler n)) (Task.handler n) with none | ⟨job, out, one, busy⟩
    · rw [none]
      exact List.nil_prefix
    · obtain ⟨later, first⟩ := Connection.Wants.head (tracked.wanted _ _ busy)
      rw [one]
      exact ⟨later, first.symm⟩
  refine ⟨jobs, s.finished (.handler n), entries, kept.written, ?_⟩
  rintro (running | sound)
  · exact kept.all running
  · rw [kept.written, List.map_filterMap_some_eq_filter_map_isSome, List.filter_eq_self]
    intro reply listed
    obtain ⟨e, done, rfl⟩ := List.mem_map.mp listed
    have ran : e ∈ s.entriesOf (.handler n) := by
      rw [entries]
      exact List.mem_append_left _ done
    exact reply_isSome sound reaches (List.mem_of_mem_filter ran)
      (jobs.subset (List.mem_map_of_mem ran))

/-! ### Two clients and a tick -/

/-- A pump with a constant generator, and a valve without one. -/
def pairConfig : Config :=
  ⟨[⟨1, "pump", .empty, .empty,
      ⟨2, some [7], [⟨1, "constant", [(.str "value", .int 300)]⟩]⟩, .empty⟩,
    ⟨2, "valve", .empty, .empty, ⟨1, some [40], []⟩, .empty⟩]⟩

def valveUnit : Device := ⟨2, "valve", ⟨0, []⟩, ⟨0, []⟩, ⟨1, [.int 40]⟩, ⟨0, []⟩⟩

def pairWorld : World :=
  ⟨(sampleWorld 7).store.update 2 valveUnit, (sampleWorld 7).bindings⟩

theorem pairConfig_valid : pairConfig.validate = .ok () := by decide +kernel

theorem pairConfig_built : buildDatastore sampleLib (fun _ => true) pairConfig =
    .ok (pairWorld.store, pairWorld.bindings) := by with_unfolding_all rfl

def writeFrame : Bytes := [0, 1, 0, 0, 0, 6, 1, 6, 0, 0, 0, 9]

def readFrame : Bytes := [0, 2, 0, 0, 0, 6, 1, 3, 0, 0, 0, 2]

def valveFrame : Bytes := [0, 1, 0, 0, 0, 6, 2, 3, 0, 0, 0, 1]

def writeReply : Bytes := [0, 1, 0, 0, 0, 6, 1, 6, 0, 0, 0, 9]

def pumpReply : Bytes := [0, 2, 0, 0, 0, 7, 1, 3, 4, 0, 9, 1, 44]

def valveReply : Bytes := [0, 1, 0, 0, 0, 5, 2, 3, 2, 0, 40]

def pairHistory : List Completed :=
  [⟨.handler 1, .frame ⟨1, 0, 6, 2⟩ valveFrame, .ok [3, 2, 0, 40]⟩,
    ⟨.handler 0, .frame ⟨1, 0, 6, 1⟩ writeFrame, .ok [6, 0, 0, 0, 9]⟩,
    ⟨.generators, .update 0 1 5 true, .ok []⟩,
    ⟨.handler 0, .frame ⟨2, 0, 6, 1⟩ readFrame, .ok [3, 4, 0, 9, 1, 44]⟩]

def pairStream : Nat → Bytes
  | 0 => writeFrame ++ readFrame
  | 1 => valveFrame
  | _ => []

structure PairServed (s : ServerState) (replies : List Bytes) : Prop where
  history : s.history = pairHistory
  running : ∀ m, (connection s m).running = true
  received : ∀ m, (connection s m).received = pairStream m
  first : (connection s 0).written = replies
  second : (connection s 1).written = [valveReply]

/-- A state in which the first client waits for its second reply, and one in which it has it. -/
theorem reaches_pair : ∃ s s' : ServerState,
    Reaches (server sampleLib pairWorld) (serving pairWorld) s ∧ PairServed s [writeReply] ∧
      (s.pc (.handler 0)).pending (Task.handler 0) =
        [⟨.handler 0, .frame ⟨2, 0, 6, 1⟩ readFrame, .ok [3, 4, 0, 9, 1, 44]⟩] ∧
      Reaches (server sampleLib pairWorld) s s' ∧ PairServed s' [writeReply, pumpReply] := by
  have sends : Connection.Moves [1, 2] ⟨[], [], [], true⟩
      ⟨writeFrame ++ readFrame, writeFrame ++ readFrame, [], true⟩ := .read rfl rfl
  have asks : Connection.Moves [1, 2] ⟨[], [], [], true⟩ ⟨valveFrame, valveFrame, [], true⟩ :=
    .read rfl rfl
  have first : Connection.Wants [1, 2]
      ⟨writeFrame ++ readFrame, writeFrame ++ readFrame, [], true⟩
      (.frame ⟨1, 0, 6, 1⟩ writeFrame) := ⟨rfl, _, _, _, rfl, by decide, rfl⟩
  have second : Connection.Wants [1, 2]
      ⟨writeFrame ++ readFrame, readFrame, [writeReply], true⟩
      (.frame ⟨2, 0, 6, 1⟩ readFrame) := ⟨rfl, _, _, _, rfl, by decide, rfl⟩
  have other : Connection.Wants [1, 2] ⟨valveFrame, valveFrame, [], true⟩
      (.frame ⟨1, 0, 6, 2⟩ valveFrame) := ⟨rfl, _, _, _, rfl, by decide, rfl⟩
  have begins : Ticker.Moves pairWorld.bindings ⟨0, 1, true⟩ ⟨5, 0, true⟩ :=
    .tick rfl (Nat.le_refl 1)
  have update : Ticker.Wants pairWorld.bindings ⟨5, 0, true⟩ (.update 0 1 5 true) :=
    ⟨rfl, _, true, rfl, rfl⟩
  -- both clients are inside the lock of their unit at the same time
  have sent : Reaches (server sampleLib pairWorld) (serving pairWorld) _ :=
    .single (Step.move (i := Task.handler 0) rfl sends)
  have asked := sent.tail (Step.move (i := Task.handler 1) rfl asks)
  have locked := asked.tail (Step.acquire (i := Task.handler 0) rfl first rfl)
  have both := locked.tail (Step.acquire (i := Task.handler 1) rfl other rfl)
  have read := both.tail (Step.run (i := Task.handler 1) rfl)
  have wrote := read.tail (Step.run (i := Task.handler 0) rfl)
  have freed := wrote.tail (Step.release (i := Task.handler 0) rfl)
  -- the tick takes the lock of the pump between its frames
  have ticking := freed.tail (Step.move (i := Task.generators) rfl begins)
  have holding := ticking.tail (Step.acquire (i := Task.generators) rfl update rfl)
  have updated := holding.tail (Step.run (i := Task.generators) rfl)
  have replied := updated.tail (Step.write (i := Task.handler 0) rfl)
  have passed := replied.tail (Step.release (i := Task.generators) rfl)
  have ended := passed.tail (Step.write (i := Task.generators) rfl)
  have done := ended.tail (Step.release (i := Task.handler 1) rfl)
  have served := done.tail (Step.write (i := Task.handler 1) rfl)
  have again := served.tail (Step.acquire (i := Task.handler 0) rfl second rfl)
  have ran := again.tail (Step.run (i := Task.handler 0) rfl)
  have released := ran.tail (Step.release (i := Task.handler 0) rfl)
  refine ⟨_, _, released, ⟨rfl, fun m => ?_, fun m => ?_, rfl, rfl⟩, rfl,
    .single (Step.write (i := Task.handler 0) rfl), rfl, fun m => ?_, fun m => ?_, rfl, rfl⟩
  all_goals rcases m with _ | _ | m <;> rfl

/-- The first client has the reply to its first frame, and its second frame is pending. -/
theorem interleaving_serial_pair : ∃ s : ServerState, s.history = pairHistory ∧
    (connection s 0).written = [writeReply] ∧
    (s.pc (.handler 0)).pending (Task.handler 0) =
      [⟨.handler 0, .frame ⟨2, 0, 6, 1⟩ readFrame, .ok [3, 4, 0, 9, 1, 44]⟩] ∧
    ∀ n, Replied pairWorld s n := by
  obtain ⟨s, _, reaches, served, pending, _⟩ := reaches_pair
  exact ⟨s, served.history, served.first, pending, (interleaving_serial reaches).2.2.2⟩

end ModbusSim.Server
