import Mathlib.Data.List.Flatten
import ModbusSim.Server.Progress

/-!
# How much a peer can make the server write

A frame has at least 8 bytes and a request at least 12; an exception has 9 bytes and no reply has
more than 259. So, whatever a peer sends and whatever else the server does, the bytes that are
written to a connection are to those it has received as 259 to 12 at most, and a read of 125
registers comes to that (`output_bounded`).
-/

namespace ModbusSim.Server

open PyStruct ModbusSim.Frame Framing Store Dispatch Setup LockedTasks

def Answerable (frame reply : Bytes) : Prop := 12 * reply.length ≤ 259 * frame.length

theorem length_clearUnusedBits (pdu : Bytes) : (clearUnusedBits pdu).length = pdu.length := by
  unfold clearUnusedBits
  split
  next long =>
    rw [List.length_append, length_clearLast, List.length_take, List.length_drop]
    omega
  next => rfl

theorem five_le_length_wire (r : Request) : 5 ≤ r.wire.length := by
  cases r with
  | writeMultipleCoils | writeMultipleRegisters =>
    rw [Request.wire, List.length_append, length_multiHead]
    omega
  | _ => exact Nat.le_of_eq (length_triple ..).symm

theorem length_response {device : Device} (wellFormed : device.WellFormed) {pdu response : Bytes}
    {device' : Device} (answered : processPdu device pdu = (.ok response, device')) :
    response.length = 2 ∨ 5 ≤ pdu.length ∧ response.length ≤ 252 := by
  rcases processPdu_cases wellFormed pdu with ⟨first, code, exception⟩ |
    ⟨r, decoded, encodable, inRange, inside, executed⟩
  · cases answered.symm.trans exception
    exact .inl rfl
  · cases answered.symm.trans executed
    have size := congrArg List.length (decodeRequestPdu_sound decoded).2
    rw [length_clearUnusedBits] at size
    exact .inr ⟨size ▸ five_le_length_wire r,
      (answer_encodable wellFormed encodable inRange inside).2.2⟩

theorem answerable_access (lib : MathLib) {w : World} (sound : Sound w) {header : MBAPHeader}
    {adu reply : Bytes} (decoded : decodeMbap adu = .ok header)
    (known : header.unitId ∈ w.store.units)
    (replied : (Job.frame header adu).reply (access lib (.frame header adu) w).1 = some reply) :
    Answerable adu reply := by
  obtain ⟨device, unit⟩ : ∃ device, w.store.get header.unitId = some device :=
    Dict.mem_keys_iff.mp known
  have long := long_of_decoded decoded
  cases answered : processPdu device (adu.drop mbapHeaderLen) with
  | mk result device' =>
    simp only [access, unit, answered, Job.reply] at replied
    cases result with
    | error e => cases replied
    | ok response =>
      have size := length_response (sound.devices _ _ unit) answered
      rw [Raise.ok_bind] at replied
      cases built : buildAdu header.transactionId header.unitId response with
      | error e =>
        rw [built] at replied
        cases replied
      | ok written =>
        rw [built] at replied
        cases replied
        obtain ⟨_, whole⟩ := buildAdu_eq_ok built
        have total := congrArg List.length whole
        rw [List.length_append, MBAPHeader.length_wire] at total
        rw [List.length_drop] at size
        unfold Answerable
        simp only [mbapHeaderLen] at long total size
        omega

theorem answerable_flatten {done : List Completed} {frames : List Bytes}
    (jobs : done.map Entry.job = frames.map frameJob)
    (each : ∀ e ∈ done, ∀ frame ∈ frames, ∀ reply, e.job = frameJob frame →
      Completed.reply e = some reply → Answerable frame reply) :
    Answerable frames.flatten (done.filterMap Completed.reply).flatten := by
  induction done generalizing frames with
  | nil => exact Nat.zero_le _
  | cons e done ih =>
    cases frames with
    | nil => cases jobs
    | cons frame frames =>
      obtain ⟨job, later⟩ := List.cons.inj jobs
      have rest := ih later fun e' member frame' listed =>
        each e' (List.mem_cons_of_mem e member) frame' (List.mem_cons_of_mem frame listed)
      have here := each e List.mem_cons_self frame List.mem_cons_self
      unfold Answerable at rest here ⊢
      rw [List.filterMap_cons, List.flatten_cons, List.length_append]
      cases replied : Completed.reply e with
      | none =>
        simp only
        omega
      | some reply =>
        have bound := here reply job replied
        rw [List.flatten_cons, List.length_append]
        omega

theorem answerable_reached {lib : MathLib} {init : World} (sound : Sound init) {s : ServerState}
    (reaches : Reaches (server lib init) (serving init) s) (n : Nat) :
    Answerable (connection s n).received (connection s n).written.flatten := by
  have kept := reaches_kept reaches n
  obtain ⟨taken, drained, jobs⟩ := kept.stream
  have together : Answerable (taken.filter (accepted init.store.units)).flatten
      ((s.finished (.handler n)).filterMap Completed.reply).flatten := by
    refine answerable_flatten jobs.symm fun e member frame listed reply job replied => ?_
    have ran : e ∈ s.entriesOf (.handler n) := by
      rw [reaches.tracked.entries]
      exact List.mem_append_left _ member
    obtain ⟨w, ⟨holds, units⟩, out⟩ := reaches.output (access_soundOver lib init.store.units)
      ⟨sound, rfl⟩ (List.mem_of_mem_filter ran)
    obtain ⟨here, accepts⟩ := List.mem_filter.mp listed
    have frames : frame ∈ (aduProtocol.drain (connection s n).received).frames := by
      rw [drained]
      exact List.mem_append_left _ here
    obtain ⟨header, decoded, _⟩ := verdict_frame_iff.mp (aduProtocol.head_of_mem_frames frames)
    have known := (of_decide_eq_true accepts).2
    rw [headerOf_eq decoded, ← units] at known
    rw [Completed.reply, out, job, frameJob, headerOf_eq decoded] at replied
    exact answerable_access lib holds decoded known replied
  have conserved := congrArg List.length (aduProtocol.drain_conserves (connection s n).received)
  have fewer := (List.filter_sublist (p := accepted init.store.units) (l := taken)).flatten.length_le
  rw [drained, List.flatten_append, List.length_append, List.length_append] at conserved
  rw [← kept.written] at together
  unfold Answerable at together ⊢
  omega

theorem reaches_reply {lib : MathLib} {init : World} {frame reply : Bytes} {header : MBAPHeader}
    (start : verdict frame = .frame frame.length) (decoded : decodeMbap frame = .ok header)
    (accepts : Accepted init.store.units header)
    (replied : (Job.frame header frame).reply (access lib (.frame header frame) init).1 =
      some reply) :
    ∃ s, Reaches (server lib init) (serving init) s ∧ (connection s 0).received = frame ∧
      (connection s 0).written = [reply] := by
  have read : Connection.Moves init.store.units ⟨[], [], [], true⟩ ⟨frame, frame, [], true⟩ :=
    .read rfl rfl
  have wants :
      Connection.Wants init.store.units ⟨frame, frame, [], true⟩ (.frame header frame) := by
    obtain ⟨_, again, _, next⟩ := nextFrame_frame start
    rw [List.take_length] at again next
    cases decoded.symm.trans again
    exact ⟨rfl, header, frame, _, next, accepts, rfl⟩
  have opened : Reaches (server lib init) (serving init) _ :=
    .single (Step.move (i := Task.handler 0) rfl read)
  have holding := opened.tail (Step.acquire (i := Task.handler 0) rfl wants rfl)
  have ran := holding.tail (Step.run (i := Task.handler 0) rfl)
  have released := ran.tail (Step.release (i := Task.handler 0) rfl)
  have written := released.tail (Step.write (i := Task.handler 0) rfl)
  have after : Connection.after ⟨frame, frame, [], true⟩ (.frame header frame)
      (access lib (.frame header frame) init).1 =
      ⟨frame, frame.drop frame.length, [reply], true⟩ := by
    rw [Connection.after, replied]
    rfl
  exact ⟨_, written, congrArg Connection.received after, congrArg Connection.written after⟩

def bankWorld : World :=
  ⟨.single ⟨1, "bank", ⟨0, []⟩, ⟨0, []⟩, ⟨125, List.replicate 125 (.int 0)⟩, ⟨0, []⟩⟩, []⟩

theorem bankWorld_sound : Sound bankWorld := by
  refine ⟨DataStore.single_all ⟨fun r => ?_, fun r register slot member => ?_⟩, fun b member => ?_⟩
  · cases r with
    | holdingRegisters => exact List.length_replicate
    | _ => rfl
  · cases r with
    | coils | discreteInputs => exact absurd register (by decide)
    | inputRegisters => cases member
    | holdingRegisters =>
      obtain rfl := List.eq_of_mem_replicate member
      exact (show IsWord 0 by decide)
  · cases member

def bankFrame : Bytes := [0, 1, 0, 0, 0, 6, 1, 3, 0, 0, 0, 125]

theorem length_bankReply : (processFrame bankWorld.store ⟨1, 0, 6, 1⟩ bankFrame).1.toOption.map
    List.length = some 259 := by decide +kernel

/-- Whatever a peer sends, in whatever chunks, and whatever else the server does: at most 259 bytes
are written for 12 that are received; and so many can be. -/
theorem output_bounded {lib : MathLib} :
    (∀ {init : World}, Sound init → ∀ {s}, Reaches (server lib init) (serving init) s →
        ∀ n, 12 * (connection s n).written.flatten.length ≤
          259 * (connection s n).received.length) ∧
      ∃ init s, Sound init ∧ Reaches (server lib init) (serving init) s ∧
        (connection s 0).received.length = 12 ∧
        (connection s 0).written.flatten.length = 259 := by
  refine ⟨fun sound _ reaches n => answerable_reached sound reaches n, ?_⟩
  have accepts : Accepted bankWorld.store.units ⟨1, 0, 6, 1⟩ := by decide
  obtain ⟨reply, replied, size⟩ := Option.map_eq_some_iff.mp length_bankReply
  rw [(processFrame_accepted lib accepts bankFrame).1] at replied
  obtain ⟨s, reaches, received, written⟩ := reaches_reply rfl rfl accepts replied
  refine ⟨bankWorld, s, bankWorld_sound, reaches, by rw [received]; rfl, ?_⟩
  rw [written, List.flatten_singleton, size]

/-- Two clients of a pump and a valve. -/
theorem output_bounded_pair : ∃ s : ServerState,
    (connection s 0).written.flatten.length = 25 ∧ (connection s 1).written.flatten.length = 11 ∧
    ∀ n, 12 * (connection s n).written.flatten.length ≤ 259 * (connection s n).received.length := by
  obtain ⟨_, s, reaches, _, _, later, served⟩ := reaches_pair
  refine ⟨s, by rw [served.first]; rfl, by rw [served.second]; rfl, ?_⟩
  exact output_bounded.1 pairWorld_sound (reaches.trans later)

end ModbusSim.Server
