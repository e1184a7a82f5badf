import ModbusSim.Network.Endpoints

/-!
# One connection of a network

What a network is to one of its clients: a session with a server that has no other connections,
where the work of the other tasks is done to the store. A frame is served in it at the moment of
its access, although the reply is written later. A client that leaves when a call is cut short
makes this session orderly, so each of its calls returns its own response (`reaches_mirrors`).
-/

namespace ModbusSim.Network

open PyStruct ModbusSim.Frame Framing Store Dispatch Setup Server Client LockedTasks StatefulRun

/-- The bytes of a frame at the front of the buffer, until its reply is written. -/
def jobSize : Job → Nat
  | .frame _ adu => adu.length
  | .update .. => 0

def takenBy : Pc Job (Except Exn Bytes) → Nat
  | .ran job _ | .released job _ => jobSize job
  | _ => 0

def repliesOf (entries : List Completed) : List Bytes := entries.filterMap Completed.reply

/-- A session is what a connection, its operations and its client amount to. -/
structure Projects (units : List Int) (c : Connection) (taken : Nat) (entries : List Completed)
    (store : DataStore) (e : Endpoint) (s : Session) : Prop where
  client : s.client = e.client
  phase : s.phase = e.phase
  sent : s.sent = e.sent.map Sent.adu
  received : s.received = e.received
  returned : s.returned = e.returned
  store : s.store = store
  closed : s.closed = !c.running
  fed : c.received <+: e.stream
  buffer : c.running = true → s.framer.buffer = c.buffer.drop taken
  toServer : c.running = true → s.toServer = e.stream.drop c.received.length
  arrived : e.arrived ≤ (repliesOf entries).flatten.length
  toClient : s.toClient = (repliesOf entries).flatten.drop e.arrived
  accepted : (s.served.filter fun f => accepted units f.1).map (fun f => (frameJob f.1, some f.2)) =
    entries.map fun x => (x.job, x.reply)
  dropped : ∀ f ∈ s.served, Server.accepted units f.1 = false → f.2 = []

def Mirrors (units : List Int) (c : Connection) (taken : Nat) (entries : List Completed)
    (store : DataStore) (e : Endpoint) : Prop :=
  ∃ s, Projects units c taken entries store e s ∧ Inv s ∧ Orderly s e.leaves

section

variable {units : List Int} {c : Connection} {taken : Nat} {entries : List Completed}
  {store : DataStore} {w : World} {e : Endpoint}

theorem mirrors_start (client : ModbusClient) (store : DataStore) :
    Mirrors units ⟨[], [], [], true⟩ 0 [] store (.start client) := by
  refine ⟨.start client store, ?_, inv_start client store, orderly_start client store⟩
  refine ⟨rfl, rfl, rfl, rfl, rfl, rfl, rfl, List.nil_prefix, fun _ => rfl, fun _ => rfl, ?_, rfl,
    rfl, fun f member => absurd member List.not_mem_nil⟩
  exact Nat.zero_le _

/-! ### Steps of the server -/

theorem Mirrors.others (mirrors : Mirrors units c taken entries store e) (store' : DataStore) :
    Mirrors units c taken entries store' e := by
  obtain ⟨s, projects, inv, orderly⟩ := mirrors
  exact ⟨{ s with store := store' }, { projects with store := rfl }, inv.others store',
    orderly.congr rfl rfl rfl rfl⟩

theorem Mirrors.stop (mirrors : Mirrors units c taken entries store e) :
    Mirrors units { c with running := false } taken entries store e := by
  obtain ⟨s, projects, inv, orderly⟩ := mirrors
  refine ⟨{ s with closed := true }, ?_, inv.close s.framer s.store, orderly.congr rfl rfl rfl rfl⟩
  exact { projects with closed := rfl, buffer := nofun, toServer := nofun }

theorem Mirrors.read (mirrors : Mirrors units c 0 entries store e) {data : Bytes}
    (fed : c.received ++ data <+: e.stream) :
    Mirrors units { c with received := c.received ++ data, buffer := c.buffer ++ data } 0 entries
      store e := by
  obtain ⟨s, projects, inv, orderly⟩ := mirrors
  refine ⟨_, ?_, inv.upload data.length, orderly.congr rfl rfl rfl rfl⟩
  obtain ⟨later, whole⟩ := fed
  have rest : e.stream.drop c.received.length = data ++ later := by
    rw [← whole, List.append_assoc, List.drop_left]
  refine { projects with fed := ⟨later, whole⟩, buffer := fun running => ?_,
                         toServer := fun running => ?_ }
  · simp only [projects.buffer running, projects.toServer running, rest, List.take_left,
      List.drop_zero]
  · simp only [projects.toServer running, List.drop_drop, List.length_append]

theorem Projects.serve {s : Session} (projects : Projects units c 0 entries store e s)
    (inv : Inv s) (orderly : Orderly s e.leaves) (running : c.running = true)
    {header : MBAPHeader} {adu reply : Bytes} {framer : StreamFramer} {store' : DataStore}
    (next : StreamFramer.nextFrame ⟨c.buffer⟩ = (.ok (some (header, adu)), framer))
    (processed : processFrame store header adu = (.ok reply, store')) :
    Inv { s with
        framer
        store := store'
        toClient := s.toClient ++ reply
        served := s.served ++ [(adu, reply)] } ∧
      Orderly { s with
        framer
        store := store'
        toClient := s.toClient ++ reply
        served := s.served ++ [(adu, reply)] } e.leaves := by
  have opened : s.closed = false := by rw [projects.closed, running]; rfl
  have same : s.framer = ⟨c.buffer⟩ := congrArg StreamFramer.mk (projects.buffer running)
  have stepped := step_serve opened (same ▸ next) (projects.store ▸ processed)
  have after := orderly.step inv (Bool.and_false _) stepped
  simp only [Session.abandons, Bool.or_false] at after
  exact ⟨inv.step (orderly.trusted _) stepped, after⟩

theorem accepted_eq {adu : Bytes} {header : MBAPHeader} (decoded : decodeMbap adu = .ok header) :
    Server.accepted units adu = decide (Accepted units header) := by
  rw [Server.accepted, headerOf_eq decoded]

theorem Mirrors.drop (mirrors : Mirrors units c 0 entries w.store e)
    (known : w.store.units = units) (running : c.running = true) {header : MBAPHeader} {adu : Bytes}
    {framer : StreamFramer}
    (next : StreamFramer.nextFrame ⟨c.buffer⟩ = (.ok (some (header, adu)), framer))
    (refused : ¬ Accepted units header) :
    Mirrors units { c with buffer := framer.buffer } 0 entries w.store e := by
  obtain ⟨s, projects, inv, orderly⟩ := mirrors
  obtain ⟨_, _, _, _, _, decoded⟩ := verdict_of_next_some next
  have outside : Server.accepted units adu = false := by
    rw [accepted_eq decoded]
    exact decide_eq_false refused
  have processed : processFrame w.store header adu = (.ok [], w.store) :=
    processFrame_refused (known ▸ refused) adu
  refine ⟨_, ?_, projects.serve inv orderly running next processed⟩
  refine { projects with store := rfl, buffer := fun _ => rfl, toClient := ?_, accepted := ?_,
                         dropped := ?_ }
  · rw [List.append_nil, projects.toClient]
  · rw [List.filter_append, List.filter_singleton, outside, ← projects.accepted]
    simp
  · intro f member
    rcases List.mem_append.mp member with before | now
    · exact projects.dropped f before
    · cases List.mem_singleton.mp now
      exact fun _ => rfl

theorem processFrame_of_reply {lib : MathLib} {header : MBAPHeader} {adu reply : Bytes}
    (accepts : Accepted w.store.units header)
    (replied : (Job.frame header adu).reply (access lib (.frame header adu) w).1 = some reply) :
    processFrame w.store header adu = (.ok reply, (access lib (.frame header adu) w).2.store) := by
  obtain ⟨answered, changed⟩ := processFrame_accepted lib accepts adu
  rw [replied] at answered
  rw [← changed]
  cases processed : processFrame w.store header adu with
  | mk result store' =>
    rw [processed] at answered
    cases result with
    | error e => cases answered
    | ok r => cases answered; rfl

theorem repliesOf_concat {x : Completed} {reply : Bytes} (replied : x.reply = some reply) :
    repliesOf (entries ++ [x]) = repliesOf entries ++ [reply] := by
  rw [repliesOf, List.filterMap_append, repliesOf]
  simp [replied]

theorem Mirrors.run {lib : MathLib} (mirrors : Mirrors units c 0 entries w.store e) {job : Job}
    (wants : c.Wants units job) (sound : SoundOver units w) (task : Server.Task) :
    Mirrors units c (jobSize job) (entries ++ [⟨task, job, (access lib job w).1⟩])
      (access lib job w).2.store e := by
  obtain ⟨s, projects, inv, orderly⟩ := mirrors
  have answers : (job.reply (access lib job w).1).isSome := wants.replied sound
  obtain ⟨reply, replied⟩ := Option.isSome_iff_exists.mp answers
  have longer : repliesOf (entries ++ [⟨task, job, (access lib job w).1⟩]) =
      repliesOf entries ++ [reply] := repliesOf_concat replied
  obtain ⟨running, header, adu, framer, next, accepts, rfl⟩ := wants
  obtain ⟨n, _, _, rest, size, decoded⟩ := verdict_of_next_some next
  have inside : Server.accepted units adu = true := by
    rw [accepted_eq decoded]
    exact decide_eq_true accepts
  rw [← sound.2] at accepts
  refine ⟨_, ?_, projects.serve inv orderly running next (processFrame_of_reply accepts replied)⟩
  refine { projects with store := rfl, buffer := fun _ => ?_, arrived := ?_, toClient := ?_,
                         accepted := ?_, dropped := ?_ }
  · rw [rest, ← size]
    rfl
  · rw [longer, List.flatten_append, List.length_append]
    exact Nat.le_add_right_of_le projects.arrived
  · rw [longer, List.flatten_append, List.drop_append_of_le_length projects.arrived,
      projects.toClient, List.flatten_singleton]
  · have one : (frameJob adu, some reply) = (Job.frame header adu,
        (Job.frame header adu).reply (access lib (.frame header adu) w).1) := by
      rw [replied, frameJob, headerOf_eq decoded]
    rw [List.filter_append, List.filter_singleton, inside, List.map_append, List.map_append,
      projects.accepted]
    exact congrArg (fun p => _ ++ [p]) one
  · intro f member
    rcases List.mem_append.mp member with before | now
    · exact projects.dropped f before
    · cases List.mem_singleton.mp now
      intro outside
      cases inside.symm.trans outside

theorem Mirrors.write {job : Job} (mirrors : Mirrors units c (jobSize job) entries store e)
    (wants : c.Wants units job) {out : Except Exn Bytes} {reply : Bytes}
    (replied : job.reply out = some reply) : Mirrors units (c.after job out) 0 entries store e := by
  obtain ⟨s, projects, inv, orderly⟩ := mirrors
  obtain ⟨_, header, adu, _, _, _, rfl⟩ := wants
  simp only [Connection.after, replied]
  exact ⟨s, { projects with }, inv, orderly⟩

/-! ### Steps of the client -/

theorem Mirrors.event {s s' : Session} (inv : Inv s) (orderly : Orderly s e.leaves)
    {event : Client.Event} (stepped : s.step event = some s')
    (allowed : (e.leaves && event.calls) = false) {e' : Endpoint}
    (projects : Projects units c taken entries store e' s')
    (leaves : e'.leaves = (e.leaves || s.abandons event)) :
    Mirrors units c taken entries store e' := by
  refine ⟨s', projects, inv.step (orderly.trusted event) stepped, ?_⟩
  rw [leaves]
  exact orderly.step inv allowed stepped

theorem stream_call (e : Endpoint) (x : Sent) :
    (e.sent ++ [x]).flatMap Sent.adu = e.stream ++ x.adu := by
  rw [List.flatMap_append, List.flatMap_singleton, Endpoint.stream]

theorem Mirrors.call (mirrors : Mirrors units c taken entries store e) (rests : e.phase = .idle)
    (stays : e.leaves = false) (unit : Int) (call : Call) :
    Mirrors units c taken entries store (e.call unit call) := by
  obtain ⟨s, projects, inv, orderly⟩ := mirrors
  have stepped : s.step (.call unit call.request call.bitCount) =
      some (s.call unit call.request call.bitCount) := if_pos (projects.phase.trans rests)
  have allowed : (e.leaves && (Event.call unit call.request call.bitCount).calls) = false := by
    rw [stays, Bool.false_and]
  refine .event inv orderly stepped allowed ?_ ?_
  · unfold Session.call Endpoint.call
    rw [projects.client]
    cases sent : e.client.send unit call.request with
    | mk result client =>
      cases result with
      | error => exact { projects with client := rfl }
      | ok request =>
        obtain ⟨transactionId, adu⟩ := request
        have stream := stream_call e ⟨unit, call, transactionId, adu⟩
        refine { projects with client := rfl, phase := rfl, sent := ?_, fed := ?_, toServer := ?_ }
        · simp [projects.sent]
        · rw [Endpoint.stream, stream]
          exact projects.fed.trans (List.prefix_append ..)
        · intro running
          have opened : s.closed = false := by rw [projects.closed, running]; rfl
          rw [Endpoint.stream, stream, opened, List.drop_append_of_le_length projects.fed.length_le,
            ← projects.toServer running]
          rfl
  · unfold Endpoint.call
    split <;> simp [Session.abandons]

theorem Mirrors.download (mirrors : Mirrors units c taken entries store e)
    (written : c.written <+: repliesOf entries) {n : Nat} (some : 0 < n)
    (within : e.arrived + n ≤ c.written.flatten.length) :
    Mirrors units c taken entries store { e with
      arrived := e.arrived + n
      received := e.received ++ (c.written.flatten.drop e.arrived).take n } := by
  obtain ⟨s, projects, inv, orderly⟩ := mirrors
  obtain ⟨later, whole⟩ := written
  have coming : s.toClient = c.written.flatten.drop e.arrived ++ later.flatten := by
    rw [projects.toClient, ← whole, List.flatten_append,
      List.drop_append_of_le_length (Nat.le_of_add_right_le within)]
  have enough : n ≤ (c.written.flatten.drop e.arrived).length := by
    rw [List.length_drop]
    omega
  have stepped : s.step (.download n) = .some { s with
      received := s.received ++ s.toClient.take n
      toClient := s.toClient.drop n } := by
    refine if_pos ⟨some, ?_⟩
    rw [coming, List.length_append]
    omega
  refine .event inv orderly stepped (Bool.and_false _) ?_ (Bool.or_false _).symm
  refine { projects with received := ?_, arrived := ?_, toClient := ?_ }
  · rw [projects.received, coming, List.take_append_of_le_length enough]
  · rw [← whole, List.flatten_append, List.length_append]
    exact Nat.le_add_right_of_le within
  · rw [projects.toClient, List.drop_drop]

theorem Mirrors.readHeader (mirrors : Mirrors units c taken entries store e) {transactionId : Nat}
    {bitCount : Option Int} (waits : e.phase = .awaitingHeader transactionId bitCount)
    (enough : mbapHeaderLen ≤ e.received.length) :
    Mirrors units c taken entries store (e.readHeader transactionId bitCount) := by
  obtain ⟨s, projects, inv, orderly⟩ := mirrors
  have asks := projects.phase.trans waits
  have stepped : s.step .readHeader = some (s.readHeader transactionId bitCount) := by
    simp only [Session.step, asks, projects.received, if_pos enough]
  refine .event inv orderly stepped (Bool.and_false _) ?_ ?_
  · unfold Session.readHeader Endpoint.readHeader
    rw [projects.received]
    cases acceptHeader transactionId (e.received.take mbapHeaderLen) with
    | error => exact { projects with phase := rfl, received := rfl }
    | ok header => exact { projects with phase := rfl, received := rfl }
  · unfold Endpoint.readHeader
    simp only [Session.abandons, asks, projects.received]
    cases acceptHeader transactionId (e.received.take mbapHeaderLen) with
    | error => exact (Bool.or_true _).symm
    | ok header => exact (Bool.or_false _).symm

theorem Mirrors.readPdu (mirrors : Mirrors units c taken entries store e) {length : Int}
    {bitCount : Option Int} (waits : e.phase = .awaitingPdu length bitCount)
    (least : 0 ≤ length - 1) (enough : length - 1 ≤ e.received.length) :
    Mirrors units c taken entries store (e.readPdu (length - 1).toNat bitCount) := by
  obtain ⟨s, projects, inv, orderly⟩ := mirrors
  have asks := projects.phase.trans waits
  have stepped : s.step .readPdu = some (s.readPdu (length - 1).toNat bitCount) := by
    simp only [Session.step, asks, projects.received, if_neg (Int.not_lt.mpr least), if_pos enough]
  have goesOn : s.abandons .readPdu = false := by
    simp only [Session.abandons, asks]
    exact decide_eq_false (Int.not_lt.mpr least)
  refine .event inv orderly stepped (Bool.and_false _) ?_ ?_
  · unfold Session.readPdu Endpoint.readPdu
    rw [projects.received]
    cases acceptPdu bitCount (e.received.take (length - 1).toNat) with
    | error => exact { projects with phase := rfl, received := rfl }
    | ok response =>
      refine { projects with phase := rfl, received := rfl, returned := ?_ }
      rw [projects.returned, projects.sent, List.length_map]
  · rw [goesOn, Bool.or_false]
    unfold Endpoint.readPdu
    split
    · rfl
    · rfl

theorem Mirrors.client (mirrors : Mirrors units c taken entries store e)
    (written : c.written <+: repliesOf entries)
    (finished : c.running = false → c.written = repliesOf entries) {e' : Endpoint}
    (step : Endpoint.Step c e e') : Mirrors units c taken entries store e' := by
  cases step with
  | @call unit call rests stays => exact mirrors.call rests stays unit call
  | download some within => exact mirrors.download written some within
  | readHeader waits enough => exact mirrors.readHeader waits enough
  | readPdu waits least enough => exact mirrors.readPdu waits least enough
  | leave rests =>
    obtain ⟨s, projects, inv, _⟩ := mirrors
    exact ⟨s, { projects with }, inv, .abandoned (projects.phase.trans rests)⟩
  | shortPdu waits short =>
    obtain ⟨s, projects, inv, orderly⟩ := mirrors
    have asks := projects.phase.trans waits
    have stepped : s.step .readPdu = some { s with phase := .idle } := by
      simp only [Session.step, asks, if_pos short]
    have abandons : s.abandons .readPdu = true := by
      simp only [Session.abandons, asks]
      exact decide_eq_true short
    refine .event inv orderly stepped (Bool.and_false _) { projects with phase := rfl } ?_
    rw [abandons, Bool.or_true]
  | timeout waits =>
    obtain ⟨s, projects, inv, orderly⟩ := mirrors
    have stepped : s.step .timeout = some { s with phase := .idle } := by
      refine if_neg ?_
      rw [projects.phase]
      exact waits
    exact .event inv orderly stepped (Bool.and_false _) { projects with phase := rfl }
      (Bool.or_true _).symm
  | @endOfStream n waits stopped all short =>
    obtain ⟨s, projects, inv, orderly⟩ := mirrors
    have asks : s.phase.wanted = some n := by rw [projects.phase, waits]
    have empty : s.toClient = [] := by
      rw [projects.toClient, ← finished stopped, all, List.drop_length]
    have closed : s.closed = true := by rw [projects.closed, stopped]; rfl
    have stepped : s.step .endOfStream = some { s with phase := .idle, received := [] } := by
      simp only [Session.step, asks]
      refine if_pos ⟨closed, empty, ?_⟩
      rw [projects.received]
      exact short
    exact .event inv orderly stepped (Bool.and_false _)
      { projects with phase := rfl, received := rfl } (Bool.or_true _).symm

end

/-! ### Runs -/

def MirrorsAt (units : List Int) (s : ServerState) (n : Nat) (e : Endpoint) : Prop :=
  Mirrors units (connection s n) (takenBy (s.pc (.handler n))) (s.entriesOf (.handler n))
    s.shared.store e

section

variable {lib : MathLib} {init : World} {s s' : ServerState} {n : Nat} {e : Endpoint}

theorem MirrorsAt.others {units : List Int} (mirrors : MirrorsAt units s n e)
    (own : connection s' n = connection s n) (pc : s'.pc (.handler n) = s.pc (.handler n))
    (entries : s'.entriesOf (.handler n) = s.entriesOf (.handler n)) : MirrorsAt units s' n e := by
  unfold MirrorsAt
  rw [own, pc, entries]
  exact Mirrors.others mirrors s'.shared.store

theorem reply_of_released (sound : Sound init)
    (reaches : LockedTasks.Reaches (server lib init) (serving init) s) {job : Job}
    {out : Except Exn Bytes} (released : s.pc (.handler n) = .released job out) :
    ∃ reply, job.reply out = some reply := by
  have pending : (s.pc (.handler n)).pending (Task.handler n) = [⟨.handler n, job, out⟩] := by
    rw [released]
    rfl
  have busy : (s.pc (.handler n)).Busy job := by
    rw [released]
    rfl
  have wants : (connection s n).Wants init.store.units job := reaches.tracked.wanted _ _ busy
  obtain ⟨w, holds, rfl⟩ := reaches.output_of_pending (access_soundOver lib init.store.units)
    ⟨sound, rfl⟩ pending
  exact Option.isSome_iff_exists.mp (wants.replied holds)

theorem MirrorsAt.step (sound : Sound init)
    (reaches : LockedTasks.Reaches (server lib init) (serving init) s)
    (step : LockedTasks.Step (server lib init) s s')
    (fed : (connection s' n).received <+: e.stream) (mirrors : MirrorsAt init.store.units s n e) :
    MirrorsAt init.store.units s' n e := by
  have wanted := reaches.tracked.wanted (.handler n)
  have keeps : SoundOver init.store.units s.shared :=
    reaches.shared (access_soundOver lib init.store.units) ⟨sound, rfl⟩
  cases step with
  | @move i next idle moves =>
    by_cases same : Task.handler n = i
    · subst same
      unfold MirrorsAt at mirrors ⊢
      unfold connection at mirrors fed ⊢
      simp only [Function.update_self] at fed ⊢
      rw [idle] at mirrors ⊢
      cases moves with
      | read => exact Mirrors.read mirrors fed
      | stop => exact Mirrors.stop mirrors
      | drop running next refused => exact Mirrors.drop mirrors keeps.2 running next refused
    · exact mirrors.others (Function.update_of_ne same ..) rfl rfl
  | @acquire i job idle =>
    by_cases same : Task.handler n = i
    · subst same
      unfold MirrorsAt at mirrors ⊢
      rw [idle] at mirrors
      simp only [Function.update_self]
      exact mirrors
    · exact mirrors.others rfl (Function.update_of_ne same ..) rfl
  | @run i job holding =>
    by_cases same : Task.handler n = i
    · subst same
      unfold MirrorsAt at mirrors ⊢
      rw [holding] at mirrors wanted
      simp only [Function.update_self, State.entriesOf]
      rw [entriesOf_append_self (i := Task.handler n) rfl]
      exact Mirrors.run mirrors (wanted job rfl) keeps _
    · exact mirrors.others rfl (Function.update_of_ne same ..) (entriesOf_append_of_ne same)
  | @release i job out ran =>
    by_cases same : Task.handler n = i
    · subst same
      unfold MirrorsAt at mirrors ⊢
      rw [ran] at mirrors
      simp only [Function.update_self]
      exact mirrors
    · exact mirrors.others rfl (Function.update_of_ne same ..) rfl
  | @write i job out released =>
    by_cases same : Task.handler n = i
    · subst same
      unfold MirrorsAt at mirrors ⊢
      obtain ⟨reply, replied⟩ := reply_of_released sound reaches released
      rw [released] at mirrors wanted
      unfold connection at mirrors ⊢
      simp only [Function.update_self]
      exact Mirrors.write mirrors (wanted job rfl) replied
    · exact mirrors.others (Function.update_of_ne same ..) (Function.update_of_ne same ..) rfl

/-- What a handler has written are the first replies, and all of them between its jobs. -/
theorem written_replies (reaches : LockedTasks.Reaches (server lib init) (serving init) s)
    (n : Nat) : (connection s n).written <+: repliesOf (s.entriesOf (.handler n)) ∧
      (s.pc (.handler n) = .idle →
        (connection s n).written = repliesOf (s.entriesOf (.handler n))) := by
  rw [reaches.tracked.entries, repliesOf, List.filterMap_append, ← (reaches_kept reaches n).written]
  refine ⟨List.prefix_append .., fun idle => ?_⟩
  rw [idle, Pc.pending_idle, List.filterMap_nil, List.append_nil]

theorem idle_of_stopped (reaches : LockedTasks.Reaches (server lib init) (serving init) s)
    (stopped : (connection s n).running = false) : s.pc (.handler n) = .idle := by
  have wanted : ∀ job, ¬ (s.pc (.handler n)).Busy job := by
    intro job busy
    obtain ⟨running, _⟩ := reaches.tracked.wanted _ _ busy
    cases stopped.symm.trans running
  cases pc : s.pc (.handler n) with
  | idle => rfl
  | holding job | ran job | released job => exact absurd (by rw [pc]; rfl) (wanted job)

end

/-- In a net that is reached every connection is a session of its client. -/
theorem reaches_mirrors {lib : MathLib} {init : World} (sound : Sound init)
    {clients : Nat → ModbusClient} {y : Net} (reaches : Reaches lib init (.start init clients) y)
    (n : Nat) : MirrorsAt init.store.units y.server n (y.endpoint n) := by
  induction reaches with
  | refl => exact mirrors_start (clients n) init.store
  | @tail y y' before step ih =>
    have earlier := Reaches.server before
    cases step with
    | server step fed => exact ih.step sound earlier step (fed n)
    | @client m e step =>
      by_cases same : n = m
      · subst same
        obtain ⟨written, finished⟩ := written_replies earlier n
        simp only [Function.update_self]
        exact Mirrors.client ih written (fun stopped => finished (idle_of_stopped earlier stopped))
          step
      · simp only [Function.update_of_ne same]
        exact ih

end ModbusSim.Network
