import ModbusSim.Client.Outcomes
import ModbusSim.Server.Linear

/-!
# Clients of a concurrent server

Any number of clients, each with its own sequence of calls, and the generators. At the typed level
the server carries out one operation after another, in an order that only grows and that keeps
every client's own order; what a client makes of each of its replies is the result that its call
has there (`clients_linearizable`).
-/

namespace ModbusSim.Client

open PyStruct ModbusSim.Frame Framing Store Dispatch Setup Server LockedTasks StatefulRun

/-- What an event of the store is at the typed level. A PDU that is no request does nothing. -/
inductive Operation where
  | call (unitId : Int) (request : Request)
  | update (index : Nat) (elapsed : ℚ) (up : Bool)
  | malformed

def Operation.ofEvent : Setup.Event → Operation
  | .pdu unitId pdu =>
    match decodeRequestPdu pdu with
    | .ok request => .call unitId request
    | .error _ => .malformed
  | .update index elapsed up => .update index elapsed up

abbrev Result := Option (Except ClientExn Response)

def perform (lib : MathLib) (w : World) : Operation → Result × World
  | .call unitId request =>
    match w.store.get unitId with
    | none => (none, w)
    | some device =>
      (some (outcome request (handleRequest device request).1),
        { w with store := w.store.update unitId (handleRequest device request).2 })
  | .update index elapsed up => (none, (w.handle lib (.update index elapsed up)).2)
  | .malformed => (none, w)

def operationsOf (s : ServerState) : List Operation := (eventsOf s).map Operation.ofEvent

def servedTo (s : ServerState) (n : Nat) (results : List Result) : List (Operation × Result) :=
  ((s.history.zip results).filter fun p => p.1.task = .handler n).map fun p =>
    (.ofEvent p.1.job.event, p.2)

/-! ### The typed run -/

theorem perform_state (lib : MathLib) (w : World) (event : Setup.Event) :
    (perform lib w (.ofEvent event)).2 = (w.handle lib event).2 := by
  cases event with
  | update index elapsed up => rfl
  | pdu unitId pdu =>
    cases decoded : decodeRequestPdu pdu with
    | error e =>
      -- a PDU that is refused leaves the device as it is
      simp only [Operation.ofEvent, perform, World.handle, decoded]
      cases found : w.store.get unitId with
      | none => rfl
      | some device => simp only [processPdu, decoded, DataStore.update_of_get found]
    | ok request =>
      simp only [Operation.ofEvent, perform, World.handle, decoded]
      cases w.store.get unitId with
      | none => rfl
      | some device => simp only [processPdu, decoded]

theorem run_perform (lib : MathLib) (w : World) (events : List Setup.Event) :
    (run (perform lib) w (events.map Operation.ofEvent)).2 = (run (World.handle lib) w events).2 := by
  rw [run_map]
  exact run_state_congr (fun w event => perform_state lib w event) events w

/-! ### What clients send -/

/-- A call to a unit that has been sent: its transaction id and its ADU. -/
structure Sent where
  unit : Int
  call : Call
  transactionId : Nat
  adu : Bytes

/-- The requests that a client sends for calls one after another. A call that `send` refuses sends
nothing. -/
def ModbusClient.sends (client : ModbusClient) : List (Int × Call) → List Sent
  | [] => []
  | (unit, call) :: calls =>
    let (result, client') := client.send unit call.request
    let later := client'.sends calls
    match result with
    | .ok (transactionId, adu) => ⟨unit, call, transactionId, adu⟩ :: later
    | .error _ => later

def Sent.operation (x : Sent) : Operation := .call x.unit x.call.request

def known (units : List Int) (sent : List Sent) : List Sent := sent.filter fun x => x.unit ∈ units

structure Sent.Framed (x : Sent) : Prop where
  encodable : x.call.request.Encodable
  fits : (aduHeader x.transactionId x.unit x.call.request.wire).Fits
  whole : x.adu = (aduHeader x.transactionId x.unit x.call.request.wire).wire ++ x.call.request.wire

theorem framed_of_send {c c' : ModbusClient} {unit : Int} {call : Call} {transactionId : Nat}
    {adu : Bytes} (sent : c.send unit call.request = (.ok (transactionId, adu), c')) :
    Sent.Framed ⟨unit, call, transactionId, adu⟩ := by
  obtain ⟨_, pdu, encoded, fits, whole⟩ := send_eq_ok sent
  obtain ⟨encodable, rfl⟩ := encodeRequestPdu_eq_ok.mp encoded
  exact ⟨encodable, fits, whole⟩

theorem framed_of_sends {client : ModbusClient} {calls : List (Int × Call)} :
    ∀ x ∈ client.sends calls, x.Framed := by
  induction calls generalizing client with
  | nil => simp [ModbusClient.sends]
  | cons asked calls ih =>
    obtain ⟨unit, call⟩ := asked
    unfold ModbusClient.sends
    cases sent : client.send unit call.request with
    | mk result client' =>
      cases result with
      | error e => exact ih
      | ok request =>
        rw [List.forall_mem_cons]
        exact ⟨framed_of_send sent, ih⟩

namespace Sent.Framed

variable {x : Sent}

theorem header (framed : x.Framed) :
    headerOf x.adu = aduHeader x.transactionId x.unit x.call.request.wire :=
  headerOf_eq (framed.whole ▸ decodeMbap_wire framed.fits x.call.request.wire)

theorem payload (framed : x.Framed) : x.adu.drop mbapHeaderLen = x.call.request.wire := by
  rw [framed.whole]
  exact List.drop_left' (MBAPHeader.length_wire _)

theorem accepted (framed : x.Framed) (units : List Int) :
    Server.accepted units x.adu = decide (x.unit ∈ units) := by
  rw [Server.accepted, framed.header]
  exact decide_eq_decide.mpr (and_iff_right rfl)

theorem event (framed : x.Framed) :
    (frameJob x.adu).event = .pdu x.unit x.call.request.wire := by
  rw [frameJob, Job.event, framed.header, framed.payload]
  rfl

theorem operation (framed : x.Framed) : .ofEvent (frameJob x.adu).event = x.operation := by
  rw [framed.event, Operation.ofEvent, decodeRequestPdu_wire framed.encodable]
  rfl

end Sent.Framed

/-- The frames of what has been sent are the requests, up to one that is too long for a frame. -/
theorem frames_sent {sent : List Sent} (framed : ∀ x ∈ sent, x.Framed) :
    (aduProtocol.drain (sent.flatMap Sent.adu)).frames <+: sent.map Sent.adu := by
  induction sent with
  | nil =>
    rw [List.flatMap_nil, aduProtocol.drain_more rfl]
    exact List.nil_prefix
  | cons x sent ih =>
    obtain ⟨first, others⟩ := List.forall_mem_cons.mp framed
    rw [List.flatMap_cons, List.map_cons]
    by_cases short : lengthField x.call.request.wire ≤ maxLengthField
    · have start := head_framed first.fits (wire_ne_nil _) short first.whole
      rw [aduProtocol.drain_frame (aduProtocol.frame_append _ start), List.take_left,
        List.drop_left]
      exact (List.prefix_cons_inj _).mpr (ih others)
    · have start := head_refused first.fits (Int.not_le.mp short)
      rw [← first.whole] at start
      rw [aduProtocol.drain_bad (aduProtocol.bad_append _ start)]
      exact List.nil_prefix

/-- The ADUs that are not dropped are those of calls to known units. -/
theorem adus_known (units : List Int) {sent : List Sent} (framed : ∀ x ∈ sent, x.Framed) :
    (sent.map Sent.adu).filter (accepted units) = (known units sent).map Sent.adu := by
  rw [List.filter_map, known]
  refine congrArg (List.map Sent.adu) (List.filter_congr fun x member => ?_)
  exact (framed x member).accepted units

theorem acceptedJobs_sent (units : List Int) {sent : List Sent} (framed : ∀ x ∈ sent, x.Framed)
    {stream : Bytes} (received : stream <+: sent.flatMap Sent.adu) :
    acceptedJobs units stream <+: (known units sent).map fun x => frameJob x.adu := by
  obtain ⟨rest, whole⟩ := received
  have frames := aduProtocol.frames_prefix stream rest
  rw [whole] at frames
  have jobs := ((frames.trans (frames_sent framed)).filter (accepted units)).map frameJob
  rw [adus_known units framed, List.map_map] at jobs
  exact jobs

/-! ### What is returned -/

theorem zip_entriesOf {s : ServerState} {n : Nat} {results : List Result}
    (size : s.history.length ≤ results.length) :
    ((s.history.zip results).filter fun p => p.1.task = .handler n).map Prod.fst =
      s.entriesOf (.handler n) := by
  have filtered := List.filter_map (f := Prod.fst) (p := fun e : Completed => e.task = .handler n)
    (l := s.history.zip results)
  rw [List.map_fst_zip size] at filtered
  exact filtered.symm

theorem servedTo_operations {s : ServerState} {n : Nat} {results : List Result}
    (size : s.history.length ≤ results.length) :
    (servedTo s n results).map Prod.fst =
      (s.entriesOf (.handler n)).map fun e => Operation.ofEvent e.job.event := by
  rw [servedTo, ← zip_entriesOf size, List.map_map, List.map_map]
  rfl

/-- An entry of a connection has a place in the history, and its result is the one of this place. -/
theorem servedTo_place {s : ServerState} {n j : Nat} {results : List Result}
    (size : s.history.length ≤ results.length) {e : Completed}
    (entry : (s.entriesOf (.handler n))[j]? = some e) :
    ∃ (k : Nat) (result : Result), s.history[k]? = some e ∧ results[k]? = some result ∧
      (servedTo s n results)[j]? = some (.ofEvent e.job.event, result) := by
  rw [← zip_entriesOf size, List.getElem?_map, Option.map_eq_some_iff] at entry
  obtain ⟨⟨e, result⟩, own, rfl⟩ := entry
  obtain ⟨k, place⟩ := List.mem_iff_getElem?.mp (List.mem_of_mem_filter (List.mem_of_getElem? own))
  obtain ⟨ran, given⟩ := List.getElem?_zip_eq_some.mp place
  exact ⟨k, result, ran, given, by rw [servedTo, List.getElem?_map, own, Option.map_some]⟩

section Served

variable {lib : MathLib} {init : World} {s : ServerState}

theorem soundOver_take (sound : Sound init) (reaches : Reaches (server lib init) (serving init) s)
    (k : Nat) :
    (run (perform lib) init ((operationsOf s).take k)).2 =
        (server lib init).replay init (s.history.take k) ∧
      SoundOver init.store.units (run (perform lib) init ((operationsOf s).take k)).2 := by
  have same : (run (perform lib) init ((operationsOf s).take k)).2 =
      (server lib init).replay init (s.history.take k) := by
    rw [operationsOf, ← List.map_take, run_perform, replay_take_eq reaches]
  refine ⟨same, ?_⟩
  rw [same]
  exact replay_invariant (access_soundOver lib init.store.units) ⟨sound, rfl⟩ _

/-- A reply of the history holds what its call comes to at its place. -/
theorem result_of_reply (sound : Sound init) (reaches : Reaches (server lib init) (serving init) s)
    {k : Nat} {e : Completed} (place : s.history[k]? = some e) {x : Sent} (framed : x.Framed)
    (unit : x.unit ∈ init.store.units) (job : e.job = frameJob x.adu) {reply : Bytes}
    (replied : e.reply = some reply) : ∃ pdu,
      (aduHeader x.transactionId x.unit pdu).Fits ∧
      reply = (aduHeader x.transactionId x.unit pdu).wire ++ pdu ∧
      (run (perform lib) init (operationsOf s)).1[k]? = some (some (acceptPdu x.call.bitCount pdu)) := by
  obtain ⟨same, holds, units⟩ := soundOver_take sound reaches k
  have answered := reaches.serial.outputs k e place
  have here : (operationsOf s)[k]? = some x.operation := by
    rw [operationsOf, eventsOf, List.map_map, List.getElem?_map, place, Option.map_some,
      Function.comp_apply, job, framed.operation]
  rw [run_getElem? (perform lib) here]
  rw [← same] at answered
  generalize (run (perform lib) init ((operationsOf s).take k)).2 = w at *
  rw [← units] at unit
  obtain ⟨device, found⟩ : ∃ device, w.store.get x.unit = some device := Dict.mem_keys_iff.mp unit
  have wellFormed := holds.devices _ _ found
  obtain ⟨encodable, _, _, short⟩ := typedReply_encodable wellFormed framed.encodable
  have fits : (aduHeader x.transactionId x.unit (typedReply device x.call.request).wire).Fits :=
    aduHeader_fits framed.fits.1 framed.fits.2.2.2 short
  have processed := processPdu_wire framed.encodable device
  rw [(encodeResponsePdu_eq _).1 encodable] at processed
  have out : e.out = .ok (typedReply device x.call.request).wire := by
    rw [answered, job, frameJob, framed.header]
    simp only [server, access, aduHeader, found, framed.payload, processed]
  refine ⟨_, fits, ?_, ?_⟩
  · rw [Completed.reply, job, out, frameJob, framed.header, Job.reply] at replied
    simp only [aduHeader, Raise.ok_bind] at replied
    rw [buildAdu_eq fits] at replied
    exact (Option.some.inj replied).symm
  · rw [acceptPdu_typedReply wellFormed framed.encodable, Sent.operation]
    simp only [perform, found]

end Served

/-- A connection in the typed run: the calls to known units are carried out in their order, each
once, and each reply, in whatever chunks it arrives, gives its own call the result that it has
there. -/
structure Linearized (units : List Int) (s : ServerState) (n : Nat) (results : List Result)
    (sent : List Sent) : Prop where
  ordered : (servedTo s n results).map Prod.fst <+: (known units sent).map Sent.operation
  written : (servedTo s n results).length =
    (connection s n).written.length + ((s.pc (.handler n)).pending (Task.handler n)).length
  returned : ∀ (j : Nat) (reply : Bytes), (connection s n).written[j]? = some reply →
    ∃ x ∈ (known units sent)[j]?, ∀ r : Reader, r.stream = reply →
      (servedTo s n results)[j]? =
        some (x.operation, some (receive x.transactionId x.call.bitCount r).1)

theorem linearized_of_received {lib : MathLib} {init : World} (sound : Sound init)
    {s : ServerState} (reaches : Reaches (server lib init) (serving init) s) {n : Nat}
    {sent : List Sent} (framed : ∀ x ∈ sent, x.Framed)
    (received : (connection s n).received <+: sent.flatMap Sent.adu) :
    Linearized init.store.units s n (run (perform lib) init (operationsOf s)).1 sent := by
  have size : s.history.length ≤ (run (perform lib) init (operationsOf s)).1.length := by
    rw [length_run, operationsOf, eventsOf, List.length_map, List.length_map]
  have jobs := (entries_initial reaches n).trans (acceptedJobs_sent init.store.units framed received)
  have entries := reaches.tracked.entries (.handler n)
  have written := written_finished sound reaches n
  have members : ∀ x ∈ known init.store.units sent, x.Framed ∧ x.unit ∈ init.store.units :=
    fun x member => ⟨framed x (List.mem_of_mem_filter member),
      of_decide_eq_true (List.mem_filter.mp member).2⟩
  refine ⟨?_, ?_, ?_⟩
  · have operations := jobs.map fun job => Operation.ofEvent job.event
    rw [List.map_map, List.map_map] at operations
    rw [servedTo_operations size]
    have typed : (known init.store.units sent).map Sent.operation =
        (known init.store.units sent).map fun x => .ofEvent (frameJob x.adu).event :=
      List.map_congr_left fun x member => (members x member).1.operation.symm
    rw [typed]
    exact operations
  · have operations := congrArg List.length (servedTo_operations (n := n) size)
    have replies := congrArg List.length written
    simp only [List.length_map, entries, List.length_append] at operations replies
    omega
  · intro j reply place
    have at_place := congrArg (fun replies => replies[j]?) written
    simp only [List.getElem?_map, place, Option.map_some] at at_place
    obtain ⟨e, done, replied⟩ := Option.map_eq_some_iff.mp at_place.symm
    have entry : (s.entriesOf (.handler n))[j]? = some e := by
      rw [entries, List.getElem?_append_left (List.getElem?_eq_some_iff.mp done).1, done]
    obtain ⟨k, result, ran, given, mine⟩ := servedTo_place size entry
    obtain ⟨later, whole⟩ := jobs
    have front : ((s.entriesOf (.handler n)).map Entry.job)[j]? = some e.job := by
      rw [List.getElem?_map, entry, Option.map_some]
    have called : ((known init.store.units sent).map fun x => frameJob x.adu)[j]? = some e.job := by
      rw [← whole, List.getElem?_append_left (List.getElem?_eq_some_iff.mp front).1, front]
    rw [List.getElem?_map] at called
    obtain ⟨x, own, job⟩ := Option.map_eq_some_iff.mp called
    obtain ⟨sendable, unit⟩ := members x (List.mem_of_getElem? own)
    obtain ⟨pdu, fits, whole, returned⟩ :=
      result_of_reply sound reaches ran sendable unit job.symm replied
    refine ⟨x, own, fun r arrives => ?_⟩
    obtain ⟨_, read, _⟩ := receive_adu fits (arrives.trans whole) x.call.bitCount
    rw [mine, read, ← Option.some.inj (given.symm.trans returned), ← job, sendable.operation]

/-- Whatever the interleaving, what the server has done is a run of typed operations, one after
another, in an order that only grows; and the clients of all connections, whatever they call, get
the results of their own calls in this run. -/
theorem clients_linearizable {lib : MathLib} {init : World} (sound : Sound init)
    {s s' : ServerState} (reaches : Reaches (server lib init) (serving init) s)
    (later : Reaches (server lib init) s s') :
    operationsOf s <+: operationsOf s' ∧ ∃ results,
      run (perform lib) init (operationsOf s') = (results, s'.shared) ∧
      ∀ (n : Nat) (client : ModbusClient) (calls : List (Int × Call)),
        (connection s' n).received <+: (client.sends calls).flatMap Sent.adu →
        Linearized init.store.units s' n results (client.sends calls) := by
  have reaches' : Reaches (server lib init) (serving init) s' := reaches.trans later
  have last : (run (perform lib) init (operationsOf s')).2 = s'.shared := by
    obtain ⟨_, ran, _⟩ := handle_history reaches'
    rw [operationsOf, run_perform, ran]
  refine ⟨(later.history_grows.map _).map _, _, Prod.ext rfl last, fun n client calls received => ?_⟩
  exact linearized_of_received sound reaches' framed_of_sends received

/-- The two clients of a pump and a valve, of which the first reads what it has written. -/
theorem clients_linearizable_pair : ∃ (s : ServerState) (results : List Result),
    run (perform sampleLib) pairWorld (operationsOf s) = (results, s.shared) ∧
      (servedTo s 0 results)[1]? = some (.call 1 (.readHoldingRegisters 0 2),
        some (.ok (.readHoldingRegisters [9, 300]))) ∧
      (servedTo s 1 results)[0]? = some (.call 2 (.readHoldingRegisters 0 1),
        some (.ok (.readHoldingRegisters [40]))) := by
  obtain ⟨s, s', reaches, _, _, later, served⟩ := reaches_pair
  obtain ⟨_, results, ran, clients⟩ := clients_linearizable pairWorld_sound reaches later
  have first : (connection s' 0).received <+: (ModbusClient.sends ⟨true, firstTid⟩
      [(1, .writeRegister 0 9), (1, .readHoldingRegisters 0 2)]).flatMap Sent.adu := by
    rw [served.received]
    exact ⟨[], rfl⟩
  have second : (connection s' 1).received <+: (ModbusClient.sends ⟨true, firstTid⟩
      [(2, .readHoldingRegisters 0 1)]).flatMap Sent.adu := by
    rw [served.received]
    exact ⟨[], rfl⟩
  have readAgain : (connection s' 0).written[1]? = some pumpReply := by
    rw [served.first]
    rfl
  have readValve : (connection s' 1).written[0]? = some valveReply := by
    rw [served.second]
    rfl
  obtain ⟨x, own, returned⟩ := (clients 0 _ _ first).returned 1 _ readAgain
  obtain ⟨y, mine, given⟩ := (clients 1 _ _ second).returned 0 _ readValve
  cases own
  cases mine
  exact ⟨s', results, ran, returned ⟨pumpReply, [], false⟩ rfl, given ⟨valveReply, [], false⟩ rfl⟩

end ModbusSim.Client
