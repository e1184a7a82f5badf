import ModbusSim.Lib.Places
import ModbusSim.Network.Projection

/-!
# Linearizable calls

The clients of one server, each on its connection, with all the bytes between them. What the server
has done is a run of typed operations one after another; every call that has returned is carried
out at one place of this run, has returned the result that it has there, and its place lies between
its beginning and its end (`calls_linearizable`).
-/

namespace ModbusSim.Network

open PyStruct ModbusSim.Frame Framing Store Dispatch Setup Server Client LockedTasks StatefulRun

def Endpoint.rank (units : List Int) (e : Endpoint) (call : Nat) : Nat :=
  (known units (e.sent.take call)).length

def Net.place (units : List Int) (y : Net) (n call : Nat) : Nat :=
  Places.place (fun x : Completed => x.task = .handler n) ((y.endpoint n).rank units call)
    y.server.history

/-- A call that has returned, on the way from one net to a later one: at its place it is carried
out and has the result that it returned; it was sent before its place was taken, and its place was
taken before it returned; and the calls of a client keep their order. -/
structure AtPlace (units : List Int) (y y' : Net) (results : List Result) (n : Nat)
    (r : Returned) : Prop where
  carriedOut : ∃ x, (y'.endpoint n).sent[r.call]? = some x ∧
    (operationsOf y'.server)[y'.place units n r.call]? = some x.operation ∧
    results[y'.place units n r.call]? = some (some (.ok r.response))
  sent : (y.endpoint n).sent.length ≤ r.call → y.server.history.length ≤ y'.place units n r.call
  returned : r ∈ (y.endpoint n).returned → y'.place units n r.call < y.server.history.length
  ordered : ∀ r' ∈ (y'.endpoint n).returned, r.call < r'.call →
    y'.place units n r.call < y'.place units n r'.call

/-! ### What is sent and returned stays -/

theorem Endpoint.Step.grows {c : Connection} {e e' : Endpoint} (step : Endpoint.Step c e e') :
    e.sent <+: e'.sent ∧ e.returned <+: e'.returned := by
  cases step with
  | call =>
    unfold Endpoint.call
    split
    · exact ⟨List.prefix_rfl, List.prefix_rfl⟩
    · exact ⟨List.prefix_append .., List.prefix_rfl⟩
  | readHeader =>
    unfold Endpoint.readHeader
    split
    · exact ⟨List.prefix_rfl, List.prefix_rfl⟩
    · exact ⟨List.prefix_rfl, List.prefix_rfl⟩
  | readPdu =>
    unfold Endpoint.readPdu
    split
    · exact ⟨List.prefix_rfl, List.prefix_rfl⟩
    · exact ⟨List.prefix_rfl, List.prefix_append ..⟩
  | download | shortPdu | timeout | endOfStream | leave => exact ⟨List.prefix_rfl, List.prefix_rfl⟩

theorem Reaches.grows {lib : MathLib} {init : World} {y y' : Net} (reaches : Reaches lib init y y')
    (n : Nat) : (y.endpoint n).sent <+: (y'.endpoint n).sent ∧
      (y.endpoint n).returned <+: (y'.endpoint n).returned := by
  induction reaches with
  | refl => exact ⟨List.prefix_rfl, List.prefix_rfl⟩
  | tail _ step ih =>
    cases step with
    | server => exact ih
    | @client m e step =>
      by_cases same : n = m
      · subst same
        simp only [Function.update_self]
        exact ⟨ih.1.trans step.grows.1, ih.2.trans step.grows.2⟩
      · simp only [Function.update_of_ne same]
        exact ih

section

variable {lib : MathLib} {init : World} {clients : Nat → ModbusClient} {y : Net}

theorem rank_eq {units : List Int} {c : Connection} {taken : Nat} {entries : List Completed}
    {store : DataStore} {e : Endpoint} {s : Session}
    (projects : Projects units c taken entries store e s) (inv : Inv s) (kept : e.Kept) {call : Nat}
    (within : call ≤ s.served.length) :
    ((s.served.take call).filter fun f => accepted units f.1).length = e.rank units call := by
  obtain ⟨pending, all, _⟩ := inv.lined.pending
  have same : (s.served.take call).map Prod.fst = (e.sent.take call).map Sent.adu := by
    have front := congrArg (List.take call) all
    rw [projects.sent, List.take_append_of_le_length (by rw [List.length_map]; exact within)] at front
    rw [List.map_take, List.map_take, front]
  have framed : ∀ x ∈ e.sent.take call, x.Framed := fun x member =>
    kept.framed x (List.mem_of_mem_take member)
  have frames := List.filter_map (f := Prod.fst) (p := accepted units) (l := s.served.take call)
  have size := congrArg List.length frames
  rw [same, adus_known units framed, List.length_map, List.length_map] at size
  exact size.symm

theorem entry_of_served {units : List Int} {c : Connection} {taken : Nat} {entries : List Completed}
    {store : DataStore} {e : Endpoint} {s : Session}
    (projects : Projects units c taken entries store e s) (inv : Inv s) (kept : e.Kept) {call : Nat}
    {x : Sent} (own : e.sent[call]? = some x) (unit : x.unit ∈ units) {reply : Bytes}
    (served : s.served[call]? = some (x.adu, reply)) :
    ∃ done : Completed, entries[e.rank units call]? = some done ∧ done.job = frameJob x.adu ∧
      done.reply = some reply := by
  have inside : accepted units x.adu = true := by
    rw [(kept.framed x (List.mem_of_getElem? own)).accepted]
    exact decide_eq_true unit
  have place := Places.getElem?_filter (fun f : Bytes × Bytes => accepted units f.1) served inside
  rw [rank_eq projects inv kept (Nat.le_of_lt (List.getElem?_eq_some_iff.mp served).1)] at place
  have entry := congrArg (fun l => l[e.rank units call]?) projects.accepted
  simp only [List.getElem?_map, place, Option.map_some] at entry
  obtain ⟨done, listed, same⟩ := Option.map_eq_some_iff.mp entry.symm
  obtain ⟨job, replied⟩ := Prod.mk.inj same
  exact ⟨done, listed, job, replied⟩

/-- A call that has returned has an operation, with the reply that it returned. -/
theorem entry_of_returned (sound : Sound init) (reaches : Reaches lib init (.start init clients) y)
    {n : Nat} {r : Returned} (member : r ∈ (y.endpoint n).returned) :
    ∃ (x : Sent) (e : Completed) (reply : Bytes), (y.endpoint n).sent[r.call]? = some x ∧
      x.unit ∈ init.store.units ∧
      (y.server.entriesOf (.handler n))[(y.endpoint n).rank init.store.units r.call]? = some e ∧
      e.job = frameJob x.adu ∧ e.reply = some reply ∧
      decodeResponsePdu (reply.drop mbapHeaderLen) r.bitCount = .ok r.response := by
  obtain ⟨s, projects, inv, _⟩ := reaches_mirrors sound reaches n
  have kept := reaches_endpoint reaches n
  obtain ⟨adu, reply, sent, served, response⟩ := inv.owned r (projects.returned ▸ member)
  rw [projects.sent, List.getElem?_map] at sent
  obtain ⟨x, own, rfl⟩ := Option.map_eq_some_iff.mp sent
  have unit : x.unit ∈ init.store.units := by
    by_contra unknown
    -- nothing is written for a frame that is dropped
    have outside : accepted init.store.units x.adu = false := by
      rw [(kept.framed x (List.mem_of_getElem? own)).accepted]
      exact decide_eq_false unknown
    have none := projects.dropped _ (List.mem_of_getElem? served) outside
    simp only at none
    rw [none] at response
    cases response
  obtain ⟨e, entry, job, replied⟩ := entry_of_served projects inv kept own unit served
  exact ⟨x, e, reply, own, unit, entry, job, replied, response⟩

/-- No more is done for a connection than its client has asked for. -/
theorem entries_le_known (sound : Sound init) (reaches : Reaches lib init (.start init clients) y)
    (n : Nat) : (y.server.entriesOf (.handler n)).length ≤
      (known init.store.units (y.endpoint n).sent).length := by
  obtain ⟨_, projects, _⟩ := reaches_mirrors sound reaches n
  have jobs := (entries_initial reaches.server n).trans
    (acceptedJobs_sent init.store.units (reaches_endpoint reaches n).framed projects.fed)
  have size := jobs.length_le
  rw [List.length_map, List.length_map] at size
  exact size

theorem rank_mono {units : List Int} {e : Endpoint} {call call' : Nat} (before : call ≤ call') :
    e.rank units call ≤ e.rank units call' :=
  ((List.take_prefix_take_left before).filter _).length_le

theorem rank_lt_entries (sound : Sound init) (reaches : Reaches lib init (.start init clients) y)
    {n : Nat} {r : Returned} (member : r ∈ (y.endpoint n).returned) :
    (y.endpoint n).rank init.store.units r.call < (y.server.entriesOf (.handler n)).length := by
  obtain ⟨_, _, _, _, _, entry, _⟩ := entry_of_returned sound reaches member
  exact (List.getElem?_eq_some_iff.mp entry).1

theorem acceptPdu_of_plain {bitCount : Option Int} {pdu : Bytes} {response : Response}
    (decoded : decodeResponsePdu pdu bitCount = .ok response)
    (plain : ∀ functionCode exceptionCode, response ≠ .exception functionCode exceptionCode) :
    acceptPdu bitCount pdu = .ok response := by
  rw [acceptPdu, decoded]
  cases response with
  | exception functionCode exceptionCode => exact absurd rfl (plain functionCode exceptionCode)
  | _ => rfl

theorem result_of_entry (sound : Sound init) (reaches : Reaches lib init (.start init clients) y)
    {n call : Nat} {x : Sent} (own : (y.endpoint n).sent[call]? = some x)
    (unit : x.unit ∈ init.store.units) {e : Completed}
    (entry : (y.server.entriesOf (.handler n))[(y.endpoint n).rank init.store.units call]? = some e)
    (job : e.job = frameJob x.adu) {reply : Bytes} (replied : e.reply = some reply) :
    (operationsOf y.server)[y.place init.store.units n call]? = some x.operation ∧
      ∃ pdu, (aduHeader x.transactionId x.unit pdu).Fits ∧
        reply = (aduHeader x.transactionId x.unit pdu).wire ++ pdu ∧
        (run (perform lib) init (operationsOf y.server)).1[y.place init.store.units n call]? =
          some (some (acceptPdu x.call.bitCount pdu)) := by
  have framed := (reaches_endpoint reaches n).framed x (List.mem_of_getElem? own)
  have place : y.server.history[y.place init.store.units n call]? = some e :=
    Places.getElem?_place _ entry
  refine ⟨?_, result_of_reply sound reaches.server place framed unit job replied⟩
  rw [operationsOf, eventsOf, List.map_map, List.getElem?_map, place, Option.map_some,
    Function.comp_apply, job, framed.operation]

theorem carriedOut_of_returned (sound : Sound init)
    (reaches : Reaches lib init (.start init clients) y) {n : Nat} {r : Returned}
    (member : r ∈ (y.endpoint n).returned) : ∃ x, (y.endpoint n).sent[r.call]? = some x ∧
      (operationsOf y.server)[y.place init.store.units n r.call]? = some x.operation ∧
      (run (perform lib) init (operationsOf y.server)).1[y.place init.store.units n r.call]? =
        some (some (.ok r.response)) := by
  obtain ⟨x, e, reply, own, unit, entry, job, replied, response⟩ :=
    entry_of_returned sound reaches member
  obtain ⟨⟨x', own', bits⟩, plain⟩ := (reaches_endpoint reaches n).returned r member
  cases own.symm.trans own'
  obtain ⟨operation, pdu, _, whole, result⟩ :=
    result_of_entry sound reaches own unit entry job replied
  refine ⟨x, own, operation, ?_⟩
  rw [whole, List.drop_left' (MBAPHeader.length_wire _), ← bits] at response
  rw [result, acceptPdu_of_plain response plain]

/-- A call has its place after all that was done before it was sent. -/
theorem le_place (sound : Sound init) (reaches : Reaches lib init (.start init clients) y)
    {y' : Net} (later : Reaches lib init y y') {n : Nat} {r : Returned}
    (member : r ∈ (y'.endpoint n).returned) (fresh : (y.endpoint n).sent.length ≤ r.call) :
    y.server.history.length ≤ y'.place init.store.units n r.call := by
  obtain ⟨more, whole⟩ := later.server.history_grows
  have within := rank_lt_entries sound (Relation.ReflTransGen.trans reaches later) member
  have before : (y.endpoint n).sent <+: (y'.endpoint n).sent.take r.call :=
    List.prefix_take_iff.mpr ⟨(later.grows n).1, fresh⟩
  unfold State.entriesOf at within
  rw [Net.place, ← whole]
  rw [← whole] at within
  refine Places.le_place_append _ ?_ within
  exact (entries_le_known sound reaches n).trans (before.filter _).length_le

theorem place_lt (sound : Sound init) (reaches : Reaches lib init (.start init clients) y)
    {y' : Net} (later : Reaches lib init y y') {n : Nat} {r : Returned}
    (member : r ∈ (y.endpoint n).returned) :
    y'.place init.store.units n r.call < y.server.history.length := by
  obtain ⟨more, whole⟩ := later.server.history_grows
  obtain ⟨after, longer⟩ := (later.grows n).1
  obtain ⟨_, _, _, own, _, entry, _⟩ := entry_of_returned sound reaches member
  have within := rank_lt_entries sound reaches member
  have same : (y'.endpoint n).rank init.store.units r.call =
      (y.endpoint n).rank init.store.units r.call := by
    rw [Endpoint.rank, ← longer,
      List.take_append_of_le_length (Nat.le_of_lt (List.getElem?_eq_some_iff.mp own).1)]
    rfl
  rw [Net.place, same, ← whole, Places.place_append _ within]
  exact (List.getElem?_eq_some_iff.mp (Places.getElem?_place _ entry)).1

theorem place_ordered (sound : Sound init) (reaches : Reaches lib init (.start init clients) y)
    {n : Nat} {r r' : Returned} (member : r ∈ (y.endpoint n).returned)
    (member' : r' ∈ (y.endpoint n).returned) (before : r.call < r'.call) :
    y.place init.store.units n r.call < y.place init.store.units n r'.call := by
  obtain ⟨x, _, _, own, unit, _⟩ := entry_of_returned sound reaches member
  refine Places.place_lt _ ?_ (rank_lt_entries sound reaches member')
  have least : (y.endpoint n).rank init.store.units r.call <
      (y.endpoint n).rank init.store.units (r.call + 1) := by
    rw [Endpoint.rank, Endpoint.rank, List.take_add_one, own]
    simp [known, unit]
  exact Nat.lt_of_lt_of_le least (rank_mono before)

/-- The calls of all clients, whatever happens to their bytes and whoever else is at work, are
carried out one after another, each at a place between its beginning and its end: nothing is
carried out that was not asked for, and nothing twice. -/
theorem calls_linearizable (sound : Sound init) (reaches : Reaches lib init (.start init clients) y)
    {y' : Net} (later : Reaches lib init y y') :
    operationsOf y.server <+: operationsOf y'.server ∧ ∃ results,
      run (perform lib) init (operationsOf y'.server) = (results, y'.server.shared) ∧
      ∀ n, (servedTo y'.server n results).map Prod.fst <+:
          (known init.store.units (y'.endpoint n).sent).map Sent.operation ∧
        ∀ r ∈ (y'.endpoint n).returned, AtPlace init.store.units y y' results n r := by
  have reaches' := Relation.ReflTransGen.trans reaches later
  have grows := later.server.history_grows
  have last : (run (perform lib) init (operationsOf y'.server)).2 = y'.server.shared := by
    obtain ⟨_, ran, _⟩ := handle_history (Reaches.server reaches')
    rw [operationsOf, run_perform, ran]
  refine ⟨(grows.map _).map _, _, Prod.ext rfl last, fun n => ⟨?_, fun r member => ?_⟩⟩
  · obtain ⟨_, projects, _⟩ := reaches_mirrors sound reaches' n
    exact (linearized_of_received sound (Reaches.server reaches')
      (reaches_endpoint reaches' n).framed projects.fed).ordered
  · exact ⟨carriedOut_of_returned sound reaches' member, le_place sound reaches later member,
      place_lt sound reaches later, fun r' => place_ordered sound reaches' member⟩

end

/-! ### Two clients and a tick -/

/-- The clients of a pump and a valve. In the first state the one of the pump has written, while the
one of the valve still waits for its reply; in the second one both have read. -/
theorem reaches_calls : ∃ y y' : Net,
    Reaches sampleLib pairWorld (.start pairWorld fun _ => ⟨true, firstTid⟩) y ∧
      Reaches sampleLib pairWorld y y' ∧
      (y.endpoint 0).returned = [⟨0, none, .writeSingleRegister 0 9⟩] ∧
      (y.endpoint 1).phase = .awaitingHeader 1 none ∧
      (y.endpoint 1).sent = [⟨2, .readHoldingRegisters 0 1, 1, valveFrame⟩] ∧
      (connection y.server 1).running = true ∧
      (y'.endpoint 0).returned =
        [⟨0, none, .writeSingleRegister 0 9⟩, ⟨1, none, .readHoldingRegisters [9, 300]⟩] ∧
      (y'.endpoint 1).returned = [⟨0, none, .readHoldingRegisters [40]⟩] ∧
      y'.server.history = pairHistory := by
  have sends : Connection.Moves [1, 2] ⟨[], [], [], true⟩ ⟨writeFrame, writeFrame, [], true⟩ :=
    .read rfl rfl
  have asks : Connection.Moves [1, 2] ⟨[], [], [], true⟩ ⟨valveFrame, valveFrame, [], true⟩ :=
    .read rfl rfl
  have sendsAgain : Connection.Moves [1, 2] ⟨writeFrame, [], [writeReply], true⟩
      ⟨writeFrame ++ readFrame, readFrame, [writeReply], true⟩ := .read rfl rfl
  have first : Connection.Wants [1, 2] ⟨writeFrame, writeFrame, [], true⟩
      (.frame ⟨1, 0, 6, 1⟩ writeFrame) := ⟨rfl, _, _, _, rfl, by decide, rfl⟩
  have second : Connection.Wants [1, 2] ⟨writeFrame ++ readFrame, readFrame, [writeReply], true⟩
      (.frame ⟨2, 0, 6, 1⟩ readFrame) := ⟨rfl, _, _, _, rfl, by decide, rfl⟩
  have other : Connection.Wants [1, 2] ⟨valveFrame, valveFrame, [], true⟩
      (.frame ⟨1, 0, 6, 2⟩ valveFrame) := ⟨rfl, _, _, _, rfl, by decide, rfl⟩
  have begins : Ticker.Moves pairWorld.bindings ⟨0, 1, true⟩ ⟨5, 0, true⟩ :=
    .tick rfl (Nat.le_refl 1)
  have update : Ticker.Wants pairWorld.bindings ⟨5, 0, true⟩ (.update 0 1 5 true) :=
    ⟨rfl, _, true, rfl, rfl⟩
  have called : Reaches sampleLib pairWorld (.start pairWorld fun _ => ⟨true, firstTid⟩) _ :=
    .single (.client (n := 0) (@Endpoint.Step.call _ _ 1 (.writeRegister 0 9) rfl rfl))
  have both := called.tail
    (.client (n := 1) (@Endpoint.Step.call _ _ 2 (.readHoldingRegisters 0 1) rfl rfl))
  have sent := both.tail (.server (.move (i := Task.handler 0) rfl sends) ?_)
  have asked := sent.tail (.server (.move (i := Task.handler 1) rfl asks) ?_)
  have locked := asked.tail (.server (.acquire (i := Task.handler 0) rfl first rfl) ?_)
  have inside := locked.tail (.server (.acquire (i := Task.handler 1) rfl other rfl) ?_)
  have read := inside.tail (.server (.run (i := Task.handler 1) rfl) ?_)
  have wrote := read.tail (.server (.run (i := Task.handler 0) rfl) ?_)
  have freed := wrote.tail (.server (.release (i := Task.handler 0) rfl) ?_)
  have ticking := freed.tail (.server (.move (i := Task.generators) rfl begins) ?_)
  have holding := ticking.tail (.server (.acquire (i := Task.generators) rfl update rfl) ?_)
  have updated := holding.tail (.server (.run (i := Task.generators) rfl) ?_)
  have passed := updated.tail (.server (.release (i := Task.generators) rfl) ?_)
  have replied := passed.tail (.server (.write (i := Task.handler 0) rfl) ?_)
  have back := replied.tail (.client (n := 0) (.download (n := 12) (by decide) (by decide)))
  have header := back.tail (.client (n := 0) (.readHeader rfl (by decide)))
  have returned := header.tail (.client (n := 0) (.readPdu rfl (by decide) (by decide)))
  have onward : ∀ {y y' : Net}, Reaches sampleLib pairWorld y y' →
      Reaches sampleLib pairWorld y' y' :=
    fun _ => .refl
  have done := (onward returned).tail (.server (.release (i := Task.handler 1) rfl) ?_)
  have served := done.tail (.server (.write (i := Task.handler 1) rfl) ?_)
  have valveBack := served.tail (.client (n := 1) (.download (n := 11) (by decide) (by decide)))
  have valveHeader := valveBack.tail (.client (n := 1) (.readHeader rfl (by decide)))
  have valveRead := valveHeader.tail (.client (n := 1) (.readPdu rfl (by decide) (by decide)))
  have calledAgain := valveRead.tail
    (.client (n := 0) (@Endpoint.Step.call _ _ 1 (.readHoldingRegisters 0 2) rfl rfl))
  have arrived := calledAgain.tail (.server (.move (i := Task.handler 0) rfl sendsAgain) ?_)
  have again := arrived.tail (.server (.acquire (i := Task.handler 0) rfl second rfl) ?_)
  have ran := again.tail (.server (.run (i := Task.handler 0) rfl) ?_)
  have released := ran.tail (.server (.release (i := Task.handler 0) rfl) ?_)
  have answered := released.tail (.server (.write (i := Task.handler 0) rfl) ?_)
  have pumpBack := answered.tail (.client (n := 0) (.download (n := 13) (by decide) (by decide)))
  have pumpHeader := pumpBack.tail (.client (n := 0) (.readHeader rfl (by decide)))
  have pumpRead := pumpHeader.tail (.client (n := 0) (.readPdu rfl (by decide) (by decide)))
  · exact ⟨_, _, returned, pumpRead, rfl, rfl, rfl, rfl, rfl, rfl, rfl⟩
  all_goals
    intro n
    match n with
    | 0 => exact List.prefix_rfl
    | 1 => first | exact List.nil_prefix | exact List.prefix_rfl
    | n + 2 => exact List.nil_prefix

/-- The later read of the one client and the read of the other are at their places. -/
theorem calls_linearizable_pair : ∃ y y' results, Reaches sampleLib pairWorld y y' ∧
    run (perform sampleLib) pairWorld (operationsOf y'.server) = (results, y'.server.shared) ∧
      AtPlace [1, 2] y y' results 0 ⟨1, none, .readHoldingRegisters [9, 300]⟩ ∧
      AtPlace [1, 2] y y' results 1 ⟨0, none, .readHoldingRegisters [40]⟩ := by
  obtain ⟨y, y', reaches, later, _, _, _, _, pump, valve, _⟩ := reaches_calls
  obtain ⟨_, results, ran, calls⟩ := calls_linearizable pairWorld_sound reaches later
  refine ⟨y, y', results, later, ran, (calls 0).2 _ ?_, (calls 1).2 _ ?_⟩
  · rw [pump]
    exact List.mem_cons_of_mem _ List.mem_cons_self
  · rw [valve]
    exact List.mem_cons_self

end ModbusSim.Network
