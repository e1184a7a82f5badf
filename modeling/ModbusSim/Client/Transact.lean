import ModbusSim.Lib.StatefulRun
import ModbusSim.Server.Handler

/-!
# The client

`ModbusClient` and one call of it over a connection: the request is cut into chunks on its way
to the server, the reply on its way back, and nothing is lost, reordered or late.

A sequence of calls returns what `handle_request` returns, one request after another
(`transact_refines`): the wire is not seen.
-/

namespace ModbusSim.Client

open PyStruct ModbusSim.Frame Framing Store Dispatch Server StatefulRun

/-- What ends a call that returns no response. -/
inductive ClientExn where
  | modbusException (functionCode exceptionCode : Nat) (message : String)
  | osError (message : String)
  | runtimeError (message : String)
  | timeoutError
  | incompleteRead (partialBytes : Bytes) (expected : Nat)
  | raised (e : Exn)
  deriving DecidableEq, Repr

/-- `_EXCEPTION_NAMES.get(code, "unknown")` -/
def exceptionName (code : Nat) : String :=
  if code = illegalFunction then "illegal function"
  else if code = illegalDataAddress then "illegal data address"
  else if code = illegalDataValue then "illegal data value"
  else if code = serverDeviceFailure then "server device failure"
  else "unknown"

/-- `ModbusExceptionError(response)` -/
def modbusExceptionError (functionCode exceptionCode : Nat) : ClientExn :=
  .modbusException functionCode exceptionCode
    ("function 0x" ++ hexByte functionCode ++ " -> exception 0x" ++ hexByte exceptionCode ++
      " (" ++ exceptionName exceptionCode ++ ")")

/-- The client's own state: whether it is connected, and the id that `next(self._tid)` gives. -/
structure ModbusClient where
  connected : Bool
  tid : Nat
  deriving DecidableEq, Repr

/-- `itertools.cycle(range(1, 0x10000))` -/
def firstTid : Nat := 1
def lastTid : Nat := 0xFFFF

def ModbusClient.nextTid (c : ModbusClient) : Nat × ModbusClient :=
  (c.tid, { c with tid := if c.tid = lastTid then firstTid else c.tid + 1 })

/-- The first half of `_transact`: the id and the ADU that are sent. -/
def ModbusClient.send (c : ModbusClient) (unit : Int) (request : Request) :
    Except ClientExn (Nat × Bytes) × ModbusClient :=
  if ¬ c.connected then (.error (.runtimeError "client is not connected"), c)
  else
    let (transactionId, c) := c.nextTid
    let adu := do buildAdu transactionId unit (← encodeRequestPdu request)
    ((adu.map fun bytes => (transactionId, bytes)).mapError .raised, c)

def acceptHeader (transactionId : Nat) (head : Bytes) : Except ClientExn MBAPHeader :=
  match decodeMbap head with
  | .error e => .error (.raised e)
  | .ok header =>
    if header.transactionId ≠ transactionId then
      .error (.osError ("transaction id mismatch: sent " ++ toString transactionId ++ ", got " ++
        toString header.transactionId))
    else .ok header

def acceptPdu (bitCount : Option Int) (pdu : Bytes) : Except ClientExn Response :=
  match decodeResponsePdu pdu bitCount with
  | .error e => .error (.raised e)
  | .ok (.exception functionCode exceptionCode) =>
    .error (modbusExceptionError functionCode exceptionCode)
  | .ok response => .ok response

/-- The methods of the client, with their arguments. -/
inductive Call where
  | readCoils (address count : Int)
  | readDiscreteInputs (address count : Int)
  | readHoldingRegisters (address count : Int)
  | readInputRegisters (address count : Int)
  | writeCoil (address : Int) (value : Bool)
  | writeRegister (address value : Int)
  | writeCoils (address : Int) (values : List Bool)
  | writeRegisters (address : Int) (values : List Int)
  deriving DecidableEq, Repr

/-- The request that a method passes to `_transact`. -/
def Call.request : Call → Request
  | .readCoils address count => .readCoils address count
  | .readDiscreteInputs address count => .readDiscreteInputs address count
  | .readHoldingRegisters address count => .readHoldingRegisters address count
  | .readInputRegisters address count => .readInputRegisters address count
  | .writeCoil address value => .writeSingleCoil address value
  | .writeRegister address value => .writeSingleRegister address value
  | .writeCoils address values => .writeMultipleCoils address values
  | .writeRegisters address values => .writeMultipleRegisters address values

/-- The `bit_count` that a method passes to `_transact`. -/
def Call.bitCount : Call → Option Int
  | .readCoils _ count | .readDiscreteInputs _ count => some count
  | _ => none

/-! ### Reading from the connection -/

/-- The bytes that have arrived and are unread, the chunks still to arrive, and whether the end
of the stream follows them. -/
structure Reader where
  buffer : Bytes
  incoming : List Bytes
  eof : Bool

/-- Waiting for `n` bytes: a wait that nothing ends is cut off by the timeout. -/
def awaitBytes (n : Nat) (eof : Bool) (buffer : Bytes) (incoming : List Bytes) :
    Except ClientExn Bytes × Reader :=
  if n ≤ buffer.length then (.ok (buffer.take n), ⟨buffer.drop n, incoming, eof⟩)
  else
    match incoming with
    | chunk :: later => awaitBytes n eof (buffer ++ chunk) later
    | [] =>
      if eof then (.error (.incompleteRead buffer n), ⟨[], [], eof⟩)
      else (.error .timeoutError, ⟨buffer, [], eof⟩)
termination_by structural incoming

/-- `asyncio.wait_for(reader.readexactly(n), timeout)` -/
def Reader.readexactly (r : Reader) (n : Int) : Except ClientExn Bytes × Reader :=
  if n < 0 then
    (.error (.raised (.py (.valueError "readexactly size can not be less than zero"))), r)
  else awaitBytes n.toNat r.eof r.buffer r.incoming

/-- The second half of `_transact`. -/
def receive (transactionId : Nat) (bitCount : Option Int) (r : Reader) :
    Except ClientExn Response × Reader :=
  match r.readexactly mbapHeaderLen with
  | (.error e, r) => (.error e, r)
  | (.ok head, r) =>
    match acceptHeader transactionId head with
    | .error e => (.error e, r)
    | .ok header =>
      match r.readexactly (header.length - 1) with
      | (.error e, r) => (.error e, r)
      | (.ok pdu, r) => (acceptPdu bitCount pdu, r)

def Reader.stream (r : Reader) : Bytes := r.buffer ++ r.incoming.flatten

theorem awaitBytes_eq {n : Nat} {eof : Bool} {buffer : Bytes} {incoming : List Bytes}
    (enough : n ≤ (buffer ++ incoming.flatten).length) :
    ∃ r : Reader, awaitBytes n eof buffer incoming =
        (.ok ((buffer ++ incoming.flatten).take n), r) ∧
      r.stream = (buffer ++ incoming.flatten).drop n := by
  induction incoming generalizing buffer with
  | nil =>
    rw [List.flatten_nil, List.append_nil] at enough ⊢
    unfold awaitBytes
    rw [if_pos enough]
    exact ⟨_, rfl, by simp [Reader.stream]⟩
  | cons chunk incoming ih =>
    unfold awaitBytes
    by_cases buffered : n ≤ buffer.length
    · rw [if_pos buffered, List.take_append_of_le_length buffered]
      exact ⟨_, rfl, (List.drop_append_of_le_length buffered).symm⟩
    · rw [if_neg buffered, List.flatten_cons, ← List.append_assoc]
      rw [List.flatten_cons, ← List.append_assoc] at enough
      exact ih enough

/-- However the bytes arrive, a read that there are bytes for takes the first of them. -/
theorem readexactly_eq {r : Reader} {n : Nat} (enough : n ≤ r.stream.length) :
    ∃ r' : Reader, r.readexactly n = (.ok (r.stream.take n), r') ∧
      r'.stream = r.stream.drop n := by
  unfold Reader.readexactly
  rw [if_neg (by omega)]
  exact awaitBytes_eq enough

theorem acceptHeader_wire {transactionId : Nat} {unitId : Int} {pdu : Bytes}
    (fits : (aduHeader transactionId unitId pdu).Fits) :
    acceptHeader transactionId (aduHeader transactionId unitId pdu).wire =
      .ok (aduHeader transactionId unitId pdu) := by
  have decoded := decodeMbap_wire fits []
  rw [List.append_nil] at decoded
  unfold acceptHeader
  rw [decoded]
  exact if_neg (not_not.mpr rfl)

theorem acceptHeader_eq_ok {transactionId : Nat} {head : Bytes} {header : MBAPHeader}
    (accepted : acceptHeader transactionId head = .ok header) :
    decodeMbap head = .ok header ∧ header.transactionId = transactionId := by
  unfold acceptHeader at accepted
  split at accepted
  · cases accepted
  next decoded =>
    split at accepted
    · cases accepted
    next same =>
      cases accepted
      exact ⟨decoded, not_not.mp same⟩

theorem acceptPdu_eq_ok {bitCount : Option Int} {pdu : Bytes} {response : Response}
    (accepted : acceptPdu bitCount pdu = .ok response) :
    decodeResponsePdu pdu bitCount = .ok response ∧ ∀ fc code, response ≠ .exception fc code := by
  unfold acceptPdu at accepted
  split at accepted
  · cases accepted
  · cases accepted
  next plain decoded =>
    cases accepted
    exact ⟨decoded, plain⟩

theorem receive_adu {transactionId : Nat} {unitId : Int} {pdu : Bytes}
    (fits : (aduHeader transactionId unitId pdu).Fits) {r : Reader}
    (whole : r.stream = (aduHeader transactionId unitId pdu).wire ++ pdu) (bitCount : Option Int) :
    ∃ r' : Reader, receive transactionId bitCount r = (acceptPdu bitCount pdu, r') ∧
      r'.stream = [] := by
  have size := MBAPHeader.length_wire (aduHeader transactionId unitId pdu)
  have enough : mbapHeaderLen ≤ r.stream.length := by
    rw [whole, List.length_append, size]
    exact Nat.le_add_right ..
  obtain ⟨mid, head, rest⟩ := readexactly_eq enough
  rw [whole, List.take_left' size] at head
  rw [whole, List.drop_left' size] at rest
  obtain ⟨last, body, nothing⟩ := readexactly_eq (r := mid) (n := pdu.length) (by rw [rest])
  rw [rest, List.take_length] at body
  rw [rest, List.drop_length] at nothing
  have length : (aduHeader transactionId unitId pdu).length - 1 = pdu.length := by
    simp only [aduHeader]
    omega
  refine ⟨last, ?_, nothing⟩
  simp only [receive, head, acceptHeader_wire fits, length, body]

/-! ### One call over a connection -/

/-- A way of cutting bytes into the chunks they arrive in. -/
structure Cutting where
  cut : Bytes → List Bytes
  flatten_cut : ∀ bytes, (cut bytes).flatten = bytes
  nonempty : ∀ bytes, ∀ chunk ∈ cut bytes, chunk ≠ []

/-- A client and a server, and what has reached the client unread. -/
structure Link where
  client : ModbusClient
  received : Bytes
  framer : StreamFramer
  store : DataStore
  closed : Bool

structure Exchange where
  unit : Int
  call : Call
  up : Cutting
  down : Cutting

structure Exchanged where
  outcome : Except ClientExn Response
  written : Bytes

/-- `_transact`, with the server at the other end. A server that has raised has closed. -/
def transact (link : Link) (x : Exchange) : Exchanged × Link :=
  match link.client.send x.unit x.call.request with
  | (.error e, client) => (⟨.error e, []⟩, { link with client })
  | (.ok (transactionId, adu), client) =>
    let served : Served := if link.closed then ⟨[], link.store, link.framer, none⟩
      else serve link.framer link.store (x.up.cut adu)
    let closed := link.closed || served.raised.isSome
    let (outcome, reader) := receive transactionId x.call.bitCount
      ⟨link.received, x.down.cut served.written, closed⟩
    (⟨outcome, served.written⟩,
      ⟨client, reader.stream, served.framer, served.store, closed⟩)

/-- A link between calls: nothing is on its way and nothing is unread. -/
def settled (store : DataStore) (tid : Nat) : Link := ⟨⟨true, tid⟩, [], .new, store, false⟩

/-- What a caller gets for a result of `handle_request`. -/
def outcome (r : Request) : Except Exn Response → Except ClientExn Response
  | .ok response => .ok response
  | .error (.modbus exc) => .error (modbusExceptionError r.functionCode exc.exceptionCode)
  | .error e => .error (.raised e)

/-- A call at the typed level: `handle_request` on the device of the unit. -/
def handled (store : DataStore) (x : Exchange) : Except ClientExn Response × DataStore :=
  match store.get x.unit with
  | none => (.error .timeoutError, store)
  | some device =>
    let (result, device') := handleRequest device x.call.request
    (outcome x.call.request result, store.update x.unit device')

/-! ### The wire is not seen -/

structure Exchange.Valid (store : DataStore) (x : Exchange) : Prop where
  unit : x.unit ∈ store.units
  byte : 0 ≤ x.unit ∧ x.unit ≤ 255
  encodes : ∃ pdu, encodeRequestPdu x.call.request = .ok pdu ∧ pdu.length ≤ maxPduLen

/-- One frame was written for a call, and it ends in a response with the bits asked for, or in an
exception under its own function code. -/
structure OneReply (x : Exchange) (e : Exchanged) : Prop where
  frame : verdict e.written = .frame e.written.length
  requested : ∀ response, e.outcome = .ok response → response.Requested x.call.bitCount
  raised : ∀ exn, e.outcome = .error exn →
    ∃ code, exn = modbusExceptionError x.call.request.functionCode code

def InCycle (tid : Nat) : Prop := firstTid ≤ tid ∧ tid ≤ lastTid

theorem InCycle.isWord {tid : Nat} (id : InCycle tid) : IsWord tid := by
  obtain ⟨_, most⟩ := id
  simp only [lastTid] at most
  simp only [IsWord, registerMax]
  omega

theorem nextTid_inCycle {connected : Bool} {tid : Nat} (id : InCycle tid) :
    InCycle (ModbusClient.nextTid ⟨connected, tid⟩).2.tid := by
  obtain ⟨least, most⟩ := id
  unfold ModbusClient.nextTid InCycle
  by_cases last : tid = lastTid
  · rw [if_pos last]
    exact ⟨Nat.le_refl firstTid, show firstTid ≤ lastTid by decide⟩
  · rw [if_neg last]
    exact ⟨Nat.le_succ_of_le least, Nat.lt_of_le_of_ne most last⟩

theorem answer_requested {device : Device} (sized : device.Sized) {call : Call}
    (inside : InRegion device call.request) :
    (answer device call.request).Requested call.bitCount := by
  have count := length_addressed sized inside
  cases call with
  | readCoils a n | readDiscreteInputs a n =>
    simp only [Call.request, quantity] at count
    simp only [Call.request, Call.bitCount, answer, Response.Requested, List.length_map]
    exact congrArg some count.symm
  | readHoldingRegisters | readInputRegisters | writeCoil | writeRegister | writeCoils
  | writeRegisters => trivial

/-- The client makes of a reply what `handle_request` made of the request. -/
theorem acceptPdu_typedReply {device : Device} (wellFormed : device.WellFormed) {call : Call}
    (encodable : call.request.Encodable) :
    acceptPdu call.bitCount (typedReply device call.request).wire =
      outcome call.request (handleRequest device call.request).1 := by
  obtain ⟨fits, plain, _⟩ := typedReply_encodable wellFormed encodable
  rcases typedReply_cases wellFormed.sized call.request with
    ⟨_, inside, result, reply⟩ | ⟨e, result, reply⟩
  · have requested := answer_requested wellFormed.sized inside
    rw [reply] at fits plain ⊢
    rw [result, acceptPdu, decodeResponsePdu_wire fits plain requested]
    cases call <;> rfl
  · rw [reply] at fits plain ⊢
    rw [result, acceptPdu, decodeResponsePdu_wire fits plain trivial]
    rfl

theorem send_eq {connected : Bool} {tid : Nat} (connects : connected = true) {unit : Int}
    {request : Request} (encodable : request.Encodable)
    (fits : (aduHeader tid unit request.wire).Fits) :
    ModbusClient.send ⟨connected, tid⟩ unit request =
      (.ok (tid, (aduHeader tid unit request.wire).wire ++ request.wire),
        (ModbusClient.nextTid ⟨connected, tid⟩).2) := by
  unfold ModbusClient.send
  rw [if_neg (not_not.mpr connects), (encodeRequestPdu_eq request).1 encodable]
  simp only [Raise.ok_bind, ModbusClient.nextTid, buildAdu_eq fits]
  rfl

theorem send_eq_ok {c c' : ModbusClient} {unit : Int} {request : Request} {transactionId : Nat}
    {adu : Bytes} (sent : c.send unit request = (.ok (transactionId, adu), c')) :
    transactionId = c.tid ∧ ∃ pdu, encodeRequestPdu request = .ok pdu ∧
      (aduHeader transactionId unit pdu).Fits ∧
      adu = (aduHeader transactionId unit pdu).wire ++ pdu := by
  unfold ModbusClient.send at sent
  split at sent
  · cases sent
  · cases encoded : encodeRequestPdu request with
    | error e => simp [encoded, Except.map, Except.mapError] at sent
    | ok pdu =>
      cases built : buildAdu (c.nextTid.1 : Nat) unit pdu with
      | error e => simp [encoded, built, Except.map, Except.mapError] at sent
      | ok bytes =>
        simp only [encoded, Raise.ok_bind, built, Except.map, Except.mapError, Prod.mk.injEq,
          Except.ok.injEq] at sent
        obtain ⟨⟨rfl, rfl⟩, _⟩ := sent
        obtain ⟨fits, whole⟩ := buildAdu_eq_ok built
        exact ⟨rfl, pdu, rfl, fits, whole⟩

theorem outcome_handled {device : Device} (sized : device.Sized) (call : Call) :
    (∃ response, outcome call.request (handleRequest device call.request).1 = .ok response ∧
        response.Requested call.bitCount) ∨
      ∃ code, outcome call.request (handleRequest device call.request).1 =
        .error (modbusExceptionError call.request.functionCode code) := by
  rcases typedReply_cases sized call.request with ⟨_, inside, result, _⟩ | ⟨e, result, _⟩
  · rw [result]
    exact .inl ⟨_, rfl, answer_requested sized inside⟩
  · rw [result]
    exact .inr ⟨_, rfl⟩

/-- The server takes the request from its chunks and the client the reply from its own. -/
theorem transact_eq {store : DataStore} (wellFormed : store.All Device.WellFormed) {tid : Nat}
    (id : InCycle tid) {x : Exchange} {device : Device} (unit : store.get x.unit = some device)
    (byte : 0 ≤ x.unit ∧ x.unit ≤ 255) (encodable : x.call.request.Encodable)
    (short : x.call.request.wire.length ≤ maxPduLen) {reply : Bytes}
    (replies : reply = (aduHeader tid x.unit (typedReply device x.call.request).wire).wire ++
      (typedReply device x.call.request).wire) :
    transact (settled store tid) x =
      (⟨outcome x.call.request (handleRequest device x.call.request).1, reply⟩,
        settled (store.update x.unit (handleRequest device x.call.request).2)
          (ModbusClient.nextTid ⟨true, tid⟩).2.tid) := by
  have wellFormedDevice := wellFormed _ _ unit
  obtain ⟨replyEncodable, _, _, most⟩ := typedReply_encodable wellFormedDevice encodable
  have fits := aduHeader_fits id.isWord byte short
  have replyFits := aduHeader_fits id.isWord byte most
  have sent := send_eq rfl encodable fits
  have answered := processPdu_wire encodable device
  rw [(encodeResponsePdu_eq _).1 replyEncodable] at answered
  have served := serve_adu wellFormed fits (wire_ne_nil _) short unit answered replyFits
    (x.up.nonempty _) (x.up.flatten_cut _)
  rw [← replies] at served
  have whole : Reader.stream ⟨[], x.down.cut reply, false⟩ = _ := (x.down.flatten_cut _).trans replies
  obtain ⟨last, read, nothing⟩ := receive_adu replyFits whole x.call.bitCount
  rw [acceptPdu_typedReply wellFormedDevice encodable] at read
  unfold transact settled
  simp [sent, served, read, nothing, ModbusClient.nextTid]

/-- One call between settled links is one request at the typed level. -/
theorem transact_settled {store : DataStore} (wellFormed : store.All Device.WellFormed) {tid : Nat}
    (id : InCycle tid) {x : Exchange} (valid : x.Valid store) :
    (transact (settled store tid) x).1.outcome = (handled store x).1 ∧
      OneReply x (transact (settled store tid) x).1 ∧
      (transact (settled store tid) x).2 =
        settled (handled store x).2 (ModbusClient.nextTid ⟨true, tid⟩).2.tid := by
  obtain ⟨device, unit⟩ : ∃ device, store.get x.unit = some device :=
    Dict.mem_keys_iff.mp valid.unit
  obtain ⟨pdu, encoded, short⟩ := valid.encodes
  obtain ⟨encodable, rfl⟩ := encodeRequestPdu_eq_ok.mp encoded
  obtain ⟨_, _, least, most⟩ := typedReply_encodable (wellFormed _ _ unit) encodable
  have replyFits := aduHeader_fits id.isWord valid.byte most
  have typed : handled store x = (outcome x.call.request (handleRequest device x.call.request).1,
      store.update x.unit (handleRequest device x.call.request).2) := by
    simp only [handled, unit]
  rw [transact_eq wellFormed id unit valid.byte encodable short rfl, typed]
  refine ⟨rfl, ⟨verdict_adu replyFits (List.ne_nil_of_length_pos (by omega)) most, ?_, ?_⟩, rfl⟩
  · intro response returned
    rcases outcome_handled (wellFormed _ _ unit).sized x.call with ⟨_, result, requested⟩ | ⟨_, result⟩
    · cases result.symm.trans returned
      exact requested
    · cases result.symm.trans returned
  · intro exn ended
    rcases outcome_handled (wellFormed _ _ unit).sized x.call with ⟨_, result, _⟩ | ⟨code, result⟩
    · cases result.symm.trans ended
    · cases result.symm.trans ended
      exact ⟨code, rfl⟩

/-! ### Sequences of calls -/

theorem handled_wellFormed {store : DataStore} (wellFormed : store.All Device.WellFormed)
    {x : Exchange} (encodable : x.call.request.Encodable) :
    (handled store x).2.All Device.WellFormed := by
  unfold handled
  cases unit : store.get x.unit with
  | none => exact wellFormed
  | some device =>
    exact wellFormed.update (handleRequest_wellFormed (wellFormed _ _ unit) encodable) _

theorem handled_units (store : DataStore) (x : Exchange) :
    (handled store x).2.units = store.units := by
  unfold handled
  cases unit : store.get x.unit with
  | none => rfl
  | some device => exact DataStore.units_update_of_mem (DataStore.mem_units_of_get unit) _

def SettledOver (units : List Int) (link : Link) (store : DataStore) : Prop :=
  store.All Device.WellFormed ∧ store.units = units ∧ ∃ tid, InCycle tid ∧ link = settled store tid

theorem transact_simulates (initial : DataStore) :
    Simulates transact handled (SettledOver initial.units) (Exchange.Valid initial)
      Exchanged.outcome OneReply := by
  rintro link store x ⟨wellFormed, units, tid, id, rfl⟩ valid
  have here : x.Valid store := ⟨units ▸ valid.unit, valid.byte, valid.encodes⟩
  obtain ⟨pdu, encoded, _⟩ := valid.encodes
  obtain ⟨same, one, next⟩ := transact_settled wellFormed id here
  exact ⟨same, one, handled_wellFormed wellFormed (encodeRequestPdu_eq_ok.mp encoded).1,
    (handled_units store x).trans units, _, nextTid_inCycle id, next⟩

/-- A sequence of calls on one client returns what `handle_request` returns for the requests one
after another; each call consumes the one frame written for it, whatever the id it started at. -/
theorem transact_refines {store : DataStore} (wellFormed : store.All Device.WellFormed)
    {exchanges : List Exchange} (valid : ∀ x ∈ exchanges, x.Valid store) {tid : Nat}
    (id : InCycle tid) :
    (run transact (settled store tid) exchanges).1.map Exchanged.outcome =
        (run handled store exchanges).1 ∧
      List.Forall₂ OneReply exchanges (run transact (settled store tid) exchanges).1 ∧
      ∃ next, InCycle next ∧
        (run transact (settled store tid) exchanges).2 = settled (run handled store exchanges).2 next := by
  obtain ⟨same, ones, _, _, last⟩ := run_simulates (transact_simulates store) valid
    ⟨wellFormed, rfl, tid, id, rfl⟩
  exact ⟨same, ones, last⟩

def bytewise : Cutting where
  cut bytes := bytes.map fun b => [b]
  flatten_cut bytes := by induction bytes <;> simp_all
  nonempty bytes chunk member := by
    obtain ⟨b, _, rfl⟩ := List.mem_map.mp member
    exact List.cons_ne_nil b []

def wrappingCalls : List Exchange :=
  [⟨1, .writeRegister 1 9, bytewise, bytewise⟩, ⟨1, .readHoldingRegisters 1 2, bytewise, bytewise⟩]

theorem transact_refines_wrapping :
    (run transact (settled (.single sampleDevice) lastTid) wrappingCalls).1.map Exchanged.outcome =
      [.ok (.writeSingleRegister 1 9), .error (modbusExceptionError 3 2)] := by
  have valid : ∀ x ∈ wrappingCalls, x.Valid (.single sampleDevice) := by
    intro x member
    rcases List.mem_pair.mp member with rfl | rfl
    · exact ⟨by decide, by decide, _, rfl, by decide⟩
    · exact ⟨by decide, by decide, _, rfl, by decide⟩
  exact (transact_refines (DataStore.single_all sampleDevice_wellFormed) valid
    ⟨by decide, le_rfl⟩).1

def farDevice : Device := { sampleDevice with unitId := 300 }

theorem transact_far :
    (DataStore.single farDevice).All Device.WellFormed ∧
      (300 : Int) ∈ (DataStore.single farDevice).units ∧
      encodeRequestPdu (.readHoldingRegisters 0 1) = .ok [3, 0, 0, 0, 1] ∧
      (handled (.single farDevice) ⟨300, .readHoldingRegisters 0 1, bytewise, bytewise⟩).1 =
        .ok (.readHoldingRegisters [7]) ∧
      (transact (settled (.single farDevice) firstTid)
          ⟨300, .readHoldingRegisters 0 1, bytewise, bytewise⟩).1.outcome =
        .error (.raised (.py .structError)) :=
  ⟨DataStore.single_all ⟨sampleDevice_wellFormed.sized, sampleDevice_wellFormed.words⟩,
    by decide, by decide, rfl, rfl⟩

end ModbusSim.Client
