import ModbusSim.Client.Transact

/-!
# Calls that time out

A client and the server with every byte between them in sight: requests and replies arrive piece
by piece, any wait may time out, and the client is used again afterwards. What others do to the
store meanwhile is an event too.

A call that nothing disturbs does what `transact` does (`run_undisturbed`). The id of a header is
all that ties a reply to a request. Read out of an old reply it means nothing, and a call can
return what it never asked for (`stale_returned`). Where no header read out of an old reply echoes
the id of its call, every call returns its own response (`neverMisreads_owned`).
-/

namespace ModbusSim.Client

open PyStruct ModbusSim.Frame Framing Store Dispatch Server

/-- Where the client is in `_transact`. -/
inductive Phase where
  | idle
  | awaitingHeader (transactionId : Nat) (bitCount : Option Int)
  | awaitingPdu (length : Int) (bitCount : Option Int)
  deriving DecidableEq, Repr

def Phase.wanted : Phase → Option Int
  | .idle => none
  | .awaitingHeader .. => some mbapHeaderLen
  | .awaitingPdu length _ => some (length - 1)

/-- A call that returned normally: its place among the calls that sent an ADU. -/
structure Returned where
  call : Nat
  bitCount : Option Int
  response : Response
  deriving DecidableEq, Repr

/-- The two parties, the bytes between them, and what has happened so far: the ADUs sent, the
frames served with what was written for each, and the calls that returned. -/
structure Session where
  client : ModbusClient
  phase : Phase
  toServer : Bytes
  framer : StreamFramer
  store : DataStore
  closed : Bool
  toClient : Bytes
  received : Bytes
  sent : List Bytes
  served : List (Bytes × Bytes)
  returned : List Returned

def Session.start (client : ModbusClient) (store : DataStore) : Session :=
  ⟨client, .idle, [], .new, store, false, [], [], [], [], []⟩

inductive Event where
  | call (unit : Int) (request : Request) (bitCount : Option Int)
  | upload (n : Nat)
  | serve
  | download (n : Nat)
  | readHeader
  | readPdu
  | timeout
  | endOfStream
  | others (store : DataStore)

/-- The call begins: an ADU goes out, or the call raises before. -/
def Session.call (s : Session) (unit : Int) (request : Request) (bitCount : Option Int) : Session :=
  match s.client.send unit request with
  | (.error _, client) => { s with client }
  | (.ok (transactionId, adu), client) =>
    { s with
      client
      phase := .awaitingHeader transactionId bitCount
      toServer := if s.closed then s.toServer else s.toServer ++ adu
      sent := s.sent ++ [adu] }

/-- The server takes the next frame from its buffer; an exception closes the connection. -/
def Session.serve (s : Session) : Option Session :=
  match s.framer.nextFrame with
  | (.ok none, _) => none
  | (.error _, framer) => some { s with framer, closed := true }
  | (.ok (some (header, adu)), framer) =>
    match processFrame s.store header adu with
    | (.error _, store) => some { s with framer, store, closed := true }
    | (.ok reply, store) =>
      some { s with
        framer
        store
        toClient := s.toClient ++ reply
        served := s.served ++ [(adu, reply)] }

/-- The client has the bytes it waits for; it goes on or its call ends. -/
def Session.readHeader (s : Session) (transactionId : Nat) (bitCount : Option Int) : Session :=
  let received := s.received.drop mbapHeaderLen
  match acceptHeader transactionId (s.received.take mbapHeaderLen) with
  | .error _ => { s with phase := .idle, received }
  | .ok header => { s with phase := .awaitingPdu header.length bitCount, received }

def Session.readPdu (s : Session) (n : Nat) (bitCount : Option Int) : Session :=
  let received := s.received.drop n
  match acceptPdu bitCount (s.received.take n) with
  | .error _ => { s with phase := .idle, received }
  | .ok response =>
    { s with
      phase := .idle
      received
      returned := s.returned ++ [⟨s.sent.length - 1, bitCount, response⟩] }

def Session.step (s : Session) : Event → Option Session
  | .call unit request bitCount =>
    if s.phase = .idle then some (s.call unit request bitCount) else none
  | .upload n =>
    if s.closed = false ∧ 0 < n ∧ n ≤ s.toServer.length then
      some { s with
        framer := ⟨s.framer.buffer ++ s.toServer.take n⟩
        toServer := s.toServer.drop n }
    else none
  | .serve => if s.closed then none else s.serve
  | .download n =>
    if 0 < n ∧ n ≤ s.toClient.length then
      some { s with received := s.received ++ s.toClient.take n, toClient := s.toClient.drop n }
    else none
  | .readHeader =>
    match s.phase with
    | .awaitingHeader transactionId bitCount =>
      if mbapHeaderLen ≤ s.received.length then some (s.readHeader transactionId bitCount) else none
    | _ => none
  | .readPdu =>
    match s.phase with
    | .awaitingPdu length bitCount =>
      if length - 1 < 0 then some { s with phase := .idle }
      else if length - 1 ≤ s.received.length then some (s.readPdu (length - 1).toNat bitCount)
      else none
    | _ => none
  | .timeout => if s.phase = .idle then none else some { s with phase := .idle }
  | .endOfStream =>
    match s.phase.wanted with
    | none => none
    | some n =>
      if s.closed ∧ s.toClient = [] ∧ s.received.length < n then
        some { s with phase := .idle, received := [] }
      else none
  | .others store => some { s with store }

def Session.run (s : Session) : List Event → Option Session
  | [] => some s
  | e :: events =>
    match s.step e with
    | none => none
    | some s' => s'.run events

/-- Every call that returned returned the server's response to its own request. -/
def Session.Owned (s : Session) : Prop :=
  ∀ r ∈ s.returned, ∃ adu reply, s.sent[r.call]? = some adu ∧ s.served[r.call]? = some (adu, reply) ∧
    decodeResponsePdu (reply.drop mbapHeaderLen) r.bitCount = .ok r.response

def Session.ownReply (s : Session) : Bytes :=
  ((s.served.drop (s.sent.length - 1)).map Prod.snd).flatten

/-- A byte of the reply to an earlier call is unread or on its way. -/
def Session.stale (s : Session) : Bool :=
  decide (s.ownReply.length < (s.received ++ s.toClient).length)

def Session.echoed (s : Session) : Bool :=
  match s.phase with
  | .awaitingHeader transactionId _ => decide (wordAt s.received 0 = transactionId)
  | _ => false

/-- A header that echoes the id of the call is read out of the reply to an earlier one. -/
def Session.misreads (s : Session) : Event → Bool
  | .readHeader => s.stale && s.echoed
  | _ => false

def Session.neverMisreads (s : Session) : List Event → Bool
  | [] => true
  | e :: events =>
    !s.misreads e &&
      match s.step e with
      | none => true
      | some s' => s'.neverMisreads events

/-! ### What is sent and what is written -/

/-- Bytes that `build_adu` returned. -/
def IsAdu (adu : Bytes) : Prop :=
  ∃ transactionId unitId pdu, (aduHeader transactionId unitId pdu).Fits ∧
    adu = (aduHeader transactionId unitId pdu).wire ++ pdu

theorem IsAdu.ne_nil {adu : Bytes} (isAdu : IsAdu adu) : adu ≠ [] := by
  obtain ⟨_, _, _, _, rfl⟩ := isAdu
  intro empty
  have size := congrArg List.length empty
  simp [mbapHeaderLen] at size

theorem IsAdu.length_of_frame {adu rest : Bytes} {n : Nat} (isAdu : IsAdu adu)
    (frame : verdict (adu ++ rest) = .frame n) : n = adu.length := by
  obtain ⟨transactionId, unitId, pdu, fits, rfl⟩ := isAdu
  obtain ⟨header, decoded, _, size, _⟩ := verdict_frame_iff.mp frame
  rw [List.append_assoc, decodeMbap_wire fits] at decoded
  cases decoded
  rw [List.length_append, MBAPHeader.length_wire, mbapHeaderLen]
  simp only [aduHeader] at size
  omega

theorem accepted_aduHeader {transactionId : Nat} {tid unitId : Int} {pdu : Bytes}
    {header : MBAPHeader} (fits : (aduHeader tid unitId pdu).Fits)
    (accepted : acceptHeader transactionId (aduHeader tid unitId pdu).wire = .ok header) :
    aduHeader tid unitId pdu = header := by
  have decoded := decodeMbap_wire fits []
  rw [List.append_nil, (acceptHeader_eq_ok accepted).1] at decoded
  exact (Except.ok.inj decoded).symm

theorem send_isAdu {c c' : ModbusClient} {unit : Int} {request : Request} {transactionId : Nat}
    {adu : Bytes} (sent : c.send unit request = (.ok (transactionId, adu), c')) : IsAdu adu := by
  obtain ⟨_, pdu, _, fits, whole⟩ := send_eq_ok sent
  exact ⟨_, _, _, fits, whole⟩

theorem processFrame_isAdu {store store' : DataStore} {header : MBAPHeader} {adu reply : Bytes}
    (processed : processFrame store header adu = (.ok reply, store')) : reply = [] ∨ IsAdu reply := by
  unfold processFrame at processed
  split at processed
  · cases processed
    exact .inl rfl
  · split at processed
    · cases processed
      exact .inl rfl
    · obtain ⟨written, _⟩ := Prod.mk.injEq .. ▸ processed
      obtain ⟨response, _, built⟩ := Raise.bind_eq_ok.mp written
      obtain ⟨fits, whole⟩ := buildAdu_eq_ok built
      exact .inr ⟨_, _, _, fits, whole⟩

/-! ### A call that nothing disturbs -/

def Session.quiet (s : Session) : Bool :=
  s.toServer.isEmpty && s.framer.buffer.isEmpty && s.toClient.isEmpty && s.received.isEmpty

def Session.link (s : Session) : Link := ⟨s.client, s.received, s.framer, s.store, s.closed⟩

def returnedBy (call : Nat) (bitCount : Option Int) : Except ClientExn Response → List Returned
  | .ok response => [⟨call, bitCount, response⟩]
  | .error _ => []

def undisturbed (x : Exchange) (adu reply : Bytes) : List Event :=
  [.call x.unit x.call.request x.call.bitCount, .upload adu.length, .serve,
    .download reply.length, .readHeader, .readPdu]

theorem Session.run_cons {s s' : Session} {e : Event} (stepped : s.step e = some s')
    (events : List Event) : s.run (e :: events) = s'.run events := by
  simp only [Session.run, stepped]

theorem step_call {s : Session} (rests : s.phase = .idle) (quiet : s.quiet = true)
    (opened : s.closed = false) {unit : Int} {request : Request} {tid : Nat} {adu : Bytes}
    {client : ModbusClient} (sent : s.client.send unit request = (.ok (tid, adu), client))
    (bitCount : Option Int) :
    s.step (.call unit request bitCount) =
      some { s with
        client
        phase := .awaitingHeader tid bitCount
        toServer := adu
        sent := s.sent ++ [adu] } := by
  have nothing : s.toServer = [] := by
    simp only [Session.quiet, Bool.and_eq_true, List.isEmpty_iff] at quiet
    exact quiet.1.1.1
  unfold Session.step Session.call
  simp only [rests, sent, opened, nothing, if_true, Bool.false_eq_true, if_false,
    List.nil_append]

theorem step_upload {s : Session} (opened : s.closed = false) (content : s.toServer ≠ []) :
    s.step (.upload s.toServer.length) =
      some { s with framer := ⟨s.framer.buffer ++ s.toServer⟩, toServer := [] } := by
  rw [Session.step, if_pos ⟨opened, List.length_pos_iff.mpr content, le_rfl⟩, List.take_length,
    List.drop_length]

theorem step_serve {s : Session} (opened : s.closed = false) {header : MBAPHeader}
    {adu reply : Bytes} {framer : StreamFramer} {store : DataStore}
    (taken : s.framer.nextFrame = (.ok (some (header, adu)), framer))
    (processed : processFrame s.store header adu = (.ok reply, store)) :
    s.step .serve =
      some { s with
        framer
        store
        toClient := s.toClient ++ reply
        served := s.served ++ [(adu, reply)] } := by
  unfold Session.step Session.serve
  simp only [opened, taken, processed, Bool.false_eq_true, if_false]

theorem step_download {s : Session} (content : s.toClient ≠ []) :
    s.step (.download s.toClient.length) =
      some { s with received := s.received ++ s.toClient, toClient := [] } := by
  rw [Session.step, if_pos ⟨List.length_pos_iff.mpr content, le_rfl⟩, List.take_length,
    List.drop_length]

theorem step_readHeader {s : Session} {tid : Nat} {bitCount : Option Int}
    (waits : s.phase = .awaitingHeader tid bitCount) {head rest : Bytes}
    (arrived : s.received = head ++ rest) (size : head.length = mbapHeaderLen)
    {header : MBAPHeader} (echoed : acceptHeader tid head = .ok header) :
    s.step .readHeader =
      some { s with phase := .awaitingPdu header.length bitCount, received := rest } := by
  have enough : mbapHeaderLen ≤ s.received.length := by
    rw [arrived, List.length_append, size]
    exact Nat.le_add_right ..
  unfold Session.step
  simp only [waits]
  rw [if_pos enough, Session.readHeader, arrived, List.take_left' size, List.drop_left' size]
  simp only [echoed]

theorem step_readPdu {s : Session} {length : Int} {bitCount : Option Int}
    (waits : s.phase = .awaitingPdu length bitCount)
    (whole : length - 1 = s.received.length) :
    s.step .readPdu =
      some { s with
        phase := .idle
        received := []
        returned := s.returned ++
          returnedBy (s.sent.length - 1) bitCount (acceptPdu bitCount s.received) } := by
  unfold Session.step
  simp only [waits, whole, Int.toNat_natCast]
  rw [if_neg (by omega), if_pos (Int.le_refl _), Session.readPdu, List.take_length,
    List.drop_length]
  cases acceptPdu bitCount s.received with
  | error e => simp [returnedBy]
  | ok response => rfl

theorem run_exchange {s : Session} (rests : s.phase = .idle) (quiet : s.quiet = true)
    (opened : s.closed = false) {x : Exchange} {client : ModbusClient} {store : DataStore}
    {tid : Nat} {adu head body : Bytes} {header answer : MBAPHeader}
    (sent : s.client.send x.unit x.call.request = (.ok (tid, adu), client)) (content : adu ≠ [])
    (taken : StreamFramer.nextFrame ⟨adu⟩ = (.ok (some (header, adu)), .new))
    (processed : processFrame s.store header adu = (.ok (head ++ body), store))
    (size : head.length = mbapHeaderLen) (echoed : acceptHeader tid head = .ok answer)
    (length : answer.length - 1 = body.length) :
    s.run (undisturbed x adu (head ++ body)) =
      some { s with
        client
        store
        sent := s.sent ++ [adu]
        served := s.served ++ [(adu, head ++ body)]
        returned := s.returned ++
          returnedBy s.sent.length x.call.bitCount (acceptPdu x.call.bitCount body) } := by
  have asked := step_call rests quiet opened sent x.call.bitCount
  obtain ⟨client₀, phase, toServer, ⟨buffer⟩, store₀, closed, toClient, received, before, served,
    returned⟩ := s
  simp only [Session.quiet, Bool.and_eq_true, List.isEmpty_iff] at quiet
  obtain ⟨⟨⟨rfl, rfl⟩, rfl⟩, rfl⟩ := quiet
  subst rests opened
  have reply : head ++ body ≠ [] := by
    intro empty
    rw [(List.append_eq_nil_iff.mp empty).1] at size
    cases size
  unfold undisturbed
  rw [Session.run_cons asked]
  apply Eq.trans (Session.run_cons (step_upload rfl content) _)
  apply Eq.trans (Session.run_cons (step_serve rfl (by exact taken) (by exact processed)) _)
  apply Eq.trans (Session.run_cons (step_download reply) _)
  apply Eq.trans (Session.run_cons (step_readHeader rfl rfl size echoed) _)
  apply Eq.trans (Session.run_cons (step_readPdu rfl length) _)
  simp [Session.run, StreamFramer.new]

theorem link_of_quiet {s : Session} (quiet : s.quiet = true) (opened : s.closed = false)
    (connected : s.client.connected = true) : s.link = settled s.store s.client.tid := by
  obtain ⟨⟨connected', tid⟩, phase, toServer, ⟨buffer⟩, store, closed, toClient, received, sent,
    served, returned⟩ := s
  simp only [Session.quiet, Bool.and_eq_true, List.isEmpty_iff] at quiet opened connected
  obtain ⟨⟨⟨rfl, rfl⟩, rfl⟩, rfl⟩ := quiet
  rw [Session.link, settled, opened, connected]
  rfl

/-- A session does for a call that nothing disturbs what `transact` does. -/
theorem run_undisturbed {s : Session} (rests : s.phase = .idle) (quiet : s.quiet = true)
    (opened : s.closed = false) (connected : s.client.connected = true)
    (wellFormed : s.store.All Device.WellFormed) (id : InCycle s.client.tid) {x : Exchange}
    (valid : x.Valid s.store) :
    ∃ adu reply s', s.run (undisturbed x adu reply) = some s' ∧ s'.phase = .idle ∧
      s'.quiet = true ∧ s'.link = (transact s.link x).2 ∧
      s'.returned = s.returned ++
        returnedBy s.sent.length x.call.bitCount (transact s.link x).1.outcome := by
  obtain ⟨device, unit⟩ : ∃ device, s.store.get x.unit = some device :=
    Dict.mem_keys_iff.mp valid.unit
  obtain ⟨pdu, encoded, short⟩ := valid.encodes
  obtain ⟨encodable, rfl⟩ := encodeRequestPdu_eq_ok.mp encoded
  have wellFormedDevice := wellFormed _ _ unit
  obtain ⟨replyEncodable, _, _, most⟩ := typedReply_encodable wellFormedDevice encodable
  have fits := aduHeader_fits id.isWord valid.byte short
  have replyFits := aduHeader_fits id.isWord valid.byte most
  have answered := processPdu_wire encodable device
  rw [(encodeResponsePdu_eq _).1 replyEncodable] at answered
  have payload : ((aduHeader s.client.tid x.unit x.call.request.wire).wire ++
      x.call.request.wire).drop mbapHeaderLen = x.call.request.wire :=
    List.drop_left' (MBAPHeader.length_wire _)
  rw [← payload] at answered
  rw [link_of_quiet quiet opened connected,
    transact_eq wellFormed id unit valid.byte encodable short rfl,
    ← acceptPdu_typedReply wellFormedDevice encodable]
  refine ⟨_, _, _, run_exchange rests quiet opened (send_eq connected encodable fits)
    (IsAdu.ne_nil ⟨_, _, _, fits, rfl⟩) (nextFrame_adu fits (wire_ne_nil _) short)
    (processFrame_reply rfl unit answered replyFits) (MBAPHeader.length_wire _)
    (acceptHeader_wire replyFits) (by simp [aduHeader]), rests, quiet, ?_, rfl⟩
  exact link_of_quiet quiet opened connected

/-! ### The invariant -/

/-- The frames served are the ADUs sent, in their order, and the others are on their way; what is
unread is the end of what was written. -/
structure Lined (s : Session) : Prop where
  adus : ∀ adu ∈ s.sent, IsAdu adu
  replies : ∀ frame ∈ s.served, frame.2 = [] ∨ IsAdu frame.2
  pending : ∃ pending, s.sent = s.served.map Prod.fst ++ pending ∧
    (s.closed = false → s.framer.buffer ++ s.toServer = pending.flatten)
  unread : s.received ++ s.toClient <:+ (s.served.map Prod.snd).flatten

/-- Where the call in progress stands: nothing of its own reply is read before its header, and
nothing but its PDU is left after it. -/
inductive Flight (s : Session) : Prop
  | idle (rests : s.phase = .idle)
  | asked {transactionId : Nat} {bitCount : Option Int}
    (waits : s.phase = .awaitingHeader transactionId bitCount)
    (unread : s.ownReply.length ≤ (s.received ++ s.toClient).length)
  | accepted {bitCount : Option Int} {earlier : List (Bytes × Bytes)} {adu pdu : Bytes}
    {header : MBAPHeader} (waits : s.phase = .awaitingPdu (1 + pdu.length) bitCount)
    (last : s.served = earlier ++ [(adu, header.wire ++ pdu)])
    (all : s.sent = s.served.map Prod.fst) (arriving : s.received ++ s.toClient = pdu)

structure Inv (s : Session) : Prop where
  owned : s.Owned
  lined : Lined s
  flight : Flight s

theorem inv_start (client : ModbusClient) (store : DataStore) :
    Inv (Session.start client store) where
  owned _ member := absurd member List.not_mem_nil
  lined := ⟨fun _ member => absurd member List.not_mem_nil,
    fun _ member => absurd member List.not_mem_nil, ⟨[], rfl, fun _ => rfl⟩, List.suffix_rfl⟩
  flight := .idle rfl

theorem Session.Owned.mono {s s' : Session} (owned : s.Owned) (returned : s'.returned = s.returned)
    (sent : s.sent <+: s'.sent) (served : s.served <+: s'.served) : s'.Owned := by
  intro r member
  rw [returned] at member
  obtain ⟨adu, reply, own, answered, response⟩ := owned r member
  obtain ⟨later, sent⟩ := sent
  obtain ⟨more, served⟩ := served
  refine ⟨adu, reply, ?_, ?_, response⟩
  · rw [← sent, List.getElem?_append_left (List.getElem?_eq_some_iff.mp own).1, own]
  · rw [← served, List.getElem?_append_left (List.getElem?_eq_some_iff.mp answered).1, answered]

theorem Lined.served_le {s : Session} (lined : Lined s) : s.served.length ≤ s.sent.length := by
  obtain ⟨pending, all, _⟩ := lined.pending
  rw [all, List.length_append, List.length_map]
  exact Nat.le_add_right ..

theorem Lined.read {s : Session} (lined : Lined s) {received : Bytes}
    (rest : received <:+ s.received) :
    received ++ s.toClient <:+ (s.served.map Prod.snd).flatten := by
  obtain ⟨taken, whole⟩ := rest
  have later : received ++ s.toClient <:+ s.received ++ s.toClient :=
    ⟨taken, by rw [← whole, List.append_assoc]⟩
  exact later.trans lined.unread

theorem Inv.ended {s : Session} (inv : Inv s) {received : Bytes}
    (rest : received <:+ s.received) : Inv { s with phase := .idle, received } :=
  ⟨inv.owned, ⟨inv.lined.adus, inv.lined.replies, inv.lined.pending, inv.lined.read rest⟩, .idle rfl⟩

theorem Inv.call {s : Session} (inv : Inv s) (rests : s.phase = .idle) (unit : Int)
    (request : Request) (bitCount : Option Int) : Inv (s.call unit request bitCount) := by
  obtain ⟨adus, replies, ⟨pending, all, flow⟩, unread⟩ := inv.lined
  unfold Session.call
  split
  next client _ => exact ⟨inv.owned, ⟨adus, replies, ⟨pending, all, flow⟩, unread⟩, .idle rests⟩
  next transactionId adu client sent =>
    refine ⟨inv.owned.mono rfl (List.prefix_append ..) List.prefix_rfl,
      ⟨?_, replies, ⟨pending ++ [adu], by simp [all], ?_⟩, unread⟩, .asked rfl ?_⟩
    · intro other member
      rcases List.mem_append.mp member with before | now
      · exact adus other before
      · exact List.mem_singleton.mp now ▸ send_isAdu sent
    · intro opened
      have flow := flow opened
      simp only at opened
      simp [opened, ← flow]
    · have none : s.served.drop s.sent.length = [] := List.drop_eq_nil_of_le inv.lined.served_le
      simp [Session.ownReply, none]

theorem Flight.congr {s s' : Session} (flight : Flight s) (phase : s'.phase = s.phase)
    (flow : s'.received ++ s'.toClient = s.received ++ s.toClient)
    (sent : s'.sent = s.sent) (served : s'.served = s.served) : Flight s' := by
  cases flight with
  | idle rests => exact .idle (phase.trans rests)
  | asked waits unread =>
    apply Flight.asked (phase.trans waits)
    rw [flow, Session.ownReply, sent, served]
    exact unread
  | accepted waits last all arriving =>
    exact .accepted (phase.trans waits) (served.trans last) (by rw [sent, served, all])
      (flow.trans arriving)

theorem Inv.upload {s : Session} (inv : Inv s) (n : Nat) :
    Inv { s with
      framer := ⟨s.framer.buffer ++ s.toServer.take n⟩
      toServer := s.toServer.drop n } := by
  obtain ⟨adus, replies, ⟨pending, all, flow⟩, unread⟩ := inv.lined
  refine ⟨inv.owned, ⟨adus, replies, ⟨pending, all, fun opened => ?_⟩, unread⟩,
    inv.flight.congr rfl rfl rfl rfl⟩
  simp [← flow opened]

theorem Inv.download {s : Session} (inv : Inv s) (n : Nat) :
    Inv { s with received := s.received ++ s.toClient.take n, toClient := s.toClient.drop n } := by
  have same : s.received ++ s.toClient.take n ++ s.toClient.drop n = s.received ++ s.toClient := by
    rw [List.append_assoc, List.take_append_drop]
  exact ⟨inv.owned, ⟨inv.lined.adus, inv.lined.replies, inv.lined.pending, same ▸ inv.lined.unread⟩,
    inv.flight.congr rfl same rfl rfl⟩

theorem Inv.others {s : Session} (inv : Inv s) (store : DataStore) : Inv { s with store } :=
  ⟨inv.owned, ⟨inv.lined.adus, inv.lined.replies, inv.lined.pending, inv.lined.unread⟩,
    inv.flight.congr rfl rfl rfl rfl⟩

theorem Inv.close {s : Session} (inv : Inv s) (framer : StreamFramer) (store : DataStore) :
    Inv { s with framer, store, closed := true } := by
  obtain ⟨adus, replies, ⟨pending, all, _⟩, unread⟩ := inv.lined
  exact ⟨inv.owned, ⟨adus, replies, ⟨pending, all, nofun⟩, unread⟩,
    inv.flight.congr rfl rfl rfl rfl⟩

/-- The frame at the start of the buffer is the first ADU that is not served. -/
theorem Lined.next {s : Session} (lined : Lined s) (opened : s.closed = false) {n : Nat}
    (frame : verdict s.framer.buffer = .frame n) :
    ∃ later, s.sent = s.served.map Prod.fst ++ s.framer.buffer.take n :: later ∧
      s.framer.buffer.drop n ++ s.toServer = later.flatten := by
  obtain ⟨pending, all, flow⟩ := lined.pending
  have flow := flow opened
  have bound := aduProtocol.frame_bound frame
  have whole : verdict (s.framer.buffer ++ s.toServer) = .frame n :=
    aduProtocol.frame_append s.toServer frame
  cases pending with
  | nil =>
    have size := congrArg List.length flow
    simp only [List.length_append, List.flatten_nil, List.length_nil] at size
    omega
  | cons adu later =>
    have isAdu : IsAdu adu := lined.adus adu (by rw [all]; simp)
    rw [List.flatten_cons] at flow
    rw [flow] at whole
    have size := isAdu.length_of_frame whole
    have front := congrArg (List.take n) flow
    have back := congrArg (List.drop n) flow
    rw [List.take_append_of_le_length bound.2, List.take_left' size.symm] at front
    rw [List.drop_append_of_le_length bound.2, List.drop_left' size.symm] at back
    exact ⟨later, by rw [all, front], back⟩

theorem ownReply_serve (s : Session) (adu reply : Bytes) :
    (((s.served ++ [(adu, reply)]).drop (s.sent.length - 1)).map Prod.snd).flatten.length ≤
      s.ownReply.length + reply.length := by
  rw [List.drop_append, List.map_append, List.flatten_append, List.length_append]
  refine Nat.add_le_add_left ?_ _
  cases s.sent.length - 1 - s.served.length with
  | zero => simp
  | succ k => simp

theorem Inv.serve {s s' : Session} (inv : Inv s) (opened : s.closed = false)
    (served : s.serve = some s') : Inv s' := by
  unfold Session.serve at served
  cases start : verdict s.framer.buffer with
  | more =>
    rw [nextFrame_more start] at served
    cases served
  | bad e =>
    rw [nextFrame_bad start] at served
    cases served
    exact inv.close ..
  | frame n =>
    obtain ⟨header, _, _, taken⟩ := nextFrame_frame start
    rw [taken] at served
    simp only at served
    split at served
    next => cases served; exact inv.close ..
    next reply store processed =>
      cases served
      obtain ⟨later, all, flow⟩ := inv.lined.next opened start
      obtain ⟨adus, replies, _, ⟨consumed, written⟩⟩ := inv.lined
      have unread : consumed ++ (s.received ++ (s.toClient ++ reply)) =
          ((s.served ++ [(s.framer.buffer.take n, reply)]).map Prod.snd).flatten := by
        simp [← written]
      refine ⟨inv.owned.mono rfl List.prefix_rfl (List.prefix_append ..),
        ⟨adus, fun frame member => ?_, ⟨later, by simp [all], fun _ => flow⟩, consumed, unread⟩, ?_⟩
      · rcases List.mem_append.mp member with before | now
        · exact replies frame before
        · cases List.mem_singleton.mp now
          exact processFrame_isAdu processed
      · cases inv.flight with
        | idle rests => exact .idle rests
        | asked waits unread =>
          refine .asked waits ((ownReply_serve s _ reply).trans ?_)
          simp only [List.length_append] at unread ⊢
          omega
        | accepted _ _ done =>
          rw [all] at done
          simp at done

/-- Where nothing stale is unread, the bytes to be read are the call's own reply. -/
theorem Lined.unread_own {s : Session} (lined : Lined s)
    (whole : s.ownReply.length ≤ (s.received ++ s.toClient).length) (clear : s.stale = false) :
    s.received ++ s.toClient = s.ownReply := by
  have least : (s.received ++ s.toClient).length ≤ s.ownReply.length :=
    Nat.le_of_not_lt (of_decide_eq_false clear)
  have own : s.ownReply <:+ (s.served.map Prod.snd).flatten :=
    ⟨((s.served.take (s.sent.length - 1)).map Prod.snd).flatten, by
      rw [Session.ownReply, ← List.flatten_append, ← List.map_append, List.take_append_drop]⟩
  exact (List.suffix_of_suffix_length_le lined.unread own least).eq_of_length
    (Nat.le_antisymm least whole)

/-- A call whose own reply has a byte is the last that was served. -/
theorem Lined.own_last {s : Session} (lined : Lined s) (answered : s.ownReply ≠ []) :
    ∃ earlier adu, s.served = earlier ++ [(adu, s.ownReply)] ∧ s.sent = s.served.map Prod.fst ∧
      IsAdu s.ownReply := by
  have most := lined.served_le
  obtain ⟨pending, all, _⟩ := lined.pending
  have replies := lined.replies
  unfold Session.ownReply at answered ⊢
  rcases List.eq_nil_or_concat s.served with none | ⟨earlier, ⟨adu, reply⟩, last⟩
  · simp [none] at answered
  · rw [List.concat_eq_append] at last
    have size := congrArg List.length last
    rw [List.length_append, List.length_singleton] at size
    have place : s.sent.length - 1 = earlier.length := by
      by_contra other
      have beyond : s.served.drop (s.sent.length - 1) = [] := List.drop_eq_nil_of_le (by omega)
      simp [beyond] at answered
    have own : ((s.served.drop (s.sent.length - 1)).map Prod.snd).flatten = reply := by
      rw [place, last, List.drop_left]
      simp
    have none : pending = [] := by
      have total := congrArg List.length all
      rw [List.length_append, List.length_map] at total
      exact List.length_eq_zero_iff.mp (by omega)
    rw [own] at answered ⊢
    refine ⟨earlier, adu, last, by rw [all, none, List.append_nil], ?_⟩
    exact (replies (adu, reply) (by simp [last])).resolve_left answered

theorem acceptHeader_echo {transactionId : Nat} {received : Bytes} {header : MBAPHeader}
    (accepted : acceptHeader transactionId (received.take mbapHeaderLen) = .ok header) :
    wordAt received 0 = transactionId := by
  unfold acceptHeader at accepted
  split at accepted
  next => cases accepted
  next found decoded =>
    split at accepted
    next => cases accepted
    next echo =>
      have fields := header_of_decoded decoded
      have front : wordAt (received.take mbapHeaderLen) 0 = wordAt received 0 := by
        simp [wordAt, List.getD_eq_getElem?_getD, mbapHeaderLen]
      have echo := not_not.mp echo
      rw [fields, front] at echo
      exact Int.ofNat_inj.mp echo

/-- A header that is not misread is that of one's own reply. -/
theorem Inv.readHeader {s : Session} (inv : Inv s) (trusted : s.misreads .readHeader = false)
    {transactionId : Nat} {bitCount : Option Int}
    (waits : s.phase = .awaitingHeader transactionId bitCount)
    (enough : mbapHeaderLen ≤ s.received.length) : Inv (s.readHeader transactionId bitCount) := by
  unfold Session.readHeader
  split
  next => exact inv.ended (List.drop_suffix ..)
  next header accepted =>
    have echoed : s.echoed = true := by
      simp only [Session.echoed, waits]
      exact decide_eq_true (acceptHeader_echo accepted)
    have clear : s.stale = false := by simpa [Session.misreads, echoed] using trusted
    refine ⟨inv.owned, ⟨inv.lined.adus, inv.lined.replies, inv.lined.pending,
      inv.lined.read (List.drop_suffix ..)⟩, ?_⟩
    cases inv.flight with
    | idle rests => cases waits.symm.trans rests
    | asked _ whole =>
      have arriving := inv.lined.unread_own whole clear
      have answered : s.ownReply ≠ [] := by
        rw [← arriving]
        intro nothing
        rw [(List.append_eq_nil_iff.mp nothing).1] at enough
        exact absurd enough (by decide)
      obtain ⟨earlier, adu, last, all, isAdu⟩ := inv.lined.own_last answered
      obtain ⟨tid, unitId, pdu, fits, wire⟩ := isAdu
      rw [wire] at arriving last
      have size := MBAPHeader.length_wire (aduHeader tid unitId pdu)
      have front := congrArg (List.take mbapHeaderLen) arriving
      have back := congrArg (List.drop mbapHeaderLen) arriving
      rw [List.take_append_of_le_length enough, List.take_left' size] at front
      rw [List.drop_append_of_le_length enough, List.drop_left' size] at back
      rw [front] at accepted
      cases accepted_aduHeader fits accepted
      exact .accepted rfl last all back
    | accepted other => cases waits.symm.trans other

/-- A PDU read from one's own reply is the whole of it. -/
theorem Inv.readPdu {s : Session} (inv : Inv s) {length : Int} {bitCount : Option Int}
    (waits : s.phase = .awaitingPdu length bitCount) (enough : length - 1 ≤ s.received.length) :
    Inv (s.readPdu (length - 1).toNat bitCount) := by
  unfold Session.readPdu
  split
  next => exact inv.ended (List.drop_suffix ..)
  next response accepted =>
    refine ⟨?_, ⟨inv.lined.adus, inv.lined.replies, inv.lined.pending,
      inv.lined.read (List.drop_suffix ..)⟩, .idle rfl⟩
    cases inv.flight with
    | idle other | asked other => cases waits.symm.trans other
    | @accepted _ earlier adu pdu header other last all arriving =>
      cases waits.symm.trans other
      have size : (1 + (pdu.length : Int) - 1).toNat = pdu.length := by omega
      have whole : s.received.take pdu.length = pdu := by
        rw [← List.take_append_of_le_length (by omega), arriving, List.take_length]
      rw [size, whole] at accepted
      intro r member
      rcases List.mem_append.mp member with before | now
      · exact inv.owned r before
      · cases List.mem_singleton.mp now
        refine ⟨adu, header.wire ++ pdu, ?_, ?_, ?_⟩
        · simp [all, last]
        · simp [all, last]
        · rw [List.drop_left' header.length_wire]
          exact (acceptPdu_eq_ok accepted).1

theorem Inv.step {s s' : Session} (inv : Inv s) {e : Event} (trusted : s.misreads e = false)
    (stepped : s.step e = some s') : Inv s' := by
  cases e with
  | call unit request bitCount =>
    simp only [Session.step, Option.ite_none_right_eq_some, Option.some.injEq] at stepped
    obtain ⟨rests, rfl⟩ := stepped
    exact inv.call rests unit request bitCount
  | upload n =>
    simp only [Session.step, Option.ite_none_right_eq_some, Option.some.injEq] at stepped
    obtain ⟨_, rfl⟩ := stepped
    exact inv.upload n
  | serve =>
    simp only [Session.step, Option.ite_none_left_eq_some, Bool.not_eq_true] at stepped
    exact inv.serve stepped.1 stepped.2
  | download n =>
    simp only [Session.step, Option.ite_none_right_eq_some, Option.some.injEq] at stepped
    obtain ⟨_, rfl⟩ := stepped
    exact inv.download n
  | readHeader =>
    simp only [Session.step] at stepped
    split at stepped
    next transactionId bitCount waits =>
      simp only [Option.ite_none_right_eq_some, Option.some.injEq] at stepped
      obtain ⟨enough, rfl⟩ := stepped
      exact inv.readHeader trusted waits enough
    next => cases stepped
  | readPdu =>
    simp only [Session.step] at stepped
    split at stepped
    next length bitCount waits =>
      split at stepped
      next => cases stepped; exact inv.ended List.suffix_rfl
      next =>
        simp only [Option.ite_none_right_eq_some, Option.some.injEq] at stepped
        obtain ⟨enough, rfl⟩ := stepped
        exact inv.readPdu waits enough
    next => cases stepped
  | timeout =>
    simp only [Session.step, Option.ite_none_left_eq_some, Option.some.injEq] at stepped
    obtain ⟨_, rfl⟩ := stepped
    exact inv.ended List.suffix_rfl
  | endOfStream =>
    simp only [Session.step] at stepped
    split at stepped
    next => cases stepped
    next =>
      simp only [Option.ite_none_right_eq_some, Option.some.injEq] at stepped
      obtain ⟨_, rfl⟩ := stepped
      exact inv.ended List.nil_suffix
  | others store =>
    cases stepped
    exact inv.others store

theorem Inv.run {s s' : Session} {events : List Event} (inv : Inv s)
    (trusted : s.neverMisreads events = true) (ran : s.run events = some s') : Inv s' := by
  induction events generalizing s with
  | nil =>
    cases ran
    exact inv
  | cons e events ih =>
    simp only [Session.neverMisreads, Bool.and_eq_true, Bool.not_eq_true'] at trusted
    simp only [Session.run] at ran
    cases stepped : s.step e with
    | none => simp [stepped] at ran
    | some mid =>
      simp only [stepped] at trusted ran
      exact ih (inv.step trusted.1 stepped) trusted.2 ran

/-- Where no header that echoes the id of its call is read out of the reply to an earlier call,
every call that returns returns its own response. -/
theorem neverMisreads_owned {client : ModbusClient} {store : DataStore} {events : List Event}
    {s : Session} (ran : (Session.start client store).run events = some s)
    (trusted : (Session.start client store).neverMisreads events = true) : s.Owned :=
  ((inv_start client store).run trusted ran).owned

def registerDevice : Device :=
  { unitId := 1
    name := "device-1"
    coils := ⟨0, []⟩
    discreteInputs := ⟨0, []⟩
    holdingRegisters := ⟨4, [.int 0, .int 0, .int 0, .int 0]⟩
    inputRegisters := ⟨0, []⟩ }

def newSession : Session := .start ⟨true, firstTid⟩ (.single registerDevice)

/-- The first call times out and the next three read from old replies, of which they leave nothing:
two of them are to a unit that does not answer. The fifth call reads its own reply. -/
def recoveringEvents : List Event :=
  [.call 1 (.writeSingleRegister 0 0) none, .upload 12, .serve, .timeout,
    .call 1 (.readHoldingRegisters 9 9) none, .upload 12, .serve, .download 21, .readHeader,
    .call 9 (.readHoldingRegisters 0 1) none, .upload 12, .serve, .readHeader,
    .call 9 (.readHoldingRegisters 0 1) none, .upload 12, .serve, .readHeader,
    .call 1 (.readHoldingRegisters 2 2) none, .upload 5, .upload 7, .serve, .download 9,
    .readHeader, .download 4, .readPdu]

theorem neverMisreads_owned_recovering : ∃ s, newSession.run recoveringEvents = some s ∧
    s.returned = [⟨4, none, .readHoldingRegisters [0, 0]⟩] ∧ s.Owned := by
  have returned : (newSession.run recoveringEvents).map Session.returned =
      some [⟨4, none, .readHoldingRegisters [0, 0]⟩] := by decide +kernel
  obtain ⟨s, ran, result⟩ := Option.map_eq_some_iff.mp returned
  exact ⟨s, ran, result, neverMisreads_owned ran (by decide +kernel)⟩

/-! ### A stale reply -/

def lateWrite (address value : Int) (n : Nat) : List Event :=
  [.call 1 (.writeSingleRegister address value) none, .upload 12, .serve, .download n, .readHeader]

/-- The first call times out. Its reply and the next ones are read seven bytes at a time, until the
sixth call finds its own id in the middle of the third reply. -/
def staleEvents : List Event :=
  [.call 1 (.writeSingleRegister 0 0) none, .upload 12, .serve, .timeout] ++
    lateWrite 0 0 24 ++ lateWrite 3 3 12 ++ lateWrite 0 0 12 ++ lateWrite 0 0 12 ++
    [.call 1 (.readHoldingRegisters 0 4) none, .upload 12, .serve, .readHeader, .readPdu]

/-- The sixth call returns no registers where the server's reply has four. -/
theorem stale_returned : (newSession.run staleEvents).map (fun s => (s.returned, s.served[5]?)) =
    some ([⟨5, none, .readHoldingRegisters []⟩],
      some ([0, 6, 0, 0, 0, 6, 1, 3, 0, 0, 0, 4],
        [0, 6, 0, 0, 0, 11, 1, 3, 8, 0, 0, 0, 0, 0, 0, 0, 3])) := by
  decide +kernel

theorem stale_not_owned : ∃ s, newSession.run staleEvents = some s ∧ ¬ s.Owned := by
  obtain ⟨s, ran, result⟩ := Option.map_eq_some_iff.mp stale_returned
  obtain ⟨returned, served⟩ := Prod.mk.injEq .. ▸ result
  refine ⟨s, ran, fun owned => ?_⟩
  obtain ⟨adu, reply, _, answered, response⟩ :=
    owned ⟨5, none, .readHoldingRegisters []⟩ (by rw [returned]; simp)
  cases served.symm.trans answered
  exact absurd response (by decide)

end ModbusSim.Client
