import ModbusSim.Dispatch.Independence
import ModbusSim.Lib.StatefulRun
import ModbusSim.Server.Handler

/-!
# The log of a connection

`_handle_client` with the lines that it logs, on a connection that can be lost while a reply is
drained. Logging never raises and changes nothing; there is one line for every frame of the stream,
which says what has become of the frame, up to a frame whose reply is lost: that one is carried out
without a line (`log_tells`). The frames that are logged as carried out and the one that is lost are
all that matters to the store (`carriedOut_replayed`).
-/

namespace ModbusSim.Server

open PyStruct ModbusSim.Frame Framing Store Dispatch StatefulRun

inductive Level where
  | info
  | warning
  deriving DecidableEq, Repr

/-- What is passed to the logger. The duration that ends an `ok` line is left out. -/
structure LogRecord where
  level : Level
  message : String
  deriving DecidableEq, Repr

/-- What `get_extra_info` returns: a tuple, with the `str` of its items and its own, or another
object, with its `str`. -/
inductive Peer where
  | tuple (items : List String) (str : String)
  | other (str : String)

/-- `_fmt_peer` -/
def fmtPeer : Peer → String
  | .tuple (host :: port :: _) _ => host ++ ":" ++ port
  | .tuple _ str => str
  | .other str => str

/-- `_QTY_FCS` -/
def qtyFcs : List Nat :=
  [readCoils, readDiscreteInputs, readHoldingRegisters, readInputRegisters, writeMultipleCoils,
    writeMultipleRegisters]

/-- The fields of a `req` line, as far as the PDU goes. -/
def requestFields (peer : Peer) (unitId : Int) (pdu : Bytes) : String :=
  let fc := byteAt pdu 0
  let fields := "peer=" ++ fmtPeer peer ++ " unit=" ++ toString unitId ++ " fc=0x" ++ hexByte fc
  let fields := if 3 ≤ pdu.length then fields ++ " addr=" ++ toString (wordAt pdu 1) else fields
  if 5 ≤ pdu.length then
    fields ++ " " ++ (if fc ∈ qtyFcs then "qty" else "val") ++ "=" ++ toString (wordAt pdu 3)
  else fields

/-- `_log_request` -/
def logRequest (peer : Peer) (header : MBAPHeader) (pdu response : Bytes) : Except Exn LogRecord :=
  let fields := requestFields peer header.unitId pdu
  if response ≠ [] ∧ byteAt response 0 &&& exceptionMask ≠ 0 then do
    let code ← item response 1
    return ⟨.warning, "req " ++ fields ++ " -> exc=" ++ hexByte code⟩
  else .ok ⟨.info, "req " ++ fields ++ " -> ok bytes=" ++ toString response.length⟩

/-- What ends a connection early: an exception of `serve`, or a `drain` that raises
`ConnectionResetError` or `BrokenPipeError`. -/
inductive Ended where
  | raised (e : ServerExn)
  | connectionLost

/-- `writer.drain` -/
def drain (lost : Bool) : Except Ended Unit :=
  if lost then .error .connectionLost else .ok ()

/-- What `_process_frame` has written, what it logs or raises, and the store afterwards. -/
structure Processed where
  written : Bytes
  logged : Except Ended LogRecord
  store : DataStore

/-- `_process_frame`, with its log. -/
def processFrameLogged (peer : Peer) (lost : Bool) (store : DataStore) (header : MBAPHeader)
    (adu : Bytes) : Processed :=
  if header.protocolId ≠ protocolId then
    ⟨[], .ok ⟨.warning,
      "drop peer=" ++ fmtPeer peer ++ " protocol_id=" ++ toString header.protocolId⟩, store⟩
  else
    match store.get header.unitId with
    | none =>
      ⟨[], .ok ⟨.warning,
        "drop peer=" ++ fmtPeer peer ++ " unknown unit=" ++ toString header.unitId⟩, store⟩
    | some device =>
      let pdu := adu.drop mbapHeaderLen
      let (response, device') := processPdu device pdu
      let store' := store.update header.unitId device'
      match response with
      | .error e => ⟨[], .error (.raised (.raised e)), store'⟩
      | .ok responsePdu =>
        match buildAdu header.transactionId header.unitId responsePdu with
        | .error e => ⟨[], .error (.raised (.raised e)), store'⟩
        | .ok responseAdu =>
          ⟨responseAdu, do
            drain lost
            (logRequest peer header pdu responsePdu).mapError fun e => .raised (.raised e), store'⟩

structure Logged where
  written : Bytes
  records : List LogRecord
  store : DataStore
  framer : StreamFramer
  raised : Option Ended

def Served.logged (served : Served) (records : List LogRecord) : Logged :=
  ⟨served.written, records, served.store, served.framer, served.raised.map .raised⟩

/-- The loop over the frames of a feed, the first of which is frame `n` of the connection; `lost`
tells the frames whose reply fails to drain. -/
def serveFramesLogged (peer : Peer) (lost : Nat → Bool) (n : Nat) (framer : StreamFramer)
    (store : DataStore) : Logged :=
  match _next : framer.nextFrame with
  | (.error e, framer') => ⟨[], [], store, framer', some (.raised e)⟩
  | (.ok none, framer') => ⟨[], [], store, framer', none⟩
  | (.ok (some (header, adu)), framer') =>
    let now := processFrameLogged peer (lost n) store header adu
    match now.logged with
    | .error e => ⟨now.written, [], now.store, framer', some e⟩
    | .ok record =>
      let later := serveFramesLogged peer lost (n + 1) framer' now.store
      ⟨now.written ++ later.written, record :: later.records, later.store, later.framer,
        later.raised⟩
termination_by framer.buffer.length
decreasing_by exact nextFrame_shrinks _next

/-- The loop over the chunks. A read that raises is the end of the stream as well. -/
def serveLogged (peer : Peer) (lost : Nat → Bool) (n : Nat) (framer : StreamFramer)
    (store : DataStore) : List Bytes → Logged
  | [] => ⟨[], [], store, framer, none⟩
  | data :: chunks =>
    if data = [] then ⟨[], [], store, framer, none⟩
    else
      let now := serveFramesLogged peer lost n ⟨framer.buffer ++ data⟩ store
      match now.raised with
      | some _ => now
      | none =>
        let later := serveLogged peer lost (n + now.records.length) now.framer now.store chunks
        ⟨now.written ++ later.written, now.records ++ later.records, later.store, later.framer,
          later.raised⟩

def connectRecord (peer : Peer) : LogRecord := ⟨.info, "connect peer=" ++ fmtPeer peer⟩

def disconnectRecord (peer : Peer) : LogRecord := ⟨.info, "disconnect peer=" ++ fmtPeer peer⟩

/-- The line for a framing error. Nothing is logged of a connection that is lost. -/
def closingRecords (peer : Peer) : Option Ended → List LogRecord
  | some (.raised (.protocolError message)) =>
    [⟨.warning, "protocol error peer=" ++ fmtPeer peer ++ ": " ++ message ++ " (closing)"⟩]
  | _ => []

/-- `_handle_client`, with all that it logs, where the replies to some frames are lost. -/
def handleClientLogged (peer : Peer) (lost : Nat → Bool) (store : DataStore)
    (chunks : List Bytes) : Logged :=
  let logged := serveLogged peer lost 0 .new store chunks
  { logged with
    records := connectRecord peer :: logged.records ++ closingRecords peer logged.raised ++
      [disconnectRecord peer] }

/-! ### The fields of a request -/

/-- What is logged of a request beside its address: its quantity, or the value it writes. -/
def loggedNumber : Request → Int
  | .readCoils _ n | .readDiscreteInputs _ n | .readHoldingRegisters _ n
  | .readInputRegisters _ n => n
  | .writeSingleCoil _ value => coilWord value
  | .writeSingleRegister _ value => value
  | .writeMultipleCoils _ values => values.length
  | .writeMultipleRegisters _ values => values.length

def loggedLabel : Request → String
  | .writeSingleCoil .. | .writeSingleRegister .. => "val"
  | _ => "qty"

def calledFields (peer : Peer) (unitId : Int) (r : Request) : String :=
  "peer=" ++ fmtPeer peer ++ " unit=" ++ toString unitId ++ " fc=0x" ++ hexByte r.functionCode ++
    " addr=" ++ toString (address r) ++ " " ++ loggedLabel r ++ "=" ++ toString (loggedNumber r)

theorem take_wire (r : Request) :
    r.wire.take 5 = triple r.functionCode (address r) (loggedNumber r) := by
  cases r <;> rfl

theorem byteAt_take {data : Bytes} {i n : Nat} (within : i < n) :
    byteAt (data.take n) i = byteAt data i := by
  rw [byteAt, byteAt, List.getD_eq_getElem?_getD, List.getD_eq_getElem?_getD,
    List.getElem?_take_of_lt within]

theorem wordAt_take {data : Bytes} {i n : Nat} (within : i + 1 < n) :
    wordAt (data.take n) i = wordAt data i := by
  have high := @byteAt_take data _ _ (Nat.lt_of_succ_lt within)
  have low := @byteAt_take data _ _ within
  simp only [byteAt] at high low
  rw [wordAt, wordAt, high, low]

theorem mem_qtyFcs_iff (r : Request) :
    (if r.functionCode ∈ qtyFcs then "qty" else "val") = loggedLabel r := by
  cases r <;> rfl

theorem words_of_encodable {r : Request} (encodable : r.Encodable) :
    IsWord (address r) ∧ IsWord (loggedNumber r) := by
  cases r with
  | readCoils | readDiscreteInputs | readHoldingRegisters | readInputRegisters
  | writeSingleRegister => exact encodable
  | writeSingleCoil a value => exact ⟨encodable, coilWord_isWord value⟩
  | writeMultipleCoils a values =>
    obtain ⟨word, few⟩ := encodable
    refine ⟨word, ?_⟩
    simp only [loggedNumber, IsWord, registerMax]
    omega
  | writeMultipleRegisters a values =>
    obtain ⟨word, few, _⟩ := encodable
    refine ⟨word, ?_⟩
    simp only [loggedNumber, IsWord, registerMax]
    omega

theorem requestFields_decoded (peer : Peer) (unitId : Int) {pdu : Bytes} {r : Request}
    (decoded : decodeRequestPdu pdu = .ok r) :
    requestFields peer unitId pdu = calledFields peer unitId r := by
  obtain ⟨encodable, wire⟩ := decodeRequestPdu_sound decoded
  have front : pdu.take 5 = triple r.functionCode (address r) (loggedNumber r) := by
    rw [← take_wire, ← wire, take_clearUnusedBits]
  have size := congrArg List.length front
  rw [length_triple, List.length_take] at size
  have words := @readRequest_words (pdu.take 5) (by rw [front, length_triple])
  rw [front, readRequest_triple (Nat.lt_trans (functionCode_lt r) (by decide))
    (words_of_encodable encodable), ← front, byteAt_take (by decide), wordAt_take (by decide),
    wordAt_take (by decide)] at words
  simp only [Except.ok.injEq, Prod.mk.injEq] at words
  obtain ⟨same, addr, number⟩ := words
  have fc : byteAt pdu 0 = r.functionCode := (Int.natCast_inj.mp same).symm
  delta calledFields
  simp only [requestFields, addr, number, fc, mem_qtyFcs_iff]
  rw [if_pos (by omega), if_pos (by omega)]
  rfl

/-! ### What becomes of a frame -/

/-- What is logged for a frame, and the store afterwards. -/
inductive Tells (peer : Peer) (store : DataStore) (frame : Bytes) : LogRecord → DataStore → Prop
  | foreign (protocol : wordAt frame 2 ≠ 0) : Tells peer store frame ⟨.warning,
      "drop peer=" ++ fmtPeer peer ++ " protocol_id=" ++ toString (wordAt frame 2)⟩ store
  | unknown (protocol : wordAt frame 2 = 0) (unit : store.get (byteAt frame 6) = none) :
    Tells peer store frame ⟨.warning,
      "drop peer=" ++ fmtPeer peer ++ " unknown unit=" ++ toString (byteAt frame 6)⟩ store
  | refused {device : Device} {first code : UInt8} (protocol : wordAt frame 2 = 0)
    (unit : store.get (byteAt frame 6) = some device)
    (answered : processPdu device (frame.drop 7) = (.ok [first ||| 0x80, code], device)) :
    Tells peer store frame ⟨.warning, "req " ++ requestFields peer (byteAt frame 6) (frame.drop 7) ++
      " -> exc=" ++ hexByte code.toNat⟩ store
  | carriedOut {device : Device} {r : Request} (protocol : wordAt frame 2 = 0)
    (unit : store.get (byteAt frame 6) = some device)
    (decoded : decodeRequestPdu (frame.drop 7) = .ok r) (inRange : QuantityInRange r)
    (inside : InRegion device r) :
    Tells peer store frame ⟨.info, "req " ++ calledFields peer (byteAt frame 6) r ++
      " -> ok bytes=" ++ toString (answer device r).wire.length⟩
      (store.update (byteAt frame 6) (execute device r))

/-- The reply to the frame is written, and drained. -/
def Drains (store : DataStore) (frame : Bytes) : Prop :=
  wordAt frame 2 = 0 ∧ (store.get (byteAt frame 6)).isSome

instance (store : DataStore) (frame : Bytes) : Decidable (Drains store frame) :=
  inferInstanceAs (Decidable (_ ∧ _))

/-- The lines for frames in order, the first of which is frame `n`, with the store threaded from
frame to frame. A frame whose reply is lost counts like any other, but there is no line for it and
it is the last one. -/
inductive TellsAll (peer : Peer) (lost : Nat → Bool) :
    Nat → DataStore → List Bytes → List LogRecord → DataStore → Bool → Prop
  | nil {n : Nat} {store : DataStore} : TellsAll peer lost n store [] [] store false
  | cons {n : Nat} {store mid last : DataStore} {frame : Bytes} {frames : List Bytes}
    {record : LogRecord} {records : List LogRecord} {gone : Bool}
    (first : Tells peer store frame record mid) (kept : Drains store frame → lost n = false)
    (others : TellsAll peer lost (n + 1) mid frames records last gone) :
    TellsAll peer lost n store (frame :: frames) (record :: records) last gone
  | lost {n : Nat} {store next : DataStore} {frame : Bytes} {frames : List Bytes}
    {record : LogRecord} (first : Tells peer store frame record next)
    (drains : Drains store frame) (raises : lost n = true) :
    TellsAll peer lost n store (frame :: frames) [] next true

theorem TellsAll.length {peer : Peer} {lost : Nat → Bool} {n : Nat} {store last : DataStore}
    {frames : List Bytes} {records : List LogRecord} {gone : Bool}
    (tells : TellsAll peer lost n store frames records last gone) :
    if gone then records.length < frames.length else records.length = frames.length := by
  induction tells with
  | nil => rfl
  | @cons _ _ _ _ _ _ _ _ gone _ _ _ ih => cases gone <;> simpa using ih
  | lost => exact Nat.succ_pos _

theorem TellsAll.append {peer : Peer} {lost : Nat → Bool} {n : Nat} {store mid last : DataStore}
    {frames others : List Bytes} {records more : List LogRecord} {now later : Bool}
    (first : TellsAll peer lost n store frames records mid now) (kept : now = false)
    (second : TellsAll peer lost (n + records.length) mid others more last later) :
    TellsAll peer lost n store (frames ++ others) (records ++ more) last later := by
  induction first with
  | nil => exact second
  | cons tells drained _ ih =>
    refine .cons tells drained (ih kept ?_)
    rwa [Nat.add_assoc, Nat.add_comm 1]
  | lost => cases kept

theorem TellsAll.lost_append {peer : Peer} {lost : Nat → Bool} {n : Nat} {store last : DataStore}
    {frames : List Bytes} {records : List LogRecord} {gone : Bool}
    (tells : TellsAll peer lost n store frames records last gone) (ended : gone = true)
    (others : List Bytes) : TellsAll peer lost n store (frames ++ others) records last true := by
  induction tells with
  | nil => cases ended
  | cons first kept _ ih => exact .cons first kept (ih ended)
  | lost first drains raises => exact .lost first drains raises

theorem Tells.unchanged {peer : Peer} {store next : DataStore} {frame : Bytes} {record : LogRecord}
    (tells : Tells peer store frame record next) (quiet : record.level = .warning) :
    next = store := by
  cases tells with
  | foreign | unknown | refused => rfl
  | carriedOut => cases quiet

theorem logRequest_exception (peer : Peer) (header : MBAPHeader) (pdu : Bytes)
    (first code : UInt8) :
    logRequest peer header pdu [first ||| 0x80, code] = .ok ⟨.warning,
      "req " ++ requestFields peer header.unitId pdu ++ " -> exc=" ++ hexByte code.toNat⟩ := by
  have masked := (hasMask_byte (first ||| 0x80)).mpr (exception_bit first)
  exact if_pos ⟨List.cons_ne_nil _ _, masked⟩

theorem logRequest_answer (peer : Peer) (header : MBAPHeader) (pdu : Bytes) (device : Device)
    (r : Request) : logRequest peer header pdu (answer device r).wire = .ok ⟨.info,
      "req " ++ requestFields peer header.unitId pdu ++
        " -> ok bytes=" ++ toString (answer device r).wire.length⟩ := by
  have lead : byteAt (answer device r).wire 0 = r.functionCode := by cases r <;> rfl
  have small := functionCode_lt r
  have plain : ¬ byteAt (answer device r).wire 0 &&& exceptionMask ≠ 0 := by
    rw [lead, hasMask_iff (Nat.lt_trans small (by decide))]
    omega
  exact if_neg fun both => plain both.2

theorem not_refused {device : Device} (sized : device.Sized) {pdu : Bytes} {r : Request}
    (decoded : decodeRequestPdu pdu = .ok r) (inRange : QuantityInRange r)
    (inside : InRegion device r) (first code : UInt8) :
    processPdu device pdu ≠ (.ok [first ||| 0x80, code], device) := by
  intro answered
  rw [processPdu_inRange sized decoded inRange inside] at answered
  refine encode_answer_ne device r first code.toNat ((Prod.mk.inj answered).1.trans ?_)
  rw [exceptionPdu, UInt8.ofNat_toNat]

/-- There is one line for a frame, and one store after it. -/
theorem Tells.unique {peer : Peer} {store next₁ next₂ : DataStore}
    (wellFormed : store.All Device.WellFormed) {frame : Bytes} {record₁ record₂ : LogRecord}
    (first : Tells peer store frame record₁ next₁) (second : Tells peer store frame record₂ next₂) :
    record₁ = record₂ ∧ next₁ = next₂ := by
  cases first with
  | foreign protocol =>
    cases second with
    | foreign => exact ⟨rfl, rfl⟩
    | unknown modbus | refused modbus | carriedOut modbus => exact absurd modbus protocol
  | unknown modbus unit =>
    cases second with
    | foreign protocol => exact absurd modbus protocol
    | unknown => exact ⟨rfl, rfl⟩
    | refused _ found | carriedOut _ found => cases unit.symm.trans found
  | refused modbus unit answered =>
    cases second with
    | foreign protocol => exact absurd modbus protocol
    | unknown _ found => cases unit.symm.trans found
    | refused _ found answered' =>
      cases unit.symm.trans found
      have same := Except.ok.inj (Prod.mk.inj (answered.symm.trans answered')).1
      obtain ⟨_, codes⟩ := List.cons.inj same
      cases (List.cons.inj codes).1
      exact ⟨rfl, rfl⟩
    | carriedOut _ found decoded inRange inside =>
      cases unit.symm.trans found
      exact absurd answered (not_refused (wellFormed _ _ unit).sized decoded inRange inside _ _)
  | carriedOut modbus unit decoded inRange inside =>
    cases second with
    | foreign protocol => exact absurd modbus protocol
    | unknown _ found => cases unit.symm.trans found
    | refused _ found answered =>
      cases unit.symm.trans found
      exact absurd answered (not_refused (wellFormed _ _ unit).sized decoded inRange inside _ _)
    | carriedOut _ found decoded' =>
      cases unit.symm.trans found
      cases decoded.symm.trans decoded'
      exact ⟨rfl, rfl⟩

theorem processFrameLogged_reply (peer : Peer) (lost : Bool) {store : DataStore}
    {header : MBAPHeader} {adu response : Bytes} {device device' : Device}
    (modbus : header.protocolId = protocolId) (unit : store.get header.unitId = some device)
    (answered : processPdu device (adu.drop mbapHeaderLen) = (.ok response, device'))
    (fits : (aduHeader header.transactionId header.unitId response).Fits) {record : LogRecord}
    (logged : logRequest peer header (adu.drop mbapHeaderLen) response = .ok record) :
    processFrameLogged peer lost store header adu =
      ⟨(aduHeader header.transactionId header.unitId response).wire ++ response,
        if lost then .error .connectionLost else .ok record,
        store.update header.unitId device'⟩ := by
  rw [processFrameLogged, if_neg (not_not.mpr modbus), unit]
  simp only [answered, buildAdu_eq fits, logged]
  cases lost <;> rfl

theorem processFrameLogged_known (peer : Peer) (lost : Bool) {store : DataStore}
    (wellFormed : store.All Device.WellFormed) {header : MBAPHeader} {adu : Bytes}
    (decoded : decodeMbap adu = .ok header) (modbus : header.protocolId = protocolId)
    {device : Device} (unit : store.get header.unitId = some device) :
    ∃ reply store' record, processFrame store header adu = (.ok reply, store') ∧
      processFrameLogged peer lost store header adu =
        ⟨reply, if lost then .error .connectionLost else .ok record, store'⟩ ∧
      Tells peer store adu record store' := by
  have fields := header_of_decoded decoded
  have protocol : wordAt adu 2 = 0 := by
    have same : header.protocolId = wordAt adu 2 := by rw [fields]
    simp only [protocolId] at modbus
    omega
  have unitId : header.unitId = byteAt adu 6 := by rw [fields]
  obtain ⟨_, found, fits, _⟩ := decodeMbap_long (long_of_decoded decoded)
  cases decoded.symm.trans found
  rcases processPdu_cases (wellFormed _ _ unit) (adu.drop mbapHeaderLen) with
    ⟨first, code, answered⟩ | ⟨r, request, encodable, inRange, inside, answered⟩
  · have short : (exceptionPdu first code).length ≤ maxPduLen := show 2 ≤ 253 by decide
    have reply := aduHeader_fits fits.1 fits.2.2.2 short
    have served := processFrame_reply modbus unit answered reply
    have logged := processFrameLogged_reply peer lost modbus unit answered reply
      (logRequest_exception peer header _ first (UInt8.ofNat code))
    rw [DataStore.update_of_get unit] at served logged
    refine ⟨_, store, _, served, logged, ?_⟩
    rw [unitId] at unit ⊢
    exact .refused protocol unit answered
  · obtain ⟨_, _, most⟩ := answer_encodable (wellFormed _ _ unit) encodable inRange inside
    have reply := aduHeader_fits fits.1 fits.2.2.2 (most.trans (by decide))
    have served := processFrame_reply modbus unit answered reply
    have logged := processFrameLogged_reply peer lost modbus unit answered reply
      (logRequest_answer peer header _ device r)
    rw [requestFields_decoded peer _ request] at logged
    refine ⟨_, _, _, served, logged, ?_⟩
    rw [unitId] at unit ⊢
    exact .carriedOut protocol unit request inRange inside

/-- A frame is logged as what has become of it, unless its reply is lost. Logging it does not
raise. -/
theorem processFrameLogged_spec (peer : Peer) (lost : Bool) {store : DataStore}
    (wellFormed : store.All Device.WellFormed) {header : MBAPHeader} {adu : Bytes}
    (decoded : decodeMbap adu = .ok header) :
    ∃ reply store' record, processFrame store header adu = (.ok reply, store') ∧
      processFrameLogged peer lost store header adu =
        ⟨reply, if lost ∧ Drains store adu then .error .connectionLost else .ok record, store'⟩ ∧
      Tells peer store adu record store' := by
  have fields := header_of_decoded decoded
  have protocol : header.protocolId = wordAt adu 2 := by rw [fields]
  have unitId : header.unitId = byteAt adu 6 := by rw [fields]
  by_cases foreign : header.protocolId ≠ protocolId
  · have other : wordAt adu 2 ≠ 0 := by
      simp only [protocolId] at foreign
      omega
    have tells : Tells peer store adu _ store := .foreign other
    refine ⟨[], store, _, if_pos foreign, ?_, tells⟩
    rw [if_neg fun both => other both.2.1, processFrameLogged, if_pos foreign, protocol]
    rfl
  · have modbus : wordAt adu 2 = 0 := by
      simp only [protocolId] at foreign
      omega
    cases unit : store.get header.unitId with
    | none =>
      have unknown := unit
      rw [unitId] at unknown
      refine ⟨[], store, _, by simp [processFrame, foreign, unit], ?_, .unknown modbus unknown⟩
      rw [if_neg fun both => by simp [Drains, unknown] at both, processFrameLogged, if_neg foreign]
      simp only [unit]
      rw [unitId]
      rfl
    | some device =>
      have drains : Drains store adu := ⟨modbus, by rw [← unitId, unit]; rfl⟩
      simp only [drains, and_true]
      exact processFrameLogged_known peer lost wellFormed decoded (not_not.mp foreign) unit

/-! ### Serving with a log -/

/-- What is logged and written of frames. Unless a reply is lost, nothing else has changed. -/
structure Recounts (peer : Peer) (lost : Nat → Bool) (n : Nat) (store : DataStore)
    (frames : List Bytes) (served : Served) (logged : Logged) (gone : Bool) : Prop where
  tells : TellsAll peer lost n store frames logged.records logged.store gone
  answers : Answers store (frames.take (logged.records.length + 1)) logged.written logged.store
  ending : gone = true → logged.raised = some .connectionLost
  same : gone = false → logged = served.logged logged.records

theorem Recounts.lost_append {peer : Peer} {lost : Nat → Bool} {n : Nat} {store : DataStore}
    {frames : List Bytes} {served : Served} {logged : Logged}
    (recounts : Recounts peer lost n store frames served logged true) (other : Served)
    (others : List Bytes) : Recounts peer lost n store (frames ++ others) other logged true := by
  obtain ⟨tells, answers, ending, _⟩ := recounts
  have length : logged.records.length < frames.length := by simpa using tells.length
  refine ⟨tells.lost_append rfl others, ?_, ending, by simp⟩
  rwa [List.take_append_of_le_length (Nat.succ_le_of_lt length)]

theorem Recounts.append {peer : Peer} {lost : Nat → Bool} {n : Nat} {store : DataStore}
    {frames others : List Bytes} {served rest : Served} {now later : Logged} {gone : Bool}
    (first : Recounts peer lost n store frames served now false)
    (second : Recounts peer lost (n + now.records.length) now.store others rest later gone) :
    Recounts peer lost n store (frames ++ others)
      ⟨served.written ++ rest.written, rest.store, rest.framer, rest.raised⟩
      ⟨now.written ++ later.written, now.records ++ later.records, later.store, later.framer,
        later.raised⟩ gone := by
  have length : now.records.length = frames.length := by simpa using first.tells.length
  have answers := first.answers
  rw [List.take_of_length_le (by omega)] at answers
  refine ⟨first.tells.append rfl second.tells, ?_, second.ending, fun goesOn => ?_⟩
  · rw [List.length_append, length, Nat.add_assoc, List.take_length_add_append]
    exact answers.append second.answers
  · rw [first.same rfl, second.same goesOn]
    rfl

theorem serveFramesLogged_lost {peer : Peer} {lost : Nat → Bool} {n : Nat}
    {framer framer' : StreamFramer} {header : MBAPHeader} {adu reply : Bytes}
    (taken : framer.nextFrame = (.ok (some (header, adu)), framer')) {store store' : DataStore}
    (logged : processFrameLogged peer (lost n) store header adu =
      ⟨reply, .error .connectionLost, store'⟩) :
    serveFramesLogged peer lost n framer store =
      ⟨reply, [], store', framer', some .connectionLost⟩ := by
  rw [serveFramesLogged]
  split <;> simp_all

theorem serveFramesLogged_next {peer : Peer} {lost : Nat → Bool} {n : Nat}
    {framer framer' : StreamFramer} {header : MBAPHeader} {adu reply : Bytes} {record : LogRecord}
    (taken : framer.nextFrame = (.ok (some (header, adu)), framer')) {store store' : DataStore}
    (logged : processFrameLogged peer (lost n) store header adu = ⟨reply, .ok record, store'⟩) :
    serveFramesLogged peer lost n framer store =
      ⟨reply ++ (serveFramesLogged peer lost (n + 1) framer' store').written,
        record :: (serveFramesLogged peer lost (n + 1) framer' store').records,
        (serveFramesLogged peer lost (n + 1) framer' store').store,
        (serveFramesLogged peer lost (n + 1) framer' store').framer,
        (serveFramesLogged peer lost (n + 1) framer' store').raised⟩ := by
  rw [serveFramesLogged]
  split <;> simp_all

theorem serveFramesLogged_spec (peer : Peer) (lost : Nat → Bool) (n : Nat) (s : Bytes)
    {store : DataStore} (wellFormed : store.All Device.WellFormed) :
    ∃ gone, Recounts peer lost n store (aduProtocol.drain s).frames (serveFrames ⟨s⟩ store)
      (serveFramesLogged peer lost n ⟨s⟩ store) gone := by
  induction s using aduProtocol.drain_induction generalizing n store with
  | more s start =>
    have logged : serveFramesLogged peer lost n ⟨s⟩ store = ⟨[], [], store, ⟨s⟩, none⟩ := by
      rw [serveFramesLogged]
      split <;> simp_all [nextFrame_more start]
    rw [serveFrames_more start, logged, aduProtocol.drain_more start]
    exact ⟨false, .nil, .nil, by simp, fun _ => rfl⟩
  | bad s e start =>
    have logged : serveFramesLogged peer lost n ⟨s⟩ store =
        ⟨[], [], store, ⟨s⟩, some (.raised e)⟩ := by
      rw [serveFramesLogged]
      split <;> simp_all [nextFrame_bad start]
    rw [serveFrames_bad start, logged, aduProtocol.drain_bad start]
    exact ⟨false, .nil, .nil, by simp, fun _ => rfl⟩
  | frame s size start ih =>
    obtain ⟨header, decoded, _, taken⟩ := nextFrame_frame start
    obtain ⟨reply, mid, record, processed, logged, tells⟩ :=
      processFrameLogged_spec peer (lost n) wellFormed decoded
    obtain ⟨_, _, same, contributes, stays⟩ := processFrame_spec wellFormed decoded
    cases processed.symm.trans same
    rw [aduProtocol.drain_frame start]
    by_cases gone : lost n = true ∧ Drains store (s.take size)
    · rw [if_pos gone] at logged
      rw [serveFramesLogged_lost taken logged]
      refine ⟨true, .lost tells gone.2 gone.1, ?_, fun _ => rfl, by simp⟩
      simpa using Answers.cons contributes .nil
    · rw [if_neg gone] at logged
      obtain ⟨ended, told, answers, ending, plain⟩ := ih (n + 1) stays
      have kept : Drains store (s.take size) → lost n = false := fun drains =>
        eq_false_of_ne_true fun raises => gone ⟨raises, drains⟩
      rw [serveFramesLogged_next taken logged, serveFrames_next taken processed]
      refine ⟨ended, .cons tells kept told, .cons contributes answers, ending, fun goesOn => ?_⟩
      rw [plain goesOn]
      rfl

theorem serveLogged_spec (peer : Peer) (lost : Nat → Bool) {chunks : List Bytes}
    (nonempty : ∀ data ∈ chunks, data ≠ []) (n : Nat) (buffer : Bytes) {store : DataStore}
    (wellFormed : store.All Device.WellFormed) :
    ∃ gone, Recounts peer lost n store (aduProtocol.feedAll buffer chunks).frames
      (serve ⟨buffer⟩ store chunks) (serveLogged peer lost n ⟨buffer⟩ store chunks) gone := by
  induction chunks generalizing n buffer store with
  | nil => exact ⟨false, .nil, .nil, by simp, fun _ => rfl⟩
  | cons data chunks ih =>
    have content := nonempty data List.mem_cons_self
    obtain ⟨out, mid, _, stays, served⟩ := serveFrames_spec (buffer ++ data) wellFormed
    obtain ⟨gone, recounts⟩ := serveFramesLogged_spec peer lost n (buffer ++ data) wellFormed
    rw [served] at recounts
    simp only [serveLogged, serve, if_neg content, served, Protocol.feedAll]
    cases gone with
    | true =>
      simp only [recounts.ending rfl]
      cases stop : (aduProtocol.drain (buffer ++ data)).stop with
      | some e =>
        have all := recounts.lost_append
          ⟨out, mid, ⟨(aduProtocol.drain (buffer ++ data)).rest⟩, some e⟩ []
        rw [List.append_nil] at all
        exact ⟨true, all⟩
      | none => exact ⟨true, recounts.lost_append _ _⟩
    | false =>
      have same := recounts.same rfl
      have raised := congrArg Logged.raised same
      have last := congrArg Logged.store same
      have framer := congrArg Logged.framer same
      simp only [Served.logged] at raised last framer
      cases stop : (aduProtocol.drain (buffer ++ data)).stop with
      | some e =>
        simp only [raised, stop, Option.map_some]
        rw [stop] at recounts
        exact ⟨false, recounts⟩
      | none =>
        obtain ⟨gone, later⟩ := ih (fun data member => nonempty data (by simp [member]))
          (n + (serveFramesLogged peer lost n ⟨buffer ++ data⟩ store).records.length)
          (aduProtocol.drain (buffer ++ data)).rest stays
        rw [← last] at later
        have both := recounts.append later
        simp only [raised, stop, Option.map_none, framer]
        rw [last] at both ⊢
        exact ⟨gone, both⟩

/-! ### The log of a connection -/

def frameRecords (peer : Peer) (lost : Nat → Bool) (store : DataStore) (chunks : List Bytes) :
    List LogRecord :=
  (serveLogged peer lost 0 .new store chunks).records

theorem recounts_handleClient (peer : Peer) (lost : Nat → Bool) {store : DataStore}
    (wellFormed : store.All Device.WellFormed) {chunks : List Bytes}
    (nonempty : ∀ data ∈ chunks, data ≠ []) :
    ∃ gone, Recounts peer lost 0 store (parse chunks.flatten).1 (handleClient store chunks)
      (serveLogged peer lost 0 .new store chunks) gone := by
  have settled : aduProtocol.head ([] : Bytes) = .more := rfl
  obtain ⟨_, fed, _⟩ := aduProtocol.feedAll_eq chunks settled
  have spec := serveLogged_spec peer lost nonempty 0 [] wellFormed
  rw [fed, List.nil_append] at spec
  rw [parse_eq]
  exact spec

/-- A connection is logged with one line for each frame of its stream, in their order, that tells
what has become of it, up to a frame whose reply is lost. The frames up to that one are answered and
change the store as they do without a log; there is a line for a framing error that ends the
connection, and none if it is lost. -/
theorem log_tells (peer : Peer) (lost : Nat → Bool) {store : DataStore}
    (wellFormed : store.All Device.WellFormed) {chunks : List Bytes}
    (nonempty : ∀ data ∈ chunks, data ≠ []) :
    ∃ records closing gone,
      (handleClientLogged peer lost store chunks).records =
        connectRecord peer :: records ++ closing ++ [disconnectRecord peer] ∧
      TellsAll peer lost 0 store (parse chunks.flatten).1 records
        (handleClientLogged peer lost store chunks).store gone ∧
      Answers store ((parse chunks.flatten).1.take (records.length + 1))
        (handleClientLogged peer lost store chunks).written
        (handleClientLogged peer lost store chunks).store ∧
      closing.length = (if gone = false ∧ (parse chunks.flatten).2 then 1 else 0) ∧
      (gone = true → (handleClientLogged peer lost store chunks).raised = some .connectionLost) ∧
      (gone = false → handleClientLogged peer lost store chunks =
        (handleClient store chunks).logged
          (handleClientLogged peer lost store chunks).records) := by
  obtain ⟨gone, tells, answers, ending, same⟩ := recounts_handleClient peer lost wellFormed nonempty
  refine ⟨_, closingRecords peer (serveLogged peer lost 0 .new store chunks).raised, gone, rfl,
    tells, answers, ?_, ending, fun goesOn => ?_⟩
  · cases gone with
    | true => rw [ending rfl]; rfl
    | false =>
      obtain ⟨_, framing, quiet, _⟩ := handleClient_spec wellFormed nonempty
      have raised := congrArg Logged.raised (same rfl)
      simp only [Served.logged] at raised
      cases broken : (parse chunks.flatten).2 with
      | true =>
        obtain ⟨message, stop⟩ := framing.mpr broken
        rw [raised, stop]
        rfl
      | false =>
        rw [raised, quiet broken]
        rfl
  · have plain := same goesOn
    rw [handleClientLogged]
    exact congrArg (fun logged : Logged => { logged with
      records := (handleClientLogged peer lost store chunks).records }) plain

def localPeer : Peer := .tuple ["127.0.0.1", "40000"] "('127.0.0.1', 40000)"

def twoWrites : List Bytes :=
  [[0, 1, 0, 0, 0, 6, 1, 6, 0, 9, 0, 1, 0, 2, 0], [0, 0, 6, 1, 6, 0, 1, 0, 9],
    [0, 3, 0, 0, 0, 6, 1, 3, 0, 0, 0, 2]]

def secondLost (n : Nat) : Bool := n = 1

theorem log_tells_twoWrites : ∃ records closing gone,
    (handleClientLogged localPeer secondLost (.single sampleDevice) twoWrites).records =
        connectRecord localPeer :: records ++ closing ++ [disconnectRecord localPeer] ∧
      TellsAll localPeer secondLost 0 (.single sampleDevice) (parse twoWrites.flatten).1 records
        (handleClientLogged localPeer secondLost (.single sampleDevice) twoWrites).store gone := by
  obtain ⟨records, closing, gone, lines, tells, _⟩ := @log_tells localPeer secondLost _
    (DataStore.single_all sampleDevice_wellFormed) twoWrites (by decide)
  exact ⟨records, closing, gone, lines, tells⟩

example : frameRecords localPeer secondLost (.single sampleDevice) twoWrites =
    [⟨.warning, "req peer=127.0.0.1:40000 unit=1 fc=0x06 addr=9 val=1 -> exc=02"⟩] := by
  decide +kernel

def recorded (peer : Peer) (store : DataStore) (frame : Bytes) :
    Except Ended LogRecord × DataStore :=
  let now := processFrameLogged peer false store (headerOf frame) frame
  (now.logged, now.store)

theorem recorded_spec (peer : Peer) {store : DataStore} (wellFormed : store.All Device.WellFormed)
    {frame : Bytes} (complete : aduProtocol.head frame = .frame frame.length) :
    ∃ record, (recorded peer store frame).1 = .ok record ∧
      Tells peer store frame record (recorded peer store frame).2 ∧
      (recorded peer store frame).2.All Device.WellFormed := by
  obtain ⟨header, decoded, _⟩ := verdict_frame_iff.mp complete
  obtain ⟨_, _, record, processed, logged, tells⟩ :=
    processFrameLogged_spec peer false wellFormed decoded
  obtain ⟨_, _, same, _, stays⟩ := processFrame_spec wellFormed decoded
  cases processed.symm.trans same
  rw [recorded, headerOf, decoded]
  simp only [logged]
  exact ⟨record, rfl, tells, stays⟩

theorem Tells.recorded_eq {peer : Peer} {store next : DataStore}
    (wellFormed : store.All Device.WellFormed) {frame : Bytes}
    (complete : aduProtocol.head frame = .frame frame.length) {record : LogRecord}
    (tells : Tells peer store frame record next) :
    recorded peer store frame = (.ok record, next) ∧ next.All Device.WellFormed := by
  obtain ⟨_, told, tells', stays⟩ := recorded_spec peer wellFormed complete
  obtain ⟨rfl, rfl⟩ := tells.unique wellFormed tells'
  exact ⟨Prod.ext told rfl, stays⟩

/-- The lines tell of a run of the first frames; the frame after them is the one that is lost. -/
theorem TellsAll.run_recorded {peer : Peer} {lost : Nat → Bool} {n : Nat} {store last : DataStore}
    {frames : List Bytes} {records : List LogRecord} {gone : Bool}
    (tells : TellsAll peer lost n store frames records last gone)
    (complete : ∀ f ∈ frames, aduProtocol.head f = .frame f.length)
    (wellFormed : store.All Device.WellFormed) :
    ∃ (mid : DataStore) (more : List LogRecord),
      run (recorded peer) store (frames.take records.length) = (records.map .ok, mid) ∧
      run (recorded peer) mid ((frames.drop records.length).take 1) = (more.map .ok, last) := by
  induction tells with
  | @nil _ store => exact ⟨store, [], rfl, rfl⟩
  | cons first _ _ ih =>
    obtain ⟨whole, others⟩ := List.forall_mem_cons.mp complete
    obtain ⟨step, stays⟩ := first.recorded_eq wellFormed whole
    obtain ⟨mid, more, ran, rest⟩ := ih others stays
    refine ⟨mid, more, ?_, rest⟩
    rw [List.length_cons, List.take_succ_cons, run, step, ran]
    rfl
  | @lost _ store _ frame _ record first =>
    obtain ⟨step, _⟩ := first.recorded_eq wellFormed (complete frame List.mem_cons_self)
    refine ⟨store, [record], rfl, ?_⟩
    simp only [List.length_nil, List.drop_zero, List.take_succ_cons, List.take_zero, run, step]
    rfl

theorem TellsAll.run_kept {peer : Peer} {lost : Nat → Bool} {n : Nat} {store last : DataStore}
    {frames : List Bytes} {records : List LogRecord}
    (tells : TellsAll peer lost n store frames records last false)
    (complete : ∀ f ∈ frames, aduProtocol.head f = .frame f.length)
    (wellFormed : store.All Device.WellFormed) :
    run (recorded peer) store frames = (records.map .ok, last) := by
  have length : records.length = frames.length := tells.length
  obtain ⟨mid, more, ran, rest⟩ := tells.run_recorded complete wellFormed
  rw [length, List.drop_length, List.take_nil] at rest
  obtain ⟨_, rfl⟩ := Prod.mk.inj rest
  rwa [length, List.take_length] at ran

theorem TellsAll.never_lost {peer : Peer} {n : Nat} {store last : DataStore} {frames : List Bytes}
    {records : List LogRecord} {gone : Bool}
    (tells : TellsAll peer (fun _ => false) n store frames records last gone) : gone = false := by
  induction tells with
  | nil => rfl
  | cons _ _ _ ih => exact ih
  | lost _ _ raises => cases raises

def LogRecord.isInfo (record : LogRecord) : Bool := record.level = .info

def carriedOutFrames (peer : Peer) (lost : Nat → Bool) (store : DataStore) (chunks : List Bytes) :
    List Bytes :=
  loudInputs LogRecord.isInfo (parse chunks.flatten).1 (frameRecords peer lost store chunks)

def lostFrame (peer : Peer) (lost : Nat → Bool) (store : DataStore) (chunks : List Bytes) :
    List Bytes :=
  ((parse chunks.flatten).1.drop (frameRecords peer lost store chunks).length).take 1

def toldOfInfo : Except Ended LogRecord → Bool
  | .ok record => record.isInfo
  | .error _ => false

/-- The frames that are logged as carried out are all that a run needs. -/
theorem run_carriedOut {peer : Peer} {store mid : DataStore} {frames : List Bytes}
    {records : List LogRecord} (complete : ∀ f ∈ frames, aduProtocol.head f = .frame f.length)
    (wellFormed : store.All Device.WellFormed)
    (ran : run (recorded peer) store (frames.take records.length) = (records.map .ok, mid)) :
    run (recorded peer) store (loudInputs LogRecord.isInfo frames records) =
      ((records.filter LogRecord.isInfo).map .ok, mid) := by
  have keeps : ∀ (store : DataStore) (frame : Bytes), store.All Device.WellFormed →
      aduProtocol.head frame = .frame frame.length →
      (recorded peer store frame).2.All Device.WellFormed := by
    intro store frame holds whole
    obtain ⟨_, _, _, stays⟩ := recorded_spec peer holds whole
    exact stays
  have quiet : ∀ (store : DataStore) (frame : Bytes), store.All Device.WellFormed →
      aduProtocol.head frame = .frame frame.length →
      toldOfInfo (recorded peer store frame).1 = false → (recorded peer store frame).2 = store := by
    intro store frame holds whole silent
    obtain ⟨record, told, tells, _⟩ := recorded_spec peer holds whole
    rw [told] at silent
    refine tells.unchanged ?_
    cases level : record.level with
    | info => simp [toldOfInfo, LogRecord.isInfo, level] at silent
    | warning => rfl
  have heard : loudInputs LogRecord.isInfo frames records = loudInputs toldOfInfo
      (frames.take records.length) (run (recorded peer) store (frames.take records.length)).1 := by
    rw [ran, loudInputs_map, loudInputs_take]
    rfl
  have first : ∀ f ∈ frames.take records.length, aduProtocol.head f = .frame f.length :=
    fun f member => complete f (List.mem_of_mem_take member)
  rw [heard, run_loudInputs keeps quiet first wellFormed, ran, List.filter_map]
  rfl

/-- The frames that are logged as carried out and the one that was lost, sent alone in whatever
chunks to a client that keeps the connection, make the same of the store. They are logged with the
same lines, and one for the frame that was lost. -/
theorem carriedOut_replayed (peer : Peer) (lost : Nat → Bool) {store : DataStore}
    (wellFormed : store.All Device.WellFormed) {chunks : List Bytes}
    (nonempty : ∀ data ∈ chunks, data ≠ []) {again : List Bytes} (full : ∀ data ∈ again, data ≠ [])
    (only : again.flatten = (carriedOutFrames peer lost store chunks ++
      lostFrame peer lost store chunks).flatten) :
    (handleClient store again).store = (handleClientLogged peer lost store chunks).store ∧
      ∃ more, (handleClientLogged peer (fun _ => false) store again).records =
          connectRecord peer :: (frameRecords peer lost store chunks).filter LogRecord.isInfo ++
            more ++ [disconnectRecord peer] ∧
        more.length = (lostFrame peer lost store chunks).length := by
  obtain ⟨gone, tells, _⟩ := recounts_handleClient peer lost wellFormed nonempty
  obtain ⟨never, toldAgain, _, _, same⟩ :=
    recounts_handleClient peer (fun _ => false) wellFormed full
  cases toldAgain.never_lost
  have complete : ∀ f ∈ (parse chunks.flatten).1, aduProtocol.head f = .frame f.length := by
    rw [parse_eq]
    exact fun f member => aduProtocol.head_of_mem_frames member
  obtain ⟨mid, more, ran, rest⟩ := tells.run_recorded complete wellFormed
  have carried : run (recorded peer) store (carriedOutFrames peer lost store chunks) =
      (((frameRecords peer lost store chunks).filter LogRecord.isInfo).map .ok, mid) :=
    run_carriedOut complete wellFormed ran
  have last : run (recorded peer) mid (lostFrame peer lost store chunks) =
      (more.map .ok, (handleClientLogged peer lost store chunks).store) := rest
  have whole : ∀ f ∈ carriedOutFrames peer lost store chunks ++ lostFrame peer lost store chunks,
      aduProtocol.head f = .frame f.length := by
    intro f member
    refine complete f ((List.mem_append.mp member).elim mem_of_mem_loudInputs fun listed => ?_)
    exact List.mem_of_mem_drop (List.mem_of_mem_take listed)
  have parsed : parse again.flatten =
      (carriedOutFrames peer lost store chunks ++ lostFrame peer lost store chunks, false) := by
    have settled : aduProtocol.head ([] : Bytes) = .more := rfl
    have cut := aduProtocol.drain_flatten whole []
    rw [aduProtocol.drain_more settled, List.append_nil, List.append_nil] at cut
    rw [only, parse_eq, cut]
    rfl
  rw [parsed] at toldAgain
  have alone := toldAgain.run_kept whole wellFormed
  rw [run_append, carried, last, ← List.map_append] at alone
  obtain ⟨lines, stores⟩ := Prod.mk.inj alone
  have all := List.map_injective_iff.mpr (fun _ _ same => Except.ok.inj same) lines
  have served := same rfl
  obtain ⟨_, _, quiet, _⟩ := handleClient_spec wellFormed full
  refine ⟨(congrArg Logged.store served).symm.trans stores.symm, more, ?_, ?_⟩
  · have raised := congrArg Logged.raised served
    simp only [Served.logged, quiet (congrArg Prod.snd parsed), Option.map_none] at raised
    simp only [handleClientLogged, raised, closingRecords, List.append_nil, ← all,
      List.cons_append]
  · rw [← length_run (recorded peer) mid, last, List.length_map]

theorem carriedOut_replayed_twoWrites :
    (handleClient (.single sampleDevice) [[0, 2, 0, 0, 0, 6, 1, 6, 0, 1, 0, 9]]).store =
      (handleClientLogged localPeer secondLost (.single sampleDevice) twoWrites).store :=
  (carriedOut_replayed localPeer secondLost (DataStore.single_all sampleDevice_wellFormed)
    (by decide) (by decide) (by decide +kernel)).1

end ModbusSim.Server
