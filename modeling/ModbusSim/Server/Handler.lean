import ModbusSim.Dispatch.Dispatcher
import ModbusSim.Server.Framer

/-!
# Serving a connection

`_process_frame` and `_handle_client` of one connection, with the store it works on. The frames
of a chunk are taken from the framer one at a time, each answered before the next is looked for.

What is written back is given by the frames of the stream alone (`Answers`), in whatever chunks
the stream arrives.
-/

namespace ModbusSim.Server

open PyStruct ModbusSim.Frame Framing Store Dispatch

/-- `_process_frame`: the bytes written back, and the store afterwards. -/
def processFrame (store : DataStore) (header : MBAPHeader) (adu : Bytes) :
    Except Exn Bytes × DataStore :=
  if header.protocolId ≠ protocolId then (.ok [], store)
  else
    match store.get header.unitId with
    | none => (.ok [], store)
    | some device =>
      let pdu := adu.drop mbapHeaderLen
      let (response, device') := processPdu device pdu
      (do buildAdu header.transactionId header.unitId (← response),
        store.update header.unitId device')

/-- What serving has written, the store and the framer afterwards, and what ended it early. -/
structure Served where
  written : Bytes
  store : DataStore
  framer : StreamFramer
  raised : Option ServerExn

/-- The loop over the frames of a feed. -/
def serveFrames (framer : StreamFramer) (store : DataStore) : Served :=
  match _next : framer.nextFrame with
  | (.error e, framer') => ⟨[], store, framer', some e⟩
  | (.ok none, framer') => ⟨[], store, framer', none⟩
  | (.ok (some (header, adu)), framer') =>
    match processFrame store header adu with
    | (.error e, store') => ⟨[], store', framer', some (.raised e)⟩
    | (.ok reply, store') =>
      let later := serveFrames framer' store'
      ⟨reply ++ later.written, later.store, later.framer, later.raised⟩
termination_by framer.buffer.length
decreasing_by exact nextFrame_shrinks _next

/-- The loop over the chunks that `reader.read` returns; an empty one is the end of the stream. -/
def serve (framer : StreamFramer) (store : DataStore) : List Bytes → Served
  | [] => ⟨[], store, framer, none⟩
  | data :: chunks =>
    if data = [] then ⟨[], store, framer, none⟩
    else
      let now := serveFrames ⟨framer.buffer ++ data⟩ store
      match now.raised with
      | some _ => now
      | none =>
        let later := serve now.framer now.store chunks
        ⟨now.written ++ later.written, later.store, later.framer, later.raised⟩

/-- `_handle_client`, from a fresh framer. -/
def handleClient (store : DataStore) (chunks : List Bytes) : Served :=
  serve .new store chunks

/-! ### The reference -/

/-- The reference parse: the frames, and whether a bad length field ends them. -/
def parse (s : Bytes) : List Bytes × Bool :=
  if _long : 7 ≤ s.length then
    let length := wordAt s 4
    if ¬ LengthInRange length then ([], true)
    else if s.length < 6 + length then ([], false)
    else (s.take (6 + length) :: (parse (s.drop (6 + length))).1, (parse (s.drop (6 + length))).2)
  else ([], false)
termination_by s.length
decreasing_by all_goals simp only [List.length_drop]; omega

/-- What a frame contributes to the reply stream, and what it makes of the store. -/
inductive Contributes (store : DataStore) (frame : Bytes) : Bytes → DataStore → Prop
  | foreign (protocol : wordAt frame 2 ≠ 0) : Contributes store frame [] store
  | unknown (unit : store.get (byteAt frame 6) = none) : Contributes store frame [] store
  | reply {device device' : Device} {pdu adu : Bytes} (protocol : wordAt frame 2 = 0)
    (unit : store.get (byteAt frame 6) = some device)
    (answered : processPdu device (frame.drop 7) = (.ok pdu, device'))
    (built : buildAdu (wordAt frame 0) (byteAt frame 6) pdu = .ok adu) :
    Contributes store frame adu (store.update (byteAt frame 6) device')

/-- The replies to frames in order, with the store threaded from frame to frame. -/
inductive Answers : DataStore → List Bytes → Bytes → DataStore → Prop
  | nil {store : DataStore} : Answers store [] [] store
  | cons {store mid last : DataStore} {frame reply replies : Bytes} {frames : List Bytes}
    (first : Contributes store frame reply mid) (others : Answers mid frames replies last) :
    Answers store (frame :: frames) (reply ++ replies) last

theorem Contributes.unique {store store₁ store₂ : DataStore} {frame out₁ out₂ : Bytes}
    (first : Contributes store frame out₁ store₁) (second : Contributes store frame out₂ store₂) :
    out₁ = out₂ ∧ store₁ = store₂ := by
  cases first with
  | foreign protocol =>
    cases second with
    | foreign => exact ⟨rfl, rfl⟩
    | unknown => exact ⟨rfl, rfl⟩
    | reply modbus => exact absurd modbus protocol
  | unknown unit =>
    cases second with
    | foreign => exact ⟨rfl, rfl⟩
    | unknown => exact ⟨rfl, rfl⟩
    | reply _ found => cases unit.symm.trans found
  | reply modbus found answered built =>
    cases second with
    | foreign protocol => exact absurd modbus protocol
    | unknown unit => cases unit.symm.trans found
    | reply _ found' answered' built' =>
      cases found.symm.trans found'
      cases answered.symm.trans answered'
      cases built.symm.trans built'
      exact ⟨rfl, rfl⟩

theorem Answers.unique {store store₁ store₂ : DataStore} {frames : List Bytes} {out₁ out₂ : Bytes}
    (first : Answers store frames out₁ store₁) (second : Answers store frames out₂ store₂) :
    out₁ = out₂ ∧ store₁ = store₂ := by
  induction first generalizing out₂ store₂ with
  | nil => cases second; exact ⟨rfl, rfl⟩
  | cons now _ ih =>
    cases second with
    | cons now' later =>
      obtain ⟨rfl, rfl⟩ := now.unique now'
      obtain ⟨rfl, rfl⟩ := ih later
      exact ⟨rfl, rfl⟩

theorem Answers.append {store mid last : DataStore} {frames others : List Bytes} {out more : Bytes}
    (first : Answers store frames out mid) (second : Answers mid others more last) :
    Answers store (frames ++ others) (out ++ more) last := by
  induction first with
  | nil => exact second
  | cons now _ ih =>
    rw [List.append_assoc]
    exact .cons now (ih second)

theorem parse_eq (s : Bytes) :
    parse s = ((aduProtocol.drain s).frames, (aduProtocol.drain s).stop.isSome) := by
  induction s using aduProtocol.drain_induction with
  | more s start =>
    rw [aduProtocol.drain_more start, parse]
    split
    next long =>
      obtain ⟨header, decoded, -⟩ := decodeMbap_long long
      have declared := length_of_decoded decoded
      have wanting : verdict s = .more := start
      rw [verdict_long long decoded, declared] at wanting
      split at wanting
      · cases wanting
      next inRange =>
        split at wanting
        next half => rw [if_neg inRange, if_pos (by exact_mod_cast half)]; rfl
        next => cases wanting
    next => rfl
  | bad s e start =>
    obtain ⟨⟨long, outside⟩, _⟩ := badStart_of_bad start
    change 7 ≤ s.length at long
    rw [aduProtocol.drain_bad start, parse, dif_pos long, if_pos outside]
    rfl
  | frame s n start ih =>
    obtain ⟨header, decoded, range, size, enough⟩ := verdict_frame_iff.mp start
    have long : 7 ≤ s.length := long_of_decoded decoded
    have declared := length_of_decoded decoded
    rw [declared] at range size
    have total : 6 + wordAt s 4 = n := by omega
    rw [aduProtocol.drain_frame start, parse, dif_pos long, if_neg (not_not.mpr range), total,
      if_neg (by omega), ih]

/-! ### Serving computes the reference -/

theorem processFrame_reply {store : DataStore} {header : MBAPHeader} {adu response : Bytes}
    {device device' : Device} (modbus : header.protocolId = protocolId)
    (unit : store.get header.unitId = some device)
    (answered : processPdu device (adu.drop mbapHeaderLen) = (.ok response, device'))
    (fits : (aduHeader header.transactionId header.unitId response).Fits) :
    processFrame store header adu =
      (.ok ((aduHeader header.transactionId header.unitId response).wire ++ response),
        store.update header.unitId device') := by
  rw [processFrame, if_neg (not_not.mpr modbus), unit]
  simp only [answered, Raise.ok_bind, buildAdu_eq fits]

/-- A frame is dropped or answered; serving it never raises. -/
theorem processFrame_spec {store : DataStore} (wellFormed : store.All Device.WellFormed)
    {header : MBAPHeader} {adu : Bytes} (decoded : decodeMbap adu = .ok header) :
    ∃ reply store', processFrame store header adu = (.ok reply, store') ∧
      Contributes store adu reply store' ∧ store'.All Device.WellFormed := by
  have fields := header_of_decoded decoded
  have protocol : header.protocolId = wordAt adu 2 := by rw [fields]
  by_cases foreign : header.protocolId ≠ protocolId
  · refine ⟨[], store, if_pos foreign, .foreign ?_, wellFormed⟩
    simp only [protocolId] at foreign
    omega
  · have modbus : wordAt adu 2 = 0 := by
      simp only [protocolId] at foreign
      omega
    cases unit : store.get header.unitId with
    | none =>
      refine ⟨[], store, by simp [processFrame, foreign, unit], .unknown ?_, wellFormed⟩
      rwa [fields] at unit
    | some device =>
      obtain ⟨response, device', answered, _, short, stays⟩ :=
        processPdu_isOk (wellFormed _ _ unit) (adu.drop 7)
      obtain ⟨_, found, fits, _⟩ := decodeMbap_long (long_of_decoded decoded)
      cases decoded.symm.trans found
      have reply := aduHeader_fits fits.1 fits.2.2.2 short
      refine ⟨_, _, processFrame_reply (not_not.mp foreign) unit answered reply, ?_,
        wellFormed.update stays _⟩
      have built := buildAdu_eq reply
      rw [fields] at unit built ⊢
      exact .reply modbus unit answered built

theorem serveFrames_more {s : Bytes} (start : aduProtocol.head s = .more) (store : DataStore) :
    serveFrames ⟨s⟩ store = ⟨[], store, ⟨s⟩, none⟩ := by
  rw [serveFrames]
  split <;> simp_all [nextFrame_more start]

theorem serveFrames_bad {s : Bytes} {e : ServerExn} (start : aduProtocol.head s = .bad e)
    (store : DataStore) : serveFrames ⟨s⟩ store = ⟨[], store, ⟨s⟩, some e⟩ := by
  rw [serveFrames]
  split <;> simp_all [nextFrame_bad start]

theorem serveFrames_next {framer framer' : StreamFramer} {header : MBAPHeader} {adu reply : Bytes}
    (taken : framer.nextFrame = (.ok (some (header, adu)), framer')) {store store' : DataStore}
    (processed : processFrame store header adu = (.ok reply, store')) :
    serveFrames framer store = ⟨reply ++ (serveFrames framer' store').written,
      (serveFrames framer' store').store, (serveFrames framer' store').framer,
      (serveFrames framer' store').raised⟩ := by
  rw [serveFrames]
  split <;> simp_all

theorem serveFrames_spec (s : Bytes) {store : DataStore} (wellFormed : store.All Device.WellFormed) :
    ∃ out store', Answers store (aduProtocol.drain s).frames out store' ∧
      store'.All Device.WellFormed ∧
      serveFrames ⟨s⟩ store =
        ⟨out, store', ⟨(aduProtocol.drain s).rest⟩, (aduProtocol.drain s).stop⟩ := by
  induction s using aduProtocol.drain_induction generalizing store with
  | more s start =>
    refine ⟨[], store, ?_, wellFormed, ?_⟩
    · rw [aduProtocol.drain_more start]
      exact .nil
    · rw [serveFrames_more start, aduProtocol.drain_more start]
  | bad s e start =>
    refine ⟨[], store, ?_, wellFormed, ?_⟩
    · rw [aduProtocol.drain_bad start]
      exact .nil
    · rw [serveFrames_bad start, aduProtocol.drain_bad start]
  | frame s n start ih =>
    obtain ⟨header, decoded, _, taken⟩ := nextFrame_frame start
    obtain ⟨reply, mid, processed, contributes, stays⟩ := processFrame_spec wellFormed decoded
    obtain ⟨out, last, answers, holds, later⟩ := ih stays
    refine ⟨reply ++ out, last, ?_, holds, ?_⟩
    · rw [aduProtocol.drain_frame start]
      exact .cons contributes answers
    · rw [serveFrames_next taken processed, aduProtocol.drain_frame start, later]

theorem serve_spec {chunks : List Bytes} (nonempty : ∀ data ∈ chunks, data ≠ []) (buffer : Bytes)
    {store : DataStore} (wellFormed : store.All Device.WellFormed) :
    ∃ out store', Answers store (aduProtocol.feedAll buffer chunks).frames out store' ∧
      serve ⟨buffer⟩ store chunks =
        ⟨out, store', ⟨(aduProtocol.feedAll buffer chunks).rest⟩,
          (aduProtocol.feedAll buffer chunks).stop⟩ := by
  induction chunks generalizing buffer store with
  | nil => exact ⟨[], store, .nil, rfl⟩
  | cons data chunks ih =>
    have some := nonempty data (by simp)
    obtain ⟨now, mid, answers, stays, served⟩ := serveFrames_spec (buffer ++ data) wellFormed
    simp only [serve, if_neg some, served, Protocol.feedAll]
    cases stop : (aduProtocol.drain (buffer ++ data)).stop with
    | some e => exact ⟨now, mid, answers, by simp [stop]⟩
    | none =>
      obtain ⟨later, last, others, rest⟩ := ih (fun data member => nonempty data (by simp [member]))
        (aduProtocol.drain (buffer ++ data)).rest stays
      exact ⟨now ++ later, last, answers.append others, by simp [rest]⟩

theorem serve_adu {store : DataStore} (wellFormed : store.All Device.WellFormed)
    {transactionId unitId : Int} {pdu response : Bytes} {device device' : Device}
    (fits : (aduHeader transactionId unitId pdu).Fits) (content : pdu ≠ [])
    (short : pdu.length ≤ maxPduLen) (unit : store.get unitId = some device)
    (answered : processPdu device pdu = (.ok response, device'))
    (replyFits : (aduHeader transactionId unitId response).Fits) {chunks : List Bytes}
    (nonempty : ∀ data ∈ chunks, data ≠ [])
    (whole : chunks.flatten = (aduHeader transactionId unitId pdu).wire ++ pdu) :
    serve .new store chunks =
      ⟨(aduHeader transactionId unitId response).wire ++ response, store.update unitId device',
        .new, none⟩ := by
  have frame := verdict_adu fits content short
  have decoded := decodeMbap_wire fits pdu
  have payload : ((aduHeader transactionId unitId pdu).wire ++ pdu).drop 7 = pdu :=
    List.drop_left' (MBAPHeader.length_wire _)
  generalize (aduHeader transactionId unitId pdu).wire ++ pdu = adu at *
  have fields := header_of_decoded decoded
  rw [aduHeader, MBAPHeader.mk.injEq] at fields
  obtain ⟨rfl, protocol, -, rfl⟩ := fields
  have settled : aduProtocol.head ([] : Bytes) = .more := rfl
  have drained : aduProtocol.drain chunks.flatten = ⟨[adu], [], none⟩ := by
    have one : ∀ f ∈ [adu], aduProtocol.head f = .frame f.length := by
      intro f member
      cases List.mem_singleton.mp member
      exact frame
    have cut := aduProtocol.drain_flatten one []
    rw [aduProtocol.drain_more settled] at cut
    simpa [whole] using cut
  obtain ⟨_, fed, conserved, _⟩ := aduProtocol.feedAll_eq chunks settled
  rw [List.nil_append, drained] at fed conserved
  obtain ⟨out, last, answers, served⟩ := serve_spec nonempty [] wellFormed
  rw [fed] at answers served
  have rest : (aduProtocol.feedAll [] chunks).rest = [] := (List.append_eq_nil_iff.mp conserved).1
  have contributes : Contributes store adu _ _ :=
    .reply (by rw [protocolId] at protocol; omega) unit (payload ▸ answered) (buildAdu_eq replyFits)
  obtain ⟨rfl, rfl⟩ := answers.unique (.cons contributes .nil)
  rw [List.append_nil, rest] at served
  exact served

/-- The peer's bytes decide what is written back, however they are cut: the replies to the frames
of the reference parse. Serving ends with the framing error exactly when the parse does. -/
theorem handleClient_spec {store : DataStore} (wellFormed : store.All Device.WellFormed)
    {chunks : List Bytes} (nonempty : ∀ data ∈ chunks, data ≠ []) :
    Answers store (parse chunks.flatten).1 (handleClient store chunks).written
        (handleClient store chunks).store ∧
      ((∃ message, (handleClient store chunks).raised = some (.protocolError message)) ↔
        (parse chunks.flatten).2) ∧
      ((parse chunks.flatten).2 = false → (handleClient store chunks).raised = none) ∧
      ∀ others : List Bytes, (∀ data ∈ others, data ≠ []) → others.flatten = chunks.flatten →
        (handleClient store others).written = (handleClient store chunks).written ∧
          (handleClient store others).store = (handleClient store chunks).store ∧
          (handleClient store others).raised = (handleClient store chunks).raised := by
  have served : ∀ chunks : List Bytes, (∀ data ∈ chunks, data ≠ []) →
      Answers store (aduProtocol.drain chunks.flatten).frames (handleClient store chunks).written
          (handleClient store chunks).store ∧
        (handleClient store chunks).raised = (aduProtocol.drain chunks.flatten).stop := by
    intro chunks nonempty
    have settled : aduProtocol.head ([] : Bytes) = .more := rfl
    obtain ⟨_, same, _⟩ := aduProtocol.feedAll_eq chunks settled
    obtain ⟨out, last, answers, result⟩ := serve_spec nonempty [] wellFormed
    rw [same] at answers
    have whole : handleClient store chunks = ⟨out, last, _, _⟩ := result
    rw [whole, same]
    exact ⟨answers, rfl⟩
  obtain ⟨answers, ending⟩ := served chunks nonempty
  rw [parse_eq, ending]
  refine ⟨answers, ⟨?_, ?_⟩, ?_, fun others full same => ?_⟩
  · rintro ⟨message, stop⟩
    rw [stop]
    rfl
  · intro stops
    obtain ⟨e, stop⟩ := Option.isSome_iff_exists.mp stops
    have broken := aduProtocol.head_rest chunks.flatten
    rw [stop] at broken
    exact ⟨_, stop.trans (congrArg some (badStart_of_bad broken).2)⟩
  · intro goesOn
    exact Option.not_isSome_iff_eq_none.mp (by simpa using goesOn)
  · obtain ⟨answers', ending'⟩ := served others full
    rw [same] at answers' ending'
    obtain ⟨written, stores⟩ := answers'.unique answers
    exact ⟨written, stores, ending'⟩

def cutRead : List Bytes := [[0, 1, 0, 0, 0], [6, 1, 3, 0, 0, 0, 1]]

theorem handleClient_spec_cutRead :
    Answers (.single sampleDevice) (parse cutRead.flatten).1
      (handleClient (.single sampleDevice) cutRead).written
      (handleClient (.single sampleDevice) cutRead).store :=
  (handleClient_spec (DataStore.single_all sampleDevice_wellFormed) (by decide)).1

end ModbusSim.Server
