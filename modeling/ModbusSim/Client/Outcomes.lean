import ModbusSim.Client.Transact

/-!
# What any call comes to

A call over a settled link, whatever its unit and its arguments. A request that cannot be packed
raises before it is sent; one that is too long for a frame makes the server close the connection;
one to an unknown unit is not answered, and times out; any other is handled (`transact_answered`).
-/

namespace ModbusSim.Client

open PyStruct BitPacking ModbusSim.Frame Framing Store Dispatch Server

def Exchange.Packs (x : Exchange) : Prop :=
  x.call.request.Encodable ∧ 0 ≤ x.unit ∧ x.unit ≤ 255

def lengthField (pdu : Bytes) : Int := 1 + pdu.length

/-- What a call comes to, and the store afterwards. The server takes frames up to
`MAX_LENGTH_FIELD`, which is more than a PDU of `MAX_PDU_LEN` needs. -/
inductive Answered (store : DataStore) (x : Exchange) :
    Except ClientExn Response → DataStore → Prop
  | unpacked (misfit : ¬ x.Packs) : Answered store x (.error (.raised (.py .structError))) store
  | refused (packs : x.Packs) (long : maxLengthField < lengthField x.call.request.wire) :
    Answered store x (.error (.incompleteRead [] mbapHeaderLen)) store
  | ignored (packs : x.Packs) (short : lengthField x.call.request.wire ≤ maxLengthField)
    (unknown : store.get x.unit = none) : Answered store x (.error .timeoutError) store
  | handled (packs : x.Packs) (short : lengthField x.call.request.wire ≤ maxLengthField)
    {device : Device} (found : store.get x.unit = some device) :
    Answered store x (outcome x.call.request (handleRequest device x.call.request).1)
      (store.update x.unit (handleRequest device x.call.request).2)

def wireLength : Request → Nat
  | .writeMultipleCoils _ values => 6 + octets values.length
  | .writeMultipleRegisters _ values => 6 + 2 * values.length
  | _ => 5

theorem length_wire {r : Request} (encodable : r.Encodable) : r.wire.length = wireLength r := by
  cases r with
  | readCoils | readDiscreteInputs | readHoldingRegisters | readInputRegisters | writeSingleCoil
  | writeSingleRegister => exact length_triple ..
  | writeMultipleCoils a vals =>
    rw [Request.wire, List.length_append, length_packed, length_multiHead, wireLength]
  | writeMultipleRegisters a vals =>
    have size := length_registerBytes encodable.2.2
    rw [Request.wire, List.length_append, size, length_multiHead, wireLength]

theorem wireLength_le {r : Request} (encodable : r.Encodable) : wireLength r ≤ 261 := by
  cases r with
  | writeMultipleCoils a vals =>
    have few := encodable.2
    simp only [wireLength, octets]
    omega
  | writeMultipleRegisters a vals =>
    have few := encodable.2.1
    simp only [wireLength]
    omega
  | _ => simp [wireLength]

theorem short_of_inRange {r : Request} (encodable : r.Encodable) (inRange : QuantityInRange r) :
    lengthField r.wire ≤ maxLengthField := by
  obtain ⟨_, most⟩ := inRange
  rw [lengthField, length_wire encodable]
  cases r with
  | writeMultipleCoils a vals =>
    simp only [quantity, limit, maxWriteCoils] at most
    simp only [wireLength, octets, maxLengthField]
    omega
  | writeMultipleRegisters a vals =>
    simp only [quantity, limit, maxWriteRegisters] at most
    simp only [wireLength, maxLengthField]
    omega
  | _ => simp [wireLength, maxLengthField]

theorem Exchange.Packs.fits {x : Exchange} (packs : x.Packs) {tid : Nat} (id : InCycle tid) :
    (aduHeader tid x.unit x.call.request.wire).Fits := by
  have size := length_wire packs.1
  have least := wireLength_le packs.1
  have protocol : IsWord protocolId := by decide
  refine ⟨id.isWord, protocol, ?_, packs.2⟩
  simp only [aduHeader, IsWord, registerMax]
  omega

/-! ### What the server makes of it -/

theorem serve_chunks {store : DataStore} (wellFormed : store.All Device.WellFormed)
    {chunks : List Bytes} (nonempty : ∀ data ∈ chunks, data ≠ []) {frames : List Bytes}
    {rest : Bytes} {stop : Option ServerExn}
    (drained : aduProtocol.drain chunks.flatten = ⟨frames, rest, stop⟩) :
    ∃ out last framer, Answers store frames out last ∧
      serve .new store chunks = ⟨out, last, framer, stop⟩ ∧ (stop = none → framer = ⟨rest⟩) := by
  have settled : aduProtocol.head ([] : Bytes) = .more := rfl
  obtain ⟨unfed, fed, conserved, whole⟩ := aduProtocol.feedAll_eq chunks settled
  obtain ⟨out, last, answers, served⟩ := serve_spec nonempty [] wellFormed
  rw [List.nil_append, drained] at fed conserved
  have frames' := congrArg Outcome.frames fed
  have stop' := congrArg Outcome.stop fed
  rw [frames'] at answers
  rw [stop'] at served whole
  refine ⟨out, last, _, answers, served, fun goesOn => ?_⟩
  rw [whole goesOn, List.append_nil] at conserved
  rw [conserved]

section Chunks

variable {store : DataStore} {transactionId unitId : Int} {pdu : Bytes} {chunks : List Bytes}

theorem head_framed (fits : (aduHeader transactionId unitId pdu).Fits) (content : pdu ≠ [])
    (short : lengthField pdu ≤ maxLengthField) {adu : Bytes}
    (whole : adu = (aduHeader transactionId unitId pdu).wire ++ pdu) :
    aduProtocol.head adu = .frame adu.length := by
  have least := List.length_pos_iff.mpr content
  have size : adu.length = 7 + pdu.length := by
    rw [whole, List.length_append, MBAPHeader.length_wire, mbapHeaderLen]
  refine verdict_frame_iff.mpr ⟨_, whole ▸ decodeMbap_wire fits pdu, ⟨?_, short⟩, ?_, le_rfl⟩
  · simp only [aduHeader, minLengthField]
    omega
  · simp only [aduHeader, size]
    omega

theorem head_refused (fits : (aduHeader transactionId unitId pdu).Fits)
    (long : maxLengthField < lengthField pdu) :
    aduProtocol.head ((aduHeader transactionId unitId pdu).wire ++ pdu) =
      .bad (invalidLength (aduHeader transactionId unitId pdu).length) := by
  have outside : ¬ LengthInRange (aduHeader transactionId unitId pdu).length :=
    fun range => Int.not_le.mpr long range.2
  exact verdict_bad_iff.mpr ⟨_, decodeMbap_wire fits pdu, outside, rfl⟩

theorem drain_framed (fits : (aduHeader transactionId unitId pdu).Fits) (content : pdu ≠ [])
    (short : lengthField pdu ≤ maxLengthField) {adu : Bytes}
    (whole : adu = (aduHeader transactionId unitId pdu).wire ++ pdu) :
    aduProtocol.drain adu = ⟨[adu], [], none⟩ := by
  rw [aduProtocol.drain_frame (head_framed fits content short whole), List.take_length,
    List.drop_length, aduProtocol.drain_more rfl]

theorem serve_framed (wellFormed : store.All Device.WellFormed)
    (fits : (aduHeader transactionId unitId pdu).Fits) (content : pdu ≠ [])
    (short : lengthField pdu ≤ maxLengthField) (nonempty : ∀ data ∈ chunks, data ≠ []) {adu : Bytes}
    (whole : adu = (aduHeader transactionId unitId pdu).wire ++ pdu) (cut : chunks.flatten = adu)
    {reply : Bytes} {last : DataStore} (contributes : Contributes store adu reply last) :
    serve .new store chunks = ⟨reply, last, .new, none⟩ := by
  have drained := drain_framed fits content short whole
  rw [← cut] at drained
  obtain ⟨out, after, framer, answers, served, rest⟩ := serve_chunks wellFormed nonempty drained
  rw [cut] at answers
  obtain ⟨rfl, rfl⟩ := answers.unique (.cons contributes .nil)
  rw [served, rest rfl, List.append_nil]
  rfl

theorem serve_refused (wellFormed : store.All Device.WellFormed)
    (fits : (aduHeader transactionId unitId pdu).Fits) (long : maxLengthField < lengthField pdu)
    (nonempty : ∀ data ∈ chunks, data ≠ [])
    (cut : chunks.flatten = (aduHeader transactionId unitId pdu).wire ++ pdu) :
    ∃ framer e, serve .new store chunks = ⟨[], store, framer, some e⟩ := by
  have drained := aduProtocol.drain_bad (head_refused fits long)
  rw [← cut] at drained
  obtain ⟨out, last, framer, answers, served, _⟩ := serve_chunks wellFormed nonempty drained
  obtain ⟨rfl, rfl⟩ := answers.unique .nil
  exact ⟨framer, _, served⟩

end Chunks

/-! ### What the client makes of it -/

theorem receive_nothing (transactionId : Nat) (bitCount : Option Int) (down : Cutting) (eof : Bool) :
    (receive transactionId bitCount ⟨[], down.cut [], eof⟩).1 =
      .error (if eof then .incompleteRead [] mbapHeaderLen else .timeoutError) := by
  have none : down.cut [] = [] := by
    apply List.eq_nil_iff_forall_not_mem.mpr
    intro chunk member
    have empty := List.flatten_eq_nil_iff.mp (down.flatten_cut []) chunk member
    exact down.nonempty [] chunk member empty
  rw [none]
  cases eof <;> rfl

theorem send_unpacked {x : Exchange} (misfit : ¬ x.Packs) (tid : Nat) :
    ∃ client, ModbusClient.send ⟨true, tid⟩ x.unit x.call.request =
      (.error (.raised (.py .structError)), client) := by
  by_cases encodable : x.call.request.Encodable
  · have unit : ¬ (0 ≤ x.unit ∧ x.unit ≤ 255) := fun byte => misfit ⟨encodable, byte⟩
    have outside : ¬ (aduHeader tid x.unit x.call.request.wire).Fits := fun fits => unit fits.2.2.2
    have refused := pack_of_not_fit (mt MBAPHeader.fits_iff.mpr outside)
    simp only [aduHeader] at refused
    refine ⟨_, Prod.ext ?_ rfl⟩
    simp only [ModbusClient.send, ModbusClient.nextTid, not_true_eq_false, if_false,
      (encodeRequestPdu_eq _).1 encodable, Raise.ok_bind, buildAdu, refused]
    rfl
  · refine ⟨_, Prod.ext ?_ rfl⟩
    simp only [ModbusClient.send, ModbusClient.nextTid, not_true_eq_false, if_false,
      (encodeRequestPdu_eq _).2 encodable]
    rfl

section Calls

variable {store : DataStore} {tid : Nat} {x : Exchange} {adu : Bytes}

theorem Exchange.Packs.fields (packs : x.Packs) (id : InCycle tid)
    (whole : adu = (aduHeader tid x.unit x.call.request.wire).wire ++ x.call.request.wire) :
    (tid : Int) = wordAt adu 0 ∧ wordAt adu 2 = 0 ∧ x.unit = byteAt adu 6 ∧
      adu.drop 7 = x.call.request.wire := by
  have fields := header_of_decoded (decodeMbap_wire (packs.fits id) x.call.request.wire)
  rw [← whole, aduHeader, MBAPHeader.mk.injEq, protocolId] at fields
  obtain ⟨same, protocol, _, unit⟩ := fields
  refine ⟨same, by omega, unit, ?_⟩
  rw [whole]
  exact List.drop_left' (MBAPHeader.length_wire _)

theorem transact_ignored (wellFormed : store.All Device.WellFormed) (id : InCycle tid)
    (packs : x.Packs) (short : lengthField x.call.request.wire ≤ maxLengthField)
    (unknown : store.get x.unit = none) :
    (transact (settled store tid) x).1.outcome = .error .timeoutError ∧
      (transact (settled store tid) x).2.store = store := by
  have fits := packs.fits id
  have sent := send_eq rfl packs.1 fits
  obtain ⟨adu, whole⟩ : ∃ adu, adu = (aduHeader tid x.unit x.call.request.wire).wire ++
    x.call.request.wire := ⟨_, rfl⟩
  obtain ⟨_, _, unit, _⟩ := packs.fields id whole
  have served := serve_framed wellFormed fits (wire_ne_nil _) short (x.up.nonempty adu) whole
    (x.up.flatten_cut adu) (.unknown (unit ▸ unknown))
  have nothing := receive_nothing tid x.call.bitCount x.down false
  rw [← whole] at sent
  simp [transact, settled, sent, served, nothing]

theorem transact_refused (wellFormed : store.All Device.WellFormed) (id : InCycle tid)
    (packs : x.Packs) (long : maxLengthField < lengthField x.call.request.wire) :
    (transact (settled store tid) x).1.outcome = .error (.incompleteRead [] mbapHeaderLen) ∧
      (transact (settled store tid) x).2.store = store := by
  have fits := packs.fits id
  have sent := send_eq rfl packs.1 fits
  obtain ⟨framer, e, served⟩ :=
    serve_refused wellFormed fits long (x.up.nonempty _) (x.up.flatten_cut _)
  have nothing := receive_nothing tid x.call.bitCount x.down true
  simp [transact, settled, sent, served, nothing]

theorem transact_handled (wellFormed : store.All Device.WellFormed) (id : InCycle tid)
    (packs : x.Packs) (short : lengthField x.call.request.wire ≤ maxLengthField) {device : Device}
    (found : store.get x.unit = some device) :
    (transact (settled store tid) x).1.outcome =
        outcome x.call.request (handleRequest device x.call.request).1 ∧
      (transact (settled store tid) x).2 =
        settled (store.update x.unit (handleRequest device x.call.request).2)
          (ModbusClient.nextTid ⟨true, tid⟩).2.tid := by
  have fits := packs.fits id
  have wellFormedDevice := wellFormed _ _ found
  have sent := send_eq rfl packs.1 fits
  obtain ⟨adu, whole⟩ : ∃ adu, adu = (aduHeader tid x.unit x.call.request.wire).wire ++
    x.call.request.wire := ⟨_, rfl⟩
  obtain ⟨same, protocol, unit, payload⟩ := packs.fields id whole
  obtain ⟨replyEncodable, _, _, most⟩ := typedReply_encodable wellFormedDevice packs.1
  have replyFits := aduHeader_fits id.isWord packs.2 most
  have answered := processPdu_wire packs.1 device
  rw [(encodeResponsePdu_eq _).1 replyEncodable, ← payload] at answered
  have contributes : Contributes store adu _ _ :=
    .reply protocol (unit ▸ found) answered (same ▸ unit ▸ buildAdu_eq replyFits)
  have served := serve_framed wellFormed fits (wire_ne_nil _) short (x.up.nonempty adu) whole
    (x.up.flatten_cut adu) contributes
  have arrives : Reader.stream ⟨[], x.down.cut _, false⟩ = _ := x.down.flatten_cut
    ((aduHeader tid x.unit (typedReply device x.call.request).wire).wire ++
      (typedReply device x.call.request).wire)
  obtain ⟨last, read, nothing⟩ := receive_adu replyFits arrives x.call.bitCount
  rw [acceptPdu_typedReply wellFormedDevice packs.1] at read
  rw [← whole] at sent
  rw [← same, ← unit] at served
  simp [transact, settled, sent, served, read, nothing, ModbusClient.nextTid]

end Calls

/-- Any call over a settled link comes to what is said of it, however its bytes are cut; and if it
returns, the link is settled again. -/
theorem transact_answered {store : DataStore} (wellFormed : store.All Device.WellFormed) {tid : Nat}
    (id : InCycle tid) (x : Exchange) :
    Answered store x (transact (settled store tid) x).1.outcome
        (transact (settled store tid) x).2.store ∧
      (∀ response, (transact (settled store tid) x).1.outcome = .ok response →
        (transact (settled store tid) x).2 = settled (transact (settled store tid) x).2.store
          (ModbusClient.nextTid ⟨true, tid⟩).2.tid) := by
  by_cases packs : x.Packs
  · by_cases short : lengthField x.call.request.wire ≤ maxLengthField
    · cases found : store.get x.unit with
      | none =>
        obtain ⟨ended, same⟩ := transact_ignored wellFormed id packs short found
        rw [ended, same]
        exact ⟨.ignored packs short found, nofun⟩
      | some device =>
        obtain ⟨ended, next⟩ := transact_handled wellFormed id packs short found
        rw [ended, next]
        exact ⟨.handled packs short found, fun _ _ => rfl⟩
    · have long := Int.not_le.mp short
      obtain ⟨ended, same⟩ := transact_refused wellFormed id packs long
      rw [ended, same]
      exact ⟨.refused packs long, nofun⟩
  · obtain ⟨client, raised⟩ := send_unpacked packs tid
    have ended : transact (settled store tid) x =
        (⟨.error (.raised (.py .structError)), []⟩, { settled store tid with client }) := by
      simp [transact, settled, raised]
    rw [ended]
    exact ⟨.unpacked packs, nofun⟩

/-! ### The typed level -/

namespace Answered

variable {store last : DataStore} {x : Exchange} {result : Except ClientExn Response}

/-- A call that ends in an error has changed nothing. -/
theorem unchanged (answered : Answered store x result last) (before : store.All Device.WellFormed)
    {e : ClientExn} (ended : result = .error e) : last = store := by
  cases answered with
  | unpacked | refused | ignored => rfl
  | @handled packs _ device found =>
    have sized := (before _ _ found).sized
    by_cases inRange : QuantityInRange x.call.request
    · by_cases inside : InRegion device x.call.request
      · rw [handleRequest_inRange sized inRange inside] at ended
        cases ended
      · rw [handleRequest_eq sized, if_neg (not_not.mpr inRange), if_pos inside]
        exact DataStore.update_of_get found
    · rw [handleRequest_eq sized, if_pos inRange]
      exact DataStore.update_of_get found

/-- A call returns exactly when it is carried out. -/
theorem carriedOut (answered : Answered store x result last)
    (before : store.All Device.WellFormed) {response : Response} (returned : result = .ok response) :
    ∃ device, store.get x.unit = some device ∧ x.Packs ∧ QuantityInRange x.call.request ∧
      InRegion device x.call.request ∧ response = answer device x.call.request ∧
      last = store.update x.unit (execute device x.call.request) := by
  cases answered with
  | unpacked | refused | ignored => cases returned
  | @handled packs _ device found =>
    have sized := (before _ _ found).sized
    by_cases inRange : QuantityInRange x.call.request
    · by_cases inside : InRegion device x.call.request
      · rw [handleRequest_inRange sized inRange inside] at returned ⊢
        exact ⟨device, found, packs, inRange, inside, (Except.ok.inj returned).symm, rfl⟩
      · rw [handleRequest_eq sized, if_neg (not_not.mpr inRange), if_pos inside] at returned
        cases returned
    · rw [handleRequest_eq sized, if_pos inRange] at returned
      cases returned

theorem returns (answered : Answered store x result last) (before : store.All Device.WellFormed)
    {device : Device} (found : store.get x.unit = some device) (packs : x.Packs)
    (inRange : QuantityInRange x.call.request) (inside : InRegion device x.call.request) :
    result = .ok (answer device x.call.request) := by
  cases answered with
  | unpacked misfit => exact absurd packs misfit
  | refused _ long => exact absurd (short_of_inRange packs.1 inRange) (Int.not_le.mpr long)
  | ignored _ _ unknown => cases found.symm.trans unknown
  | @handled _ _ device' found' =>
    cases found.symm.trans found'
    rw [handleRequest_inRange (before _ _ found).sized inRange inside]
    rfl

end Answered

end ModbusSim.Client
