import ModbusSim.Client.Transact
import ModbusSim.Frame.ResponseCodec

/-!
# What a reply must be

The methods of the client against a peer that may send anything. The transaction id is all that is
compared with the request; what else a reply has to be follows from what the method does with the
decoded response (`method_returns`), and a method may well return on a reply to another request
(`foreign_replies`).
-/

namespace ModbusSim.Client

open PyStruct BitPacking ModbusSim.Frame

/-- What ends a method: what `_transact` raised, or an attribute that the response does not have. -/
inductive MethodExn where
  | client (exn : ClientExn)
  | attributeError (name : String)
  deriving DecidableEq, Repr

inductive MethodResult where
  | bits (bits : List Bool)
  | registers (registers : List Int)
  | none
  deriving DecidableEq, Repr

/-- `resp.bits` -/
def bitsOf : Response → Except MethodExn (List Bool)
  | .readCoils bits | .readDiscreteInputs bits => .ok bits
  | _ => .error (.attributeError "bits")

/-- `resp.registers` -/
def registersOf : Response → Except MethodExn (List Int)
  | .readHoldingRegisters registers | .readInputRegisters registers => .ok registers
  | _ => .error (.attributeError "registers")

def Call.result : Call → Response → Except MethodExn MethodResult
  | .readCoils _ _, response | .readDiscreteInputs _ _, response =>
    (bitsOf response).map .bits
  | .readHoldingRegisters _ _, response | .readInputRegisters _ _, response =>
    (registersOf response).map .registers
  | _, _ => .ok .none

/-- `_transact`, with what the peer has sent and will send. -/
def ModbusClient.transact (c : ModbusClient) (unit : Int) (request : Request) (bitCount : Option Int)
    (r : Reader) : Except ClientExn Response × ModbusClient × Reader :=
  match c.send unit request with
  | (.error e, c) => (.error e, c, r)
  | (.ok (transactionId, _), c) =>
    let (response, r) := receive transactionId bitCount r
    (response, c, r)

def ModbusClient.method (c : ModbusClient) (unit : Int) (call : Call) (r : Reader) :
    Except MethodExn MethodResult × ModbusClient × Reader :=
  match c.transact unit call.request call.bitCount r with
  | (.error e, c, r) => (.error (.client e), c, r)
  | (.ok response, c, r) => (call.result response, c, r)

/-! ### Reading a reply -/

theorem awaitBytes_eq_ok {n : Nat} {eof : Bool} {buffer bytes : Bytes} {incoming : List Bytes}
    {r : Reader} (awaited : awaitBytes n eof buffer incoming = (.ok bytes, r)) :
    n ≤ (buffer ++ incoming.flatten).length := by
  induction incoming generalizing buffer with
  | nil =>
    unfold awaitBytes at awaited
    split at awaited
    next enough => simpa using enough
    next =>
      cases eof with
      | true => cases awaited
      | false => cases awaited
  | cons chunk incoming ih =>
    unfold awaitBytes at awaited
    split at awaited
    next enough =>
      rw [List.length_append]
      omega
    next =>
      have later := ih awaited
      rw [List.append_assoc] at later
      exact later

theorem readexactly_eq_ok {r r' : Reader} {n : Int} {bytes : Bytes}
    (read : r.readexactly n = (.ok bytes, r')) :
    n = bytes.length ∧ r.stream = bytes ++ r'.stream := by
  by_cases negative : n < 0
  · rw [Reader.readexactly, if_pos negative] at read
    cases read
  · obtain ⟨m, rfl⟩ := Int.eq_ofNat_of_zero_le (Int.not_lt.mp negative)
    have enough : m ≤ r.stream.length := by
      have awaited := read
      rw [Reader.readexactly, if_neg negative] at awaited
      exact awaitBytes_eq_ok awaited
    obtain ⟨last, same, rest⟩ := readexactly_eq enough
    cases read.symm.trans same
    refine ⟨?_, ?_⟩
    · rw [List.length_take, Nat.min_eq_left enough]
    · rw [rest, List.take_append_drop]

/-- The bytes start with a frame that carries the id and the PDU, whatever its protocol and unit. -/
def Framed (transactionId : Nat) (stream pdu : Bytes) : Prop :=
  ∃ header : MBAPHeader, ∃ rest, header.Fits ∧ header.transactionId = transactionId ∧
    header.length = 1 + pdu.length ∧ stream = header.wire ++ pdu ++ rest

theorem receive_eq_ok {transactionId : Nat} {bitCount : Option Int} {r : Reader} {response : Response}
    (received : (receive transactionId bitCount r).1 = .ok response) :
    ∃ pdu, Framed transactionId r.stream pdu ∧ Accepts bitCount pdu response ∧
      ∀ fc code, response ≠ .exception fc code := by
  unfold receive at received
  split at received
  · cases received
  next head mid front =>
    split at received
    · cases received
    next header accepted =>
      split at received
      · cases received
      next pdu last body =>
        obtain ⟨size, stream⟩ := readexactly_eq_ok front
        obtain ⟨length, rest⟩ := readexactly_eq_ok body
        obtain ⟨decoded, same⟩ := acceptHeader_eq_ok accepted
        have long : mbapHeaderLen ≤ head.length := by omega
        obtain ⟨found, again, fits, wire⟩ := decodeMbap_long long
        cases decoded.symm.trans again
        rw [List.take_of_length_le (by omega)] at wire
        obtain ⟨response, plain⟩ := acceptPdu_eq_ok received
        refine ⟨pdu, ⟨header, last.stream, fits, same, by omega, ?_⟩,
          decodeResponsePdu_eq_ok.mp response, plain⟩
        rw [stream, rest, wire, List.append_assoc]

theorem word_of_aduHeader {transactionId : Nat} {unit : Int} {pdu : Bytes}
    (fits : (aduHeader transactionId unit pdu).Fits) :
    wordAt ((aduHeader transactionId unit pdu).wire ++ pdu) 0 = transactionId := by
  have fields := header_of_decoded (decodeMbap_wire fits pdu)
  exact (Int.ofNat.inj (congrArg MBAPHeader.transactionId fields)).symm

/-- A method that returns has sent its request under the next id, and its reply echoes this. -/
theorem transact_eq_ok {c : ModbusClient} {unit : Int} {request : Request} {bitCount : Option Int}
    {r : Reader} {response : Response}
    (returned : (c.transact unit request bitCount r).1 = .ok response) :
    (∃ adu, (c.send unit request).1 = .ok (c.tid, adu) ∧ wordAt adu 0 = c.tid) ∧
      ∃ pdu, Framed c.tid r.stream pdu ∧ Accepts bitCount pdu response ∧
        ∀ fc code, response ≠ .exception fc code := by
  unfold ModbusClient.transact at returned
  split at returned
  · cases returned
  next client transactionId adu after sent =>
    obtain ⟨rfl, pdu, _, fits, rfl⟩ := send_eq_ok sent
    exact ⟨⟨_, by rw [sent], word_of_aduHeader fits⟩, receive_eq_ok returned⟩

/-! ### What a method returns on -/

def Answers (call : Call) (pdu : Bytes) : MethodResult → Prop
  | .bits bits =>
    call.request.functionCode ∈ [readCoils, readDiscreteInputs] ∧ call.bitCount = some bits.length ∧
      byteAt pdu 0 ∈ [readCoils, readDiscreteInputs] ∧ pdu.length = 2 + byteAt pdu 1 ∧
      bits.length ≤ 8 * byteAt pdu 1 ∧ bits = unpacked (pdu.drop 2) bits.length
  | .registers registers =>
    call.request.functionCode ∈ [readHoldingRegisters, readInputRegisters] ∧
      byteAt pdu 0 ∈ [readHoldingRegisters, readInputRegisters] ∧ pdu.length = 2 + byteAt pdu 1 ∧
      byteAt pdu 1 = 2 * registers.length ∧ pdu.drop 2 = registerBytes registers
  | .none =>
    call.request.functionCode ∈
        [writeSingleCoil, writeSingleRegister, writeMultipleCoils, writeMultipleRegisters] ∧
      byteAt pdu 0 ∈ supportedFunctionCodes ∧
      ∃ response, decodeResponsePdu pdu none = .ok response ∧
        ∀ fc code, response ≠ .exception fc code

theorem byteAt_counted_zero {fc : Nat} (code : fc < 256) (payload : Bytes) :
    byteAt (counted fc payload) 0 = fc := by
  simp [byteAt, counted, layout_cons, layout_nil, Field.bytes]
  omega

theorem byteAt_triple_zero {fc : Nat} (code : fc < 256) (a q : Int) :
    byteAt (triple fc a q) 0 = fc := by
  simp [byteAt, triple, layout_cons, layout_nil, Field.bytes]
  omega

theorem drop_counted (fc : Nat) (payload : Bytes) : (counted fc payload).drop 2 = payload := rfl

theorem supported_of_accepts {bitCount : Option Int} {pdu : Bytes} {response : Response}
    (accepted : Accepts bitCount pdu response) (plain : ∀ fc code, response ≠ .exception fc code) :
    byteAt pdu 0 ∈ supportedFunctionCodes := by
  cases accepted with
  | readCoils | readDiscreteInputs | readHoldingRegisters | readInputRegisters =>
    rw [byteAt_counted_zero (by decide)]
    decide
  | writeSingleCoil | writeSingleRegister | writeMultipleCoils | writeMultipleRegisters =>
    rw [byteAt_triple_zero (by decide)]
    decide
  | exception fc code mask => exact absurd rfl (plain _ _)

theorem bits_of_accepts {count : Int} {pdu : Bytes} {response : Response} {bits : List Bool}
    (accepted : Accepts (some count) pdu response) (read : bitsOf response = .ok bits) :
    count = bits.length ∧ byteAt pdu 0 ∈ [readCoils, readDiscreteInputs] ∧
      pdu.length = 2 + byteAt pdu 1 ∧ bits.length ≤ 8 * byteAt pdu 1 ∧
      bits = unpacked (pdu.drop 2) bits.length := by
  cases accepted with
  | readCoils payload n few asked enough | readDiscreteInputs payload n few asked enough =>
    cases read
    rw [byteAt_counted_zero (by decide), byteAt_counted few, length_counted, drop_counted,
      length_unpacked]
    exact ⟨asked, by decide, rfl, enough, rfl⟩
  | readHoldingRegisters | readInputRegisters | writeSingleCoil | writeSingleRegister
  | writeMultipleCoils | writeMultipleRegisters | exception => cases read

theorem registers_of_accepts {bitCount : Option Int} {pdu : Bytes} {response : Response}
    {registers : List Int} (accepted : Accepts bitCount pdu response)
    (read : registersOf response = .ok registers) :
    byteAt pdu 0 ∈ [readHoldingRegisters, readInputRegisters] ∧ pdu.length = 2 + byteAt pdu 1 ∧
      byteAt pdu 1 = 2 * registers.length ∧ pdu.drop 2 = registerBytes registers := by
  cases accepted with
  | readHoldingRegisters regs few words | readInputRegisters regs few words =>
    cases read
    have size := length_registerBytes words
    rw [byteAt_counted_zero (by decide), byteAt_counted (by omega), length_counted, drop_counted]
    exact ⟨by decide, rfl, size, rfl⟩
  | readCoils | readDiscreteInputs | writeSingleCoil | writeSingleRegister
  | writeMultipleCoils | writeMultipleRegisters | exception => cases read

theorem answers_of_accepts {call : Call} {pdu : Bytes} {response : Response} {value : MethodResult}
    (accepted : Accepts call.bitCount pdu response) (plain : ∀ fc code, response ≠ .exception fc code)
    (made : call.result response = .ok value) : Answers call pdu value := by
  cases call with
  | readCoils address count | readDiscreteInputs address count =>
    cases read : bitsOf response with
    | error e => simp [Call.result, read, Except.map] at made
    | ok bits =>
      simp only [Call.result, read, Except.map, Except.ok.injEq] at made
      subst made
      obtain ⟨asked, rest⟩ := bits_of_accepts accepted read
      exact ⟨by simp [Call.request, Request.functionCode], congrArg some asked, rest⟩
  | readHoldingRegisters address count | readInputRegisters address count =>
    cases read : registersOf response with
    | error e => simp [Call.result, read, Except.map] at made
    | ok registers =>
      simp only [Call.result, read, Except.map, Except.ok.injEq] at made
      subst made
      exact ⟨by simp [Call.request, Request.functionCode], registers_of_accepts accepted read⟩
  | writeCoil | writeRegister | writeCoils | writeRegisters =>
    cases made
    exact ⟨by simp [Call.request, Request.functionCode], supported_of_accepts accepted plain,
      response, decodeResponsePdu_eq_ok.mpr accepted, plain⟩

/-- A method returns only on a frame with the id of its request. A bit read takes the bits it asked
for out of the response of a bit read, a register read all registers out of the response of a
register read, and a write takes any response that is no exception. -/
theorem method_returns {c : ModbusClient} {unit : Int} {call : Call} {r : Reader}
    {value : MethodResult} (returned : (c.method unit call r).1 = .ok value) :
    (∃ adu, (c.send unit call.request).1 = .ok (c.tid, adu) ∧ wordAt adu 0 = c.tid) ∧
      ∃ pdu, Framed c.tid r.stream pdu ∧ Answers call pdu value := by
  unfold ModbusClient.method at returned
  split at returned
  · cases returned
  next response after rest transacted =>
    obtain ⟨sent, pdu, framed, accepted, plain⟩ := transact_eq_ok (congrArg Prod.fst transacted)
    exact ⟨sent, pdu, framed, answers_of_accepts accepted plain returned⟩

/-- Three coils are read. -/
theorem method_returns_coils : ∃ pdu, Framed 1 [0, 1, 0, 0, 0, 4, 1, 1, 1, 5] pdu ∧
    Answers (.readCoils 0 3) pdu (.bits [true, false, true]) := by
  have returned : ((ModbusClient.mk true 1).method 1 (.readCoils 0 3)
      ⟨[], [[0, 1, 0, 0, 0, 4, 1], [1, 1, 5]], false⟩).1 = .ok (.bits [true, false, true]) := rfl
  exact (method_returns returned).2

/-- Replies to other requests: discrete inputs for coils, one register for two, and registers for a
write. -/
theorem foreign_replies :
    ((ModbusClient.mk true 1).method 1 (.readCoils 0 3)
        ⟨[0, 1, 0, 0, 0, 4, 1, 2, 1, 5], [], false⟩).1 = .ok (.bits [true, false, true]) ∧
      byteAt [2, 1, 5] 0 ≠ (Call.readCoils 0 3).request.functionCode ∧
      ((ModbusClient.mk true 1).method 1 (.readHoldingRegisters 0 2)
        ⟨[0, 1, 0, 0, 0, 5, 1, 3, 2, 0, 9], [], false⟩).1 = .ok (.registers [9]) ∧
      ((ModbusClient.mk true 1).method 1 (.writeRegister 0 7)
        ⟨[0, 1, 0, 0, 0, 5, 1, 3, 2, 0, 9], [], false⟩).1 = .ok .none ∧
      byteAt [3, 2, 0, 9] 0 ≠ (Call.writeRegister 0 7).request.functionCode :=
  ⟨rfl, by decide, rfl, rfl, by decide⟩

end ModbusSim.Client
