import ModbusSim.Client.Concurrent
import ModbusSim.Client.Reconnect

/-!
# Clients and a server on a network

The concurrent server with a client at the other end of each of its connections, and all bytes
between them. Bytes are delayed and cut at will, any wait may time out, and the server may be at
any number of frames meanwhile. A client makes one call after another, and leaves for good when it
likes, or when a call of it is cut short: that is what the commands do.
-/

namespace ModbusSim.Network

open PyStruct ModbusSim.Frame Framing Store Dispatch Setup Server Client LockedTasks StatefulRun

/-- The client's end of a connection: its state, the calls it has sent, how many of the bytes
written to it have arrived, those of them that are unread, and the calls that returned. -/
structure Endpoint where
  client : ModbusClient
  phase : Phase
  sent : List Sent
  arrived : Nat
  received : Bytes
  returned : List Returned
  leaves : Bool

namespace Endpoint

def start (client : ModbusClient) : Endpoint := ⟨client, .idle, [], 0, [], [], false⟩

def stream (e : Endpoint) : Bytes := e.sent.flatMap Sent.adu

def call (e : Endpoint) (unit : Int) (call : Call) : Endpoint :=
  match e.client.send unit call.request with
  | (.error _, client) => { e with client }
  | (.ok (transactionId, adu), client) =>
    { e with
      client
      phase := .awaitingHeader transactionId call.bitCount
      sent := e.sent ++ [⟨unit, call, transactionId, adu⟩] }

def readHeader (e : Endpoint) (transactionId : Nat) (bitCount : Option Int) : Endpoint :=
  let received := e.received.drop mbapHeaderLen
  match acceptHeader transactionId (e.received.take mbapHeaderLen) with
  | .error _ => { e with phase := .idle, received, leaves := true }
  | .ok header => { e with phase := .awaitingPdu header.length bitCount, received }

def readPdu (e : Endpoint) (n : Nat) (bitCount : Option Int) : Endpoint :=
  let received := e.received.drop n
  match acceptPdu bitCount (e.received.take n) with
  | .error _ => { e with phase := .idle, received }
  | .ok response =>
    { e with
      phase := .idle
      received
      returned := e.returned ++ [⟨e.sent.length - 1, bitCount, response⟩] }

inductive Step (c : Connection) (e : Endpoint) : Endpoint → Prop
  | call {unit : Int} {call : Call} (rests : e.phase = .idle) (stays : e.leaves = false) :
    Step c e (e.call unit call)
  | download {n : Nat} (some : 0 < n) (within : e.arrived + n ≤ c.written.flatten.length) :
    Step c e { e with
      arrived := e.arrived + n
      received := e.received ++ (c.written.flatten.drop e.arrived).take n }
  | readHeader {transactionId : Nat} {bitCount : Option Int}
    (waits : e.phase = .awaitingHeader transactionId bitCount)
    (enough : mbapHeaderLen ≤ e.received.length) : Step c e (e.readHeader transactionId bitCount)
  | readPdu {length : Int} {bitCount : Option Int} (waits : e.phase = .awaitingPdu length bitCount)
    (least : 0 ≤ length - 1) (enough : length - 1 ≤ e.received.length) :
    Step c e (e.readPdu (length - 1).toNat bitCount)
  | shortPdu {length : Int} {bitCount : Option Int} (waits : e.phase = .awaitingPdu length bitCount)
    (short : length - 1 < 0) : Step c e { e with phase := .idle, leaves := true }
  | timeout (waits : e.phase ≠ .idle) : Step c e { e with phase := .idle, leaves := true }
  | endOfStream {n : Int} (waits : e.phase.wanted = some n) (stopped : c.running = false)
    (all : e.arrived = c.written.flatten.length) (short : e.received.length < n) :
    Step c e { e with phase := .idle, received := [], leaves := true }
  | leave (rests : e.phase = .idle) : Step c e { e with leaves := true }

end Endpoint

structure Net where
  server : ServerState
  endpoint : Nat → Endpoint

def Net.start (init : World) (clients : Nat → ModbusClient) : Net :=
  ⟨serving init, fun n => .start (clients n)⟩

/-- A step of the server, where handlers read what their clients have sent, or of a client. -/
inductive Step (lib : MathLib) (init : World) (y : Net) : Net → Prop
  | server {s : ServerState} (step : LockedTasks.Step (server lib init) y.server s)
    (fed : ∀ n, (connection s n).received <+: (y.endpoint n).stream) :
    Step lib init y { y with server := s }
  | client {n : Nat} {e : Endpoint}
    (step : Endpoint.Step (connection y.server n) (y.endpoint n) e) :
    Step lib init y { y with endpoint := Function.update y.endpoint n e }

def Reaches (lib : MathLib) (init : World) : Net → Net → Prop :=
  Relation.ReflTransGen (Step lib init)

theorem Reaches.server {lib : MathLib} {init : World} {y y' : Net}
    (reaches : Reaches lib init y y') :
    LockedTasks.Reaches (Server.server lib init) y.server y'.server := by
  induction reaches with
  | refl => exact .refl
  | tail _ step ih =>
    cases step with
    | server step => exact ih.tail step
    | client => exact ih

/-! ### What an endpoint keeps -/

def WaitsFor (x : Sent) : Phase → Prop
  | .idle => False
  | .awaitingHeader transactionId bitCount =>
    x.transactionId = transactionId ∧ x.call.bitCount = bitCount
  | .awaitingPdu _ bitCount => x.call.bitCount = bitCount

/-- All that has been sent are ADUs of requests, and it is the last that a client waits for; a call
that returned is one of those sent, with its own bit count, and has returned no exception. -/
structure Endpoint.Kept (e : Endpoint) : Prop where
  framed : ∀ x ∈ e.sent, x.Framed
  waiting : e.phase ≠ .idle → ∃ x, e.sent[e.sent.length - 1]? = some x ∧ WaitsFor x e.phase
  returned : ∀ r ∈ e.returned, (∃ x, e.sent[r.call]? = some x ∧ x.call.bitCount = r.bitCount) ∧
    ∀ functionCode exceptionCode, r.response ≠ .exception functionCode exceptionCode

namespace Endpoint

theorem kept_start (client : ModbusClient) : (Endpoint.start client).Kept where
  framed _ member := absurd member List.not_mem_nil
  waiting waits := absurd rfl waits
  returned _ member := absurd member List.not_mem_nil

theorem Kept.ended {e : Endpoint} (kept : e.Kept) (received : Bytes) (leaves : Bool) :
    Kept { e with phase := .idle, received, leaves } :=
  ⟨kept.framed, fun waits => absurd rfl waits, kept.returned⟩

theorem Kept.call {e : Endpoint} (kept : e.Kept) (rests : e.phase = .idle) (unit : Int)
    (call : Call) : (e.call unit call).Kept := by
  unfold Endpoint.call
  split
  next => exact ⟨kept.framed, fun waits => absurd rests waits, kept.returned⟩
  next transactionId adu client sent =>
    refine ⟨fun x member => ?_, fun _ => ?_, fun r member => ?_⟩
    · rcases List.mem_append.mp member with before | now
      · exact kept.framed x before
      · cases List.mem_singleton.mp now
        exact framed_of_send sent
    · refine ⟨⟨unit, call, transactionId, adu⟩, ?_, rfl, rfl⟩
      simp
    · obtain ⟨⟨x, own, bits⟩, plain⟩ := kept.returned r member
      refine ⟨⟨x, ?_, bits⟩, plain⟩
      rw [List.getElem?_append_left (List.getElem?_eq_some_iff.mp own).1, own]

theorem Kept.readHeader {e : Endpoint} (kept : e.Kept) {transactionId : Nat}
    {bitCount : Option Int} (waits : e.phase = .awaitingHeader transactionId bitCount) :
    (e.readHeader transactionId bitCount).Kept := by
  unfold Endpoint.readHeader
  split
  next => exact kept.ended ..
  next =>
    obtain ⟨x, last, own⟩ := kept.waiting (by rw [waits]; exact nofun)
    rw [waits] at own
    exact ⟨kept.framed, fun _ => ⟨x, last, own.2⟩, kept.returned⟩

theorem Kept.readPdu {e : Endpoint} (kept : e.Kept) {length : Int} {bitCount : Option Int}
    (waits : e.phase = .awaitingPdu length bitCount) (n : Nat) : (e.readPdu n bitCount).Kept := by
  unfold Endpoint.readPdu
  split
  next => exact kept.ended ..
  next response accepted =>
    refine ⟨kept.framed, fun waits => absurd rfl waits, fun r member => ?_⟩
    rcases List.mem_append.mp member with before | now
    · exact kept.returned r before
    · obtain ⟨x, last, own⟩ := kept.waiting (by rw [waits]; exact nofun)
      rw [waits] at own
      cases List.mem_singleton.mp now
      exact ⟨⟨x, last, own⟩, (acceptPdu_eq_ok accepted).2⟩

theorem Kept.step {c : Connection} {e e' : Endpoint} (step : Endpoint.Step c e e')
    (kept : e.Kept) : e'.Kept := by
  cases step with
  | call rests => exact kept.call rests ..
  | download => exact ⟨kept.framed, kept.waiting, kept.returned⟩
  | readHeader waits => exact kept.readHeader waits
  | readPdu waits => exact kept.readPdu waits _
  | shortPdu | timeout | endOfStream => exact kept.ended ..
  | leave => exact ⟨kept.framed, kept.waiting, kept.returned⟩

end Endpoint

theorem reaches_endpoint {lib : MathLib} {init : World} {clients : Nat → ModbusClient} {y : Net}
    (reaches : Reaches lib init (.start init clients) y) (n : Nat) : (y.endpoint n).Kept := by
  induction reaches with
  | refl => exact Endpoint.kept_start (clients n)
  | tail _ step ih =>
    cases step with
    | server => exact ih
    | @client m e step =>
      by_cases same : n = m
      · subst same
        simp only [Function.update_self]
        exact ih.step step
      · simp only [Function.update_of_ne same]
        exact ih

end ModbusSim.Network
