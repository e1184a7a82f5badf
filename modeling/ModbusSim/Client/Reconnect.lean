import ModbusSim.Client.Session

/-!
# Giving up a connection

A client that closes its connection when a call of it was cut short, by a timeout, the end of the
stream or a header that is not its own, and opens a new one for the next call. Such a client never
reads out of an old reply: over all of its connections, whatever is late, every call that returns
returns the server's response to its own request (`reconnecting_owned`).
-/

namespace ModbusSim.Client

open PyStruct ModbusSim.Frame Framing Store Dispatch Server

/-- The call in progress ends before its reply has been read to the end. -/
def Session.abandons (s : Session) : Event → Bool
  | .timeout | .endOfStream => true
  | .readHeader =>
    match s.phase with
    | .awaitingHeader transactionId _ =>
      !(acceptHeader transactionId (s.received.take mbapHeaderLen)).isOk
    | _ => false
  | .readPdu =>
    match s.phase with
    | .awaitingPdu length _ => decide (length - 1 < 0)
    | _ => false
  | _ => false

def Event.calls : Event → Bool
  | .call .. => true
  | _ => false

/-- Once a call has been abandoned there is no other on the connection. -/
def Session.givesUp (s : Session) (abandoned : Bool) : List Event → Bool
  | [] => true
  | e :: events =>
    !(abandoned && e.calls) &&
      match s.step e with
      | none => true
      | some s' => s'.givesUp (abandoned || s.abandons e) events

/-- Between calls nothing is left of their replies, and in a call there is nothing but its own. -/
inductive Orderly (s : Session) : Bool → Prop
  | abandoned (rests : s.phase = .idle) : Orderly s true
  | idle (rests : s.phase = .idle) (clear : s.received ++ s.toClient = [])
    (all : s.sent.length = s.served.length) : Orderly s false
  | asked {transactionId : Nat} {bitCount : Option Int}
    (waits : s.phase = .awaitingHeader transactionId bitCount)
    (own : s.received ++ s.toClient = s.ownReply) (one : s.sent.length ≤ s.served.length + 1)
    (some : 0 < s.sent.length) : Orderly s false
  | accepted {bitCount : Option Int} {pdu : Bytes}
    (waits : s.phase = .awaitingPdu (1 + pdu.length) bitCount)
    (arriving : s.received ++ s.toClient = pdu) (all : s.sent.length = s.served.length) :
    Orderly s false

theorem orderly_start (client : ModbusClient) (store : DataStore) :
    Orderly (Session.start client store) false := .idle rfl rfl rfl

theorem Orderly.congr {s s' : Session} {abandoned : Bool} (orderly : Orderly s abandoned)
    (phase : s'.phase = s.phase) (flow : s'.received ++ s'.toClient = s.received ++ s.toClient)
    (sent : s'.sent = s.sent) (served : s'.served = s.served) : Orderly s' abandoned := by
  cases orderly with
  | abandoned rests => exact .abandoned (phase.trans rests)
  | idle rests clear all => exact .idle (phase.trans rests) (flow.trans clear) (by rw [sent, served, all])
  | asked waits own one some =>
    refine .asked (phase.trans waits) ?_ (by rw [sent, served]; exact one) (by rw [sent]; exact some)
    rw [flow, own, Session.ownReply, Session.ownReply, sent, served]
  | accepted waits arriving all =>
    exact .accepted (phase.trans waits) (flow.trans arriving) (by rw [sent, served, all])

theorem Orderly.call {s : Session} (orderly : Orderly s false) (rests : s.phase = .idle)
    (unit : Int) (request : Request) (bitCount : Option Int) :
    Orderly (s.call unit request bitCount) false := by
  obtain ⟨clear, all⟩ : s.received ++ s.toClient = [] ∧ s.sent.length = s.served.length := by
    cases orderly with
    | idle _ clear all => exact ⟨clear, all⟩
    | asked waits => cases waits.symm.trans rests
    | accepted waits => cases waits.symm.trans rests
  unfold Session.call
  split
  next => exact .idle rests clear all
  next transactionId adu client sent =>
    refine .asked rfl ?_ ?_ ?_
    · have none : s.served.drop s.sent.length = [] := List.drop_eq_nil_of_le (by omega)
      rw [clear, Session.ownReply]
      simp [none]
    · simp [all]
    · simp

theorem Orderly.serve {s s' : Session} {abandoned : Bool} (inv : Inv s)
    (orderly : Orderly s abandoned) (opened : s.closed = false) (served : s.serve = some s') :
    Orderly s' abandoned := by
  unfold Session.serve at served
  cases start : verdict s.framer.buffer with
  | more =>
    rw [nextFrame_more start] at served
    cases served
  | bad e =>
    rw [nextFrame_bad start] at served
    cases served
    exact orderly.congr rfl rfl rfl rfl
  | frame n =>
    obtain ⟨header, _, _, taken⟩ := nextFrame_frame start
    rw [taken] at served
    simp only at served
    split at served
    next =>
      cases served
      exact orderly.congr rfl rfl rfl rfl
    next reply store processed =>
      cases served
      obtain ⟨later, all, _⟩ := inv.lined.next opened start
      have size := congrArg List.length all
      simp only [List.length_append, List.length_map, List.length_cons] at size
      cases orderly with
      | abandoned rests => exact .abandoned rests
      | idle _ _ done => omega
      | asked waits own one some =>
        have before : s.ownReply = [] := by
          have none : s.served.drop (s.sent.length - 1) = [] := List.drop_eq_nil_of_le (by omega)
          rw [Session.ownReply, none]
          rfl
        have place : s.sent.length - 1 = s.served.length := by omega
        refine .asked waits ?_ ?_ some
        · have flow : s.received ++ (s.toClient ++ reply) = reply := by
            rw [← List.append_assoc, own, before, List.nil_append]
          rw [flow, Session.ownReply]
          simp [place]
        · simp only [List.length_append, List.length_singleton]
          omega
      | accepted _ _ done => omega

/-- Where a call waits for its header, nothing stale is unread. -/
theorem Orderly.trusted {s : Session} {abandoned : Bool} (orderly : Orderly s abandoned) (e : Event) :
    s.misreads e = false := by
  cases e with
  | readHeader =>
    cases orderly with
    | asked waits own =>
      have clear : s.stale = false := by
        rw [Session.stale, own]
        exact decide_eq_false (Nat.lt_irrefl _)
      rw [Session.misreads, clear, Bool.false_and]
    | abandoned rests | idle rests =>
      simp only [Session.misreads, Session.echoed, rests, Bool.and_false]
    | accepted waits => simp only [Session.misreads, Session.echoed, waits, Bool.and_false]
  | _ => rfl

theorem Orderly.readHeader {s : Session} {abandoned : Bool} (inv : Inv s)
    (orderly : Orderly s abandoned) {transactionId : Nat} {bitCount : Option Int}
    (waits : s.phase = .awaitingHeader transactionId bitCount)
    (enough : mbapHeaderLen ≤ s.received.length) :
    Orderly (s.readHeader transactionId bitCount) (abandoned || s.abandons .readHeader) := by
  have after := (inv.readHeader (orderly.trusted _) waits enough).flight
  have abandons : s.abandons .readHeader =
      !(acceptHeader transactionId (s.received.take mbapHeaderLen)).isOk := by
    simp only [Session.abandons, waits]
  unfold Session.readHeader at after ⊢
  rw [abandons]
  cases accepted : acceptHeader transactionId (s.received.take mbapHeaderLen) with
  | error e =>
    simp only [Except.isOk, Except.toBool, Bool.not_false, Bool.or_true]
    exact .abandoned rfl
  | ok header =>
    simp only [accepted, Except.isOk, Except.toBool, Bool.not_true, Bool.or_false] at after ⊢
    have goesOn : abandoned = false := by
      cases orderly with
      | abandoned rests => cases waits.symm.trans rests
      | idle | asked | accepted => rfl
    rw [goesOn]
    cases after with
    | idle rests => cases rests
    | asked other => cases other
    | accepted other _ all arriving =>
      refine .accepted other arriving ?_
      rw [all, List.length_map]

theorem Orderly.readPdu {s : Session} {abandoned : Bool} (orderly : Orderly s abandoned)
    {length : Int} {bitCount : Option Int} (waits : s.phase = .awaitingPdu length bitCount)
    (enough : length - 1 ≤ s.received.length) :
    0 ≤ length - 1 ∧ Orderly (s.readPdu (length - 1).toNat bitCount) abandoned := by
  cases orderly with
  | abandoned rests | idle rests => cases waits.symm.trans rests
  | asked other => cases waits.symm.trans other
  | @accepted _ pdu other arriving all =>
    cases waits.symm.trans other
    have size := congrArg List.length arriving
    rw [List.length_append] at size
    have whole : s.received.drop (1 + (pdu.length : Int) - 1).toNat ++ s.toClient = [] := by
      apply List.eq_nil_of_length_eq_zero
      rw [List.length_append, List.length_drop]
      omega
    refine ⟨by omega, ?_⟩
    unfold Session.readPdu
    split
    · exact .idle rfl whole all
    · exact .idle rfl whole all

/-- A step keeps the session orderly, as long as it is no call after one that was abandoned. -/
theorem Orderly.step {s s' : Session} {abandoned : Bool} {e : Event} (inv : Inv s)
    (orderly : Orderly s abandoned) (allowed : (abandoned && e.calls) = false)
    (stepped : s.step e = some s') : Orderly s' (abandoned || s.abandons e) := by
  cases e with
  | call unit request bitCount =>
    simp only [Session.step, Option.ite_none_right_eq_some, Option.some.injEq] at stepped
    obtain ⟨rests, rfl⟩ := stepped
    rw [Event.calls, Bool.and_true] at allowed
    subst allowed
    exact orderly.call rests unit request bitCount
  | upload n =>
    simp only [Session.step, Option.ite_none_right_eq_some, Option.some.injEq] at stepped
    obtain ⟨_, rfl⟩ := stepped
    simp only [Session.abandons, Bool.or_false]
    exact orderly.congr rfl rfl rfl rfl
  | serve =>
    simp only [Session.step, Option.ite_none_left_eq_some, Bool.not_eq_true] at stepped
    simp only [Session.abandons, Bool.or_false]
    exact orderly.serve inv stepped.1 stepped.2
  | download n =>
    simp only [Session.step, Option.ite_none_right_eq_some, Option.some.injEq] at stepped
    obtain ⟨_, rfl⟩ := stepped
    simp only [Session.abandons, Bool.or_false]
    refine orderly.congr rfl ?_ rfl rfl
    rw [List.append_assoc, List.take_append_drop]
  | readHeader =>
    simp only [Session.step] at stepped
    split at stepped
    next transactionId bitCount waits =>
      simp only [Option.ite_none_right_eq_some, Option.some.injEq] at stepped
      obtain ⟨enough, rfl⟩ := stepped
      exact orderly.readHeader inv waits enough
    next => cases stepped
  | readPdu =>
    simp only [Session.step] at stepped
    split at stepped
    next length bitCount waits =>
      split at stepped
      next short =>
        obtain ⟨least, _⟩ := orderly.readPdu waits (by omega)
        omega
      next long =>
        simp only [Option.ite_none_right_eq_some, Option.some.injEq] at stepped
        obtain ⟨enough, rfl⟩ := stepped
        have none : s.abandons .readPdu = false := by
          simp only [Session.abandons, waits]
          exact decide_eq_false long
        rw [none, Bool.or_false]
        exact (orderly.readPdu waits enough).2
    next => cases stepped
  | timeout =>
    simp only [Session.step, Option.ite_none_left_eq_some, Option.some.injEq] at stepped
    obtain ⟨_, rfl⟩ := stepped
    simp only [Session.abandons, Bool.or_true]
    exact .abandoned rfl
  | endOfStream =>
    simp only [Session.step] at stepped
    simp only [Session.abandons, Bool.or_true]
    split at stepped
    next => cases stepped
    next =>
      simp only [Option.ite_none_right_eq_some, Option.some.injEq] at stepped
      obtain ⟨_, rfl⟩ := stepped
      exact .abandoned rfl
  | others store =>
    cases stepped
    simp only [Session.abandons, Bool.or_false]
    exact orderly.congr rfl rfl rfl rfl

/-- A connection that is given up in time is not misread. -/
theorem Orderly.run {s s' : Session} {abandoned : Bool} {events : List Event} (inv : Inv s)
    (orderly : Orderly s abandoned) (givesUp : s.givesUp abandoned events = true)
    (ran : s.run events = some s') : s.neverMisreads events = true ∧ s'.Owned := by
  induction events generalizing s abandoned with
  | nil =>
    cases ran
    exact ⟨rfl, inv.owned⟩
  | cons e events ih =>
    simp only [Session.givesUp, Bool.and_eq_true, Bool.not_eq_true'] at givesUp
    simp only [Session.run] at ran
    cases stepped : s.step e with
    | none => simp [stepped] at ran
    | some mid =>
      simp only [stepped] at givesUp ran
      have trusted := orderly.trusted e
      obtain ⟨never, owned⟩ := ih (inv.step trusted stepped)
        (orderly.step inv givesUp.1 stepped) givesUp.2 ran
      refine ⟨?_, owned⟩
      simp only [Session.neverMisreads, trusted, stepped, never, Bool.not_false, Bool.and_self]

/-- The connections of a client, one after another: each begins with the ids where the last one
stopped, on a store that others may have changed, and is given up in time. -/
inductive Connections : ModbusClient → List Session → Prop
  | closed {client : ModbusClient} : Connections client []
  | connect {client : ModbusClient} {store : DataStore} {events : List Event} {s : Session}
    {later : List Session} (ran : (Session.start client store).run events = some s)
    (givesUp : (Session.start client store).givesUp false events = true)
    (next : Connections s.client later) : Connections client (s :: later)

/-- Every call of a client that gives up its connections returns its own response, if it returns. -/
theorem reconnecting_owned {client : ModbusClient} {sessions : List Session}
    (connections : Connections client sessions) : ∀ s ∈ sessions, s.Owned := by
  induction connections with
  | closed => simp
  | @connect client store _ _ _ ran givesUp _ ih =>
    rw [List.forall_mem_cons]
    exact ⟨((orderly_start client store).run (inv_start client store) givesUp ran).2, ih⟩

/-- A call that times out, on a connection that is then closed, and a call on the next one. -/
def abandonedEvents : List Event :=
  [.call 1 (.writeSingleRegister 0 5) none, .upload 12, .serve, .timeout]

def nextEvents : List Event :=
  [.call 1 (.readHoldingRegisters 0 1) none, .upload 12, .serve, .download 11, .readHeader, .readPdu]

theorem reconnecting_owned_next : ∃ s s', newSession.run abandonedEvents = some s ∧
    (Session.start s.client s.store).run nextEvents = some s' ∧
    s'.returned = [⟨0, none, .readHoldingRegisters [5]⟩] ∧ ∀ t ∈ [s, s'], t.Owned := by
  have first : (newSession.run abandonedEvents).isSome = true := by decide +kernel
  obtain ⟨s, ran⟩ := Option.isSome_iff_exists.mp first
  have second : ((newSession.run abandonedEvents).bind fun s =>
      (Session.start s.client s.store).run nextEvents).map Session.returned =
        some [⟨0, none, .readHoldingRegisters [5]⟩] := by decide +kernel
  have gives : ((newSession.run abandonedEvents).map fun s =>
      (Session.start s.client s.store).givesUp false nextEvents) = some true := by decide +kernel
  rw [ran] at second gives
  obtain ⟨s', ran', returned⟩ := Option.map_eq_some_iff.mp second
  refine ⟨s, s', ran, ran', returned, ?_⟩
  exact reconnecting_owned
    (.connect ran (by decide +kernel) (.connect ran' (Option.some.inj gives) .closed))

end ModbusSim.Client
