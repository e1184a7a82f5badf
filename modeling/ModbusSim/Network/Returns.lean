import ModbusSim.Network.Linear

/-!
# Calls can return

Whatever has happened, no call has to be cut short: as long as the handler of its connection runs,
the server can get to its request and the client to the reply, and the call returns the result
that it has at its place (`calls_return`).
-/

namespace ModbusSim.Network

open PyStruct ModbusSim.Frame Framing Store Dispatch Setup Server Client LockedTasks StatefulRun
open Relation (ReflTransGen)

/-! ### The server alone -/

theorem received_after (c : Connection) (job : Job) (out : Except Exn Bytes) :
    (c.after job out).received = c.received := by
  cases job with
  | update => rfl
  | frame header adu =>
    simp only [Connection.after]
    split
    · rfl
    · rfl

theorem received_grows {lib : MathLib} {init : World} {s s' : ServerState}
    (reaches : LockedTasks.Reaches (server lib init) s s') (n : Nat) :
    (connection s n).received <+: (connection s' n).received := by
  induction reaches with
  | refl => exact List.prefix_rfl
  | tail _ step ih =>
    apply ih.trans
    cases step with
    | acquire | run | release => exact List.prefix_rfl
    | @move i next idle moves =>
      by_cases same : Task.handler n = i
      · subst same
        unfold connection
        simp only [Function.update_self]
        cases moves with
        | read => exact List.prefix_append ..
        | drop | stop => exact List.prefix_rfl
      · unfold connection
        simp only [Function.update_of_ne same]
        exact List.prefix_rfl
    | @write i job out =>
      by_cases same : Task.handler n = i
      · subst same
        unfold connection
        simp only [Function.update_self]
        exact (received_after ..) ▸ List.prefix_rfl
      · unfold connection
        simp only [Function.update_of_ne same]
        exact List.prefix_rfl

theorem reaches_moved {lib : MathLib} {init : World} {s : ServerState} {n : Nat} {c : Connection}
    (idle : s.pc (.handler n) = .idle) (moves : (connection s n).Moves init.store.units c) :
    ∃ s', LockedTasks.Reaches (server lib init) s s' ∧ connection s' n = c ∧
      ∀ m, m ≠ n → connection s' m = connection s m := by
  have step := LockedTasks.Step.move (P := server lib init) (i := Task.handler n) idle moves
  exact ⟨_, .single step, Function.update_self .., fun m other => own_update other c⟩

/-- The server can do in a net what it can do with the bytes that have been sent. -/
theorem reaches_served {lib : MathLib} {init : World} {y : Net} {s : ServerState}
    (later : LockedTasks.Reaches (server lib init) y.server s)
    (fed : ∀ n, (connection s n).received <+: (y.endpoint n).stream) :
    Reaches lib init y ⟨s, y.endpoint⟩ := by
  induction later with
  | refl => exact .refl
  | tail _ step ih =>
    exact (ih fun n => (received_grows (.single step) n).trans (fed n)).tail (.server step fed)

/-! ### The client alone -/

theorem reaches_steps {lib : MathLib} {init : World} {y : Net} {n : Nat} {e : Endpoint}
    (steps : ReflTransGen (Endpoint.Step (connection y.server n)) (y.endpoint n) e) :
    Reaches lib init y ⟨y.server, Function.update y.endpoint n e⟩ := by
  induction steps with
  | refl =>
    rw [Function.update_eq_self]
    exact .refl
  | @tail e e' _ step ih =>
    have own : Function.update y.endpoint n e n = e := Function.update_self ..
    have next := ih.tail (.client (n := n) (own.symm ▸ step))
    simp only [Function.update_idem] at next
    exact next

namespace Endpoint

variable {c : Connection} {e : Endpoint}

theorem steps_download (within : e.arrived ≤ c.written.flatten.length) :
    ReflTransGen (Step c) e { e with
      arrived := c.written.flatten.length
      received := e.received ++ c.written.flatten.drop e.arrived } := by
  rcases Nat.eq_or_lt_of_le within with all | before
  · rw [← all, List.drop_eq_nil_of_le (Nat.le_of_eq all.symm), List.append_nil]
  · have step : Step c e _ := .download (Nat.sub_pos_of_lt before)
      (Nat.le_of_eq (Nat.add_sub_cancel' within))
    rw [Nat.add_sub_cancel' within, ← List.length_drop, List.take_length] at step
    exact .single step

theorem step_pdu {bitCount : Option Int} {pdu : Bytes}
    (waits : e.phase = .awaitingPdu (1 + pdu.length) bitCount) (all : e.received = pdu) :
    Step c e { e with
      phase := .idle
      received := []
      returned := e.returned ++
        returnedBy (e.sent.length - 1) bitCount (acceptPdu bitCount pdu) } := by
  have size : (1 + (pdu.length : Int) - 1) = pdu.length := by omega
  have step : Step c e _ := .readPdu waits (by omega) (by rw [all]; omega)
  rw [size, Int.toNat_natCast, Endpoint.readPdu, all, List.take_length, List.drop_length] at step
  cases accepted : acceptPdu bitCount pdu with
  | error =>
    simp only [accepted] at step
    simpa only [returnedBy, List.append_nil] using step
  | ok response =>
    simp only [accepted] at step
    exact step

theorem steps_reply {transactionId : Nat} {unitId : Int} {bitCount : Option Int} {pdu : Bytes}
    (waits : e.phase = .awaitingHeader transactionId bitCount)
    (fits : (aduHeader transactionId unitId pdu).Fits)
    (all : e.received = (aduHeader transactionId unitId pdu).wire ++ pdu) :
    ReflTransGen (Step c) e { e with
      phase := .idle
      received := []
      returned := e.returned ++
        returnedBy (e.sent.length - 1) bitCount (acceptPdu bitCount pdu) } := by
  have size := MBAPHeader.length_wire (aduHeader transactionId unitId pdu)
  have enough : mbapHeaderLen ≤ e.received.length := by
    rw [all, List.length_append, size]
    exact Nat.le_add_right ..
  have step : Step c e _ := .readHeader waits enough
  rw [Endpoint.readHeader, all, List.take_left' size, List.drop_left' size,
    acceptHeader_wire fits] at step
  exact (ReflTransGen.single step).tail (step_pdu rfl rfl)

end Endpoint

/-! ### A call in progress -/

section

variable {lib : MathLib} {init : World} {clients : Nat → ModbusClient} {y : Net} {n : Nat} {x : Sent}

/-- What is not served of a client that waits is at most the call it waits for. -/
theorem unserved {units : List Int} {c : Connection} {entries : List Completed} {store : DataStore}
    {e : Endpoint} {s : Session} (projects : Projects units c 0 entries store e s) (inv : Inv s)
    (orderly : Orderly s e.leaves) (waits : e.phase ≠ .idle)
    (last : e.sent[e.sent.length - 1]? = some x) (running : c.running = true) :
    s.sent = s.served.map Prod.fst ∧ c.buffer ++ e.stream.drop c.received.length = [] ∨
      s.sent = s.served.map Prod.fst ++ [x.adu] ∧
        c.buffer ++ e.stream.drop c.received.length = x.adu := by
  have busy : s.phase ≠ .idle := projects.phase ▸ waits
  have opened : s.closed = false := by rw [projects.closed, running]; rfl
  obtain ⟨pending, all, flow⟩ := inv.lined.pending
  have size := congrArg List.length all
  rw [List.length_append, List.length_map] at size
  have flow := flow opened
  rw [projects.buffer running, projects.toServer running, List.drop_zero] at flow
  have few : pending.length ≤ 1 := by
    generalize e.leaves = leaves at orderly
    cases orderly with
    | abandoned rests | idle rests => exact absurd rests busy
    | asked _ _ one => omega
    | accepted _ _ done => omega
  cases pending with
  | nil => exact .inl ⟨all.trans (List.append_nil _), flow⟩
  | cons adu more =>
    have none : more = [] := by
      simp only [List.length_cons] at few
      exact List.length_eq_zero_iff.mp (by omega)
    subst none
    have own : adu = x.adu := by
      have ends := congrArg List.getLast? all
      rw [projects.sent, List.getLast?_map, List.getLast?_eq_getElem?, last, List.getLast?_concat]
        at ends
      exact (Option.some.inj ends).symm
    subst own
    exact .inr ⟨all, by simpa using flow⟩

theorem reads_rest (units : List Int) (framed : x.Framed)
    (short : lengthField x.call.request.wire ≤ maxLengthField) {c : Connection} (running : c.running = true) {rest : Bytes}
    (part : c.buffer ++ rest = x.adu) (content : rest ≠ []) :
    c.Moves units { c with received := c.received ++ rest, buffer := c.buffer ++ rest } := by
  have whole := head_framed framed.fits (wire_ne_nil _) short framed.whole
  rw [← part] at whole
  exact .read running (nextFrame_more (aduProtocol.head_of_proper_prefix whole content))

/-- The handler can come to where it has answered all that its client has sent. -/
theorem reaches_uploaded (sound : Sound init) (reaches : Reaches lib init (.start init clients) y)
    (waits : (y.endpoint n).phase ≠ .idle) (running : (connection y.server n).running = true)
    (last : (y.endpoint n).sent[(y.endpoint n).sent.length - 1]? = some x)
    (short : lengthField x.call.request.wire ≤ maxLengthField) :
    ∃ s, Reaches lib init y ⟨s, y.endpoint⟩ ∧ s.pc (.handler n) = .idle ∧
      (connection s n).running = true ∧ (connection s n).received = (y.endpoint n).stream ∧
      acceptedJobs init.store.units (connection s n).buffer = [] := by
  have fed : ∀ m, (connection y.server m).received <+: (y.endpoint m).stream := by
    intro m
    obtain ⟨_, projects, _⟩ := reaches_mirrors sound reaches m
    exact projects.fed
  obtain ⟨s₁, first, idle, done, goesOn, received⟩ :=
    reaches_emptied sound reaches.server running
  have served : Reaches lib init y ⟨s₁, y.endpoint⟩ :=
    reaches_served first fun m => received m ▸ fed m
  have reaches₁ := reaches.server.trans first
  by_cases all : (connection s₁ n).received = (y.endpoint n).stream
  · exact ⟨s₁, served, idle, goesOn, all, done⟩
  · have mirrors := reaches_mirrors sound (ReflTransGen.trans reaches served) n
    unfold MirrorsAt at mirrors
    simp only [idle] at mirrors
    obtain ⟨s, projects, inv, orderly⟩ := mirrors
    obtain ⟨rest, whole⟩ := projects.fed
    have missing : rest ≠ [] := by
      intro none
      rw [none, List.append_nil] at whole
      exact all whole
    have coming := unserved projects inv orderly waits last goesOn
    rw [← whole, List.drop_left] at coming
    rcases coming with ⟨_, empty⟩ | ⟨_, part⟩
    · exact absurd (List.append_eq_nil_iff.mp empty).2 missing
    · have framed := (reaches_endpoint reaches n).framed x (List.mem_of_getElem? last)
      have moves := reads_rest init.store.units framed short goesOn part missing
      obtain ⟨s₂, second, read, others⟩ := reaches_moved idle moves
      obtain ⟨s₃, third, idle₃, done₃, goesOn₃, received₃⟩ :=
        reaches_emptied sound (reaches₁.trans second) (by rw [read]; exact goesOn)
      have uploaded : (connection s₃ n).received = (y.endpoint n).stream := by
        rw [received₃, read]
        exact whole
      refine ⟨s₃, reaches_served (first.trans (second.trans third)) fun m => ?_, idle₃, goesOn₃,
        uploaded, done₃⟩
      by_cases same : m = n
      · subst same
        exact ⟨[], (List.append_nil _).trans uploaded⟩
      · rw [received₃, others m same, received]
        exact fed m

/-- What a client that waits finds in its reply: the rest of it is on its way, or has arrived. -/
inductive Arrives (c : Connection) (e : Endpoint) (x : Sent) (pdu : Bytes) : Prop
  | whole (waits : e.phase = .awaitingHeader x.transactionId x.call.bitCount)
    (fits : (aduHeader x.transactionId x.unit pdu).Fits)
    (coming : e.received ++ c.written.flatten.drop e.arrived =
      (aduHeader x.transactionId x.unit pdu).wire ++ pdu) : Arrives c e x pdu
  | body (waits : e.phase = .awaitingPdu (1 + pdu.length) x.call.bitCount)
    (coming : e.received ++ c.written.flatten.drop e.arrived = pdu) : Arrives c e x pdu

theorem all_served {units : List Int} {c : Connection} {entries : List Completed}
    {store : DataStore} {e : Endpoint} {s : Session}
    (projects : Projects units c 0 entries store e s) (inv : Inv s) (orderly : Orderly s e.leaves)
    (waits : e.phase ≠ .idle) (last : e.sent[e.sent.length - 1]? = some x)
    (running : c.running = true) (framed : x.Framed) (unit : x.unit ∈ units)
    (short : lengthField x.call.request.wire ≤ maxLengthField) (uploaded : c.received = e.stream)
    (done : acceptedJobs units c.buffer = []) :
    s.sent = s.served.map Prod.fst := by
  rcases unserved projects inv orderly waits last running with ⟨all, _⟩ | ⟨_, coming⟩
  · exact all
  · -- the request would be the next job
    rw [uploaded, List.drop_length, List.append_nil] at coming
    rw [coming, acceptedJobs, drain_framed framed.fits (wire_ne_nil _) short framed.whole] at done
    have inside : accepted units x.adu = true := by
      rw [framed.accepted]
      exact decide_eq_true unit
    rw [List.filter_cons_of_pos inside] at done
    cases done

/-- A session whose last request is served holds the reply to it, or what is left of it. -/
theorem arrives_of_served {units : List Int} {c : Connection} {entries : List Completed}
    {store : DataStore} {e : Endpoint} {s : Session}
    (projects : Projects units c 0 entries store e s) (inv : Inv s) (orderly : Orderly s e.leaves)
    (own : WaitsFor x e.phase) (written : c.written = repliesOf entries)
    {earlier : List (Bytes × Bytes)} {pdu : Bytes}
    (fits : (aduHeader x.transactionId x.unit pdu).Fits)
    (served : s.served =
      earlier ++ [(x.adu, (aduHeader x.transactionId x.unit pdu).wire ++ pdu)])
    (all : s.sent = s.served.map Prod.fst) : Arrives c e x pdu := by
  have flow : s.received ++ s.toClient = e.received ++ c.written.flatten.drop e.arrived := by
    rw [projects.received, projects.toClient, written]
  have phase := projects.phase
  cases waits : e.phase with
  | idle =>
    rw [waits] at own
    exact own.elim
  | awaitingHeader transactionId bitCount =>
    rw [waits] at own phase
    obtain ⟨rfl, rfl⟩ := own
    refine .whole waits fits ?_
    generalize e.leaves = leaves at orderly
    cases orderly with
    | abandoned rests | idle rests => cases phase.symm.trans rests
    | accepted other => cases phase.symm.trans other
    | asked _ whole =>
      rw [← flow, whole, Session.ownReply, all, List.length_map, served]
      simp
  | awaitingPdu length bitCount =>
    rw [waits] at own phase
    cases own
    cases inv.flight with
    | idle rests => cases phase.symm.trans rests
    | asked other => cases phase.symm.trans other
    | @accepted _ _ _ _ header other last _ arriving =>
      have same := (List.append_inj_right' (served.symm.trans last) rfl)
      obtain ⟨_, reply⟩ := Prod.mk.inj (List.singleton_inj.mp same)
      obtain ⟨_, rfl⟩ := List.append_inj reply
        ((MBAPHeader.length_wire _).trans (MBAPHeader.length_wire header).symm)
      cases phase.symm.trans other
      exact .body waits (flow.symm.trans arriving)

theorem reaches_reply (sound : Sound init) (reaches : Reaches lib init (.start init clients) y)
    (waits : (y.endpoint n).phase ≠ .idle) (idle : y.server.pc (.handler n) = .idle)
    (running : (connection y.server n).running = true)
    (last : (y.endpoint n).sent[(y.endpoint n).sent.length - 1]? = some x)
    (unit : x.unit ∈ init.store.units) (short : lengthField x.call.request.wire ≤ maxLengthField)
    (uploaded : (connection y.server n).received = (y.endpoint n).stream)
    (done : acceptedJobs init.store.units (connection y.server n).buffer = []) :
    ∃ pdu, Arrives (connection y.server n) (y.endpoint n) x pdu ∧
      (y.endpoint n).arrived ≤ (connection y.server n).written.flatten.length ∧
      (operationsOf y.server)[y.place init.store.units n ((y.endpoint n).sent.length - 1)]? =
        some x.operation ∧
      (run (perform lib) init (operationsOf y.server)).1[
          y.place init.store.units n ((y.endpoint n).sent.length - 1)]? =
        some (some (acceptPdu x.call.bitCount pdu)) := by
  have kept := reaches_endpoint reaches n
  have framed := kept.framed x (List.mem_of_getElem? last)
  have mirrors := reaches_mirrors sound reaches n
  unfold MirrorsAt at mirrors
  rw [idle] at mirrors
  obtain ⟨s, projects, inv, orderly⟩ := mirrors
  have written := (written_replies reaches.server n).2 idle
  have all := all_served projects inv orderly waits last running framed unit short uploaded done
  have size := congrArg List.length all
  rw [projects.sent, List.length_map, List.length_map] at size
  have ends := congrArg List.getLast? all
  rw [projects.sent, List.getLast?_map, List.getLast?_map, List.getLast?_eq_getElem?, last] at ends
  obtain ⟨⟨adu, reply⟩, answered, same⟩ := Option.map_eq_some_iff.mp ends.symm
  cases same
  obtain ⟨earlier, served⟩ := List.getLast?_eq_some_iff.mp answered
  rw [List.getLast?_eq_getElem?, ← size] at answered
  obtain ⟨e, entry, job, replied⟩ := entry_of_served projects inv kept last unit answered
  obtain ⟨operation, pdu, fits, rfl, result⟩ :=
    result_of_entry sound reaches last unit entry job replied
  obtain ⟨x', last', own⟩ := kept.waiting waits
  cases last.symm.trans last'
  exact ⟨pdu, arrives_of_served projects inv orderly own written fits served all,
    written ▸ projects.arrived, operation, result⟩

theorem Arrives.steps {c : Connection} {e : Endpoint} {pdu : Bytes} (arrives : Arrives c e x pdu)
    (within : e.arrived ≤ c.written.flatten.length) :
    ReflTransGen (Endpoint.Step c) e { e with
      phase := .idle
      arrived := c.written.flatten.length
      received := []
      returned := e.returned ++
        returnedBy (e.sent.length - 1) x.call.bitCount (acceptPdu x.call.bitCount pdu) } := by
  apply (Endpoint.steps_download within).trans
  cases arrives with
  | whole waits fits coming => exact Endpoint.steps_reply waits fits coming
  | body waits coming => exact .single (Endpoint.step_pdu waits coming)

theorem leaves_of_waits (sound : Sound init) (reaches : Reaches lib init (.start init clients) y)
    (waits : (y.endpoint n).phase ≠ .idle) : (y.endpoint n).leaves = false := by
  obtain ⟨s, projects, _, orderly⟩ := reaches_mirrors sound reaches n
  have phase := projects.phase
  generalize (y.endpoint n).leaves = leaves at orderly
  cases orderly with
  | abandoned rests => exact absurd (phase.symm.trans rests) waits
  | idle | asked | accepted => rfl

/-- From every state that is reached, a call in progress to a known unit, whose request is no
longer than a frame, can end with the result that it has at its place among the operations, as long
as the handler of its connection runs; no other client need do anything. -/
theorem calls_return (sound : Sound init) (reaches : Reaches lib init (.start init clients) y)
    (waits : (y.endpoint n).phase ≠ .idle) (running : (connection y.server n).running = true)
    (last : (y.endpoint n).sent[(y.endpoint n).sent.length - 1]? = some x)
    (unit : x.unit ∈ init.store.units) (short : lengthField x.call.request.wire ≤ maxLengthField) :
    ∃ y' result, Reaches lib init y y' ∧ (∀ m, m ≠ n → y'.endpoint m = y.endpoint m) ∧
      (y'.endpoint n).phase = .idle ∧ (y'.endpoint n).leaves = false ∧
      (y'.endpoint n).sent = (y.endpoint n).sent ∧
      (y'.endpoint n).returned = (y.endpoint n).returned ++
        returnedBy ((y.endpoint n).sent.length - 1) x.call.bitCount result ∧
      (operationsOf y'.server)[y'.place init.store.units n ((y.endpoint n).sent.length - 1)]? =
        some x.operation ∧
      (run (perform lib) init (operationsOf y'.server)).1[
          y'.place init.store.units n ((y.endpoint n).sent.length - 1)]? =
        some (some result) := by
  obtain ⟨s, served, idle, goesOn, uploaded, done⟩ :=
    reaches_uploaded sound reaches waits running last short
  obtain ⟨pdu, arrives, within, operation, result⟩ :=
    reaches_reply sound (ReflTransGen.trans reaches served) waits idle goesOn last unit short
      uploaded done
  have ended : Reaches lib init ⟨s, y.endpoint⟩ _ := reaches_steps (arrives.steps within)
  refine ⟨_, acceptPdu x.call.bitCount pdu, ReflTransGen.trans served ended,
    fun m other => Function.update_of_ne other .., ?_⟩
  unfold Net.place at operation result ⊢
  simp only [Function.update_self, true_and]
  exact ⟨leaves_of_waits sound reaches waits, operation, result⟩

end

/-- The client of the valve waits for its reply, and gets it. -/
theorem calls_return_pair : ∃ y y' result, Reaches sampleLib pairWorld y y' ∧
    (y.endpoint 1).phase = .awaitingHeader 1 none ∧ (y'.endpoint 1).phase = .idle ∧
    (y'.endpoint 1).returned = (y.endpoint 1).returned ++ returnedBy 0 none result ∧
    (run (perform sampleLib) pairWorld (operationsOf y'.server)).1[y'.place [1, 2] 1 0]? =
      some (some result) := by
  obtain ⟨y, _, reaches, _, _, waits, sent, running, _⟩ := reaches_calls
  have last : (y.endpoint 1).sent[(y.endpoint 1).sent.length - 1]? =
      some ⟨2, .readHoldingRegisters 0 1, 1, valveFrame⟩ := by
    rw [sent]
    rfl
  obtain ⟨y', result, later, _, ended, _, _, returned, _, placed⟩ :=
    calls_return pairWorld_sound reaches (by rw [waits]; exact nofun) running last (by decide)
      (by decide)
  rw [sent] at returned placed
  exact ⟨y, y', result, later, waits, ended, returned, placed⟩

end ModbusSim.Network
