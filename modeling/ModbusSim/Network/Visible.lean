import ModbusSim.Network.Linear

/-!
# What the reads of clients return

Each operation of the server makes its write to the slots of the store. A call that has returned a
write made it at its place, and one that has returned a read has seen the store at its place. So a
read that is sent after a write has returned never misses it: it returns what the write left in the
slot, or what a later operation did (`never_stale`).
-/

namespace ModbusSim.Network

open PyStruct PyList ModbusSim.Frame Store Dispatch Setup Server Client LastWriter StatefulRun

/-- The writes that a server has made to the slots of its store, in their order. -/
def writesOf (lib : MathLib) (init : World) (s : ServerState) : List (Write Place Slot) :=
  history (Event.write (init.bindings.map placeOf)) (eventsOf s)
    (run (World.handle lib) init (eventsOf s)).1

def Wrote (lib : MathLib) (init : World) (s : ServerState) (i : Nat) (slot : Place)
    (value : Slot) : Prop :=
  ∃ w, (writesOf lib init s)[i]? = some w ∧ w slot = some value

/-! ### What requests say, and what they come to -/

theorem spelled_of_decoded {pdu : Bytes} {r : Request} (decoded : decodeRequestPdu pdu = .ok r) :
    ∃ first, pdu.head? = some first ∧ first.toNat ∈ supportedFunctionCodes ∧
      spelled pdu first.toNat = r := by
  obtain ⟨first, head, supported⟩ := supported_of_decoded decoded
  have decodes := decodes_supported head supported
  refine ⟨first, head, supported, ?_⟩
  by_cases structured : wellStructured pdu first.toNat
  · exact Except.ok.inj ((decodes.accepted structured).symm.trans decoded)
  · obtain ⟨message, refused⟩ := decodes.refused structured
    cases decoded.symm.trans refused

theorem pduWrite_answer {r : Request} (encodable : r.Encodable) (device : Device)
    (slot : Region × Nat) : pduWrite r.wire (answer device r).wire slot = written r slot := by
  obtain ⟨first, head, supported, same⟩ := spelled_of_decoded (decodeRequestPdu_wire encodable)
  have lead : (answer device r).wire.head? = r.wire.head? := by cases r <;> rfl
  rw [pduWrite, byteAt_zero head, byteAt_zero (lead.trans head)]
  by_cases isWrite : first.toNat ∈ [0x05, 0x06, 0x0F, 0x10]
  · conv => rhs; rw [← same, written_spelled r.wire isWrite]
    simp only [isWrite, true_and]
  · rw [if_neg fun all => isWrite all.1, written, ← same,
      transmitted_spelled_read supported r.wire isWrite]
    simp

theorem slot_of_answer {device : Device} {region : Region}
    (kinds : ∀ slot ∈ (device.block region).values, SlotOf region slot) {a c : Int}
    (inside : InRegion device (readOf region a c)) {j : Nat} (before : j < c.toNat) :
    (valuesOf (answer device (readOf region a c)))[j]? = slotAt device (region, a.toNat + j) := by
  have start := inside.1
  rw [address_readOf] at start
  rw [valuesOf_answer, List.getElem?_map, getElem?_slice, if_pos (by omega), slotAt]
  cases slot : (device.block region).values[a.toNat + j]? with
  | none => rfl
  | some value =>
    rw [Option.map_some, readAs_eq (kinds value (List.mem_of_getElem? slot))]

theorem answered_of_perform {lib : MathLib} {w : World} {unit : Int} {request : Request}
    {response : Response} (sound : Sound w)
    (result : (perform lib w (.call unit request)).1 = some (.ok response)) : ∃ device,
      w.store.get unit = some device ∧ device.WellFormed ∧ QuantityInRange request ∧
        InRegion device request ∧ response = answer device request := by
  simp only [perform] at result
  cases found : w.store.get unit with
  | none => simp [found] at result
  | some device =>
    have wellFormed := sound.devices unit device found
    simp only [found, Option.some_inj] at result
    rcases typedReply_cases wellFormed.sized request with
      ⟨inRange, inside, answered, _⟩ | ⟨e, refused, _⟩
    · rw [answered, outcome, Except.ok.injEq] at result
      exact ⟨device, rfl, wellFormed, inRange, inside, result.symm⟩
    · rw [refused] at result
      cases result

/-! ### Calls that have returned -/

section

variable {lib : MathLib} {init : World} {clients : Nat → ModbusClient} {y : Net} {n : Nat}
  {r : Returned} {x : Sent}

theorem event_of_returned (sound : Sound init) (reaches : Reaches lib init (.start init clients) y)
    (member : r ∈ (y.endpoint n).returned) (own : (y.endpoint n).sent[r.call]? = some x) :
    (eventsOf y.server)[y.place init.store.units n r.call]? =
      some (.pdu x.unit x.call.request.wire) := by
  obtain ⟨x', e, _, own', _, entry, job, _⟩ := entry_of_returned sound reaches member
  cases own.symm.trans own'
  have framed := (reaches_endpoint reaches n).framed x (List.mem_of_getElem? own)
  have place : y.server.history[y.place init.store.units n r.call]? = some e :=
    Places.getElem?_place _ entry
  rw [eventsOf, List.getElem?_map, place, Option.map_some, job, framed.event]

theorem answered_of_returned (sound : Sound init)
    (reaches : Reaches lib init (.start init clients) y) (member : r ∈ (y.endpoint n).returned)
    (own : (y.endpoint n).sent[r.call]? = some x) : ∃ device,
      (run (World.handle lib) init
          ((eventsOf y.server).take (y.place init.store.units n r.call))).2.store.get x.unit =
        some device ∧ device.WellFormed ∧ QuantityInRange x.call.request ∧
        InRegion device x.call.request ∧ r.response = answer device x.call.request := by
  obtain ⟨x', own', operation, result⟩ := carriedOut_of_returned sound reaches member
  cases own.symm.trans own'
  rw [run_getElem? (perform lib) operation] at result
  obtain ⟨_, holds, _⟩ :=
    soundOver_take sound reaches.server (y.place init.store.units n r.call)
  have answered := answered_of_perform holds (Option.some_inj.mp result)
  rw [operationsOf, ← List.map_take, run_perform] at answered
  exact answered

theorem wrote_of_returned (sound : Sound init) (reaches : Reaches lib init (.start init clients) y)
    (member : r ∈ (y.endpoint n).returned) (own : (y.endpoint n).sent[r.call]? = some x)
    {slot : Region × Nat} {value : Slot} (writes : written x.call.request slot = some value) :
    Wrote lib init y.server (y.place init.store.units n r.call) (x.unit, slot) value := by
  have event := event_of_returned sound reaches member own
  obtain ⟨device, found, wellFormed, inRange, inside, _⟩ :=
    answered_of_returned sound reaches member own
  have encodable := ((reaches_endpoint reaches n).framed x (List.mem_of_getElem? own)).encodable
  obtain ⟨fits, _⟩ := answer_encodable wellFormed encodable inRange inside
  have processed : (processPdu device x.call.request.wire).1 =
      .ok (answer device x.call.request).wire := by
    rw [processPdu_inRange wellFormed.sized (decodeRequestPdu_wire encodable) inRange inside]
    exact (encodeResponsePdu_eq _).1 fits
  have place := run_getElem? (World.handle lib) (s := init) event
  simp only [World.handle, found, processed] at place
  refine ⟨Event.write (init.bindings.map placeOf) (.pdu x.unit x.call.request.wire)
    (.replied (.ok (answer device x.call.request).wire)), ?_, ?_⟩
  · rw [writesOf, history, List.getElem?_zipWith, event, place]
  · rw [← writes, ← pduWrite_answer encodable device]
    exact if_pos rfl

end

section Built

variable {lib : MathLib} {draws : Nat → Bool} {config : Config} {store : DataStore}
  {bindings : List GeneratorBinding} {clients : Nat → ModbusClient} {y : Net}

theorem sound_of_built (valid : config.validate = .ok ())
    (built : buildDatastore lib draws config = .ok (store, bindings)) : Sound ⟨store, bindings⟩ := by
  have realizes := buildDatastore_realizes valid built
  refine ⟨fun unitId device found => ?_, fun b member => ?_⟩
  · obtain ⟨_, _, _, holds⟩ := realizes.spec found
    exact holds.wellFormed
  · obtain ⟨_, _, bound⟩ := realizes.bindings b member
    exact bound.fits

/-- The store at a place has what the latest write before it left in each slot. -/
theorem slotOf_take (valid : config.validate = .ok ())
    (built : buildDatastore lib draws config = .ok (store, bindings)) (s : ServerState) (k : Nat)
    (slot : Place) :
    slotOf (run (World.handle lib) ⟨store, bindings⟩ ((eventsOf s).take k)).2 slot =
      (latest ((writesOf lib ⟨store, bindings⟩ s).take k) slot).or
        (slotOf ⟨store, bindings⟩ slot) := by
  rw [(slots_run valid built _).2, valueAt, run_take, writesOf, history, history, List.take_zipWith]

theorem values_of_returned (valid : config.validate = .ok ())
    (built : buildDatastore lib draws config = .ok (store, bindings))
    (reaches : Reaches lib ⟨store, bindings⟩ (.start ⟨store, bindings⟩ clients) y) {n : Nat}
    {r : Returned} (member : r ∈ (y.endpoint n).returned) {x : Sent}
    (own : (y.endpoint n).sent[r.call]? = some x) {region : Region} {a c : Int}
    (reads : x.call.request = readOf region a c) {j : Nat} (before : j < c.toNat) :
    (valuesOf r.response)[j]? = slotOf (run (World.handle lib) ⟨store, bindings⟩
      ((eventsOf y.server).take (y.place store.units n r.call))).2 (x.unit, region, a.toNat + j) := by
  obtain ⟨device, found, _, _, inside, answered⟩ :=
    answered_of_returned (sound_of_built valid built) reaches member own
  obtain ⟨_, _, _, holds⟩ := (slots_run valid built _).1.realizes.spec found
  rw [reads] at inside answered
  rw [answered, slot_of_answer (holds.slots region) inside before, slotOf_of_get found rfl]

/-- A read that is sent after a write has returned, by any client, returns for each slot of the
write what the write or a later operation has put there, and nothing was put there between that
operation and the read. -/
theorem never_stale (valid : config.validate = .ok ())
    (built : buildDatastore lib draws config = .ok (store, bindings))
    (reaches : Reaches lib ⟨store, bindings⟩ (.start ⟨store, bindings⟩ clients) y) {y' : Net}
    (later : Reaches lib ⟨store, bindings⟩ y y') {n m : Nat} {r r' : Returned} {x x' : Sent}
    (member : r ∈ (y.endpoint n).returned) (own : (y.endpoint n).sent[r.call]? = some x)
    (member' : r' ∈ (y'.endpoint m).returned) (own' : (y'.endpoint m).sent[r'.call]? = some x')
    (fresh : (y.endpoint m).sent.length ≤ r'.call) {slot : Region × Nat} {value : Slot}
    (writes : written x.call.request slot = some value) {a c : Int}
    (reads : x'.call.request = readOf slot.1 a c) (unit : x'.unit = x.unit) {j : Nat}
    (before : j < c.toNat) (here : a.toNat + j = slot.2) :
    Wrote lib ⟨store, bindings⟩ y'.server (y'.place store.units n r.call) (x.unit, slot) value ∧
      ∃ i found, y'.place store.units n r.call ≤ i ∧ i < y'.place store.units m r'.call ∧
        Wrote lib ⟨store, bindings⟩ y'.server i (x.unit, slot) found ∧
        (valuesOf r'.response)[j]? = some found ∧
        ∀ i' other, i < i' → i' < y'.place store.units m r'.call →
          ¬ Wrote lib ⟨store, bindings⟩ y'.server i' (x.unit, slot) other := by
  have sound := sound_of_built valid built
  have reaches' := Relation.ReflTransGen.trans reaches later
  obtain ⟨⟨more, whole⟩, grows⟩ := later.grows n
  have still : (y'.endpoint n).sent[r.call]? = some x := by
    rw [← whole, List.getElem?_append_left (List.getElem?_eq_some_iff.mp own).1, own]
  have wrote := wrote_of_returned sound reaches' (grows.subset member) still writes
  have ordered : y'.place store.units n r.call < y'.place store.units m r'.call :=
    Nat.lt_of_lt_of_le (place_lt sound reaches later member) (le_place sound reaches later member' fresh)
  have returned := values_of_returned valid built reaches' member' own' reads before
  rw [slotOf_take valid built, here, unit] at returned
  refine ⟨wrote, ?_⟩
  obtain ⟨w, place, covers⟩ := wrote
  generalize y'.place store.units m r'.call = k' at *
  -- the write is among those that the read has seen
  have seen : ((writesOf lib ⟨store, bindings⟩ y'.server).take k')[y'.place store.units n r.call]? =
      some w := by
    rw [List.getElem?_take_of_lt ordered, place]
  obtain ⟨i, v, found, after, there, puts, latest, last⟩ := latest_since seen covers
  have early : i < k' := by
    have inside := (List.getElem?_eq_some_iff.mp there).1
    rw [List.length_take] at inside
    omega
  rw [List.getElem?_take_of_lt early] at there
  rw [latest, Option.some_or] at returned
  refine ⟨i, found, after, early, ⟨v, there, puts⟩, returned, fun i' other between until' => ?_⟩
  rintro ⟨u, another, more⟩
  have none := last i' u between (by rw [List.getElem?_take_of_lt until', another])
  cases more.symm.trans none

end Built

def writeNineFrame : Bytes := [0, 1, 0, 0, 0, 6, 1, 6, 0, 0, 0, 9]
def readFirstFrame : Bytes := [0, 1, 0, 0, 0, 6, 1, 3, 0, 0, 0, 1]

/-- One client writes nine into the first register, then another one reads it. -/
theorem reaches_written : ∃ y y' : Net,
    Reaches sampleLib (sampleWorld 7) (.start (sampleWorld 7) fun _ => ⟨true, firstTid⟩) y ∧
      Reaches sampleLib (sampleWorld 7) y y' ∧
      (y.endpoint 0).sent = [⟨1, .writeRegister 0 9, 1, writeNineFrame⟩] ∧
      (y.endpoint 0).returned = [⟨0, none, .writeSingleRegister 0 9⟩] ∧ (y.endpoint 1).sent = [] ∧
      (y'.endpoint 1).sent = [⟨1, .readHoldingRegisters 0 1, 1, readFirstFrame⟩] ∧
      (y'.endpoint 1).returned = [⟨0, none, .readHoldingRegisters [9]⟩] := by
  have write : Connection.Moves [1] ⟨[], [], [], true⟩ ⟨writeNineFrame, writeNineFrame, [], true⟩ :=
    .read rfl rfl
  have read : Connection.Moves [1] ⟨[], [], [], true⟩ ⟨readFirstFrame, readFirstFrame, [], true⟩ :=
    .read rfl rfl
  have writes : Connection.Wants [1] ⟨writeNineFrame, writeNineFrame, [], true⟩
      (.frame ⟨1, 0, 6, 1⟩ writeNineFrame) := ⟨rfl, _, _, _, rfl, by decide, rfl⟩
  have reads : Connection.Wants [1] ⟨readFirstFrame, readFirstFrame, [], true⟩
      (.frame ⟨1, 0, 6, 1⟩ readFirstFrame) := ⟨rfl, _, _, _, rfl, by decide, rfl⟩
  have opened : Reaches sampleLib (sampleWorld 7)
      (.start (sampleWorld 7) fun _ => ⟨true, firstTid⟩) _ :=
    .single (.client (n := 0) (@Endpoint.Step.call _ _ 1 (.writeRegister 0 9) rfl rfl))
  have arrived := opened.tail (.server (.move (i := Task.handler 0) rfl write) ?_)
  have holding := arrived.tail (.server (.acquire (i := Task.handler 0) rfl writes rfl) ?_)
  have ran := holding.tail (.server (.run (i := Task.handler 0) rfl) ?_)
  have released := ran.tail (.server (.release (i := Task.handler 0) rfl) ?_)
  have answered := released.tail (.server (.write (i := Task.handler 0) rfl) ?_)
  have back := answered.tail (.client (n := 0) (.download (n := 12) (by decide) (by decide)))
  have header := back.tail (.client (n := 0) (.readHeader rfl (by decide)))
  have returned := header.tail (.client (n := 0) (.readPdu rfl (by decide) (by decide)))
  have onward : ∀ {y y' : Net}, Reaches sampleLib (sampleWorld 7) y y' →
      Reaches sampleLib (sampleWorld 7) y' y' := fun _ => .refl
  have opened' := (onward returned).tail
    (.client (n := 1) (@Endpoint.Step.call _ _ 1 (.readHoldingRegisters 0 1) rfl rfl))
  have arrived' := opened'.tail (.server (.move (i := Task.handler 1) rfl read) ?_)
  have holding' := arrived'.tail (.server (.acquire (i := Task.handler 1) rfl reads rfl) ?_)
  have ran' := holding'.tail (.server (.run (i := Task.handler 1) rfl) ?_)
  have released' := ran'.tail (.server (.release (i := Task.handler 1) rfl) ?_)
  have answered' := released'.tail (.server (.write (i := Task.handler 1) rfl) ?_)
  have back' := answered'.tail (.client (n := 1) (.download (n := 11) (by decide) (by decide)))
  have header' := back'.tail (.client (n := 1) (.readHeader rfl (by decide)))
  have returned' := header'.tail (.client (n := 1) (.readPdu rfl (by decide) (by decide)))
  · exact ⟨_, _, returned, returned', rfl, rfl, rfl, rfl, rfl⟩
  all_goals
    intro n
    match n with
    | 0 => exact List.prefix_rfl
    | 1 => exact List.prefix_rfl
    | n + 2 => exact List.nil_prefix

theorem never_stale_written : ∃ (y : Net) (i : Nat), i < y.place [1] 1 0 ∧
    Wrote sampleLib (sampleWorld 7) y.server i (1, .holdingRegisters, 0) (.int 9) ∧
      (y.endpoint 1).returned = [⟨0, none, .readHoldingRegisters [9]⟩] ∧
      ∀ i' other, i < i' → i' < y.place [1] 1 0 →
        ¬ Wrote sampleLib (sampleWorld 7) y.server i' (1, .holdingRegisters, 0) other := by
  obtain ⟨y, y', reaches, later, wrote, returned, unread, read, returned'⟩ := reaches_written
  have valid : sampleConfig.validate = .ok () := by decide +kernel
  have built : buildDatastore sampleLib (fun _ => true) sampleConfig =
      .ok ((sampleWorld 7).store, (sampleWorld 7).bindings) := by with_unfolding_all rfl
  have member : ⟨0, none, .writeSingleRegister 0 9⟩ ∈ (y.endpoint 0).returned := by
    rw [returned]
    exact List.mem_singleton_self _
  have member' : ⟨0, none, .readHoldingRegisters [9]⟩ ∈ (y'.endpoint 1).returned := by
    rw [returned']
    exact List.mem_singleton_self _
  have own : (y.endpoint 0).sent[0]? = some ⟨1, .writeRegister 0 9, 1, writeNineFrame⟩ := by
    rw [wrote]
    rfl
  have own' : (y'.endpoint 1).sent[0]? = some ⟨1, .readHoldingRegisters 0 1, 1, readFirstFrame⟩ := by
    rw [read]
    rfl
  have fresh : (y.endpoint 1).sent.length ≤ 0 := by
    rw [unread]
    rfl
  have writes : written (Call.writeRegister 0 9).request (.holdingRegisters, 0) = some (.int 9) := rfl
  have reads : (Call.readHoldingRegisters 0 1).request = readOf .holdingRegisters 0 1 := rfl
  have inside : 0 < Int.toNat 1 := by decide
  obtain ⟨_, i, found, _, before, puts, value, last⟩ :=
    never_stale valid built reaches later member own member' own' fresh writes reads rfl inside rfl
  cases value
  exact ⟨y', i, before, puts, returned', last⟩

end ModbusSim.Network
