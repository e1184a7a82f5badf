import ModbusSim.Lib.SerialHistory
import ModbusSim.Server.Progress
import ModbusSim.Setup.History

/-!
# The store behind a concurrent server

The jobs that a server completes are events of its store, and its history is a run of the store
with these events (`handle_history`). So what holds of the store holds of the server, whatever the
interleaving: the slots hold their latest writes, and a read is answered from one point of the
history, all of its slots at once (`linearizable`).
-/

namespace ModbusSim.Server

open PyStruct ModbusSim.Frame Store Dispatch Setup LockedTasks LastWriter StatefulRun

def Job.event : Job → Event
  | .frame header adu => .pdu header.unitId (adu.drop mbapHeaderLen)
  | .update index _ elapsed up => .update index elapsed up

def resultOf : Outcome → Except Exn Bytes
  | .replied result => result
  | .updated result => result.map fun _ => []
  | .absent => .ok []

def Job.Matches (units : List Int) : Job → Prop
  | .frame .. => True
  | .update index unitId _ _ => units[index]? = some unitId

def World.bindingUnits (w : World) : List Int := w.bindings.map GeneratorBinding.unitId

def eventsOf (s : ServerState) : List Event := s.history.map fun e => e.job.event

theorem unitId_update (lib : MathLib) (b : GeneratorBinding) (device : Device) (elapsed : ℚ)
    (up : Bool) : (b.update lib device elapsed up).2.2.unitId = b.unitId :=
  congrArg Prod.fst (placeOf_update lib b device elapsed up)

theorem access_eq_handle (lib : MathLib) {w : World} {job : Job}
    (fits : job.Matches (World.bindingUnits w)) :
    resultOf (w.handle lib job.event).1 = (access lib job w).1 ∧
      (w.handle lib job.event).2 = (access lib job w).2 := by
  cases job with
  | frame header adu =>
    simp only [Job.event, World.handle, access]
    cases w.store.get header.unitId with
    | none => exact ⟨rfl, rfl⟩
    | some device => exact ⟨rfl, rfl⟩
  | update index unitId elapsed up =>
    simp only [Job.Matches, World.bindingUnits, List.getElem?_map] at fits
    obtain ⟨b, listed, rfl⟩ := Option.map_eq_some_iff.mp fits
    simp only [Job.event, World.handle, access, listed]
    cases w.store.get b.unitId with
    | none => exact ⟨rfl, rfl⟩
    | some device => exact ⟨rfl, rfl⟩

theorem access_bindingUnits (lib : MathLib) {w : World} {job : Job}
    (fits : job.Matches (World.bindingUnits w)) :
    World.bindingUnits (access lib job w).2 = World.bindingUnits w := by
  cases job with
  | frame header adu =>
    simp only [access]
    cases w.store.get header.unitId with
    | none => rfl
    | some device => rfl
  | update index unitId elapsed up =>
    have here : (w.bindings.map GeneratorBinding.unitId)[index]? = some unitId := fits
    rw [List.getElem?_map] at here
    obtain ⟨b, listed, rfl⟩ := Option.map_eq_some_iff.mp here
    simp only [access, listed]
    cases w.store.get b.unitId with
    | none => rfl
    | some device =>
      obtain ⟨inside, same⟩ := List.getElem?_eq_some_iff.mp fits
      simp only [World.bindingUnits, List.map_set, unitId_update]
      rw [← same]
      exact List.set_getElem_self inside

theorem handle_simulates (lib : MathLib) (init : World) :
    Simulates (fun (w : World) (job : Job) => w.handle lib job.event)
      (server lib init).perform (fun w w' => w = w' ∧ World.bindingUnits w = World.bindingUnits init)
      (Job.Matches (World.bindingUnits init)) resultOf fun _ _ => True := by
  rintro w _ job ⟨rfl, units⟩ fits
  rw [← units] at fits
  obtain ⟨result, next⟩ := access_eq_handle lib fits
  refine ⟨result, trivial, next, ?_⟩
  rw [next, access_bindingUnits lib fits, units]

section Histories

variable {lib : MathLib} {init : World} {s : ServerState}

theorem matches_of_history (reaches : Reaches (server lib init) (serving init) s) {job : Job}
    (member : job ∈ s.history.map Entry.job) : job.Matches (World.bindingUnits init) := by
  obtain ⟨e, ran, rfl⟩ := List.mem_map.mp member
  obtain ⟨l, wants⟩ := reaches.wanted ran
  obtain ⟨task, job, out⟩ := e
  cases task with
  | handler n =>
    obtain ⟨_, _, _, _, _, _, rfl⟩ := wants
    trivial
  | generators =>
    obtain ⟨_, b, up, listed, update⟩ := wants
    rw [update, Job.Matches, World.bindingUnits, List.getElem?_map, listed, Option.map_some]

/-- The history of a server is a run of its store, with the same results and the same end. -/
theorem handle_history (reaches : Reaches (server lib init) (serving init) s) :
    ∃ outcomes, run (World.handle lib) init (eventsOf s) = (outcomes, s.shared) ∧
      outcomes.map resultOf = s.history.map Entry.out := by
  have fits : ∀ job ∈ s.history.map Entry.job, job.Matches (World.bindingUnits init) :=
    fun _ member => matches_of_history reaches member
  have start : init = init ∧ World.bindingUnits init = World.bindingUnits init := ⟨rfl, rfl⟩
  have simulated := run_simulates (handle_simulates lib init) fits start
  have results := simulated.1
  have same := simulated.2.2.1
  rw [reaches.run_history] at results same
  rw [← run_map (World.handle lib) Job.event, List.map_map] at results same
  exact ⟨_, Prod.ext rfl same, results⟩

/-- The store at a place of the history is that of the events before it. -/
theorem replay_take_eq (reaches : Reaches (server lib init) (serving init) s) (n : Nat) :
    (server lib init).replay init (s.history.take n) =
      (run (World.handle lib) init ((eventsOf s).take n)).2 := by
  have fits : ∀ job ∈ (s.history.take n).map Entry.job, job.Matches (World.bindingUnits init) := by
    intro job member
    rw [List.map_take] at member
    exact matches_of_history reaches (List.mem_of_mem_take member)
  have start : init = init ∧ World.bindingUnits init = World.bindingUnits init := ⟨rfl, rfl⟩
  have same := (run_simulates (handle_simulates lib init) fits start).2.2.1
  rw [replay_eq_run, ← same, ← run_map (World.handle lib) Job.event, List.map_map, eventsOf,
    List.map_take]
  rfl

end Histories

def valueAt (places : List Place) (init : World) (events : List Event) (outcomes : List Outcome)
    (place : Place) : Option Slot :=
  (latest (history (Event.write places) events outcomes) place).or (slotOf init place)

section Built

variable {lib : MathLib} {draws : Nat → Bool} {config : Config} {store : DataStore}
  {bindings : List GeneratorBinding}

/-- Runs of a built store keep it to its configuration, and its slots hold their latest writes. -/
theorem slots_run (valid : config.validate = .ok ())
    (built : buildDatastore lib draws config = .ok (store, bindings)) (events : List Event) :
    World.Kept config (bindings.map placeOf) (run (World.handle lib) ⟨store, bindings⟩ events).2 ∧
      ∀ place, slotOf (run (World.handle lib) ⟨store, bindings⟩ events).2 place =
        valueAt (bindings.map placeOf) ⟨store, bindings⟩ events
          (run (World.handle lib) ⟨store, bindings⟩ events).1 place := by
  have start : World.Kept config (bindings.map placeOf) ⟨store, bindings⟩ :=
    ⟨buildDatastore_realizes valid built, rfl⟩
  have all : ∀ event ∈ events, (fun _ : Event => True) event := fun _ _ => trivial
  exact view_run (records_handle lib config (bindings.map placeOf)) all start

/-- A reply to a successful read of a history carries the slots of the store at its place. -/
theorem returnsSlots_of_history (valid : config.validate = .ok ())
    (built : buildDatastore lib draws config = .ok (store, bindings)) {s : ServerState}
    (reaches : Reaches (server lib ⟨store, bindings⟩) (serving ⟨store, bindings⟩) s) {n : Nat}
    {task : Task} {header : MBAPHeader} {adu reply : Bytes}
    (place : s.history[n]? = some ⟨task, .frame header adu, .ok reply⟩)
    (isRead : byteAt (adu.drop mbapHeaderLen) 0 ∈ [0x01, 0x02, 0x03, 0x04])
    (success : byteAt reply 0 = byteAt (adu.drop mbapHeaderLen) 0) :
    ReturnsSlots (run (World.handle lib) ⟨store, bindings⟩ ((eventsOf s).take n)).2 header.unitId
      (adu.drop mbapHeaderLen) reply := by
  have kept := (slots_run valid built ((eventsOf s).take n)).1
  have answered := reaches.serial.outputs n _ place
  rw [replay_take_eq reaches] at answered
  generalize (run (World.handle lib) ⟨store, bindings⟩ ((eventsOf s).take n)).2 = w at *
  simp only [server, access] at answered
  cases found : w.store.get header.unitId with
  | none =>
    -- an unknown unit is not answered at all
    simp only [found, Except.ok.injEq] at answered
    subst answered
    rw [← success] at isRead
    exact absurd isRead (by decide)
  | some device =>
    simp only [found] at answered
    exact kept.realizes.returnsSlots found isRead (Prod.ext answered.symm rfl) success

/-- Whatever the interleaving, the server is its store, one event after another, in an order that
only grows: the outputs are those of the store, every slot holds its latest write, and a successful
read returns, for all of its slots, the latest writes before its own place. -/
theorem linearizable (valid : config.validate = .ok ())
    (built : buildDatastore lib draws config = .ok (store, bindings)) {s s' : ServerState}
    (reaches : Reaches (server lib ⟨store, bindings⟩) (serving ⟨store, bindings⟩) s)
    (later : Reaches (server lib ⟨store, bindings⟩) s s') :
    s.history <+: s'.history ∧ ∃ outcomes,
      run (World.handle lib) ⟨store, bindings⟩ (eventsOf s') = (outcomes, s'.shared) ∧
      outcomes.map resultOf = s'.history.map Entry.out ∧
      (∀ place, slotOf s'.shared place =
        valueAt (bindings.map placeOf) ⟨store, bindings⟩ (eventsOf s') outcomes place) ∧
      ∀ n task header adu reply, s'.history[n]? = some ⟨task, .frame header adu, .ok reply⟩ →
        byteAt (adu.drop mbapHeaderLen) 0 ∈ [0x01, 0x02, 0x03, 0x04] →
        byteAt reply 0 = byteAt (adu.drop mbapHeaderLen) 0 →
        ∃ response,
          decodeResponsePdu reply (some (wordAt (adu.drop mbapHeaderLen) 3)) = .ok response ∧
          (valuesOf response).length = wordAt (adu.drop mbapHeaderLen) 3 ∧
          ∀ j < wordAt (adu.drop mbapHeaderLen) 3, (valuesOf response)[j]? =
            valueAt (bindings.map placeOf) ⟨store, bindings⟩ ((eventsOf s').take n)
              (outcomes.take n) (header.unitId,
                addressedRegion (byteAt (adu.drop mbapHeaderLen) 0),
                wordAt (adu.drop mbapHeaderLen) 1 + j) := by
  have reaches' := Relation.ReflTransGen.trans reaches later
  obtain ⟨outcomes, ran, results⟩ := handle_history reaches'
  refine ⟨later.history_grows, outcomes, ran, results, fun place => ?_,
    fun n task header adu reply place isRead success => ?_⟩
  · have slots := (slots_run valid built (eventsOf s')).2 place
    rw [ran] at slots
    exact slots
  · obtain ⟨response, decoded, count, values⟩ :=
      returnsSlots_of_history valid built reaches' place isRead success
    refine ⟨response, decoded, count, fun j before => ?_⟩
    rw [values j before, (slots_run valid built _).2, run_take, ran]

end Built

/-- The last read of the first client returns what it has written, and the constant. -/
theorem linearizable_pair : ∃ (s : ServerState) (outcomes : List Outcome) (response : Response),
    s.history = pairHistory ∧
      run (World.handle sampleLib) pairWorld (eventsOf s) = (outcomes, s.shared) ∧
      decodeResponsePdu [3, 4, 0, 9, 1, 44] (some 2) = .ok response ∧
      valuesOf response = [.int 9, .int 300] ∧
      ∀ j < 2, (valuesOf response)[j]? =
        valueAt (pairWorld.bindings.map placeOf) pairWorld ((eventsOf s).take 3) (outcomes.take 3)
          (1, .holdingRegisters, 0 + j) := by
  obtain ⟨_, s, reaches, _, _, later, served⟩ := reaches_pair
  obtain ⟨_, outcomes, ran, _, _, reads⟩ :=
    linearizable pairConfig_valid pairConfig_built reaches later
  have last : s.history[3]? =
      some ⟨.handler 0, .frame ⟨2, 0, 6, 1⟩ readFrame, .ok [3, 4, 0, 9, 1, 44]⟩ := by
    rw [served.history]
    rfl
  have found : decodeResponsePdu [3, 4, 0, 9, 1, 44] (some 2) =
      .ok (.readHoldingRegisters [9, 300]) := by decide +kernel
  obtain ⟨response, decoded, _, values⟩ := reads 3 _ _ _ _ last (by decide) rfl
  cases decoded.symm.trans found
  exact ⟨s, outcomes, _, served.history, ran, found, rfl, values⟩

end ModbusSim.Server
