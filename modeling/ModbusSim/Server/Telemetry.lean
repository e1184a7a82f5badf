import ModbusSim.Server.Linear
import ModbusSim.Setup.Telemetry

/-!
# Generators behind a concurrent server

The generator task updates its bindings tick after tick, in their order, and with steady generators
it never ends (`ticks_in_order`). Whatever the clients do meanwhile, an input register with one
generator shows the latest sample of it (`telemetry_latest`), and with any generators it stays
between their bounds, in the store and in every reply (`telemetry_between`).
-/

namespace ModbusSim.Server

open PyStruct PyValue ModbusSim.Frame Store Dispatch Setup LockedTasks LastWriter StatefulRun

/-! ### Ticks -/

def Job.target : Job → Option (Nat × Int × ℚ)
  | .update index unitId elapsed _ => some (index, unitId, elapsed)
  | .frame .. => none

def tick (bindings : List GeneratorBinding) (elapsed : ℚ) : List (Nat × Int × ℚ) :=
  bindings.zipIdx.map fun p => (p.2, p.1.unitId, elapsed)

/-- What the generator task has done: whole ticks and the beginning of one. -/
def WholeTicks (bindings : List GeneratorBinding) (entries : List Completed) : Prop :=
  ∃ (ticks : List ℚ) (elapsed : ℚ) (k : Nat), k ≤ bindings.length ∧
    entries.map (fun e => e.job.target) =
      (ticks.flatMap (tick bindings) ++ (tick bindings elapsed).take k).map some

/-- Where the task stands in the tick, and why it has ended. -/
structure Ticker.Kept (bindings : List GeneratorBinding) (t : Ticker) (done : List Completed) :
    Prop where
  ticks : ∃ (ticks : List ℚ) (elapsed : ℚ) (k : Nat), k ≤ bindings.length ∧
    done.map (fun e => e.job.target) =
      (ticks.flatMap (tick bindings) ++ (tick bindings elapsed).take k).map some ∧
    (t.running = true → k = t.next ∧ elapsed = t.elapsed ∨ k = 0 ∧ t.next = bindings.length)
  ended : t.running = false → ∃ e ∈ done, ∃ raised, e.out = .error raised

theorem length_tick (bindings : List GeneratorBinding) (elapsed : ℚ) :
    (tick bindings elapsed).length = bindings.length := by
  rw [tick, List.length_map, List.length_zipIdx]

theorem take_tick_succ {bindings : List GeneratorBinding} {index : Nat} {b : GeneratorBinding}
    (listed : bindings[index]? = some b) (elapsed : ℚ) :
    (tick bindings elapsed).take (index + 1) =
      (tick bindings elapsed).take index ++ [(index, b.unitId, elapsed)] := by
  have here : (tick bindings elapsed)[index]? = some (index, b.unitId, elapsed) := by
    rw [tick, List.getElem?_map, List.getElem?_zipIdx, listed]
    simp
  rw [List.take_add_one, here]
  rfl

theorem Ticker.Kept.wants {bindings : List GeneratorBinding} {t : Ticker} {done : List Completed}
    (kept : t.Kept bindings done) {job : Job} (wants : t.Wants bindings job) :
    ∃ ticks : List ℚ, t.next + 1 ≤ bindings.length ∧
      done.map (fun e => e.job.target) ++ [job.target] =
        (ticks.flatMap (tick bindings) ++ (tick bindings t.elapsed).take (t.next + 1)).map some := by
  obtain ⟨running, b, up, listed, rfl⟩ := wants
  obtain ⟨ticks, elapsed, k, _, targets, place⟩ := kept.ticks
  have inside : t.next < bindings.length := (List.getElem?_eq_some_iff.mp listed).1
  rcases place running with ⟨rfl, rfl⟩ | ⟨_, done⟩
  · refine ⟨ticks, inside, ?_⟩
    rw [targets, take_tick_succ listed, ← List.append_assoc]
    simp only [List.map_append, List.map_cons, List.map_nil, Job.target]
  · exact absurd done (Nat.ne_of_lt inside)

theorem Ticker.Kept.moves {bindings : List GeneratorBinding} {t next : Ticker}
    {done : List Completed} (kept : t.Kept bindings done) (moves : t.Moves bindings next) :
    next.Kept bindings done := by
  obtain ⟨ticks, elapsed, k, bound, targets, place⟩ := kept.ticks
  cases moves with
  | @tick later running finished =>
    refine ⟨?_, kept.ended⟩
    rcases place running with ⟨rfl, rfl⟩ | ⟨rfl, _⟩
    · -- the tick that is over is a whole one
      have whole : (Server.tick bindings t.elapsed).take t.next = Server.tick bindings t.elapsed :=
        List.take_of_length_le (by rw [length_tick]; exact finished)
      refine ⟨ticks ++ [t.elapsed], later, 0, Nat.zero_le _, ?_, fun _ => .inl ⟨rfl, rfl⟩⟩
      rw [targets, whole, List.flatMap_append, List.flatMap_singleton, List.take_zero,
        List.append_nil]
    · exact ⟨ticks, later, 0, Nat.zero_le _, by simpa using targets, fun _ => .inl ⟨rfl, rfl⟩⟩

theorem Ticker.Kept.after {bindings : List GeneratorBinding} {t : Ticker} {done : List Completed}
    (kept : t.Kept bindings done) {job : Job} (wants : t.Wants bindings job) (task : Task)
    (out : Except Exn Bytes) : (t.after out).Kept bindings (done ++ [⟨task, job, out⟩]) := by
  obtain ⟨ticks, bound, targets⟩ := kept.wants wants
  cases out with
  | ok bytes =>
    refine ⟨⟨ticks, t.elapsed, t.next + 1, bound, ?_, fun _ => .inl ⟨rfl, rfl⟩⟩, fun ended => ?_⟩
    · rw [List.map_append]
      exact targets
    · exact absurd wants.1 (by rw [show t.running = false from ended]; exact Bool.false_ne_true)
  | error raised =>
    refine ⟨⟨ticks, t.elapsed, t.next + 1, bound, ?_, nofun⟩, fun _ => ?_⟩
    · rw [List.map_append]
      exact targets
    · exact ⟨_, List.mem_append_right _ List.mem_cons_self, raised, rfl⟩

def tickerKept (bindings : List GeneratorBinding) : (i : Task) → i.Own → List Completed → Prop
  | .handler _ => fun _ _ => True
  | .generators => Ticker.Kept bindings

section Tasks

variable {lib : MathLib} {init : World} {s : ServerState}

theorem reaches_ticker (reaches : Reaches (server lib init) (serving init) s) :
    Ticker.Kept init.bindings (s.own .generators) (s.finished .generators) := by
  refine reaches.own_invariant (L := tickerKept init.bindings) (fun i => ?_) (fun i l next done moves kept => ?_)
    (fun i l done job out wants kept => ?_) .generators
  · cases i with
    | handler => trivial
    | generators =>
      exact ⟨⟨[], 0, 0, Nat.zero_le _, rfl, fun _ => .inr ⟨rfl, rfl⟩⟩, Bool.noConfusion⟩
  · cases i with
    | handler => trivial
    | generators => exact Ticker.Kept.moves kept moves
  · cases i with
    | handler => trivial
    | generators => exact Ticker.Kept.after kept wants _ out

/-- What has run of the generator task is whole ticks and the beginning of one. -/
theorem wholeTicks_of_reaches (reaches : Reaches (server lib init) (serving init) s) :
    WholeTicks init.bindings (s.entriesOf .generators) := by
  have kept := reaches_ticker reaches
  rw [WholeTicks, reaches.tracked.entries]
  rcases Pc.pending_cases (s.pc .generators) Task.generators with none | ⟨job, out, one, busy⟩
  · obtain ⟨ticks, elapsed, k, bound, targets, _⟩ := kept.ticks
    rw [none, List.append_nil]
    exact ⟨ticks, elapsed, k, bound, targets⟩
  · obtain ⟨ticks, bound, targets⟩ := kept.wants (reaches.tracked.wanted .generators job busy)
    rw [one, List.map_append]
    exact ⟨ticks, _, _, bound, targets⟩

end Tasks

section Built

variable {lib : MathLib} {draws : Nat → Bool} {config : Config} {store : DataStore}
  {bindings : List GeneratorBinding} {s : ServerState}

/-- An event that is no update, or one at a time up to this one. -/
def Within (T : ℚ) : Event → Prop
  | .pdu .. => True
  | .update _ elapsed _ => 0 ≤ elapsed ∧ elapsed ≤ T

section Steady

variable {sin : ℚ → ℚ} {T : ℚ}

theorem isOk_of_steady (sine : ∀ x, |sin x| ≤ 1) {places : List Place} {w : World}
    (holds : w.KeptSteady config places T) {event : Event} (within : Within T event) :
    ∃ bytes, resultOf (w.handle (.double sin) event).1 = .ok bytes := by
  obtain ⟨kept, steady⟩ := holds
  cases event with
  | pdu unitId request =>
    simp only [World.handle]
    cases found : w.store.get unitId with
    | none => exact ⟨[], rfl⟩
    | some device =>
      obtain ⟨_, _, _, holds⟩ := kept.realizes.spec found
      obtain ⟨reply, _, answered, _⟩ := processPdu_isOk holds.wellFormed request
      exact ⟨reply, congrArg Prod.fst answered⟩
  | update index elapsed up =>
    cases listed : w.bindings[index]? with
    | none =>
      simp only [World.handle, listed]
      exact ⟨[], rfl⟩
    | some b =>
      obtain ⟨outcome, _⟩ := kept.handle_update (.double sin) listed elapsed up
      have member := List.mem_of_getElem? listed
      obtain ⟨value, sampled⟩ := ((steady b member).sample sine elapsed up).1 within.1 within.2
      rw [outcome, sampled]
      exact ⟨[], rfl⟩

/-- With steady and roomy generators nothing that runs under a lock raises up to their time. -/
theorem isOk_of_history (sine : ∀ x, |sin x| ≤ 1) (valid : config.validate = .ok ())
    (built : buildDatastore (.double sin) draws config = .ok (store, bindings))
    (steady : config.Generators (GeneratorSpec.Steady T))
    (roomy : config.Generators GeneratorSpec.Roomy)
    (reaches : Reaches (server (.double sin) ⟨store, bindings⟩) (serving ⟨store, bindings⟩) s)
    (within : ∀ event ∈ eventsOf s, Within T event) :
    ∀ e ∈ s.history, ∃ bytes, e.out = .ok bytes := by
  have keeps : ∀ (w : World) event, w.KeptSteady config (bindings.map placeOf) T →
      Within T event → (∃ bytes, resultOf (w.handle (.double sin) event).1 = .ok bytes) ∧
        (w.handle (.double sin) event).2.KeptSteady config (bindings.map placeOf) T :=
    fun w event holds inside => ⟨isOk_of_steady sine holds inside, holds.handle sine event⟩
  obtain ⟨outcomes, ran, results⟩ := handle_history reaches
  have all : ∀ o ∈ (run (World.handle (.double sin)) ⟨store, bindings⟩ (eventsOf s)).1,
      ∃ bytes, resultOf o = .ok bytes :=
    run_valid_outputs keeps within (keptSteady_built sine valid built steady roomy)
  rw [ran] at all
  intro e member
  have listed : e.out ∈ s.history.map Entry.out := List.mem_map_of_mem member
  rw [← results] at listed
  obtain ⟨outcome, produced, same⟩ := List.mem_map.mp listed
  obtain ⟨bytes, returned⟩ := all outcome produced
  exact ⟨bytes, same.symm.trans returned⟩

end Steady

/-- The generator task runs whole ticks, one after another, each of them all bindings in their
order. In double precision, with generators that are steady up to a time and roomy, it does not end
by then, and nothing that it or a client does raises. -/
theorem ticks_in_order (valid : config.validate = .ok ())
    (built : buildDatastore lib draws config = .ok (store, bindings))
    (reaches : Reaches (server lib ⟨store, bindings⟩) (serving ⟨store, bindings⟩) s) :
    WholeTicks bindings (s.entriesOf .generators) ∧
      ∀ sin T, lib = .double sin → (∀ x, |sin x| ≤ 1) →
        config.Generators (GeneratorSpec.Steady T) → config.Generators GeneratorSpec.Roomy →
        (∀ event ∈ eventsOf s, Within T event) →
          Ticker.running (s.own .generators) = true ∧
            ∀ e ∈ s.history, ∃ bytes, e.out = .ok bytes := by
  refine ⟨wholeTicks_of_reaches reaches, fun sin T double sine steady roomy within => ?_⟩
  subst double
  have returned := isOk_of_history sine valid built steady roomy reaches within
  refine ⟨?_, returned⟩
  by_contra stopped
  rw [Bool.not_eq_true] at stopped
  obtain ⟨e, done, raised, failed⟩ := (reaches_ticker reaches).ended stopped
  have entry : e ∈ s.entriesOf .generators := by
    rw [reaches.tracked.entries]
    exact List.mem_append_left _ done
  obtain ⟨bytes, ok⟩ := returned e (List.mem_of_mem_filter entry)
  rw [ok] at failed
  cases failed

/-- What the register of a binding shows after events, if no other binding writes it: the latest
sample of its generator, or what it was built with. -/
def shown (lib : MathLib) (init : World) (index : Nat) (b : GeneratorBinding)
    (events : List Event) : Option Slot :=
  ((lastSample (samples lib b.generator (drawsOf index events)).1).map Slot.int).or
    (slotOf init (placeOf b))

/-- An input register with one generator shows its latest sample: the samples are those of the
generator alone on its own inputs, whatever the clients send and whatever the other generators do.
A read returns the latest sample before its place in the history. -/
theorem telemetry_latest (valid : config.validate = .ok ())
    (built : buildDatastore lib draws config = .ok (store, bindings))
    (reaches : Reaches (server lib ⟨store, bindings⟩) (serving ⟨store, bindings⟩) s) {index : Nat}
    {b : GeneratorBinding} (listed : bindings[index]? = some b)
    (input : b.region = .inputRegisters)
    (alone : ∀ j c, bindings[j]? = some c → placeOf c = placeOf b → j = index) :
    slotOf s.shared (placeOf b) = shown lib ⟨store, bindings⟩ index b (eventsOf s) ∧
      ∀ (n : Nat) task header adu reply,
        s.history[n]? = some ⟨task, .frame header adu, .ok reply⟩ →
        header.unitId = b.unitId → byteAt (adu.drop mbapHeaderLen) 0 = 0x04 →
        byteAt reply 0 = 0x04 →
        ∃ response,
          decodeResponsePdu reply (some (wordAt (adu.drop mbapHeaderLen) 3)) = .ok response ∧
          ∀ j < wordAt (adu.drop mbapHeaderLen) 3,
            wordAt (adu.drop mbapHeaderLen) 1 + j = b.address.toNat →
            (valuesOf response)[j]? =
              shown lib ⟨store, bindings⟩ index b ((eventsOf s).take n) := by
  have start : World.Kept config (bindings.map placeOf) ⟨store, bindings⟩ :=
    ⟨buildDatastore_realizes valid built, rfl⟩
  have unique : ∀ j : Nat, (bindings.map placeOf)[j]? = some (placeOf b) → j = index := by
    intro j here
    rw [List.getElem?_map] at here
    obtain ⟨c, there, same⟩ := Option.map_eq_some_iff.mp here
    exact alone j c there same
  have driven : ∀ events, slotOf (run (World.handle lib) ⟨store, bindings⟩ events).2 (placeOf b) =
      shown lib ⟨store, bindings⟩ index b events :=
    fun events => (slotOf_driven start listed input unique events).2
  refine ⟨?_, fun n task header adu reply place unit isRead success => ?_⟩
  · obtain ⟨outcomes, ran, _⟩ := handle_history reaches
    have last := driven (eventsOf s)
    rw [ran] at last
    exact last
  · obtain ⟨response, decoded, _, values⟩ := returnsSlots_of_history valid built reaches place
      (by rw [isRead]; decide) (by rw [success, isRead])
    refine ⟨response, decoded, fun j before address => ?_⟩
    rw [values j before, ← driven, isRead, address, unit, placeOf, input]
    rfl

/-- In double precision, an input register whose generators all keep between two values is always
between them, and so is what a client reads of it. -/
theorem telemetry_between {sin : ℚ → ℚ} (sine : ∀ x, |sin x| ≤ 1) (valid : config.validate = .ok ())
    (built : buildDatastore (.double sin) draws config = .ok (store, bindings))
    (reaches : Reaches (server (.double sin) ⟨store, bindings⟩) (serving ⟨store, bindings⟩) s)
    {place : Place}
    {low high : Int} (input : place.2.1 = .inputRegisters)
    (bound : ∃ p ∈ config.placed, p.place = place)
    (ranges : ∀ p ∈ config.placed, p.place = place → p.generator.Ranges low high) :
    (∃ value, slotOf s.shared place = some (.int value) ∧ low ≤ value ∧ value ≤ high) ∧
      ∀ (n : Nat) task header adu reply,
        s.history[n]? = some ⟨task, .frame header adu, .ok reply⟩ →
        header.unitId = place.1 → byteAt (adu.drop mbapHeaderLen) 0 = 0x04 →
        byteAt reply 0 = 0x04 →
        ∃ response,
          decodeResponsePdu reply (some (wordAt (adu.drop mbapHeaderLen) 3)) = .ok response ∧
          ∀ j < wordAt (adu.drop mbapHeaderLen) 3,
            wordAt (adu.drop mbapHeaderLen) 1 + j = place.2.2 →
            ∃ value, (valuesOf response)[j]? = some (.int value) ∧ low ≤ value ∧ value ≤ high := by
  have start := driven_built sine valid built bound ranges
  have driven : ∀ events, ∃ value,
      slotOf (run (World.handle (.double sin)) ⟨store, bindings⟩ events).2 place =
          some (.int value) ∧ low ≤ value ∧ value ≤ high :=
    fun events => (start.run sine input events).slot
  refine ⟨?_, fun n task header adu reply here unit isRead success => ?_⟩
  · obtain ⟨outcomes, ran, _⟩ := handle_history reaches
    have last := driven (eventsOf s)
    rw [ran] at last
    exact last
  · obtain ⟨response, decoded, _, values⟩ := returnsSlots_of_history valid built reaches here
      (by rw [isRead]; decide) (by rw [success, isRead])
    refine ⟨response, decoded, fun j before address => ?_⟩
    obtain ⟨value, holds, between⟩ := driven ((eventsOf s).take n)
    refine ⟨value, ?_, between⟩
    rw [values j before, isRead, address, unit, ← holds]
    show slotOf _ (place.1, .inputRegisters, place.2.2) = _
    rw [← input]

end Built

/-! ### A meter that walks between 0 and 200 -/

def meterWalk : GeneratorSpec :=
  ⟨0, "random_walk", [(.str "start", .int 100), (.str "step", .int 5), (.str "min", .int 0),
    (.str "max", .int 200)]⟩

def meterConstant : GeneratorSpec := ⟨1, "constant", [(.str "value", .int 300)]⟩

def meterConfig : Config :=
  ⟨[⟨1, "meter", .empty, .empty, .empty, ⟨2, none, [meterWalk, meterConstant]⟩⟩]⟩

def meterUnit (value : Int) : Device :=
  ⟨1, "meter", ⟨0, []⟩, ⟨0, []⟩, ⟨0, []⟩, ⟨2, [.int value, .int 300]⟩⟩

def meterBinding (value : Int) : GeneratorBinding :=
  newBinding (meterUnit value) .inputRegisters 0
    (.randomWalk (.int 5) (.int 0) (.int 200) (.int value))

def meterWorld (value : Int) : World :=
  ⟨.single (meterUnit value),
    [meterBinding value, newBinding (meterUnit value) .inputRegisters 1 (.constant 300)]⟩

theorem meterConfig_valid : meterConfig.validate = .ok () := by decide +kernel

theorem meterConfig_built : buildDatastore sampleLib (fun _ => true) meterConfig =
    .ok ((meterWorld 105).store, (meterWorld 105).bindings) := by with_unfolding_all rfl

theorem meter_generators {P : GeneratorSpec → Prop} (walk : P meterWalk)
    (constant : P meterConstant) : meterConfig.Generators P := by
  rw [← mem_placed_iff (Config.validate_eq_ok meterConfig_valid)]
  intro p member
  rcases List.mem_cons.mp member with rfl | member
  · exact walk
  obtain rfl := List.mem_singleton.mp member
  exact constant

def meterFrame : Bytes := [0, 1, 0, 0, 0, 6, 1, 4, 0, 0, 0, 2]

def meterHistory : List Completed :=
  [⟨.generators, .update 0 1 1 true, .ok []⟩,
    ⟨.handler 0, .frame ⟨1, 0, 6, 1⟩ meterFrame, .ok [4, 4, 0, 110, 1, 44]⟩,
    ⟨.generators, .update 1 1 1 true, .ok []⟩,
    ⟨.generators, .update 0 1 2 false, .ok []⟩]

theorem access_up : access sampleLib (.update 0 1 1 true) (meterWorld 105) =
    (.ok [], meterWorld 110) := by with_unfolding_all rfl

theorem access_down : access sampleLib (.update 0 1 2 false) (meterWorld 110) =
    (.ok [], meterWorld 105) := by with_unfolding_all rfl

theorem reaches_meter : ∃ s : ServerState,
    Reaches (server sampleLib (meterWorld 105)) (serving (meterWorld 105)) s ∧
      s.history = meterHistory := by
  have asks : Connection.Moves [1] ⟨[], [], [], true⟩ ⟨meterFrame, meterFrame, [], true⟩ :=
    .read rfl rfl
  have asked : Connection.Wants [1] ⟨meterFrame, meterFrame, [], true⟩
      (.frame ⟨1, 0, 6, 1⟩ meterFrame) := ⟨rfl, _, _, _, rfl, by decide, rfl⟩
  have begins : Ticker.Moves (meterWorld 105).bindings ⟨0, 2, true⟩ ⟨1, 0, true⟩ :=
    .tick rfl (Nat.le_refl 2)
  have first : Ticker.Wants (meterWorld 105).bindings ⟨1, 0, true⟩ (.update 0 1 1 true) :=
    ⟨rfl, _, true, rfl, rfl⟩
  have second : Ticker.Wants (meterWorld 105).bindings ⟨1, 1, true⟩ (.update 1 1 1 true) :=
    ⟨rfl, _, true, rfl, rfl⟩
  have again : Ticker.Moves (meterWorld 105).bindings ⟨1, 2, true⟩ ⟨2, 0, true⟩ :=
    .tick rfl (Nat.le_refl 2)
  have third : Ticker.Wants (meterWorld 105).bindings ⟨2, 0, true⟩ (.update 0 1 2 false) :=
    ⟨rfl, _, false, rfl, rfl⟩
  have sent : Reaches (server sampleLib (meterWorld 105)) (serving (meterWorld 105)) _ :=
    .single (Step.move (i := Task.handler 0) rfl asks)
  have ticking := sent.tail (Step.move (i := Task.generators) rfl begins)
  have holding := ticking.tail (Step.acquire (i := Task.generators) rfl first rfl)
  have walked := holding.tail (Step.run_eq (i := Task.generators) rfl access_up)
  have freed := walked.tail (Step.release (i := Task.generators) rfl)
  have passed := freed.tail (Step.write (i := Task.generators) rfl)
  have locked := passed.tail (Step.acquire (i := Task.handler 0) rfl asked rfl)
  have read := locked.tail (Step.run (i := Task.handler 0) rfl)
  have unlocked := read.tail (Step.release (i := Task.handler 0) rfl)
  have relocked := unlocked.tail (Step.acquire (i := Task.generators) rfl second rfl)
  have updated := relocked.tail (Step.run (i := Task.generators) rfl)
  have released := updated.tail (Step.release (i := Task.generators) rfl)
  have ended := released.tail (Step.write (i := Task.generators) rfl)
  have next := ended.tail (Step.move (i := Task.generators) rfl again)
  have inside := next.tail (Step.acquire (i := Task.generators) rfl third rfl)
  have back := inside.tail (Step.run_eq (i := Task.generators) rfl access_down)
  exact ⟨_, back, rfl⟩

/-- The task is in its second tick, and nothing has raised. -/
theorem ticks_in_order_meter : ∃ s : ServerState, s.history = meterHistory ∧
    WholeTicks (meterWorld 105).bindings (s.entriesOf .generators) ∧
    Ticker.running (s.own .generators) = true := by
  obtain ⟨s, reaches, history⟩ := reaches_meter
  obtain ⟨whole, goesOn⟩ := ticks_in_order meterConfig_valid meterConfig_built reaches
  have walk : ∀ T, meterWalk.Steady T ∧ meterWalk.Roomy := by
    apply GeneratorSpec.steady_of_ints rfl 100 5 0 200 <;>
      simp [keyword, meterWalk, Value.beq]
  have within : ∀ event ∈ eventsOf s, Within 2 event := by
    rw [eventsOf, history]
    simp only [meterHistory, List.map_cons, List.map_nil, Job.event, List.forall_mem_cons, Within]
    norm_num
  exact ⟨s, history, whole, (goesOn _ 2 rfl sampleLib_sine (meter_generators (walk 2).1 trivial)
    (meter_generators (walk 2).2 trivial) within).1⟩

/-- Its register shows the latest sample, and the client has read the one of the first tick. -/
theorem telemetry_latest_meter : ∃ s : ServerState, s.history = meterHistory ∧
    slotOf s.shared (1, .inputRegisters, 0) =
      shown sampleLib (meterWorld 105) 0 (meterBinding 105) (eventsOf s) ∧
    some (.int 110) =
      shown sampleLib (meterWorld 105) 0 (meterBinding 105) ((eventsOf s).take 1) := by
  obtain ⟨s, reaches, history⟩ := reaches_meter
  have alone : ∀ (j : Nat) c, (meterWorld 105).bindings[j]? = some c →
      placeOf c = placeOf (meterBinding 105) → j = 0 := by
    intro j c listed same
    match j with
    | 0 => rfl
    | 1 =>
      cases listed
      exact absurd same (by decide)
    | j + 2 => cases listed
  have listed : (meterWorld 105).bindings[0]? = some (meterBinding 105) := rfl
  obtain ⟨shows, reads⟩ :=
    telemetry_latest meterConfig_valid meterConfig_built reaches listed rfl alone
  have read : s.history[1]? =
      some ⟨.handler 0, .frame ⟨1, 0, 6, 1⟩ meterFrame, .ok [4, 4, 0, 110, 1, 44]⟩ := by
    rw [history]
    rfl
  have found : decodeResponsePdu [4, 4, 0, 110, 1, 44] (some 2) =
      .ok (.readInputRegisters [110, 300]) := by decide +kernel
  obtain ⟨response, decoded, values⟩ := reads 1 _ _ _ _ read rfl rfl rfl
  cases decoded.symm.trans found
  exact ⟨s, history, shows, values 0 (by decide) rfl⟩

/-- Both are between 0 and 200. -/
theorem telemetry_between_meter : ∃ (s : ServerState) (value : Int), s.history = meterHistory ∧
    slotOf s.shared (1, .inputRegisters, 0) = some (.int value) ∧ 0 ≤ value ∧ value ≤ 200 := by
  obtain ⟨s, reaches, history⟩ := reaches_meter
  have bound : ∃ p ∈ meterConfig.placed, p.place = (1, .inputRegisters, 0) :=
    ⟨_, List.mem_cons_self, rfl⟩
  have ranges : ∀ p ∈ meterConfig.placed, p.place = (1, .inputRegisters, 0) →
      p.generator.Ranges 0 200 := by
    intro p member here
    rcases List.mem_cons.mp member with rfl | member
    · have least : clamped ((0 : Int) : ℚ) = 0 := clamped_intCast (by decide)
      have most : clamped ((200 : Int) : ℚ) = 200 := clamped_intCast (by decide)
      have start : meterWalk.number? "start" = some (.finite (100 : Int)) := by
        simp [GeneratorSpec.number?, keyword, meterWalk, Value.beq, Value.number?]
      have step : meterWalk.number? "step" = some (.finite (5 : Int)) := by
        simp [GeneratorSpec.number?, keyword, meterWalk, Value.beq, Value.number?]
      have low : meterWalk.number? "min" = some (.finite (0 : Int)) := by
        simp [GeneratorSpec.number?, keyword, meterWalk, Value.beq, Value.number?]
      have high : meterWalk.number? "max" = some (.finite (200 : Int)) := by
        simp [GeneratorSpec.number?, keyword, meterWalk, Value.beq, Value.number?]
      exact ⟨_, _, _, _, start, Number.noConfusion, step, Number.noConfusion, low, high, least.ge,
        most.le⟩
    · obtain rfl := List.mem_singleton.mp member
      exact absurd here (by decide)
  obtain ⟨value, holds, between⟩ := (telemetry_between sampleLib_sine meterConfig_valid
    meterConfig_built reaches rfl bound ranges).1
  exact ⟨s, value, history, holds, between⟩

end ModbusSim.Server
