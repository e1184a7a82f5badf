import ModbusSim.Cli.Values
import ModbusSim.Client.Outcomes
import ModbusSim.Client.Replies
import ModbusSim.Dispatch.Agreement

/-!
# The client commands

The read and write subcommands, over a new connection to the server: what they print, and how they
end. A write ends well exactly when its request is carried out, and a watching read prints what the
device holds, until a request fails (`write_exits`, `watch_prints`). What a write has set a read
prints, and prints so that it can be given to a write again (`write_then_read`).
-/

namespace ModbusSim.Cli

open PyText PyStruct PyList ModbusSim.Frame Store Dispatch Server Client

/-! ### The subcommands -/

inductive ReadCommand where
  | readCoils
  | readDiscrete
  | readHolding
  | readInput
  deriving DecidableEq, Repr

/-- The method of `READ_COMMANDS`. -/
def ReadCommand.call : ReadCommand → Int → Int → Call
  | .readCoils => .readCoils
  | .readDiscrete => .readDiscreteInputs
  | .readHolding => .readHoldingRegisters
  | .readInput => .readInputRegisters

/-- The label of `READ_COMMANDS`. -/
def ReadCommand.label : ReadCommand → String
  | .readCoils => "coils"
  | .readDiscrete => "discrete"
  | .readHolding => "holding"
  | .readInput => "input"

/-- The arguments of a read; `watch` says whether it polls. -/
structure ReadArgs where
  command : ReadCommand
  unit : Int
  addr : Int
  count : Int
  watch : Bool
  deriving DecidableEq, Repr

inductive WriteCommand where
  | writeCoil (value : Bool)
  | writeRegister (value : Int)
  | writeCoils (values : List Bool)
  | writeRegisters (values : List Int)
  deriving DecidableEq, Repr

structure WriteArgs where
  command : WriteCommand
  unit : Int
  addr : Int
  deriving DecidableEq, Repr

def ReadArgs.call (args : ReadArgs) : Call := args.command.call args.addr args.count

def WriteArgs.call (args : WriteArgs) : Call :=
  match args.command with
  | .writeCoil value => .writeCoil args.addr value
  | .writeRegister value => .writeRegister args.addr value
  | .writeCoils values => .writeCoils args.addr values
  | .writeRegisters values => .writeRegisters args.addr values

def shownResult : MethodResult → String
  | .bits bits => shownList shownBool bits
  | .registers registers => shownList shownInt registers
  | .none => "None"

def ReadArgs.line (args : ReadArgs) (now : String) (values : MethodResult) : String :=
  now ++ " unit=" ++ toString args.unit ++ " " ++ args.command.label ++ "[" ++ toString args.addr ++
    ":" ++ toString (args.addr + args.count) ++ "] = " ++ shownResult values

def WriteArgs.line (args : WriteArgs) (now : String) : String :=
  now ++ " unit=" ++ toString args.unit ++ " wrote " ++
    match args.command with
    | .writeCoil value =>
      "coil[" ++ toString args.addr ++ "] = " ++ String.ofList (shownBool value)
    | .writeRegister value => "holding[" ++ toString args.addr ++ "] = " ++ toString value
    | .writeCoils values => "coils[" ++ toString args.addr ++ ":] = " ++ shownList shownBool values
    | .writeRegisters values =>
      "holding[" ++ toString args.addr ++ ":] = " ++ shownList shownInt values

/-! ### Running them -/

/-- A round of a command: the time that it prints, how its bytes are cut, and what others do to the
store before its call. -/
structure Round where
  now : String
  up : Cutting
  down : Cutting
  meanwhile : DataStore → DataStore

def Round.exchange (round : Round) (unit : Int) (call : Call) : Exchange :=
  ⟨unit, call, round.up, round.down⟩

def Round.method (round : Round) (link : Link) (unit : Int) (call : Call) :
    Except MethodExn MethodResult × Link :=
  match transact { link with store := round.meanwhile link.store } (round.exchange unit call) with
  | (⟨.error e, _⟩, link) => (.error (.client e), link)
  | (⟨.ok response, _⟩, link) => (call.result response, link)

inductive Ending where
  | returned
  | interrupted
  | raised (exn : MethodExn)
  deriving DecidableEq, Repr

structure Output where
  stdout : List String
  ending : Ending

/-- `_read_loop`; the rounds are those before the user interrupts it. -/
def readLoop (args : ReadArgs) (link : Link) : List Round → Output × Link
  | [] => (⟨[], .interrupted⟩, link)
  | round :: later =>
    match round.method link args.unit args.call with
    | (.error exn, link) => (⟨[], .raised exn⟩, link)
    | (.ok values, link) =>
      if args.watch then
        let (output, link) := readLoop args link later
        (⟨args.line round.now values :: output.stdout, output.ending⟩, link)
      else (⟨[args.line round.now values], .returned⟩, link)

/-- `_write` -/
def write (args : WriteArgs) (link : Link) (round : Round) : Output × Link :=
  match round.method link args.unit args.call with
  | (.error exn, link) => (⟨[], .raised exn⟩, link)
  | (.ok _, link) => (⟨[args.line round.now], .returned⟩, link)

/-- The exit code and what is printed to stderr, or an exception that nothing catches. -/
inductive Exit where
  | code (code : Nat) (stderr : List String)
  | uncaught (exn : MethodExn)
  deriving DecidableEq, Repr

/-- `_run_client`, once its coroutine has ended -/
def Ending.exit : Ending → Exit
  | .returned | .interrupted => .code 0 []
  | .raised (.client (.modbusException _ _ message)) => .code 1 ["modbus error: " ++ message]
  | .raised (.client (.osError message)) => .code 1 ["connection error: " ++ message]
  | .raised (.client .timeoutError) => .code 1 ["connection error: "]
  | .raised exn => .uncaught exn

/-! ### One call -/

structure Carries (store : DataStore) (unit : Int) (r : Request) (device : Device) : Prop where
  found : store.get unit = some device
  byte : 0 ≤ unit ∧ unit ≤ 255
  encodable : r.Encodable
  inRange : QuantityInRange r
  inside : InRegion device r

def Packs (unit : Int) (r : Request) : Prop := r.Encodable ∧ 0 ≤ unit ∧ unit ≤ 255

/-- How a command ends whose request is not carried out. -/
inductive Fails (store : DataStore) (unit : Int) (r : Request) : Exit → Prop
  | unpacked (misfit : ¬ Packs unit r) :
    Fails store unit r (.uncaught (.client (.raised (.py .structError))))
  | refused (packs : Packs unit r) (long : maxLengthField < lengthField r.wire) :
    Fails store unit r (.uncaught (.client (.incompleteRead [] mbapHeaderLen)))
  | ignored (packs : Packs unit r) (short : lengthField r.wire ≤ maxLengthField)
    (unknown : store.get unit = none) : Fails store unit r (.code 1 ["connection error: "])
  | rejected (packs : Packs unit r) (short : lengthField r.wire ≤ maxLengthField)
    {device : Device} (found : store.get unit = some device) {e : ModbusError}
    (raised : (handleRequest device r).1 = .error (.modbus e)) {message : String}
    (shown : modbusExceptionError r.functionCode e.exceptionCode =
      .modbusException r.functionCode e.exceptionCode message) :
    Fails store unit r (.code 1 ["modbus error: " ++ message])

def valuesRead (device : Device) (call : Call) : MethodResult :=
  match call with
  | .readCoils .. | .readDiscreteInputs .. =>
    .bits ((addressed device call.request).map Slot.toBool)
  | .readHoldingRegisters .. | .readInputRegisters .. =>
    .registers ((addressed device call.request).map Slot.toInt)
  | _ => .none

theorem result_answer (device : Device) (call : Call) :
    call.result (answer device call.request) = .ok (valuesRead device call) := by
  cases call <;> rfl

theorem fails_of_answered {store last : DataStore} (wellFormed : store.All Device.WellFormed)
    {x : Exchange} {exn : ClientExn} (answered : Answered store x (.error exn) last) :
    Fails store x.unit x.call.request (Ending.raised (.client exn)).exit := by
  generalize ended : (Except.error exn : Except ClientExn Response) = result at answered
  cases answered with
  | unpacked misfit =>
    cases ended
    exact .unpacked misfit
  | refused packs long =>
    cases ended
    exact .refused packs long
  | ignored packs short unknown =>
    cases ended
    exact .ignored packs short unknown
  | @handled packs short device found =>
    rcases typedReply_cases (wellFormed _ _ found).sized x.call.request with
      ⟨_, _, answers, _⟩ | ⟨e, raised, _⟩
    · rw [answers] at ended
      cases ended
    · rw [raised] at ended
      cases ended
      exact .rejected packs short found raised rfl

/-- A call is carried out and returns the values, or it fails and changes nothing. -/
theorem method_cases {link : Link} {store : DataStore} {tid : Nat} (id : InCycle tid)
    (settles : link = settled store tid) (round : Round)
    (wellFormed : (round.meanwhile store).All Device.WellFormed) (unit : Int) (call : Call) :
    (∃ device, Carries (round.meanwhile store) unit call.request device ∧
        round.method link unit call = (.ok (valuesRead device call),
          settled ((round.meanwhile store).update unit (execute device call.request))
            (ModbusClient.nextTid ⟨true, tid⟩).2.tid)) ∨
      ((∀ device, ¬ Carries (round.meanwhile store) unit call.request device) ∧
        ∃ exn after, round.method link unit call = (.error exn, after) ∧
          after.store = round.meanwhile store ∧
          Fails (round.meanwhile store) unit call.request (Ending.raised exn).exit) := by
  subst settles
  obtain ⟨answered, next⟩ := transact_answered wellFormed id (round.exchange unit call)
  have here : { settled store tid with store := round.meanwhile store } =
      settled (round.meanwhile store) tid := rfl
  rw [Round.method, show (settled store tid).store = store from rfl, here]
  generalize transact (settled (round.meanwhile store) tid) (round.exchange unit call) = step
    at answered next ⊢
  obtain ⟨⟨result, written⟩, after⟩ := step
  cases result with
  | error exn =>
    refine .inr ⟨fun device carries => ?_, _, _, rfl, answered.unchanged wellFormed rfl,
      fails_of_answered wellFormed answered⟩
    have returned := answered.returns wellFormed carries.found ⟨carries.encodable, carries.byte⟩
      carries.inRange carries.inside
    cases returned
  | ok response =>
    obtain ⟨device, found, packs, inRange, inside, rfl, changed⟩ :=
      answered.carriedOut wellFormed rfl
    refine .inl ⟨device, ⟨found, packs.2, packs.1, inRange, inside⟩, Prod.ext ?_ ?_⟩
    · exact result_answer device call
    · rw [next _ rfl, changed]
      rfl

/-! ### A command that calls once -/

def Round.Keeps (round : Round) : Prop :=
  ∀ store : DataStore, store.All Device.WellFormed → (round.meanwhile store).All Device.WellFormed

theorem firstTid_inCycle : InCycle firstTid := ⟨Nat.le_refl firstTid, by decide⟩

theorem Carries.unique {store : DataStore} {unit : Int} {r : Request} {device other : Device}
    (first : Carries store unit r device) (second : Carries store unit r other) : device = other :=
  Option.some.inj (first.found.symm.trans second.found)

theorem Carries.update_read {store : DataStore} {args : ReadArgs} {device : Device}
    (carries : Carries store args.unit args.call.request device) :
    store.update args.unit (execute device args.call.request) = store := by
  have reads : transmitted args.call.request = none := by
    rw [ReadArgs.call]
    cases args.command <;> rfl
  rw [execute, reads]
  exact DataStore.update_of_get carries.found

/-- What a command that calls once has printed, how it ends and what it leaves: its line, exit code
0 and the device after its request, if this is carried out; and otherwise nothing that has changed,
and an exit that says what is wrong with the request. -/
def ExitsOn (before : DataStore) (unit : Int) (r : Request) (line : Device → String)
    (output : Output) (after : DataStore) : Prop :=
  (∀ device, Carries before unit r device →
      output = ⟨[line device], .returned⟩ ∧ after = before.update unit (execute device r)) ∧
    ((∀ device, ¬ Carries before unit r device) →
      output.stdout = [] ∧ Fails before unit r output.ending.exit ∧ after = before)

theorem write_exitsOn {store : DataStore} (wellFormed : store.All Device.WellFormed) {round : Round}
    (keeps : round.Keeps) (args : WriteArgs) :
    ExitsOn (round.meanwhile store) args.unit args.call.request (fun _ => args.line round.now)
      (write args (settled store firstTid) round).1
      (write args (settled store firstTid) round).2.store := by
  unfold write
  rcases method_cases firstTid_inCycle rfl round (keeps store wellFormed) args.unit args.call with
    ⟨device, carries, called⟩ | ⟨fails, exn, after, called, same, exits⟩
  · rw [called]
    refine ⟨fun other carries' => ?_, fun none => absurd carries (none device)⟩
    rw [← carries.unique carries']
    exact ⟨rfl, rfl⟩
  · rw [called]
    exact ⟨fun device carries => absurd carries (fails device), fun _ => ⟨rfl, exits, same⟩⟩

theorem readLoop_exitsOn {store : DataStore} (wellFormed : store.All Device.WellFormed)
    {round : Round} (keeps : round.Keeps) {args : ReadArgs} (once : args.watch = false)
    (later : List Round) :
    ExitsOn (round.meanwhile store) args.unit args.call.request
      (fun device => args.line round.now (valuesRead device args.call))
      (readLoop args (settled store firstTid) (round :: later)).1
      (readLoop args (settled store firstTid) (round :: later)).2.store := by
  unfold readLoop
  rcases method_cases firstTid_inCycle rfl round (keeps store wellFormed) args.unit args.call with
    ⟨device, carries, called⟩ | ⟨fails, exn, after, called, same, exits⟩
  · rw [called]
    refine ⟨fun other carries' => ?_, fun none => absurd carries (none device)⟩
    rw [← carries.unique carries', once]
    exact ⟨rfl, rfl⟩
  · rw [called]
    exact ⟨fun device carries => absurd carries (fails device), fun _ => ⟨rfl, exits, same⟩⟩

/-- A write, or a read that does not watch, ends as the typed request does on the store: whatever
its arguments, however its bytes are cut. A read leaves the store as it is. -/
theorem command_exits {store : DataStore} (wellFormed : store.All Device.WellFormed) {round : Round}
    (keeps : round.Keeps) :
    (∀ args : WriteArgs, ExitsOn (round.meanwhile store) args.unit args.call.request
        (fun _ => args.line round.now) (write args (settled store firstTid) round).1
        (write args (settled store firstTid) round).2.store) ∧
      ∀ args : ReadArgs, args.watch = false → ∀ later,
        ExitsOn (round.meanwhile store) args.unit args.call.request
            (fun device => args.line round.now (valuesRead device args.call))
            (readLoop args (settled store firstTid) (round :: later)).1
            (readLoop args (settled store firstTid) (round :: later)).2.store ∧
          (readLoop args (settled store firstTid) (round :: later)).2.store =
            round.meanwhile store := by
  refine ⟨write_exitsOn wellFormed keeps, fun args once later => ?_⟩
  have exits := readLoop_exitsOn wellFormed keeps once later
  refine ⟨exits, ?_⟩
  by_cases carried : ∃ device, Carries (round.meanwhile store) args.unit args.call.request device
  · obtain ⟨device, carries⟩ := carried
    rw [(exits.1 device carries).2, carries.update_read]
  · exact (exits.2 fun device carries => carried ⟨device, carries⟩).2.2

def alone (now : String) : Round := ⟨now, bytewise, bytewise, id⟩

theorem alone_keeps (now : String) : (alone now).Keeps := fun _ wellFormed => wellFormed

def writeNine : WriteArgs := ⟨.writeRegister 9, 1, 1⟩

theorem writeNine_carries :
    Carries (.single sampleDevice) 1 (.writeSingleRegister 1 9) sampleDevice :=
  ⟨rfl, by decide, ⟨by decide, by decide⟩, by decide, by decide⟩

theorem command_exits_nine :
    (write writeNine (settled (.single sampleDevice) firstTid) (alone "12:00:00")).1 =
      ⟨["12:00:00 unit=1 wrote holding[1] = 9"], .returned⟩ := by
  have exits := command_exits (DataStore.single_all sampleDevice_wellFormed)
    (alone_keeps "12:00:00")
  exact ((exits.1 writeNine).1 sampleDevice writeNine_carries).1

/-! ### Watching -/

def seen (store : DataStore) : List Round → List (Round × DataStore)
  | [] => []
  | round :: later => (round, round.meanwhile store) :: seen (round.meanwhile store) later

def Prints (args : ReadArgs) (p : Round × DataStore) (line : String) : Prop :=
  ∃ device, Carries p.2 args.unit args.call.request device ∧
    line = args.line p.1.now (valuesRead device args.call)

/-- From any settled link on: one line for each round, until a request fails. -/
theorem readLoop_seen {args : ReadArgs} (watch : args.watch = true) {rounds : List Round}
    (keeps : ∀ round ∈ rounds, round.Keeps) {store : DataStore}
    (wellFormed : store.All Device.WellFormed) {tid : Nat} (id : InCycle tid) :
    ∃ k ≤ rounds.length,
      List.Forall₂ (Prints args) ((seen store rounds).take k)
        (readLoop args (settled store tid) rounds).1.stdout ∧
      ((k = rounds.length ∧ (readLoop args (settled store tid) rounds).1.ending = .interrupted ∧
          (readLoop args (settled store tid) rounds).2.store =
            rounds.foldl (fun store round => round.meanwhile store) store) ∨
        ∃ p, (seen store rounds)[k]? = some p ∧
          (∀ device, ¬ Carries p.2 args.unit args.call.request device) ∧
          Fails p.2 args.unit args.call.request
            (readLoop args (settled store tid) rounds).1.ending.exit ∧
          (readLoop args (settled store tid) rounds).2.store = p.2) := by
  induction rounds generalizing store tid with
  | nil => exact ⟨0, Nat.le_refl 0, .nil, .inl ⟨rfl, rfl, rfl⟩⟩
  | cons round later ih =>
    have holds := keeps round List.mem_cons_self store wellFormed
    unfold readLoop
    rcases method_cases id rfl round holds args.unit args.call with
      ⟨device, carries, called⟩ | ⟨fails, exn, after, called, same, exits⟩
    · rw [called, carries.update_read]
      obtain ⟨k, within, lines, ends⟩ :=
        ih (fun round member => keeps round (List.mem_cons_of_mem _ member)) holds
          (@nextTid_inCycle true _ id)
      simp only [watch, if_true]
      refine ⟨k + 1, Nat.succ_le_succ within, .cons ⟨device, carries, rfl⟩ lines, ?_⟩
      rcases ends with ⟨all, interrupted, last⟩ | failed
      · exact .inl ⟨congrArg Nat.succ all, interrupted, last⟩
      · exact .inr failed
    · rw [called]
      exact ⟨0, Nat.zero_le _, .nil, .inr ⟨_, rfl, fails, exits, same⟩⟩

/-- A watching read prints, round by round, what the device holds at its call, whatever others do in
between. It goes on until it is interrupted, with exit code 0, or until its request fails, and it
changes nothing itself. -/
theorem watch_prints {args : ReadArgs} (watch : args.watch = true) {rounds : List Round}
    (keeps : ∀ round ∈ rounds, round.Keeps) {store : DataStore}
    (wellFormed : store.All Device.WellFormed) :
    ∃ k ≤ rounds.length,
      List.Forall₂ (Prints args) ((seen store rounds).take k)
        (readLoop args (settled store firstTid) rounds).1.stdout ∧
      ((k = rounds.length ∧
          (readLoop args (settled store firstTid) rounds).1.ending.exit = .code 0 [] ∧
          (readLoop args (settled store firstTid) rounds).2.store =
            rounds.foldl (fun store round => round.meanwhile store) store) ∨
        ∃ p, (seen store rounds)[k]? = some p ∧
          (∀ device, ¬ Carries p.2 args.unit args.call.request device) ∧
          Fails p.2 args.unit args.call.request
            (readLoop args (settled store firstTid) rounds).1.ending.exit ∧
          (readLoop args (settled store firstTid) rounds).2.store = p.2) := by
  obtain ⟨k, within, lines, ⟨all, interrupted, last⟩ | failed⟩ :=
    readLoop_seen watch keeps wellFormed firstTid_inCycle
  · exact ⟨k, within, lines, .inl ⟨all, by rw [interrupted, Ending.exit], last⟩⟩
  · exact ⟨k, within, lines, .inr failed⟩

/-- Two registers are watched for two rounds; before the second one somebody sets the second
register to 9. -/
def watchBoth : ReadArgs := ⟨.readHolding, 1, 0, 2, true⟩

def nineDevice : Device := { sampleDevice with holdingRegisters := ⟨2, [.int 7, .int 9]⟩ }

def changing (now : String) : Round :=
  ⟨now, bytewise, bytewise, fun store => store.update 1 nineDevice⟩

theorem nineDevice_wellFormed : nineDevice.WellFormed := by
  refine ⟨fun r => by cases r <;> rfl, fun r register slot member => ?_⟩
  cases r with
  | coils | discreteInputs => exact absurd register (by decide)
  | inputRegisters => cases member
  | holdingRegisters =>
    rcases List.mem_pair.mp member with rfl | rfl <;> decide

theorem watch_prints_both :
    (readLoop watchBoth (settled (.single sampleDevice) firstTid)
        [alone "12:00:00", changing "12:00:01"]).1.stdout =
      ["12:00:00 unit=1 holding[0:2] = [7, 300]", "12:00:01 unit=1 holding[0:2] = [7, 9]"] ∧
    (readLoop watchBoth (settled (.single sampleDevice) firstTid)
        [alone "12:00:00", changing "12:00:01"]).1.ending.exit = .code 0 [] := by
  have keeps : ∀ round ∈ [alone "12:00:00", changing "12:00:01"], round.Keeps := by
    intro round member
    rcases List.mem_pair.mp member with rfl | rfl
    · exact alone_keeps _
    · exact fun _ wellFormed => wellFormed.update nineDevice_wellFormed 1
  have before : Carries (.single sampleDevice) 1 watchBoth.call.request sampleDevice :=
    ⟨rfl, by decide, ⟨by decide, by decide⟩, by decide, by decide⟩
  have after : Carries ((DataStore.single sampleDevice).update 1 nineDevice) 1
      watchBoth.call.request nineDevice :=
    ⟨rfl, by decide, ⟨by decide, by decide⟩, by decide, by decide⟩
  obtain ⟨k, _, lines, ⟨rfl, exits, _⟩ | ⟨p, here, fails, _⟩⟩ :=
    watch_prints (show watchBoth.watch = true from rfl) keeps
      (DataStore.single_all sampleDevice_wellFormed)
  · refine ⟨?_, exits⟩
    obtain ⟨_, _, ⟨device, carries, rfl⟩, later, shown⟩ := List.forall₂_cons_left_iff.mp lines
    obtain ⟨_, _, ⟨device', carries', rfl⟩, none, shown'⟩ := List.forall₂_cons_left_iff.mp later
    obtain rfl := List.forall₂_nil_left_iff.mp none
    rw [shown, shown', carries.unique before, carries'.unique after]
    rfl
  · match k with
    | 0 =>
      cases here
      exact absurd before (fails _)
    | 1 =>
      cases here
      exact absurd after (fails _)
    | k + 2 => cases here

/-! ### What was written is read -/

def WriteArgs.readBack (args : WriteArgs) : ReadArgs :=
  match args.command with
  | .writeCoil _ => ⟨.readCoils, args.unit, args.addr, 1, false⟩
  | .writeRegister _ => ⟨.readHolding, args.unit, args.addr, 1, false⟩
  | .writeCoils values => ⟨.readCoils, args.unit, args.addr, values.length, false⟩
  | .writeRegisters values => ⟨.readHolding, args.unit, args.addr, values.length, false⟩

def WriteArgs.values (args : WriteArgs) : MethodResult :=
  match args.command with
  | .writeCoil value => .bits [value]
  | .writeRegister value => .registers [value]
  | .writeCoils values => .bits values
  | .writeRegisters values => .registers values

def ReadsBack (u : Unicode) : MethodResult → Prop
  | .bits bits => coilList u (between shownBool bits) = .ok bits
  | .registers registers => intList u (between shownInt registers) = .ok registers
  | .none => True

theorem shows_of_isWord {v : Int} (word : IsWord v) : Shows v := by
  obtain ⟨least, most⟩ := word
  have few : (Nat.toDigits 10 v.natAbs).length ≤ 5 := by
    rw [Nat.length_toDigits_le_iff (by decide) (by decide)]
    simp only [registerMax] at most
    omega
  exact few.trans (by decide)

theorem addressed_execute {device : Device} (sized : device.Sized) {r read : Request}
    (inside : InRegion device r) {slots : List Slot} (writes : transmitted r = some slots)
    (sameRegion : region read = region r) (sameAddress : address read = address r)
    (sameCount : quantity read = quantity r) :
    InRegion (execute device r) read ∧ addressed (execute device r) read = slots := by
  have size := length_transmitted writes
  obtain ⟨start, nonneg, stop⟩ := inside
  have within : (address r).toNat + slots.length ≤ (device.block (region r)).values.length := by
    rw [sized]
    omega
  have block := @block_execute device r (region r)
  rw [writes] at block
  simp only [if_true] at block
  refine ⟨?_, ?_⟩
  · rw [InRegion, sameRegion, sameAddress, sameCount, block]
    exact ⟨start, nonneg, stop⟩
  · have bound : (address r + quantity r).toNat = (address r).toNat + slots.length := by omega
    rw [addressed, sameRegion, sameAddress, sameCount, block, bound, slice_overwrite within]

structure ReadsSame (args : WriteArgs) (slots : List Slot) : Prop where
  transmits : transmitted args.call.request = some slots
  region : region args.readBack.call.request = region args.call.request
  address : address args.readBack.call.request = address args.call.request
  quantity : quantity args.readBack.call.request = quantity args.call.request
  limit : limit args.call.request ≤ limit args.readBack.call.request
  encodable : args.call.request.Encodable → QuantityInRange args.call.request →
    args.readBack.call.request.Encodable
  values : ∀ device, addressed device args.readBack.call.request = slots →
    valuesRead device args.readBack.call = args.values

theorem exists_readsSame (args : WriteArgs) : ∃ slots, ReadsSame args slots := by
  obtain ⟨command, unit, addr⟩ := args
  have one : IsWord 1 := by decide
  have word : ∀ {n most : Int}, 1 ≤ n → n ≤ most → most ≤ registerMax → IsWord n := by
    intro n most least within few
    exact ⟨by omega, Int.le_trans within few⟩
  cases command with
  | writeCoil value =>
    refine ⟨_, rfl, rfl, rfl, rfl, show (1 : Int) ≤ maxReadBits by decide,
      fun encodable _ => ⟨encodable, one⟩, fun device holds => ?_⟩
    exact congrArg (fun slots => MethodResult.bits (slots.map Slot.toBool)) holds
  | writeRegister value =>
    refine ⟨_, rfl, rfl, rfl, rfl, show (1 : Int) ≤ maxReadRegisters by decide,
      fun encodable _ => ⟨encodable.1, one⟩, fun device holds => ?_⟩
    exact congrArg (fun slots => MethodResult.registers (slots.map Slot.toInt)) holds
  | writeCoils values =>
    refine ⟨_, rfl, rfl, rfl, rfl, show maxWriteCoils ≤ maxReadBits by decide,
      fun encodable inRange => ⟨encodable.1, ?_⟩, fun device holds => ?_⟩
    · exact word inRange.1 inRange.2 (show maxWriteCoils ≤ registerMax by decide)
    · refine (congrArg (fun slots => MethodResult.bits (slots.map Slot.toBool)) holds).trans ?_
      rw [List.map_map]
      exact congrArg MethodResult.bits (List.map_id values)
  | writeRegisters values =>
    refine ⟨_, rfl, rfl, rfl, rfl, show maxWriteRegisters ≤ maxReadRegisters by decide,
      fun encodable inRange => ⟨encodable.1, ?_⟩, fun device holds => ?_⟩
    · exact word inRange.1 inRange.2 (show maxWriteRegisters ≤ registerMax by decide)
    · refine (congrArg (fun slots => MethodResult.registers (slots.map Slot.toInt)) holds).trans ?_
      rw [List.map_map]
      exact congrArg MethodResult.registers (List.map_id values)

/-- The read of what was written is carried out, and returns it. -/
theorem carries_readBack {before after : DataStore} (wellFormed : before.All Device.WellFormed)
    {args : WriteArgs} {device : Device} (carries : Carries before args.unit args.call.request device)
    (found : after.get args.unit = some (execute device args.call.request)) :
    Carries after args.unit args.readBack.call.request (execute device args.call.request) ∧
      valuesRead (execute device args.call.request) args.readBack.call = args.values := by
  obtain ⟨slots, same⟩ := exists_readsSame args
  obtain ⟨here, byte, encodable, inRange, inside⟩ := carries
  obtain ⟨inside', holds⟩ := addressed_execute (wellFormed _ _ here).sized inside same.transmits
    same.region same.address same.quantity
  refine ⟨⟨found, byte, same.encodable encodable inRange, ⟨?_, ?_⟩, inside'⟩, same.values _ holds⟩
  · rw [same.quantity]
    exact inRange.1
  · rw [same.quantity]
    exact Int.le_trans inRange.2 same.limit

theorem readsBack_values (u : Unicode) {args : WriteArgs} (encodable : args.call.request.Encodable) :
    ReadsBack u args.values := by
  obtain ⟨command, unit, addr⟩ := args
  have integers : ∀ values : List Int, (∀ v ∈ values, IsWord v) →
      intList u (between shownInt values) = .ok values :=
    fun values words => intList_between u fun v member => shows_of_isWord (words v member)
  cases command with
  | writeCoil | writeCoils => exact coilList_between u _
  | writeRegister value => exact integers [value] (List.forall_mem_singleton.mpr encodable.2)
  | writeRegisters values => exact integers values encodable.2.2

/-- After a write that ended well, a read of its range prints the values that it was given, as long
as nobody else has touched the device; and what it prints can be given to a write again. -/
theorem write_then_read {store : DataStore} (wellFormed : store.All Device.WellFormed)
    {args : WriteArgs} {round next : Round} (keeps : round.Keeps) (keeps' : next.Keeps)
    (spares : ∀ store : DataStore, (next.meanwhile store).get args.unit = store.get args.unit)
    (returned : (write args (settled store firstTid) round).1.ending.exit = .code 0 []) :
    (readLoop args.readBack
        (settled (write args (settled store firstTid) round).2.store firstTid) [next]).1 =
        ⟨[args.readBack.line next.now args.values], .returned⟩ ∧
      ∀ u, ReadsBack u args.values := by
  have before := keeps store wellFormed
  obtain ⟨succeeds, fails⟩ := write_exitsOn wellFormed keeps args
  have carried : ∃ device, Carries (round.meanwhile store) args.unit args.call.request device := by
    by_contra none
    have exits := (fails fun device carries => none ⟨device, carries⟩).2.1
    rw [returned] at exits
    cases exits
  obtain ⟨device, carries⟩ := carried
  obtain ⟨_, same⟩ := succeeds device carries
  rw [same]
  have after : ((round.meanwhile store).update args.unit
      (execute device args.call.request)).All Device.WellFormed :=
    before.update (execute_wellFormed (before _ _ carries.found) carries.encodable) _
  have found := spares ((round.meanwhile store).update args.unit (execute device args.call.request))
  rw [DataStore.get_update, if_pos rfl] at found
  obtain ⟨reads, values⟩ := carries_readBack before carries found
  have once : args.readBack.watch = false := by
    rw [WriteArgs.readBack]
    cases args.command <;> rfl
  have unit : args.readBack.unit = args.unit := by
    rw [WriteArgs.readBack]
    cases args.command <;> rfl
  have exits := readLoop_exitsOn after keeps' once []
  rw [unit] at exits
  refine ⟨?_, fun u => readsBack_values u carries.encodable⟩
  have printed := (exits.1 _ reads).1
  simp only [values] at printed
  exact printed

theorem write_then_read_nine :
    (readLoop writeNine.readBack
      (settled (write writeNine (settled (.single sampleDevice) firstTid)
        (alone "12:00:00")).2.store firstTid) [alone "12:00:01"]).1 =
      ⟨["12:00:01 unit=1 holding[1:2] = [9]"], .returned⟩ := by
  have wellFormed := DataStore.single_all sampleDevice_wellFormed
  have exits := (write_exitsOn wellFormed (alone_keeps "12:00:00") writeNine).1 sampleDevice
    writeNine_carries
  have returned : (write writeNine (settled (.single sampleDevice) firstTid)
      (alone "12:00:00")).1.ending.exit = .code 0 [] := by
    rw [exits.1]
    rfl
  exact (write_then_read wellFormed (alone_keeps _) (alone_keeps _) (fun _ => rfl) returned).1

end ModbusSim.Cli
