import ModbusSim.Frame.Mbap
import ModbusSim.Lib.Framing

/-!
# The stream framer

`StreamFramer` cuts the received bytes into ADUs. Its loop is the draining of the framing
library, for the verdict on the MBAP header at the start of the buffer.
-/

namespace ModbusSim.Server

open PyStruct ModbusSim.Frame Framing

/-- What ends the serving of a connection: the framing error, or any other exception. -/
inductive ServerExn where
  | protocolError (message : String)
  | raised (e : Exn)
  deriving DecidableEq, Repr

structure StreamFramer where
  buffer : Bytes
  deriving DecidableEq, Repr

abbrev Item := MBAPHeader × Bytes

def StreamFramer.new : StreamFramer := ⟨[]⟩

def invalidLength (length : Int) : ServerExn :=
  .protocolError ("invalid MBAP length field " ++ toString length)

/-- `MIN_LENGTH_FIELD <= length <= MAX_LENGTH_FIELD` -/
def LengthInRange (length : Int) : Prop := minLengthField ≤ length ∧ length ≤ maxLengthField

instance (length : Int) : Decidable (LengthInRange length) :=
  inferInstanceAs (Decidable (minLengthField ≤ length ∧ length ≤ maxLengthField))

theorem LengthInRange.bounds {length : Int} (range : LengthInRange length) :
    2 ≤ length ∧ length ≤ 260 := range

/-- `_next_frame`: the item or the exception, and the framer afterwards. -/
def StreamFramer.nextFrame (f : StreamFramer) : Except ServerExn (Option Item) × StreamFramer :=
  if f.buffer.length < mbapHeaderLen then (.ok none, f)
  else
    match decodeMbap f.buffer with
    | .error e => (.error (.raised e), f)
    | .ok header =>
      if ¬ LengthInRange header.length then
        (.error (invalidLength header.length), f)
      else
        let total := 6 + header.length
        if f.buffer.length < total then (.ok none, f)
        else
          (.ok (some (header, f.buffer.take total.toNat)), ⟨f.buffer.drop total.toNat⟩)

/-- `pending` -/
def StreamFramer.pending (f : StreamFramer) : Nat := f.buffer.length

/-! ### The verdict on a buffer -/

def verdict (s : Bytes) : Head ServerExn :=
  if s.length < mbapHeaderLen then .more
  else
    match decodeMbap s with
    | .error e => .bad (.raised e)
    | .ok header =>
      if ¬ LengthInRange header.length then
        .bad (invalidLength header.length)
      else if s.length < 6 + header.length then .more
      else .frame (6 + header.length).toNat

theorem verdict_long {s : Bytes} {header : MBAPHeader} (long : mbapHeaderLen ≤ s.length)
    (decoded : decodeMbap s = .ok header) :
    verdict s =
      if ¬ LengthInRange header.length then
        .bad (invalidLength header.length)
      else if s.length < 6 + header.length then .more
      else .frame (6 + header.length).toNat := by
  rw [verdict, if_neg (by omega), decoded]

theorem verdict_frame_iff {s : Bytes} {n : Nat} :
    verdict s = .frame n ↔
      ∃ header, decodeMbap s = .ok header ∧ LengthInRange header.length ∧
        (n : Int) = 6 + header.length ∧ n ≤ s.length := by
  by_cases long : mbapHeaderLen ≤ s.length
  · obtain ⟨header, decoded, -⟩ := decodeMbap_long long
    rw [verdict_long long decoded]
    constructor
    · intro whole
      split at whole
      next => cases whole
      next inRange =>
        split at whole
        next => cases whole
        next enough =>
          have range := not_not.mp inRange
          have bounds := range.bounds
          cases whole
          exact ⟨header, decoded, range, by omega, by omega⟩
    · rintro ⟨_, found, inRange, size, enough⟩
      cases decoded.symm.trans found
      rw [if_neg (not_not.mpr inRange), if_neg (by omega), ← size, Int.toNat_natCast]
  · constructor
    · intro whole
      rw [verdict, if_pos (by omega)] at whole
      cases whole
    · rintro ⟨header, decoded, -⟩
      rw [decodeMbap_short (by omega)] at decoded
      cases decoded

theorem verdict_bad_iff {s : Bytes} {e : ServerExn} :
    verdict s = .bad e ↔
      ∃ header, decodeMbap s = .ok header ∧ ¬ LengthInRange header.length ∧
        e = invalidLength header.length := by
  by_cases long : mbapHeaderLen ≤ s.length
  · obtain ⟨header, decoded, -⟩ := decodeMbap_long long
    rw [verdict_long long decoded]
    constructor
    · intro broken
      split at broken
      next outside =>
        cases broken
        exact ⟨header, decoded, outside, rfl⟩
      next => split at broken <;> cases broken
    · rintro ⟨_, found, outside, rfl⟩
      cases decoded.symm.trans found
      exact if_pos outside
  · constructor
    · intro broken
      rw [verdict, if_pos (by omega)] at broken
      cases broken
    · rintro ⟨header, decoded, -⟩
      rw [decodeMbap_short (by omega)] at decoded
      cases decoded

/-- The framing of Modbus TCP: a frame is a header and as many bytes as it declares. -/
def aduProtocol : Protocol UInt8 ServerExn where
  head := verdict
  frame_bound whole := by
    obtain ⟨header, _, range, size, enough⟩ := verdict_frame_iff.mp whole
    have bounds := range.bounds
    exact ⟨by omega, enough⟩
  frame_take {s n} whole := by
    obtain ⟨header, decoded, range, size, enough⟩ := verdict_frame_iff.mp whole
    have bounds := range.bounds
    have front : mbapHeaderLen ≤ n := show 7 ≤ n by omega
    have same := decodeMbap_take (long_of_decoded decoded) front
    exact verdict_frame_iff.mpr ⟨header, same.trans decoded, range, size,
      by rw [List.length_take]; omega⟩
  frame_append t whole := by
    obtain ⟨header, decoded, range, size, enough⟩ := verdict_frame_iff.mp whole
    have long := long_of_decoded decoded
    exact verdict_frame_iff.mpr ⟨header, (decodeMbap_append long t).trans decoded, range, size,
      by rw [List.length_append]; omega⟩
  bad_append t broken := by
    obtain ⟨header, decoded, outside, same⟩ := verdict_bad_iff.mp broken
    have long := long_of_decoded decoded
    exact verdict_bad_iff.mpr ⟨header, (decodeMbap_append long t).trans decoded, outside, same⟩

theorem verdict_adu {transactionId unitId : Int} {pdu : Bytes}
    (fits : (aduHeader transactionId unitId pdu).Fits) (content : pdu ≠ [])
    (short : pdu.length ≤ maxPduLen) :
    verdict ((aduHeader transactionId unitId pdu).wire ++ pdu) =
      .frame ((aduHeader transactionId unitId pdu).wire ++ pdu).length := by
  have least := List.length_pos_iff.mpr content
  have size : ((aduHeader transactionId unitId pdu).wire ++ pdu).length = 7 + pdu.length := by
    rw [List.length_append, MBAPHeader.length_wire, mbapHeaderLen]
  rw [size]
  simp only [maxPduLen] at short
  refine verdict_frame_iff.mpr ⟨_, decodeMbap_wire fits pdu, ?_, ?_, size.ge⟩
  · constructor <;> simp only [aduHeader, minLengthField, maxLengthField] <;> omega
  · simp only [aduHeader]
    omega

/-! ### The framer drains its buffer -/

theorem nextFrame_more {s : Bytes} (wanting : verdict s = .more) :
    StreamFramer.nextFrame ⟨s⟩ = (.ok none, ⟨s⟩) := by
  by_cases long : mbapHeaderLen ≤ s.length
  · obtain ⟨header, decoded, -⟩ := decodeMbap_long long
    rw [verdict_long long decoded] at wanting
    split at wanting
    next => cases wanting
    next inRange =>
      split at wanting
      next half => simp [StreamFramer.nextFrame, not_lt.mpr long, decoded, inRange, half]
      next => cases wanting
  · simp [StreamFramer.nextFrame, not_le.mp long]

theorem nextFrame_bad {s : Bytes} {e : ServerExn} (broken : verdict s = .bad e) :
    StreamFramer.nextFrame ⟨s⟩ = (.error e, ⟨s⟩) := by
  obtain ⟨header, decoded, outside, rfl⟩ := verdict_bad_iff.mp broken
  simp [StreamFramer.nextFrame, not_lt.mpr (long_of_decoded decoded), decoded, outside]

theorem nextFrame_frame {s : Bytes} {n : Nat} (whole : verdict s = .frame n) :
    ∃ header, decodeMbap (s.take n) = .ok header ∧ (n : Int) = 6 + header.length ∧
      StreamFramer.nextFrame ⟨s⟩ = (.ok (some (header, s.take n)), ⟨s.drop n⟩) := by
  obtain ⟨header, decoded, range, size, enough⟩ := verdict_frame_iff.mp whole
  have long := long_of_decoded decoded
  have bounds := range.bounds
  have front := decodeMbap_take long (n := n) (show 7 ≤ n by omega)
  refine ⟨header, front.trans decoded, size, ?_⟩
  simp [StreamFramer.nextFrame, not_lt.mpr long, decoded, range, ← size, enough]

theorem nextFrame_adu {transactionId unitId : Int} {pdu : Bytes}
    (fits : (aduHeader transactionId unitId pdu).Fits) (content : pdu ≠ [])
    (short : pdu.length ≤ maxPduLen) :
    StreamFramer.nextFrame ⟨(aduHeader transactionId unitId pdu).wire ++ pdu⟩ =
      (.ok (some (aduHeader transactionId unitId pdu,
        (aduHeader transactionId unitId pdu).wire ++ pdu)), .new) := by
  obtain ⟨header, decoded, _, taken⟩ := nextFrame_frame (verdict_adu fits content short)
  rw [List.take_length, decodeMbap_wire fits] at decoded
  rw [taken, List.take_length, List.drop_length, Except.ok.inj decoded]
  rfl

theorem nextFrame_shrinks {f f' : StreamFramer} {item : Item}
    (next : f.nextFrame = (.ok (some item), f')) : f'.buffer.length < f.buffer.length := by
  cases start : verdict f.buffer with
  | more =>
    have ended := nextFrame_more start
    simp [ended] at next
  | bad e =>
    have broken := nextFrame_bad start
    simp [broken] at next
  | frame n =>
    obtain ⟨header, _, _, taken⟩ := nextFrame_frame start
    have bound := aduProtocol.frame_bound start
    simp only [taken, Prod.mk.injEq] at next
    rw [← next.2, List.length_drop]
    omega

/-- What iterating a feed yields, the exception that cut it short, and the framer afterwards. -/
structure Feed where
  items : List Item
  raised : Option ServerExn
  framer : StreamFramer

/-- The loop of `feed`. -/
def StreamFramer.iterate (f : StreamFramer) : Feed :=
  match _next : f.nextFrame with
  | (.error e, f') => ⟨[], some e, f'⟩
  | (.ok none, f') => ⟨[], none, f'⟩
  | (.ok (some item), f') =>
    let later := f'.iterate
    ⟨item :: later.items, later.raised, later.framer⟩
termination_by f.buffer.length
decreasing_by exact nextFrame_shrinks _next

def StreamFramer.feed (f : StreamFramer) (data : Bytes) : Feed :=
  StreamFramer.iterate ⟨f.buffer ++ data⟩

/-- Feed chunks one after another, each iterated to its end, up to the first exception. -/
def StreamFramer.feedAll (f : StreamFramer) : List Bytes → Feed
  | [] => ⟨[], none, f⟩
  | data :: chunks =>
    let now := f.feed data
    match now.raised with
    | some _ => now
    | none =>
      let later := now.framer.feedAll chunks
      ⟨now.items ++ later.items, later.raised, later.framer⟩

def headerOf (adu : Bytes) : MBAPHeader :=
  match decodeMbap adu with
  | .ok header => header
  | .error _ => ⟨0, 0, 0, 0⟩

def withHeader (adu : Bytes) : Item := (headerOf adu, adu)

theorem withHeader_eq {adu : Bytes} {header : MBAPHeader} (decoded : decodeMbap adu = .ok header) :
    withHeader adu = (header, adu) := by simp [withHeader, headerOf, decoded]

def Feed.ofOutcome (outcome : Outcome UInt8 ServerExn) : Feed :=
  ⟨outcome.frames.map withHeader, outcome.stop, ⟨outcome.rest⟩⟩

theorem iterate_eq (s : Bytes) : StreamFramer.iterate ⟨s⟩ = .ofOutcome (aduProtocol.drain s) := by
  induction s using aduProtocol.drain_induction with
  | more s start =>
    rw [StreamFramer.iterate, aduProtocol.drain_more start]
    split <;> simp_all [nextFrame_more start, Feed.ofOutcome]
  | bad s e start =>
    rw [StreamFramer.iterate, aduProtocol.drain_bad start]
    split <;> simp_all [nextFrame_bad start, Feed.ofOutcome]
  | frame s n start ih =>
    obtain ⟨header, decoded, _, taken⟩ := nextFrame_frame start
    rw [StreamFramer.iterate, aduProtocol.drain_frame start]
    split <;> simp_all [Feed.ofOutcome, withHeader_eq decoded]

theorem feed_eq (f : StreamFramer) (data : Bytes) :
    f.feed data = .ofOutcome (aduProtocol.drain (f.buffer ++ data)) := iterate_eq _

theorem feedAll_eq (f : StreamFramer) (chunks : List Bytes) :
    f.feedAll chunks = .ofOutcome (aduProtocol.feedAll f.buffer chunks) := by
  induction chunks generalizing f with
  | nil => rfl
  | cons data chunks ih =>
    simp only [StreamFramer.feedAll, Protocol.feedAll, feed_eq, ih]
    cases stop : (aduProtocol.drain (f.buffer ++ data)).stop with
    | some e => simp [Feed.ofOutcome, stop]
    | none => simp [Feed.ofOutcome, stop]

/-- What a feed ends on: a buffer that wants more, or the exception that the next call raises
again. -/
theorem feed_ends (f : StreamFramer) (data : Bytes) :
    (f.feed data).framer.nextFrame =
      match (f.feed data).raised with
      | none => (.ok none, (f.feed data).framer)
      | some e => (.error e, (f.feed data).framer) := by
  have settled := aduProtocol.head_rest (f.buffer ++ data)
  rw [feed_eq]
  simp only [Feed.ofOutcome]
  cases stop : (aduProtocol.drain (f.buffer ++ data)).stop with
  | none =>
    rw [stop] at settled
    exact nextFrame_more settled
  | some e =>
    rw [stop] at settled
    exact nextFrame_bad settled

/-- A raising call changes nothing, and feeding more raises the same again at once. -/
theorem nextFrame_raises {f f' : StreamFramer} {e : ServerExn}
    (raised : f.nextFrame = (.error e, f')) :
    f' = f ∧ verdict f.buffer = .bad e ∧ ∀ data, f.feed data = ⟨[], some e, ⟨f.buffer ++ data⟩⟩ := by
  cases start : verdict f.buffer with
  | more =>
    have ended := nextFrame_more start
    simp [ended] at raised
  | bad e' =>
    have broken := nextFrame_bad start
    simp only [broken, Prod.mk.injEq, Except.error.injEq] at raised
    obtain ⟨rfl, rfl⟩ := raised
    refine ⟨rfl, rfl, fun data => ?_⟩
    rw [feed_eq, aduProtocol.drain_bad (aduProtocol.bad_append data start)]
    rfl
  | frame n =>
    obtain ⟨header, _, _, taken⟩ := nextFrame_frame start
    simp [taken] at raised

/-! ### The declared length -/

theorem length_of_decoded {s : Bytes} {header : MBAPHeader} (decoded : decodeMbap s = .ok header) :
    header.length = wordAt s 4 := by rw [header_of_decoded decoded]

def BadStart (s : Bytes) : Prop := mbapHeaderLen ≤ s.length ∧ ¬ LengthInRange (wordAt s 4)

theorem badStart_iff {s : Bytes} :
    BadStart s ↔ verdict s = .bad (invalidLength (wordAt s 4)) := by
  constructor
  · rintro ⟨long, outside⟩
    obtain ⟨header, decoded, -⟩ := decodeMbap_long long
    have declared := length_of_decoded decoded
    exact verdict_bad_iff.mpr ⟨header, decoded, by rw [declared]; exact outside, by rw [declared]⟩
  · intro broken
    obtain ⟨header, decoded, outside, _⟩ := verdict_bad_iff.mp broken
    rw [length_of_decoded decoded] at outside
    exact ⟨long_of_decoded decoded, outside⟩

theorem badStart_of_bad {s : Bytes} {e : ServerExn} (broken : verdict s = .bad e) :
    BadStart s ∧ e = invalidLength (wordAt s 4) := by
  obtain ⟨header, decoded, outside, rfl⟩ := verdict_bad_iff.mp broken
  rw [length_of_decoded decoded] at outside ⊢
  exact ⟨⟨long_of_decoded decoded, outside⟩, rfl⟩

/-! ### Runs of the framer -/

/-- A point of a run: the bytes fed so far, the items yielded so far, and the framer. -/
structure Point where
  fed : Bytes
  yielded : List Item
  framer : StreamFramer

def Point.start : Point := ⟨[], [], .new⟩

/-- The next item of the current feed is taken, or, when it has ended, more bytes are fed. -/
inductive Point.Step (p : Point) : Point → Prop
  | next {item : Item} {f' : StreamFramer} (taken : p.framer.nextFrame = (.ok (some item), f')) :
    Step p ⟨p.fed, p.yielded ++ [item], f'⟩
  | feed (data : Bytes) (ended : p.framer.nextFrame = (.ok none, p.framer)) :
    Step p ⟨p.fed ++ data, p.yielded, ⟨p.framer.buffer ++ data⟩⟩

def Point.Reachable (p : Point) : Prop := Relation.ReflTransGen Point.Step .start p

/-- Nothing fed is lost, repeated or reordered, and every item is a whole frame. -/
structure Point.Conserved (p : Point) : Prop where
  conserved : (p.yielded.map Prod.snd).flatten ++ p.framer.buffer = p.fed
  whole : ∀ header adu, (header, adu) ∈ p.yielded →
    decodeMbap adu = .ok header ∧ (adu.length : Int) = 6 + header.length

theorem Point.Step.conserved {p q : Point} (step : Point.Step p q) (holds : p.Conserved) :
    q.Conserved := by
  cases step with
  | @next item f' taken =>
    cases start : verdict p.framer.buffer with
    | more =>
      have ended := nextFrame_more start
      simp [ended] at taken
    | bad e =>
      have broken := nextFrame_bad start
      simp [broken] at taken
    | frame n =>
      obtain ⟨header, decoded, size, cut⟩ := nextFrame_frame start
      have bound := aduProtocol.frame_bound start
      simp only [cut, Prod.mk.injEq, Except.ok.injEq, Option.some.injEq] at taken
      obtain ⟨rfl, rfl⟩ := taken
      constructor
      · simp [← holds.conserved]
      · intro header' adu member
        rcases List.mem_append.mp member with earlier | now
        · exact holds.whole header' adu earlier
        · cases List.mem_singleton.mp now
          exact ⟨decoded, by rw [List.length_take, Nat.min_eq_left bound.2, size]⟩
  | feed data ended => exact ⟨by simp [← holds.conserved], holds.whole⟩

theorem Point.Reachable.conserved {p : Point} (reachable : p.Reachable) : p.Conserved := by
  induction reachable with
  | refl => exact ⟨rfl, by simp [Point.start]⟩
  | tail _ step ih => exact step.conserved ih

theorem iterate_steps (s fed : Bytes) (yielded : List Item) :
    Relation.ReflTransGen Point.Step ⟨fed, yielded, ⟨s⟩⟩
      ⟨fed, yielded ++ (StreamFramer.iterate ⟨s⟩).items, (StreamFramer.iterate ⟨s⟩).framer⟩ := by
  induction s using aduProtocol.drain_induction generalizing yielded with
  | more s start =>
    rw [iterate_eq, aduProtocol.drain_more start]
    simp only [Feed.ofOutcome, List.map_nil, List.append_nil]
    exact .refl
  | bad s e start =>
    rw [iterate_eq, aduProtocol.drain_bad start]
    simp only [Feed.ofOutcome, List.map_nil, List.append_nil]
    exact .refl
  | frame s n start ih =>
    obtain ⟨header, decoded, _, taken⟩ := nextFrame_frame start
    have later := ih (yielded ++ [(header, s.take n)])
    rw [iterate_eq] at later
    rw [iterate_eq, aduProtocol.drain_frame start]
    simp only [Feed.ofOutcome, List.map_cons, withHeader_eq decoded, List.append_assoc,
      List.singleton_append] at later ⊢
    exact .head (.next taken) later

theorem feedAll_steps (chunks : List Bytes) {f : StreamFramer} (fed : Bytes) (yielded : List Item)
    (ended : f.nextFrame = (.ok none, f)) :
    ∃ before after, chunks = before ++ after ∧ ((f.feedAll chunks).raised = none → after = []) ∧
      Relation.ReflTransGen Point.Step ⟨fed, yielded, f⟩
        ⟨fed ++ before.flatten, yielded ++ (f.feedAll chunks).items, (f.feedAll chunks).framer⟩ := by
  induction chunks generalizing f fed yielded with
  | nil => exact ⟨[], [], rfl, fun _ => rfl, by simpa [StreamFramer.feedAll] using .refl⟩
  | cons data chunks ih =>
    have first : Relation.ReflTransGen Point.Step ⟨fed, yielded, f⟩
        ⟨fed ++ data, yielded ++ (f.feed data).items, (f.feed data).framer⟩ :=
      .head (.feed data ended) (iterate_steps (f.buffer ++ data) (fed ++ data) yielded)
    have ends := feed_ends f data
    cases raised : (f.feed data).raised with
    | some e =>
      have stays : f.feedAll (data :: chunks) = f.feed data := by
        simp [StreamFramer.feedAll, raised]
      refine ⟨[data], chunks, rfl, by simp [stays, raised], ?_⟩
      rw [stays]
      simpa using first
    | none =>
      rw [raised] at ends
      have goesOn : f.feedAll (data :: chunks) =
          ⟨(f.feed data).items ++ ((f.feed data).framer.feedAll chunks).items,
            ((f.feed data).framer.feedAll chunks).raised,
            ((f.feed data).framer.feedAll chunks).framer⟩ := by
        simp [StreamFramer.feedAll, raised]
      obtain ⟨before, after, rfl, whole, later⟩ :=
        ih (fed ++ data) (yielded ++ (f.feed data).items) ends
      refine ⟨data :: before, after, rfl, by rw [goesOn]; exact whole, ?_⟩
      rw [goesOn]
      simpa using first.trans later

/-- Where the stream is cut does not matter, nothing is lost at any point, and the framing error
is raised exactly on a bad length field, for good. -/
theorem streamFramer_spec :
    (∀ chunks, (StreamFramer.new.feedAll chunks).items = (StreamFramer.new.feed chunks.flatten).items ∧
      (StreamFramer.new.feedAll chunks).raised = (StreamFramer.new.feed chunks.flatten).raised) ∧
    (∀ chunks, ∃ before after, chunks = before ++ after ∧
      ((StreamFramer.new.feedAll chunks).raised = none → after = []) ∧
      Point.Reachable ⟨before.flatten, (StreamFramer.new.feedAll chunks).items,
        (StreamFramer.new.feedAll chunks).framer⟩) ∧
    (∀ p : Point, p.Reachable →
      (p.yielded.map Prod.snd).flatten ++ p.framer.buffer = p.fed ∧
      ∀ header adu, (header, adu) ∈ p.yielded →
        decodeMbap adu = .ok header ∧ (adu.length : Int) = 6 + header.length) ∧
    (∀ f : StreamFramer, (∃ message f', f.nextFrame = (.error (.protocolError message), f')) ↔
      BadStart f.buffer) ∧
    (∀ (f f' : StreamFramer) e, f.nextFrame = (.error e, f') →
      f' = f ∧ (∃ message, e = .protocolError message) ∧
        ∀ data, f.feed data = ⟨[], some e, ⟨f.buffer ++ data⟩⟩) ∧
    (∀ (f : StreamFramer) data, (f.feed data).framer.nextFrame =
      match (f.feed data).raised with
      | none => (.ok none, (f.feed data).framer)
      | some e => (.error e, (f.feed data).framer)) ∧
    ∀ (f : StreamFramer) data, (f.feed data).items.length ≤ (f.buffer ++ data).length / 8 := by
  have settled : aduProtocol.head StreamFramer.new.buffer = .more := rfl
  have ended : StreamFramer.new.nextFrame = (.ok none, .new) := rfl
  refine ⟨fun chunks => ?_, fun chunks => ?_, fun p reachable => ?_, fun f => ⟨?_, ?_⟩,
    fun f f' e raised => ?_, feed_ends, fun f data => ?_⟩
  · obtain ⟨unfed, same, _⟩ := aduProtocol.feedAll_eq chunks settled
    rw [feedAll_eq, feed_eq, same]
    exact ⟨rfl, rfl⟩
  · obtain ⟨before, after, whole, fed, steps⟩ := feedAll_steps chunks [] [] ended
    exact ⟨before, after, whole, fed, steps⟩
  · exact ⟨reachable.conserved.conserved, reachable.conserved.whole⟩
  · rintro ⟨message, f', raised⟩
    exact (badStart_of_bad (nextFrame_raises raised).2.1).1
  · intro bad
    exact ⟨_, f, nextFrame_bad (badStart_iff.mp bad)⟩
  · obtain ⟨same, broken, again⟩ := nextFrame_raises raised
    exact ⟨same, ⟨_, (badStart_of_bad broken).2⟩, again⟩
  · have atLeast : ∀ s n, aduProtocol.head s = .frame n → 8 ≤ n := by
      intro s n whole
      obtain ⟨header, _, range, size, _⟩ := verdict_frame_iff.mp whole
      have bounds := range.bounds
      omega
    have count := aduProtocol.length_frames_mul_le atLeast (f.buffer ++ data)
    rw [feed_eq]
    simp only [Feed.ofOutcome, List.length_map]
    omega

end ModbusSim.Server
