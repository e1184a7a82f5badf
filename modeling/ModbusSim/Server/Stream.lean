import ModbusSim.Server.Framer

/-!
# Streams of ADUs

Two results on everything a framer can be fed. A stream of messages, each built into an ADU, is
cut back into these messages however it is chunked. And exactly on the streams in which no header
declares more than a full ADU does the framer keep to the sizes of the protocol.
-/

namespace ModbusSim.Server

open PyStruct ModbusSim.Frame Framing

/-! ### Feeding from the start -/

theorem settled_new : aduProtocol.head StreamFramer.new.buffer = .more := rfl

/-- What a fresh framer yields and raises is the draining of all it was fed. -/
theorem feedAll_new (chunks : List Bytes) :
    (StreamFramer.new.feedAll chunks).items =
        (aduProtocol.drain chunks.flatten).frames.map withHeader ∧
      (StreamFramer.new.feedAll chunks).raised = (aduProtocol.drain chunks.flatten).stop := by
  obtain ⟨unfed, same, _⟩ := aduProtocol.feedAll_eq chunks settled_new
  rw [feedAll_eq, same]
  exact ⟨rfl, rfl⟩

theorem buffer_feedAll_new {chunks : List Bytes}
    (quiet : (StreamFramer.new.feedAll chunks).raised = none) :
    (StreamFramer.new.feedAll chunks).framer.buffer = (aduProtocol.drain chunks.flatten).rest := by
  obtain ⟨unfed, _, conserved, ended⟩ := aduProtocol.feedAll_eq chunks settled_new
  rw [feedAll_eq] at quiet ⊢
  rw [ended quiet, List.append_nil] at conserved
  exact conserved

theorem map_withHeader_snd (frames : List Bytes) : (frames.map withHeader).map Prod.snd = frames := by
  rw [List.map_map]
  exact List.map_id frames

theorem yielded_append_rest (chunks : List Bytes) :
    ((StreamFramer.new.feedAll chunks).items.map Prod.snd).flatten ++
      (aduProtocol.drain chunks.flatten).rest = chunks.flatten := by
  rw [(feedAll_new chunks).1, map_withHeader_snd]
  exact aduProtocol.drain_conserves chunks.flatten

/-! ### A stream of messages -/

structure Message where
  transactionId : Nat
  unitId : Nat
  pdu : Bytes
  transaction_lt : transactionId < 65536
  unit_lt : unitId < 256
  content : 1 ≤ pdu.length
  short : pdu.length ≤ maxPduLen

namespace Message

def header (m : Message) : MBAPHeader := ⟨m.transactionId, 0, m.pdu.length + 1, m.unitId⟩

def adu (m : Message) : Bytes := m.header.wire ++ m.pdu

theorem header_eq (m : Message) : m.header = aduHeader m.transactionId m.unitId m.pdu := by
  simp only [header, aduHeader, protocolId, Int.add_comm]

theorem header_fits (m : Message) : m.header.Fits := by
  have transaction := m.transaction_lt
  have unit := m.unit_lt
  rw [header_eq]
  apply aduHeader_fits
  · constructor
    · omega
    · simp only [registerMax]
      omega
  · omega
  · exact m.short

theorem buildAdu_eq (m : Message) : buildAdu m.transactionId m.unitId m.pdu = .ok m.adu := by
  have fits := m.header_fits
  rw [header_eq] at fits
  rw [Frame.buildAdu_eq fits, adu, header_eq]

theorem verdict_eq (m : Message) : verdict m.adu = .frame m.adu.length := by
  have fits := m.header_fits
  rw [header_eq] at fits
  rw [adu, header_eq]
  exact verdict_adu fits (List.ne_nil_of_length_pos m.content) m.short

theorem decodeMbap_eq (m : Message) : decodeMbap m.adu = .ok m.header :=
  decodeMbap_wire m.header_fits m.pdu

theorem pdu_eq (m : Message) : m.adu.drop mbapHeaderLen = m.pdu :=
  List.drop_left' m.header.length_wire

end Message

theorem verdict_cut {m : Message} {cut : Bytes} (front : cut <+: m.adu) (proper : cut ≠ m.adu) :
    verdict cut = .more := by
  obtain ⟨later, whole⟩ := front
  apply aduProtocol.head_of_proper_prefix (t := later)
  · rw [whole]
    exact m.verdict_eq
  · rintro rfl
    rw [List.append_nil] at whole
    exact proper whole

theorem drain_messages (messages : List Message) {cut : Bytes} (wanting : verdict cut = .more) :
    aduProtocol.drain ((messages.map Message.adu).flatten ++ cut) =
      ⟨messages.map Message.adu, cut, none⟩ := by
  have whole : ∀ f ∈ messages.map Message.adu, aduProtocol.head f = .frame f.length := by
    intro f member
    obtain ⟨m, _, rfl⟩ := List.mem_map.mp member
    exact m.verdict_eq
  rw [aduProtocol.drain_flatten whole, aduProtocol.drain_more wanting, List.append_nil]

theorem withHeader_message (m : Message) : withHeader m.adu = (m.header, m.adu) :=
  withHeader_eq m.decodeMbap_eq

/-- What any part of the stream yields is the messages that have ended in it. -/
theorem items_of_prefix {messages : List Message} {cut : Bytes} {chunks fed : List Bytes}
    (wanting : verdict cut = .more)
    (stream : chunks.flatten = (messages.map Message.adu).flatten ++ cut) (part : fed <+: chunks) :
    ∃ k, (StreamFramer.new.feedAll fed).items =
        (messages.take k).map (fun m => (m.header, m.adu)) ∧
      ((messages.take k).map Message.adu).flatten <+: fed.flatten := by
  obtain ⟨later, rfl⟩ := part
  have earlier := aduProtocol.frames_prefix fed.flatten later.flatten
  rw [← List.flatten_append, stream, drain_messages messages wanting] at earlier
  obtain ⟨k, frames⟩ : ∃ k, (aduProtocol.drain fed.flatten).frames =
      (messages.take k).map Message.adu := by
    refine ⟨(aduProtocol.drain fed.flatten).frames.length, ?_⟩
    rw [List.map_take]
    exact List.prefix_iff_eq_take.mp earlier
  refine ⟨k, ?_, ?_⟩
  · rw [(feedAll_new fed).1, frames, List.map_map]
    apply List.map_congr_left
    intro m _
    exact withHeader_message m
  · rw [← frames]
    exact ⟨_, aduProtocol.drain_conserves fed.flatten⟩

/-- However a stream of ADUs is cut, the framer yields them one by one, each once it is complete,
and waits for the end of the one that is not. -/
theorem streamFramer_messages (messages : List Message) (next : Message) (cut : Bytes)
    (front : cut <+: next.adu) (proper : cut ≠ next.adu) (chunks : List Bytes)
    (stream : chunks.flatten = (messages.map Message.adu).flatten ++ cut) :
    (∀ m : Message, buildAdu m.transactionId m.unitId m.pdu = .ok m.adu) ∧
      (StreamFramer.new.feedAll chunks).raised = none ∧
      (StreamFramer.new.feedAll chunks).items.map
          (fun item => (item.1, item.2.drop mbapHeaderLen)) =
        messages.map (fun m => (⟨m.transactionId, 0, m.pdu.length + 1, m.unitId⟩, m.pdu)) ∧
      (StreamFramer.new.feedAll chunks).framer.pending = cut.length ∧
      ∀ fed, fed <+: chunks → ∃ k,
        (StreamFramer.new.feedAll fed).items =
          (messages.take k).map (fun m => (m.header, m.adu)) ∧
        ((messages.take k).map Message.adu).flatten <+: fed.flatten := by
  have wanting := verdict_cut front proper
  have drained := drain_messages messages wanting
  rw [← stream] at drained
  have quiet : (StreamFramer.new.feedAll chunks).raised = none := by
    rw [(feedAll_new chunks).2, drained]
  refine ⟨Message.buildAdu_eq, quiet, ?_, ?_, fun fed => items_of_prefix wanting stream⟩
  · rw [(feedAll_new chunks).1, drained, List.map_map, List.map_map]
    apply List.map_congr_left
    intro m _
    simp only [Function.comp_apply, withHeader_message, m.pdu_eq, Message.header]
  · rw [StreamFramer.pending, buffer_feedAll_new quiet, drained]

/-- One read request, and seven bytes of the next, in two pieces. -/
theorem streamFramer_messages_halfFrame :
    (StreamFramer.new.feedAll [[0, 1, 0, 0, 0, 6, 17, 3, 0], [0, 0, 2, 0, 1, 0, 0, 0, 6, 17]]).items.map
        (fun item => (item.1, item.2.drop mbapHeaderLen)) =
      [(⟨1, 0, 6, 17⟩, [3, 0, 0, 0, 2])] := by
  let request : Message := ⟨1, 17, [3, 0, 0, 0, 2], by decide, by decide, by decide, by decide⟩
  exact (streamFramer_messages [request] request (request.adu.take 7) (List.take_prefix ..)
    (by decide) [[0, 1, 0, 0, 0, 6, 17, 3, 0], [0, 0, 2, 0, 1, 0, 0, 0, 6, 17]] (by decide)).2.2.1

/-! ### The limits -/

inductive FrameStart (stream : Bytes) : Bytes → Prop
  | first : FrameStart stream stream
  | behind {s : Bytes} (start : FrameStart stream s) (long : mbapHeaderLen ≤ s.length)
      (range : LengthInRange (wordAt s 4)) (whole : 6 + wordAt s 4 ≤ s.length) :
      FrameStart stream (s.drop (6 + wordAt s 4))

theorem frame_iff_declared {s : Bytes} {n : Nat} :
    verdict s = .frame n ↔ mbapHeaderLen ≤ s.length ∧ LengthInRange (wordAt s 4) ∧
      n = 6 + wordAt s 4 ∧ n ≤ s.length := by
  rw [verdict_frame_iff]
  constructor
  · rintro ⟨header, decoded, range, size, enough⟩
    rw [length_of_decoded decoded] at range size
    exact ⟨long_of_decoded decoded, range, by omega, enough⟩
  · rintro ⟨long, range, rfl, enough⟩
    obtain ⟨header, decoded, -⟩ := decodeMbap_long long
    have declared := length_of_decoded decoded
    rw [← declared] at range
    exact ⟨header, decoded, range, by rw [declared]; omega, enough⟩

theorem more_iff_declared {s : Bytes} :
    verdict s = .more ↔ s.length < mbapHeaderLen ∨
      LengthInRange (wordAt s 4) ∧ s.length < 6 + wordAt s 4 := by
  by_cases long : mbapHeaderLen ≤ s.length
  · obtain ⟨header, decoded, -⟩ := decodeMbap_long long
    rw [verdict_long long decoded, length_of_decoded decoded]
    by_cases range : LengthInRange (wordAt s 4)
    · by_cases half : s.length < 6 + wordAt s 4
      · rw [if_neg (not_not.mpr range), if_pos (by omega)]
        exact iff_of_true rfl (.inr ⟨range, half⟩)
      · rw [if_neg (not_not.mpr range), if_neg (by omega)]
        exact iff_of_false (fun same => by cases same) (by omega)
    · rw [if_pos range]
      refine iff_of_false (fun same => by cases same) ?_
      rintro (short | ⟨inRange, _⟩)
      · omega
      · exact range inRange
  · rw [verdict, if_pos (by omega)]
    exact iff_of_true rfl (.inl (by omega))

theorem frameStart_iff {stream s : Bytes} : FrameStart stream s ↔ aduProtocol.Visits stream s := by
  constructor
  · intro start
    induction start with
    | first => exact .start
    | behind _ long range whole ih =>
      exact ih.cut (frame_iff_declared.mpr ⟨long, range, rfl, whole⟩)
  · intro visits
    induction visits with
    | start => exact .first
    | cut _ whole ih =>
      obtain ⟨long, range, rfl, enough⟩ := frame_iff_declared.mp whole
      exact .behind ih long range enough

/-- A declared length that is let through although a full ADU has no room for it. -/
def LongField (s : Bytes) : Prop := maxAduLen - 6 < wordAt s 4 ∧ (wordAt s 4 : Int) ≤ maxLengthField

structure SizesBounded (chunks : List Bytes) : Prop where
  adus : ∀ item ∈ (StreamFramer.new.feedAll chunks).items,
    item.2.length ≤ maxAduLen ∧ 1 ≤ (item.2.drop mbapHeaderLen).length ∧
      (item.2.drop mbapHeaderLen).length ≤ maxPduLen
  pending : ∀ fed, fed <+: chunks → (StreamFramer.new.feedAll fed).raised = none →
    (StreamFramer.new.feedAll fed).framer.pending < maxAduLen

def RejectsLong (chunks : List Bytes) : Prop :=
  ∀ s, FrameStart chunks.flatten s → mbapHeaderLen ≤ s.length → maxAduLen - 6 < wordAt s 4 →
    (∃ message, (StreamFramer.new.feedAll chunks).raised = some (.protocolError message)) ∧
      ((StreamFramer.new.feedAll chunks).items.map Prod.snd).flatten ++ s = chunks.flatten

theorem wordAt_append {s : Bytes} (long : mbapHeaderLen ≤ s.length) (t : Bytes) :
    wordAt (s ++ t) 4 = wordAt s 4 := by
  have enough : 7 ≤ s.length := long
  simp only [wordAt, List.getD_eq_getElem?_getD]
  rw [List.getElem?_append_left (by omega), List.getElem?_append_left (by omega)]

theorem declared_le {s : Bytes} (range : LengthInRange (wordAt s 4)) (notLong : ¬ LongField s) :
    2 ≤ wordAt s 4 ∧ wordAt s 4 ≤ maxAduLen - 6 := by
  have bounds := range.bounds
  constructor
  · omega
  · by_contra more
    exact notLong ⟨Nat.lt_of_not_le more, range.2⟩

/-- As long as no header with an ADU's worth of bytes declares too much, all sizes are legal. -/
theorem sizesBounded_of_starts {chunks : List Bytes}
    (starts : ∀ s, FrameStart chunks.flatten s → maxAduLen ≤ s.length → ¬ LongField s) :
    SizesBounded chunks := by
  constructor
  · rintro ⟨header, adu⟩ member
    rw [(feedAll_new chunks).1] at member
    obtain ⟨frame, isFrame, same⟩ := List.mem_map.mp member
    cases same
    obtain ⟨s, visits, whole, _⟩ := aduProtocol.visits_of_mem_frames isFrame
    obtain ⟨_, range, size, enough⟩ := frame_iff_declared.mp whole
    have notLong : ¬ LongField s := by
      intro field
      have declared := field.1
      simp only [maxAduLen] at declared
      exact starts s (frameStart_iff.mpr visits) (by simp only [maxAduLen]; omega) field
    obtain ⟨least, most⟩ := declared_le range notLong
    simp only [maxAduLen, List.length_drop, mbapHeaderLen, maxPduLen] at most ⊢
    omega
  · rintro fed ⟨later, rfl⟩ quiet
    have stopped := (feedAll_new fed).2.symm.trans quiet
    have wanting := aduProtocol.head_rest fed.flatten
    rw [stopped] at wanting
    rw [StreamFramer.pending, buffer_feedAll_new quiet]
    by_contra full
    have size := Nat.le_of_not_lt full
    rcases more_iff_declared.mp wanting with short | ⟨range, half⟩
    · simp only [mbapHeaderLen, maxAduLen] at short size
      omega
    · have long : mbapHeaderLen ≤ (aduProtocol.drain fed.flatten).rest.length :=
        Nat.le_trans (by decide) size
      have visits := (aduProtocol.visits_rest fed.flatten).append later.flatten
      rw [← List.flatten_append] at visits
      apply starts _ (frameStart_iff.mpr visits)
      · rw [List.length_append]
        omega
      · have most := range.2
        unfold LongField
        rw [wordAt_append long]
        simp only [maxAduLen] at size ⊢
        exact ⟨by omega, most⟩

theorem starts_of_sizesBounded {chunks : List Bytes} (bounded : SizesBounded chunks) {s : Bytes}
    (start : FrameStart chunks.flatten s) (full : maxAduLen ≤ s.length) : ¬ LongField s := by
  rintro ⟨declared, most⟩
  have long : mbapHeaderLen ≤ s.length := Nat.le_trans (by decide) full
  have range : LengthInRange (wordAt s 4) := by
    refine ⟨?_, most⟩
    simp only [maxAduLen, minLengthField] at declared ⊢
    omega
  obtain ⟨before, drained, _⟩ := (frameStart_iff.mp start).drain_eq
  by_cases whole : 6 + wordAt s 4 ≤ s.length
  · -- the overlong ADU is complete: it is among the items
    have verdict := frame_iff_declared.mpr ⟨long, range, rfl, whole⟩
    have yielded : s.take (6 + wordAt s 4) ∈ (aduProtocol.drain chunks.flatten).frames := by
      rw [drained, aduProtocol.drain_frame verdict]
      simp
    have small := (bounded.adus (withHeader (s.take (6 + wordAt s 4))) (by
      rw [(feedAll_new chunks).1]
      exact List.mem_map_of_mem yielded)).1
    simp only [withHeader, List.length_take, maxAduLen] at small declared
    omega
  · -- it is not: all of it waits in the buffer
    have verdict := more_iff_declared.mpr (.inr ⟨range, Nat.lt_of_not_le whole⟩)
    rw [aduProtocol.drain_more verdict] at drained
    have quiet : (StreamFramer.new.feedAll chunks).raised = none := by
      rw [(feedAll_new chunks).2, drained]
    have small := bounded.pending chunks List.prefix_rfl quiet
    rw [StreamFramer.pending, buffer_feedAll_new quiet, drained] at small
    exact Nat.not_lt_of_le full small

theorem rejectsLong_iff (chunks : List Bytes) :
    RejectsLong chunks ↔
      ∀ s, FrameStart chunks.flatten s → mbapHeaderLen ≤ s.length → ¬ LongField s := by
  constructor
  · rintro rejects s start long ⟨declared, most⟩
    obtain ⟨⟨message, raised⟩, yielded⟩ := rejects s start long declared
    -- nothing is yielded from here on, so this is what the draining stopped at
    have stopped : s = (aduProtocol.drain chunks.flatten).rest :=
      List.append_cancel_left (yielded.trans (yielded_append_rest chunks).symm)
    have broken := aduProtocol.head_rest chunks.flatten
    rw [← (feedAll_new chunks).2, raised, ← stopped] at broken
    apply (badStart_of_bad broken).1.2
    refine ⟨?_, most⟩
    simp only [maxAduLen, minLengthField] at declared ⊢
    omega
  · intro starts s start long declared
    have outside : ¬ LengthInRange (wordAt s 4) := fun range =>
      starts s start long ⟨declared, range.2⟩
    have broken := badStart_iff.mp ⟨long, outside⟩
    obtain ⟨before, drained, fed⟩ := (frameStart_iff.mp start).drain_eq
    rw [aduProtocol.drain_bad broken] at drained
    constructor
    · rw [(feedAll_new chunks).2, drained]
      exact ⟨_, rfl⟩
    · have whole := yielded_append_rest chunks
      rwa [drained] at whole

/-- The framer keeps to the limits exactly as long as no header declares 255 to 260 bytes; to the
sizes alone, as long as none does with an ADU's worth of bytes behind it. -/
theorem keepsLimits_iff (chunks : List Bytes) :
    (SizesBounded chunks ∧ RejectsLong chunks ↔
        ∀ s, FrameStart chunks.flatten s → mbapHeaderLen ≤ s.length → ¬ LongField s) ∧
      (SizesBounded chunks ↔
        ∀ s, FrameStart chunks.flatten s → maxAduLen ≤ s.length → ¬ LongField s) := by
  have sizes : SizesBounded chunks ↔
      ∀ s, FrameStart chunks.flatten s → maxAduLen ≤ s.length → ¬ LongField s :=
    ⟨fun bounded s start full => starts_of_sizesBounded bounded start full, sizesBounded_of_starts⟩
  refine ⟨⟨fun both => (rejectsLong_iff chunks).mp both.2, fun starts => ⟨?_, ?_⟩⟩, sizes⟩
  · apply sizesBounded_of_starts
    intro s start full
    exact starts s start (Nat.le_trans (by decide) full)
  · exact (rejectsLong_iff chunks).mpr starts

/-- A header that declares 260 bytes is followed up: its ADU is yielded when it is all there, and
waits in the buffer before. -/
theorem feedAll_overlong {s : Bytes} (long : mbapHeaderLen ≤ s.length) (declared : wordAt s 4 = 260) :
    (s.length = 266 → (StreamFramer.new.feedAll [s]).items = [withHeader s]) ∧
      (s.length < 266 → (StreamFramer.new.feedAll [s]).raised = none ∧
        (StreamFramer.new.feedAll [s]).framer.pending = s.length) := by
  have stream : [s].flatten = s := List.append_nil s
  have range : LengthInRange (wordAt s 4) := by
    rw [declared]
    decide
  constructor
  · intro size
    have whole : aduProtocol.head s = .frame 266 :=
      frame_iff_declared.mpr ⟨long, range, by rw [declared], by omega⟩
    have nothing : aduProtocol.head [] = .more := rfl
    rw [(feedAll_new [s]).1, stream, aduProtocol.drain_frame whole, List.take_of_length_le size.le,
      List.drop_of_length_le size.le, aduProtocol.drain_more nothing, List.map_singleton]
  · intro half
    have wanting : aduProtocol.head s = .more :=
      more_iff_declared.mpr (.inr ⟨range, by rw [declared]; omega⟩)
    have quiet : (StreamFramer.new.feedAll [s]).raised = none := by
      rw [(feedAll_new [s]).2, stream, aduProtocol.drain_more wanting]
    refine ⟨quiet, ?_⟩
    rw [StreamFramer.pending, buffer_feedAll_new quiet, stream, aduProtocol.drain_more wanting]

def overlongAdu : Bytes := [0, 0, 0, 0, 1, 4, 1] ++ List.replicate 259 0

theorem length_overlongAdu : overlongAdu.length = 266 := by
  rw [overlongAdu, List.length_append, List.length_replicate]
  rfl

/-- It is let through whole, and waits in the buffer with 260 bytes of it. -/
theorem overlongAdu_yielded :
    (StreamFramer.new.feedAll [overlongAdu]).items.map (fun item => item.2.length) = [266] ∧
      (StreamFramer.new.feedAll [overlongAdu.take 260]).raised = none ∧
      (StreamFramer.new.feedAll [overlongAdu.take 260]).framer.pending = 260 ∧
      ¬ SizesBounded [overlongAdu] ∧ ¬ SizesBounded [overlongAdu.take 260] ∧
      ¬ RejectsLong [overlongAdu] := by
  have size := length_overlongAdu
  have declared : wordAt overlongAdu 4 = 260 := rfl
  have halfDeclared : wordAt (overlongAdu.take 260) 4 = 260 := rfl
  generalize overlongAdu = adu at size declared halfDeclared ⊢
  have halfSize : (adu.take 260).length = 260 := by
    rw [List.length_take]
    omega
  have long : mbapHeaderLen ≤ adu.length := by
    rw [size]
    decide
  have halfLong : mbapHeaderLen ≤ (adu.take 260).length := by
    rw [halfSize]
    decide
  have items := (feedAll_overlong long declared).1 size
  obtain ⟨quiet, pending⟩ := (feedAll_overlong halfLong halfDeclared).2 (by omega)
  have start : FrameStart [adu].flatten adu := by
    rw [List.flatten_singleton]
    exact .first
  have field : LongField adu := by
    rw [LongField, declared]
    decide
  rw [halfSize] at pending
  refine ⟨?_, quiet, pending, ?_, ?_, ?_⟩
  · rw [items, List.map_singleton, withHeader, size]
  · intro bounded
    refine starts_of_sizesBounded bounded start ?_ field
    rw [size]
    decide
  · intro bounded
    have small := bounded.pending _ List.prefix_rfl quiet
    rw [pending] at small
    exact absurd small (by decide)
  · intro rejects
    exact (rejectsLong_iff _).mp rejects adu start long field

end ModbusSim.Server
