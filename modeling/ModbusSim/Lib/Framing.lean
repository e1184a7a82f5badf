import Mathlib.Data.List.Basic

/-!
# Cutting a stream into frames

A `Protocol` looks at the start of a buffer and says that a frame of some size is complete,
that more input is needed, or that the stream is broken. Its laws say that a verdict is final:
more input never changes a complete frame or a broken start.

`drain` cuts off frames for as long as the buffer starts with one. The two main results are that
draining loses, repeats and reorders nothing (`drain_conserves`), and that feeding a stream in
chunks gives the same frames and the same end as feeding it at once (`feedAll_eq`).
-/

namespace Framing

universe u v

inductive Head (ε : Type v) where
  | more
  | bad (e : ε)
  | frame (size : Nat)

structure Protocol (β : Type u) (ε : Type v) where
  head : List β → Head ε
  frame_bound : ∀ {s n}, head s = .frame n → 0 < n ∧ n ≤ s.length
  frame_take : ∀ {s n}, head s = .frame n → head (s.take n) = .frame n
  frame_append : ∀ {s n} t, head s = .frame n → head (s ++ t) = .frame n
  bad_append : ∀ {s e} t, head s = .bad e → head (s ++ t) = .bad e

/-- The frames cut off, the input left over, and the reason for a broken end. -/
structure Outcome (β : Type u) (ε : Type v) where
  frames : List (List β)
  rest : List β
  stop : Option ε

namespace Protocol

variable {β : Type u} {ε : Type v} (P : Protocol β ε)

def drain (s : List β) : Outcome β ε :=
  match _verdict : P.head s with
  | .more => ⟨[], s, none⟩
  | .bad e => ⟨[], s, some e⟩
  | .frame n =>
    let later := drain (s.drop n)
    ⟨s.take n :: later.frames, later.rest, later.stop⟩
termination_by s.length
decreasing_by
  have bound := P.frame_bound _verdict
  simp only [List.length_drop]
  omega

theorem drain_more {s : List β} (verdict : P.head s = .more) : P.drain s = ⟨[], s, none⟩ := by
  rw [drain]
  split <;> simp_all

theorem drain_bad {s : List β} {e : ε} (verdict : P.head s = .bad e) :
    P.drain s = ⟨[], s, some e⟩ := by
  rw [drain]
  split <;> simp_all

theorem drain_frame {s : List β} {n : Nat} (verdict : P.head s = .frame n) :
    P.drain s = ⟨s.take n :: (P.drain (s.drop n)).frames, (P.drain (s.drop n)).rest,
      (P.drain (s.drop n)).stop⟩ := by
  rw [drain]
  split <;> simp_all

/-- Induction along `drain`: the buffer shrinks by one frame at a time. -/
theorem drain_induction {motive : List β → Prop}
    (more : ∀ s, P.head s = .more → motive s)
    (bad : ∀ s e, P.head s = .bad e → motive s)
    (frame : ∀ s n, P.head s = .frame n → motive (s.drop n) → motive s)
    (s : List β) : motive s := by
  induction size : s.length using Nat.strongRecOn generalizing s with
  | ind length ih =>
    cases verdict : P.head s with
    | more => exact more s verdict
    | bad e => exact bad s e verdict
    | frame n =>
      have bound := P.frame_bound verdict
      have shorter : (s.drop n).length < length := by simp only [List.length_drop]; omega
      exact frame s n verdict (ih _ shorter _ rfl)

/-- Nothing is lost, repeated or reordered. -/
theorem drain_conserves (s : List β) : (P.drain s).frames.flatten ++ (P.drain s).rest = s := by
  induction s using P.drain_induction with
  | more s verdict => simp [P.drain_more verdict]
  | bad s e verdict => simp [P.drain_bad verdict]
  | frame s n verdict ih =>
    rw [P.drain_frame verdict, List.flatten_cons, List.append_assoc, ih, List.take_append_drop]

/-- What is left over starts with no frame: draining ends for lack of input or on a broken start. -/
theorem head_rest (s : List β) :
    P.head (P.drain s).rest =
      match (P.drain s).stop with
      | none => .more
      | some e => .bad e := by
  induction s using P.drain_induction with
  | more s verdict => simp [P.drain_more verdict, verdict]
  | bad s e verdict => simp [P.drain_bad verdict, verdict]
  | frame s n verdict ih => simpa [P.drain_frame verdict] using ih

theorem length_frames_mul_le {least : Nat} (atLeast : ∀ s n, P.head s = .frame n → least ≤ n)
    (s : List β) : (P.drain s).frames.length * least ≤ s.length := by
  induction s using P.drain_induction with
  | more s verdict => simp [P.drain_more verdict]
  | bad s e verdict => simp [P.drain_bad verdict]
  | frame s n verdict ih =>
    have size := atLeast s n verdict
    have bound := P.frame_bound verdict
    rw [List.length_drop] at ih
    rw [P.drain_frame verdict, List.length_cons, Nat.succ_mul]
    omega

/-- A broken start keeps the whole buffer; otherwise draining goes on from what was left. -/
theorem drain_append (s t : List β) :
    P.drain (s ++ t) =
      match (P.drain s).stop with
      | some e => ⟨(P.drain s).frames, (P.drain s).rest ++ t, some e⟩
      | none => ⟨(P.drain s).frames ++ (P.drain ((P.drain s).rest ++ t)).frames,
          (P.drain ((P.drain s).rest ++ t)).rest, (P.drain ((P.drain s).rest ++ t)).stop⟩ := by
  induction s using P.drain_induction with
  | more s verdict => simp [P.drain_more verdict]
  | bad s e verdict => simp [P.drain_bad verdict, P.drain_bad (P.bad_append t verdict)]
  | frame s n verdict ih =>
    have bound := P.frame_bound verdict
    rw [P.drain_frame verdict, P.drain_frame (P.frame_append t verdict),
      List.take_append_of_le_length bound.2, List.drop_append_of_le_length bound.2, ih]
    cases (P.drain (s.drop n)).stop <;> rfl

theorem drain_flatten {fs : List (List β)} (whole : ∀ f ∈ fs, P.head f = .frame f.length)
    (t : List β) :
    P.drain (fs.flatten ++ t) = ⟨fs ++ (P.drain t).frames, (P.drain t).rest, (P.drain t).stop⟩ := by
  induction fs with
  | nil => rfl
  | cons f fs ih =>
    have first := P.frame_append (fs.flatten ++ t) (whole f (by simp))
    have others := ih fun g member => whole g (by simp [member])
    rw [List.flatten_cons, List.append_assoc, P.drain_frame first, List.take_left, List.drop_left,
      others, List.cons_append]

theorem head_of_proper_prefix {s t : List β} (whole : P.head (s ++ t) = .frame (s ++ t).length)
    (proper : t ≠ []) : P.head s = .more := by
  have longer : s.length < (s ++ t).length := by
    have := List.length_pos_iff.mpr proper
    simp only [List.length_append]
    omega
  cases verdict : P.head s with
  | more => rfl
  | bad e => simp [P.bad_append t verdict] at whole
  | frame n =>
    have bound := P.frame_bound verdict
    rw [P.frame_append t verdict, Head.frame.injEq] at whole
    omega

/-- The frames of a stream come first among those of any stream that goes on from it. -/
theorem frames_prefix (s t : List β) : (P.drain s).frames <+: (P.drain (s ++ t)).frames := by
  rw [P.drain_append]
  cases (P.drain s).stop with
  | none => exact List.prefix_append ..
  | some e => exact List.prefix_rfl

/-- `Visits s t`: draining `s` comes to look at `t`, after cutting off the frames before it. -/
inductive Visits (s : List β) : List β → Prop
  | start : Visits s s
  | cut {t : List β} {n : Nat} (visits : Visits s t) (whole : P.head t = .frame n) :
      Visits s (t.drop n)

variable {P}

theorem Visits.drain_eq {s t : List β} (visits : P.Visits s t) :
    ∃ front, P.drain s =
        ⟨front ++ (P.drain t).frames, (P.drain t).rest, (P.drain t).stop⟩ ∧
      front.flatten ++ t = s := by
  induction visits with
  | start => exact ⟨[], rfl, rfl⟩
  | @cut t n _ whole ih =>
    obtain ⟨front, same, before⟩ := ih
    refine ⟨front ++ [t.take n], ?_, ?_⟩
    · rw [same, P.drain_frame whole, List.append_assoc, List.singleton_append]
    · rw [List.flatten_append, List.flatten_singleton, List.append_assoc, List.take_append_drop, before]

theorem Visits.append {s t : List β} (visits : P.Visits s t) (u : List β) :
    P.Visits (s ++ u) (t ++ u) := by
  induction visits with
  | start => exact .start
  | @cut t n _ whole ih =>
    have bound := P.frame_bound whole
    have next := ih.cut (P.frame_append u whole)
    rwa [List.drop_append_of_le_length bound.2] at next

theorem Visits.trans {s t u : List β} (first : P.Visits s t) (second : P.Visits t u) :
    P.Visits s u := by
  induction second with
  | start => exact first
  | cut _ whole ih => exact ih.cut whole

variable (P)

theorem visits_rest (s : List β) : P.Visits s (P.drain s).rest := by
  induction s using P.drain_induction with
  | more s verdict =>
    rw [P.drain_more verdict]
    exact .start
  | bad s e verdict =>
    rw [P.drain_bad verdict]
    exact .start
  | frame s n verdict ih =>
    rw [P.drain_frame verdict]
    exact (Visits.start.cut verdict).trans ih

theorem visits_of_mem_frames {s f : List β} (member : f ∈ (P.drain s).frames) :
    ∃ t, P.Visits s t ∧ P.head t = .frame f.length ∧ f = t.take f.length := by
  induction s using P.drain_induction with
  | more s verdict => simp [P.drain_more verdict] at member
  | bad s e verdict => simp [P.drain_bad verdict] at member
  | frame s n verdict ih =>
    rw [P.drain_frame verdict] at member
    rcases List.mem_cons.mp member with rfl | later
    · refine ⟨s, .start, ?_⟩
      rw [List.length_take, Nat.min_eq_left (P.frame_bound verdict).2]
      exact ⟨verdict, rfl⟩
    · obtain ⟨t, visits, whole, same⟩ := ih later
      exact ⟨t, (Visits.start.cut verdict).trans visits, whole, same⟩

theorem head_of_mem_frames {s f : List β} (member : f ∈ (P.drain s).frames) :
    P.head f = .frame f.length := by
  obtain ⟨t, _, whole, same⟩ := P.visits_of_mem_frames member
  have taken := P.frame_take whole
  rw [← same] at taken
  exact taken

/-- Feed chunks one after another, each drained to its end, up to the first broken start. -/
def feedAll (buffer : List β) : List (List β) → Outcome β ε
  | [] => ⟨[], buffer, none⟩
  | chunk :: chunks =>
    let now := P.drain (buffer ++ chunk)
    match now.stop with
    | some _ => now
    | none =>
      let later := feedAll now.rest chunks
      ⟨now.frames ++ later.frames, later.rest, later.stop⟩

/-- Where the stream is cut makes no difference; after a broken start the chunks not yet fed are
all that is missing from the buffer. -/
theorem feedAll_eq (chunks : List (List β)) {buffer : List β} (settled : P.head buffer = .more) :
    ∃ unfed, P.feedAll buffer chunks =
        ⟨(P.drain (buffer ++ chunks.flatten)).frames, (P.feedAll buffer chunks).rest,
          (P.drain (buffer ++ chunks.flatten)).stop⟩ ∧
      (P.feedAll buffer chunks).rest ++ unfed = (P.drain (buffer ++ chunks.flatten)).rest ∧
      ((P.feedAll buffer chunks).stop = none → unfed = []) := by
  induction chunks generalizing buffer with
  | nil => exact ⟨[], by simp [feedAll, P.drain_more settled]⟩
  | cons chunk chunks ih =>
    have cut := P.drain_append (buffer ++ chunk) chunks.flatten
    rw [List.append_assoc] at cut
    rw [List.flatten_cons]
    cases broken : (P.drain (buffer ++ chunk)).stop with
    | some e =>
      have stays : P.feedAll buffer (chunk :: chunks) = P.drain (buffer ++ chunk) := by
        simp [feedAll, broken]
      simp only [broken] at cut
      refine ⟨chunks.flatten, ?_, ?_, ?_⟩
      · rw [stays, cut, ← broken]
      · rw [stays, cut]
      · simp [stays, broken]
    | none =>
      simp only [broken] at cut
      have restSettled : P.head (P.drain (buffer ++ chunk)).rest = .more := by
        rw [P.head_rest, broken]
      obtain ⟨unfed, same, conserved, ended⟩ := ih restSettled
      have goesOn : P.feedAll buffer (chunk :: chunks) =
          ⟨(P.drain (buffer ++ chunk)).frames ++
              (P.feedAll (P.drain (buffer ++ chunk)).rest chunks).frames,
            (P.feedAll (P.drain (buffer ++ chunk)).rest chunks).rest,
            (P.feedAll (P.drain (buffer ++ chunk)).rest chunks).stop⟩ := by
        simp [feedAll, broken]
      refine ⟨unfed, ?_, ?_, ?_⟩
      · rw [goesOn, cut, same]
      · rw [goesOn, cut]
        exact conserved
      · rw [goesOn]
        exact ended

end Protocol

end Framing
