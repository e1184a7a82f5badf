import ModbusSim.Lib.Noninterference
import ModbusSim.Server.Linear

/-!
# Units that are not shared

Jobs on some units see nothing of the jobs on others, frames and updates alike: left alone, they
have the same outputs and the same devices (`history_projected`). So a connection that has its units
for itself is served as if there were no other (`served_alone`).
-/

namespace ModbusSim.Server

open PyStruct ModbusSim.Frame Framing Store Dispatch Setup LockedTasks Noninterference StatefulRun

instance (units : List Int) : DecidablePred (Job.Matches units) := fun job =>
  match job with
  | .frame .. => inferInstanceAs (Decidable True)
  | .update index unitId _ _ => inferInstanceAs (Decidable (units[index]? = some unitId))

def accessMatching (lib : MathLib) (units : List Int) (w : World) (job : Job) :
    Except Exn Bytes × World :=
  if job.Matches units then access lib job w else (.ok [], w)

/-- The devices of some units, and the bindings to them. -/
def viewOf (units mine : List Int) (w : World) :
    (Int → Option Device) × (Nat → Option GeneratorBinding) :=
  (fun u => if u ∈ mine then w.store.get u else none,
    fun i => if ∃ u ∈ mine, units[i]? = some u then w.bindings[i]? else none)

section Views

variable {units mine : List Int} {w w' : World}

theorem viewOf_congr (devices : ∀ u ∈ mine, w.store.get u = w'.store.get u)
    (bindings : ∀ u ∈ mine, ∀ i : Nat, units[i]? = some u → w.bindings[i]? = w'.bindings[i]?) :
    viewOf units mine w = viewOf units mine w' := by
  refine Prod.ext (funext fun u => ?_) (funext fun i => ?_)
  · simp only [viewOf]
    split
    next own => exact devices u own
    next => rfl
  · simp only [viewOf]
    split
    next own =>
      obtain ⟨u, member, here⟩ := own
      exact bindings u member i here
    next => rfl

theorem device_of_viewOf (same : viewOf units mine w = viewOf units mine w') {u : Int}
    (own : u ∈ mine) : w.store.get u = w'.store.get u := by
  have devices := congrFun (congrArg Prod.fst same) u
  simpa only [viewOf, if_pos own] using devices

theorem binding_of_viewOf (same : viewOf units mine w = viewOf units mine w') {u : Int}
    (own : u ∈ mine) {i : Nat} (here : units[i]? = some u) : w.bindings[i]? = w'.bindings[i]? := by
  have bindings := congrFun (congrArg Prod.snd same) i
  simpa only [viewOf, if_pos (⟨u, own, here⟩ : ∃ u ∈ mine, units[i]? = some u)] using bindings

end Views

theorem viewOf_access_hidden (lib : MathLib) {units mine : List Int} {job : Job}
    (fits : job.Matches units) (other : job.unitId ∉ mine) (w : World) :
    viewOf units mine (access lib job w).2 = viewOf units mine w := by
  cases job with
  | frame header adu =>
    simp only [access]
    cases w.store.get header.unitId with
    | none => rfl
    | some device =>
      refine viewOf_congr (fun u own => ?_) fun _ _ _ _ => rfl
      have apart : u ≠ header.unitId := by
        rintro rfl
        exact other own
      simp only [DataStore.get_update, if_neg apart]
  | update index unitId elapsed up =>
    simp only [access]
    cases w.bindings[index]? with
    | none => rfl
    | some b =>
      cases w.store.get unitId with
      | none => rfl
      | some device =>
        refine viewOf_congr (fun u own => ?_) fun u own i here => ?_
        · have apart : u ≠ unitId := by
            rintro rfl
            exact other own
          simp only [DataStore.get_update, if_neg apart]
        · have apart : index ≠ i := by
            rintro rfl
            exact other (Option.some.inj (here.symm.trans fits) ▸ own)
          simp only [List.getElem?_set_ne apart]

theorem viewOf_access_seen (lib : MathLib) {units mine : List Int} {job : Job}
    (fits : job.Matches units) (own : job.unitId ∈ mine) {w w' : World}
    (same : viewOf units mine w = viewOf units mine w') :
    (access lib job w).1 = (access lib job w').1 ∧
      viewOf units mine (access lib job w).2 = viewOf units mine (access lib job w').2 := by
  cases job with
  | frame header adu =>
    have here : w.store.get header.unitId = w'.store.get header.unitId := device_of_viewOf same own
    simp only [access, here]
    cases w'.store.get header.unitId with
    | none => exact ⟨rfl, same⟩
    | some device =>
      refine ⟨rfl, viewOf_congr (fun u own => ?_) fun u own i here => binding_of_viewOf same own here⟩
      simp only [DataStore.get_update, device_of_viewOf same own]
  | update index unitId elapsed up =>
    have here : w.store.get unitId = w'.store.get unitId := device_of_viewOf same own
    have bound : w.bindings[index]? = w'.bindings[index]? := binding_of_viewOf same own fits
    simp only [access, here, bound]
    cases listed : w'.bindings[index]? with
    | none => exact ⟨rfl, same⟩
    | some b =>
      cases w'.store.get unitId with
      | none => exact ⟨rfl, same⟩
      | some device =>
        refine ⟨rfl, viewOf_congr (fun u own => ?_) fun u own i here => ?_⟩
        · simp only [DataStore.get_update, device_of_viewOf same own]
        · have others := binding_of_viewOf same own here
          by_cases slot : index = i
          · subst slot
            have inside : index < w.bindings.length :=
              (List.getElem?_eq_some_iff.mp (bound.trans listed)).1
            have inside' : index < w'.bindings.length := (List.getElem?_eq_some_iff.mp listed).1
            simp only [List.getElem?_set_self inside, List.getElem?_set_self inside']
          · simp only [List.getElem?_set_ne slot]
            exact others

def unitsObserver (lib : MathLib) (units mine : List Int) :
    Observer (accessMatching lib units)
      ((Int → Option Device) × (Nat → Option GeneratorBinding)) where
  view := viewOf units mine
  Sees job := job.unitId ∈ mine
  decSees := inferInstance
  hidden := by
    intro job other w
    unfold accessMatching
    split
    next fits => exact viewOf_access_hidden lib fits other w
    next => rfl
  seen := by
    intro job own w w' same
    unfold accessMatching
    split
    next fits => exact viewOf_access_seen lib fits own same
    next => exact ⟨rfl, same⟩

/-! ### The jobs on some units -/

def entriesOn (mine : List Int) (s : ServerState) : List Completed :=
  s.history.filter fun e => e.job.unitId ∈ mine

theorem observed_eq_filter (lib : MathLib) (units mine : List Int) (entries : List Completed) :
    (unitsObserver lib units mine).observed (entries.map Entry.job) (entries.map Entry.out) =
      (entries.filter fun e => e.job.unitId ∈ mine).map Entry.out := by
  induction entries with
  | nil => rfl
  | cons e entries ih =>
    rw [List.map_cons, List.map_cons, Observer.observed_cons, List.filter_cons, ih]
    by_cases own : e.job.unitId ∈ mine
    · rw [if_pos (show (unitsObserver lib units mine).Sees e.job from own), if_pos (by simpa using own),
        List.map_cons]
    · rw [if_neg (show ¬ (unitsObserver lib units mine).Sees e.job from own),
        if_neg (by simpa using own)]

theorem purge_eq_filter (lib : MathLib) (units mine : List Int) (entries : List Completed) :
    (unitsObserver lib units mine).purge (entries.map Entry.job) =
      (entries.filter fun e => e.job.unitId ∈ mine).map Entry.job := by
  rw [Observer.purge, List.filter_map]
  rfl

/-- What an observer of some units sees of a history, he sees of their jobs alone. -/
theorem run_entriesOn {lib : MathLib} {init : World} {s : ServerState}
    (reaches : Reaches (server lib init) (serving init) s) (mine : List Int) :
    (entriesOn mine s).map Entry.out =
        (run (server lib init).perform init ((entriesOn mine s).map Entry.job)).1 ∧
      viewOf (World.bindingUnits init) mine s.shared = viewOf (World.bindingUnits init) mine
        (run (server lib init).perform init ((entriesOn mine s).map Entry.job)).2 := by
  have agree : ∀ jobs, (∀ job ∈ jobs, job.Matches (World.bindingUnits init)) →
      run (server lib init).perform init jobs =
        run (accessMatching lib (World.bindingUnits init)) init jobs := by
    intro jobs fits
    refine run_congr (fun job member w => ?_) init
    exact (if_pos (fits job member)).symm
  have all := agree _ fun _ member => matches_of_history reaches member
  have own := agree ((entriesOn mine s).map Entry.job) fun job member => by
    obtain ⟨e, listed, same⟩ := List.mem_map.mp member
    exact matches_of_history reaches (List.mem_map.mpr ⟨e, List.mem_of_mem_filter listed, same⟩)
  have purged := (unitsObserver lib (World.bindingUnits init) mine).run_purge
    (s.history.map Entry.job) (s := init) rfl
  rw [← all, reaches.run_history, purge_eq_filter, observed_eq_filter] at purged
  rw [own]
  exact purged

/-- Whatever the interleaving, the jobs on some units, run alone from the start, have the outputs
that they have had, and leave the devices of these units as they are. -/
theorem history_projected {lib : MathLib} {init : World} {s : ServerState}
    (reaches : Reaches (server lib init) (serving init) s) (mine : List Int) :
    (run (server lib init).perform init ((entriesOn mine s).map Entry.job)).1 =
        (entriesOn mine s).map Entry.out ∧
      ∀ u ∈ mine, (run (server lib init).perform init ((entriesOn mine s).map Entry.job)).2.store.get u =
        s.shared.store.get u := by
  obtain ⟨outputs, last⟩ := run_entriesOn reaches mine
  exact ⟨outputs.symm, fun u member => (device_of_viewOf last member).symm⟩

/-- Of four jobs one is on the valve. -/
theorem history_projected_pair : ∃ s : ServerState, s.history = pairHistory ∧
    (run (server sampleLib pairWorld).perform pairWorld
      [.frame ⟨1, 0, 6, 2⟩ valveFrame]).1 = [.ok [3, 2, 0, 40]] ∧
    (run (server sampleLib pairWorld).perform pairWorld
      [.frame ⟨1, 0, 6, 2⟩ valveFrame]).2.store.get 2 = s.shared.store.get 2 := by
  obtain ⟨_, s, reaches, _, _, later, served⟩ := reaches_pair
  obtain ⟨outputs, devices⟩ := history_projected (reaches.trans later) [2]
  have own : entriesOn [2] s =
      [⟨.handler 1, .frame ⟨1, 0, 6, 2⟩ valveFrame, .ok [3, 2, 0, 40]⟩] := by
    rw [entriesOn, served.history]
    rfl
  rw [own] at outputs devices
  exact ⟨s, served.history, outputs, devices 2 List.mem_cons_self⟩

/-! ### A connection with units of its own -/

def repliesTo (jobs : List Job) (outs : List (Except Exn Bytes)) : List Bytes :=
  (List.zipWith Job.reply jobs outs).filterMap id

theorem repliesTo_cons {job : Job} {out : Except Exn Bytes} {reply : Bytes}
    (replies : job.reply out = some reply) (jobs : List Job) (outs : List (Except Exn Bytes)) :
    repliesTo (job :: jobs) (out :: outs) = reply :: repliesTo jobs outs := by
  simp only [repliesTo, List.zipWith_cons_cons, replies, List.filterMap_cons, id]

theorem repliesTo_entries (entries : List Completed) :
    repliesTo (entries.map Entry.job) (entries.map Entry.out) = entries.filterMap Completed.reply := by
  induction entries with
  | nil => rfl
  | cons e entries ih =>
    simp only [repliesTo, List.map_cons, List.zipWith_cons_cons, List.filterMap_cons, id] at ih ⊢
    rw [ih]
    rfl

theorem repliesTo_append {jobs : List Job} {outs : List (Except Exn Bytes)}
    (length : jobs.length = outs.length) (more : List Job) (later : List (Except Exn Bytes)) :
    repliesTo (jobs ++ more) (outs ++ later) = repliesTo jobs outs ++ repliesTo more later := by
  rw [repliesTo, List.zipWith_append length, List.filterMap_append]
  rfl

theorem repliesTo_run {lib : MathLib} {init w : World} {entries : List Completed}
    (outputs : (run (server lib init).perform w (entries.map Entry.job)).1 = entries.map Entry.out)
    (more : List Job) :
    ∃ later, repliesTo (entries.map Entry.job ++ more)
        (run (server lib init).perform w (entries.map Entry.job ++ more)).1 =
      entries.filterMap Completed.reply ++ repliesTo more later := by
  rw [run_append, outputs, repliesTo_append (by rw [List.length_map, List.length_map]),
    repliesTo_entries]
  exact ⟨_, rfl⟩

/-- The replies to the accepted frames, one after another, are what serving the frames writes. -/
theorem answers_of_run (lib : MathLib) (init : World) {frames : List Bytes}
    (whole : ∀ f ∈ frames, verdict f = .frame f.length) {w : World} (sound : Sound w) :
    ∃ last, Answers w.store frames
      (repliesTo ((frames.filter (accepted w.store.units)).map frameJob)
        (run (server lib init).perform w
          ((frames.filter (accepted w.store.units)).map frameJob)).1).flatten last := by
  induction frames generalizing w with
  | nil => exact ⟨w.store, .nil⟩
  | cons f frames ih =>
    have later := fun g member => whole g (List.mem_cons_of_mem f member)
    obtain ⟨header, decoded, _⟩ := verdict_frame_iff.mp (whole f List.mem_cons_self)
    obtain ⟨reply, next, processed, contributes, _⟩ := processFrame_spec sound.devices decoded
    by_cases accepts : Accepted w.store.units header
    · have taking : accepted w.store.units f = true := by
        rw [accepted, headerOf_eq decoded]
        exact decide_eq_true accepts
      obtain ⟨written, stored⟩ := processFrame_accepted lib accepts f
      obtain ⟨last, answers⟩ := ih later (access_sound lib (.frame header f) sound)
      rw [processed] at written stored
      rw [access_units] at answers
      have here : Job.reply (.frame header f) ((server lib init).perform w (.frame header f)).1 =
          some reply := written.symm
      rw [List.filter_cons_of_pos taking, List.map_cons, frameJob, headerOf_eq decoded]
      simp only [run, repliesTo_cons here, List.flatten_cons]
      subst stored
      exact ⟨last, .cons contributes answers⟩
    · have leaving : ¬ accepted w.store.units f = true := by
        rw [accepted, headerOf_eq decoded]
        simpa using accepts
      rw [processFrame_refused accepts] at processed
      cases processed
      obtain ⟨last, answers⟩ := ih later sound
      rw [List.filter_cons_of_neg leaving]
      exact ⟨last, .cons contributes answers⟩

/-- The jobs of a handler, where nobody else has jobs on its units. -/
theorem entriesOn_eq_entriesOf {lib : MathLib} {init : World} {s : ServerState}
    (reaches : Reaches (server lib init) (serving init) s) {n : Nat} {mine : List Int}
    (own : ∀ job ∈ acceptedJobs init.store.units (connection s n).received, job.unitId ∈ mine)
    (others : ∀ m ≠ n, ∀ job ∈ acceptedJobs init.store.units (connection s m).received,
      job.unitId ∉ mine)
    (unbound : ∀ b ∈ init.bindings, b.unitId ∉ mine) :
    entriesOn mine s = s.entriesOf (.handler n) := by
  refine List.filter_congr fun e ran => decide_eq_decide.mpr ?_
  obtain ⟨l, wants⟩ := reaches.wanted ran
  obtain ⟨task, job, out⟩ := e
  cases task with
  | generators =>
    obtain ⟨_, b, up, listed, update⟩ := wants
    have unit : job.unitId = b.unitId := congrArg Job.unitId update
    have foreign := unbound b (List.mem_of_getElem? listed)
    exact iff_of_false (fun same => foreign (unit ▸ same)) Task.noConfusion
  | handler m =>
    have member : (⟨.handler m, job, out⟩ : Completed) ∈ s.entriesOf (.handler m) :=
      List.mem_filter.mpr ⟨ran, decide_eq_true rfl⟩
    have frame := (entries_initial reaches m).subset (List.mem_map_of_mem member)
    by_cases same : m = n
    · subst same
      exact iff_of_true (own _ frame) rfl
    · exact iff_of_false (others m same _ frame) fun other => same (Task.handler.inj other)

/-- A connection that shares its units with nobody, no generator either, is served as if it were
the only one: what it has been written is the beginning of what the server alone writes for its
bytes, in whatever chunks, and all of it once its frames are answered. -/
theorem served_alone {lib : MathLib} {init : World} (sound : Sound init) {s : ServerState}
    (reaches : Reaches (server lib init) (serving init) s) {n : Nat} {mine : List Int}
    (own : ∀ job ∈ acceptedJobs init.store.units (connection s n).received, job.unitId ∈ mine)
    (others : ∀ m ≠ n, ∀ job ∈ acceptedJobs init.store.units (connection s m).received,
      job.unitId ∉ mine)
    (unbound : ∀ b ∈ init.bindings, b.unitId ∉ mine) {chunks : List Bytes}
    (nonempty : ∀ data ∈ chunks, data ≠ [])
    (whole : chunks.flatten = (connection s n).received) :
    (connection s n).written.flatten <+: (handleClient init.store chunks).written ∧
      (Answered init.store.units s n →
        (connection s n).written.flatten = (handleClient init.store chunks).written) := by
  have settled : aduProtocol.head ([] : Bytes) = .more := rfl
  obtain ⟨_, fed, _⟩ := aduProtocol.feedAll_eq chunks settled
  obtain ⟨out, last, answers, served⟩ := serve_spec nonempty [] sound.devices
  rw [fed, List.nil_append, whole] at answers
  obtain ⟨last', alone⟩ := answers_of_run lib init
    (fun f member => aduProtocol.head_of_mem_frames member) sound
  obtain ⟨rfl, _⟩ := answers.unique alone
  have written : (handleClient init.store chunks).written = _ := congrArg Served.written served
  rw [written]
  -- what has run of the handler, run alone, has had the same outputs
  have outputs := (run_entriesOn reaches mine).1.symm
  rw [entriesOn_eq_entriesOf reaches own others unbound] at outputs
  refine ⟨?_, fun answered => ?_⟩
  · have kept := reaches_kept reaches n
    have first : (run (server lib init).perform init
        ((s.finished (.handler n)).map Entry.job)).1 = (s.finished (.handler n)).map Entry.out := by
      have entries := reaches.tracked.entries (.handler n)
      have taken := run_take (server lib init).perform init
        ((s.entriesOf (.handler n)).map Entry.job) (s.finished (.handler n)).length
      rw [outputs, ← List.map_take, ← List.map_take, entries, List.take_left] at taken
      exact taken
    obtain ⟨later, replies⟩ :=
      repliesTo_run first (acceptedJobs init.store.units (connection s n).buffer)
    rw [← kept.jobs] at replies
    rw [← acceptedJobs, replies, kept.written, List.flatten_append]
    exact List.prefix_append ..
  · obtain ⟨later, replies⟩ := repliesTo_run outputs []
    rw [List.append_nil, answered.jobs] at replies
    have none : repliesTo [] later = [] := rfl
    have all : (connection s n).written =
        (s.entriesOf (.handler n)).filterMap Completed.reply := by
      have filtered := congrArg (List.filterMap id) answered.written
      simpa [List.filterMap_map, Function.comp_def] using filtered
    rw [← acceptedJobs, replies, none, List.append_nil, all]

theorem acceptedJobs_pump :
    acceptedJobs pairWorld.store.units (writeFrame ++ readFrame) =
      [.frame ⟨1, 0, 6, 1⟩ writeFrame, .frame ⟨2, 0, 6, 1⟩ readFrame] := by
  have first : aduProtocol.head (writeFrame ++ readFrame) = .frame 12 := rfl
  have second : aduProtocol.head readFrame = .frame 12 := rfl
  have rest : (writeFrame ++ readFrame).drop 12 = readFrame := rfl
  rw [acceptedJobs, aduProtocol.drain_frame first, rest, aduProtocol.drain_frame second,
    aduProtocol.drain_more rfl]
  rfl

theorem acceptedJobs_valve : acceptedJobs pairWorld.store.units valveFrame =
    [.frame ⟨1, 0, 6, 2⟩ valveFrame] := by
  have start : aduProtocol.head valveFrame = .frame 12 := rfl
  rw [acceptedJobs, aduProtocol.drain_frame start, aduProtocol.drain_more rfl]
  rfl

/-- The client of the valve, beside one of the pump and a tick, and as if alone. -/
theorem served_alone_pair : ∃ s : ServerState, s.history = pairHistory ∧
    (connection s 1).written = [valveReply] ∧
    (handleClient pairWorld.store [valveFrame.take 5, valveFrame.drop 5]).written = valveReply := by
  obtain ⟨_, s, reaches, _, _, later, served⟩ := reaches_pair
  have mine := served.received 1
  have own : ∀ job ∈ acceptedJobs pairWorld.store.units (connection s 1).received,
      job.unitId ∈ [2] := by
    rw [mine, pairStream, acceptedJobs_valve]
    decide
  have others : ∀ m ≠ 1, ∀ job ∈ acceptedJobs pairWorld.store.units (connection s m).received,
      job.unitId ∉ [2] := by
    intro m other
    rw [served.received]
    rcases m with _ | _ | m
    · rw [pairStream, acceptedJobs_pump]
      decide
    · exact absurd rfl other
    · have none : pairStream (m + 2) = [] := rfl
      rw [none, acceptedJobs, aduProtocol.drain_more rfl]
      intro job member
      cases member
  have unbound : ∀ b ∈ pairWorld.bindings, b.unitId ∉ [2] := by
    intro b member
    obtain rfl := List.mem_singleton.mp member
    decide
  have whole : [valveFrame.take 5, valveFrame.drop 5].flatten = (connection s 1).received := by
    rw [mine]
    rfl
  have answered : Answered pairWorld.store.units s 1 := by
    refine ⟨?_, ?_⟩
    · rw [mine, pairStream, acceptedJobs_valve, State.entriesOf, served.history]
      rfl
    · rw [served.second, State.entriesOf, served.history]
      rfl
  have alone := (served_alone pairWorld_sound (reaches.trans later) own others unbound (by decide)
    whole).2 answered
  rw [served.second] at alone
  exact ⟨s, served.history, served.second, alone.symm⟩

end ModbusSim.Server
