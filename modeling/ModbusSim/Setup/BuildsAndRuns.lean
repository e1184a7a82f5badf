import ModbusSim.Setup.Steady

/-!
# Building and running

A configuration builds and runs up to a time if the store can be built, and after any events every
binding can be updated at any time up to it. If a validated configuration does, its generators are
steady; and if they are roomy too, it does (`buildsAndRuns_iff`). Validation does not see to it
(`nullMean_escapes`).
-/

namespace ModbusSim.Setup

open PyStruct PyValue ModbusSim.Frame Store Dispatch StatefulRun

def World.Updatable (lib : MathLib) (T : ℚ) (w : World) : Prop :=
  ∀ b ∈ w.bindings, ∃ device, w.store.get b.unitId = some device ∧
    ∀ elapsed, 0 ≤ elapsed → elapsed ≤ T → ∀ up,
      ∃ value, (b.update lib device elapsed up).1 = .ok value

/-- The store can be built, and after any events its bindings can be updated. -/
def BuildsAndRuns (lib : MathLib) (T : ℚ) (config : Config) : Prop :=
  ∀ draws, ∃ store bindings, buildDatastore lib draws config = .ok (store, bindings) ∧
    ∀ events outcomes w, run (World.handle lib) ⟨store, bindings⟩ events = (outcomes, w) →
      w.Updatable lib T

def Config.Generators (config : Config) (P : GeneratorSpec → Prop) : Prop :=
  ∀ spec ∈ config.devices, ∀ r, ∀ g ∈ (spec.region r).generators, P g

theorem mem_placed_iff {config : Config} (valid : config.Valid) {P : GeneratorSpec → Prop} :
    (∀ p ∈ config.placed, P p.generator) ↔ config.Generators P := by
  constructor
  · intro all spec member r g listed
    have register : r ∈ Device.registerRegions := by
      by_contra bit
      have none : (spec.region r).generators = [] := by
        apply ((valid.devices spec member).bits r _).1
        cases r <;> first | decide | exact absurd (by decide) bit
      rw [none] at listed
      cases listed
    have placed : (⟨spec, r, g⟩ : Placed) ∈ config.placed :=
      List.mem_flatMap.mpr ⟨spec, member, List.mem_flatMap.mpr ⟨r, register,
        List.mem_map_of_mem listed⟩⟩
    exact all _ placed
  · intro all p placed
    obtain ⟨spec, member, placed⟩ := List.mem_flatMap.mp placed
    obtain ⟨r, _, placed⟩ := List.mem_flatMap.mp placed
    obtain ⟨g, listed, rfl⟩ := List.mem_map.mp placed
    exact all spec member r g listed

theorem generator_update (lib : MathLib) (b : GeneratorBinding) (device : Device) (elapsed : ℚ)
    (up : Bool) :
    (b.update lib device elapsed up).2.2.generator = (b.generator.sample lib elapsed up).2 := by
  rw [GeneratorBinding.update]
  cases b.generator.sample lib elapsed up with
  | mk sampled generator => cases sampled <;> rfl

theorem sample_of_update {lib : MathLib} {b : GeneratorBinding} {device : Device} {elapsed : ℚ}
    {up : Bool} {value : Int} (updated : (b.update lib device elapsed up).1 = .ok value) :
    ∃ n, (b.generator.sample lib elapsed up).1 = .ok n := by
  rw [GeneratorBinding.update] at updated
  cases sample : b.generator.sample lib elapsed up with
  | mk sampled generator =>
    cases sampled with
    | error e =>
      rw [sample] at updated
      cases updated
    | ok n => exact ⟨n, rfl⟩

section Steady

variable {sin : ℚ → ℚ} {config : Config} {T : ℚ}

theorem steady_of_binds (sine : ∀ x, |sin x| ≤ 1) {draws : Nat → Bool} {p : Placed × Nat}
    {b : GeneratorBinding}
    (binds : Binds (.double sin) draws p b) (steady : p.1.generator.Steady T)
    (roomy : p.1.generator.Roomy) : b.generator.Steady T := by
  obtain ⟨value, first⟩ := binds.started
  obtain ⟨generator, made, sampled⟩ := first_eq_ok first
  have after := ((GeneratorSpec.steady_made made steady roomy).sample sine 0 (draws p.2)).2
  rwa [sampled] at after

theorem starts_of_steady (sine : ∀ x, |sin x| ≤ 1) {p : Placed × Nat} {generator : Generator}
    (future : 0 ≤ T)
    (made : makeGenerator p.1.generator.fn p.1.generator.args = .ok generator)
    (steady : p.1.generator.Steady T) (roomy : p.1.generator.Roomy) (draws : Nat → Bool) :
    Starts (.double sin) draws p := by
  have samples := (GeneratorSpec.steady_made made steady roomy).sample sine 0 (draws p.2)
  obtain ⟨n, sampled⟩ := samples.1 le_rfl future
  refine ⟨(n, (generator.sample (.double sin) 0 (draws p.2)).2), ?_⟩
  rw [GeneratorSpec.first, made, Raise.ok_bind, sampled, Raise.ok_bind, Raise.pure_eq]

theorem handle_steady (sine : ∀ x, |sin x| ≤ 1) {w : World}
    (steady : ∀ b ∈ w.bindings, b.generator.Steady T)
    (event : Event) : ∀ b ∈ (w.handle (.double sin) event).2.bindings, b.generator.Steady T := by
  cases event with
  | pdu unitId request =>
    rw [World.handle]
    split <;> exact steady
  | update index elapsed up =>
    rw [World.handle]
    split
    · exact steady
    next b listed =>
      split
      · exact steady
      next device found =>
        intro c member
        rcases List.mem_or_eq_of_mem_set member with before | rfl
        · exact steady c before
        · rw [generator_update]
          exact ((steady b (List.mem_of_getElem? listed)).sample sine elapsed up).2

structure World.KeptSteady (config : Config) (places : List Place) (T : ℚ) (w : World) : Prop where
  kept : w.Kept config places
  steady : ∀ b ∈ w.bindings, b.generator.Steady T

theorem World.KeptSteady.handle (sine : ∀ x, |sin x| ≤ 1) {places : List Place} {w : World}
    (holds : w.KeptSteady config places T) (event : Event) :
    (w.handle (.double sin) event).2.KeptSteady config places T :=
  ⟨(records_handle _ config _ w event holds.kept trivial).1, handle_steady sine holds.steady event⟩

theorem keptSteady_built (sine : ∀ x, |sin x| ≤ 1) (valid : config.validate = .ok ())
    {draws : Nat → Bool} {store : DataStore} {bindings : List GeneratorBinding}
    (built : buildDatastore (.double sin) draws config = .ok (store, bindings))
    (steady : config.Generators (GeneratorSpec.Steady T))
    (roomy : config.Generators GeneratorSpec.Roomy) :
    World.KeptSteady config (bindings.map placeOf) T ⟨store, bindings⟩ := by
  have checked := Config.validate_eq_ok valid
  refine ⟨⟨buildDatastore_realizes valid built, rfl⟩, fun b member => ?_⟩
  obtain ⟨binds, _⟩ := buildDatastore_binds checked built
  obtain ⟨p, listed, bind⟩ := (exists_of_binds binds).2 b member
  have placed := List.fst_mem_of_mem_zipIdx listed
  exact steady_of_binds sine bind ((mem_placed_iff checked).mpr steady _ placed)
    ((mem_placed_iff checked).mpr roomy _ placed)

theorem updatable_of_steady (sine : ∀ x, |sin x| ≤ 1) {places : List Place} {w : World}
    (holds : w.KeptSteady config places T) : w.Updatable (.double sin) T := by
  intro b member
  obtain ⟨spec, _, bound, device, found, realizes⟩ := holds.kept.realizes.bound member
  refine ⟨device, found, fun elapsed begun before up => ?_⟩
  obtain ⟨value, sampled⟩ := ((holds.steady b member).sample sine elapsed up).1 begun before
  exact ⟨value, by rw [(update_spec _ bound realizes elapsed up).1, sampled]; rfl⟩

/-- A configuration that builds and runs has steady generators. -/
theorem steady_of_runs (valid : config.Valid) (future : 0 ≤ T)
    (runs : BuildsAndRuns (.double sin) T config) :
    config.Generators (GeneratorSpec.Steady T) := by
  rw [← mem_placed_iff valid]
  intro p member
  obtain ⟨i, here⟩ := List.mem_iff_getElem?.mp member
  have listed : (p, i) ∈ config.placed.zipIdx := List.mk_mem_zipIdx_iff_getElem?.mpr here
  have starts : ∀ up, ∃ n next, p.generator.first (.double sin) up = .ok (n, next) ∧
      ∃ m, (next.sample (.double sin) T up).1 = .ok m := by
    intro up
    obtain ⟨store, bindings, built, later⟩ := runs fun _ => up
    obtain ⟨binds, _⟩ := buildDatastore_binds valid built
    obtain ⟨b, bound, bind⟩ := (exists_of_binds binds).1 _ listed
    obtain ⟨value, first⟩ := bind.started
    obtain ⟨device, _, updates⟩ := later [] [] _ rfl b bound
    obtain ⟨n, updated⟩ := updates T future le_rfl up
    exact ⟨value, b.generator, first, sample_of_update updated⟩
  exact GeneratorSpec.steady_of_first starts

/-- One with steady and roomy generators builds and runs. -/
theorem runs_of_steady (sine : ∀ x, |sin x| ≤ 1) (valid : config.validate = .ok ())
    (future : 0 ≤ T)
    (steady : config.Generators (GeneratorSpec.Steady T))
    (roomy : config.Generators GeneratorSpec.Roomy) : BuildsAndRuns (.double sin) T config := by
  have checked := Config.validate_eq_ok valid
  have made : config.Generators fun g => ∃ generator, makeGenerator g.fn g.args = .ok generator :=
    fun spec member r => ((checked.devices spec member).regions r).made
  rw [← mem_placed_iff checked] at made
  intro draws
  have starts : ∀ p ∈ config.placed.zipIdx, Starts (.double sin) draws p := by
    intro p member
    have placed := List.fst_mem_of_mem_zipIdx member
    obtain ⟨generator, make⟩ := made p.1 placed
    exact starts_of_steady sine future make ((mem_placed_iff checked).mpr steady _ placed)
      ((mem_placed_iff checked).mpr roomy _ placed) draws
  obtain ⟨store, bindings, built⟩ := buildDatastore_returns checked starts
  refine ⟨store, bindings, built, fun events outcomes w ran => ?_⟩
  have keeps : ∀ (w : World) event, w.KeptSteady config (bindings.map placeOf) T →
      (w.handle (.double sin) event).2.KeptSteady config (bindings.map placeOf) T :=
    fun w event holds => holds.handle sine event
  have after := run_keeps keeps events (keptSteady_built sine valid built steady roomy)
  rw [ran] at after
  exact updatable_of_steady sine after

end Steady

/-- A validated configuration that builds and runs up to a time has steady generators; and if they
are roomy too, it does. At every time that a float can tell, it does so only without a sine. -/
theorem buildsAndRuns_iff {config : Config} (valid : config.validate = .ok ()) {sin : ℚ → ℚ}
    (sine : ∀ x, |sin x| ≤ 1) :
    (∀ T, 0 ≤ T → BuildsAndRuns (.double sin) T config →
        config.Generators (GeneratorSpec.Steady T)) ∧
      (config.Generators GeneratorSpec.Roomy → ∀ T, 0 ≤ T →
        (BuildsAndRuns (.double sin) T config ↔ config.Generators (GeneratorSpec.Steady T))) ∧
      (config.Generators GeneratorSpec.Roomy →
        (BuildsAndRuns (.double sin) binary64.largest config ↔
          config.Generators fun g => g.fn ≠ "sine" ∧ g.Steady 0)) := by
  have iff : config.Generators GeneratorSpec.Roomy → ∀ T, 0 ≤ T →
      (BuildsAndRuns (.double sin) T config ↔ config.Generators (GeneratorSpec.Steady T)) :=
    fun roomy T future => ⟨steady_of_runs (Config.validate_eq_ok valid) future,
      fun steady => runs_of_steady sine valid future steady roomy⟩
  refine ⟨fun T future => steady_of_runs (Config.validate_eq_ok valid) future, iff,
    fun roomy => ?_⟩
  rw [iff roomy _ binary64.largest_pos.le]
  simp only [Config.Generators, GeneratorSpec.steady_largest_iff]

/-! ### A plant that runs, and one that cannot be built -/

def plantSine : GeneratorSpec :=
  ⟨0, "sine", [(.str "mean", .int 250), (.str "amp", .int 30), (.str "period_s", .int 60)]⟩

def plantWalk : GeneratorSpec :=
  ⟨1, "random_walk", [(.str "start", .int 100), (.str "step", .int 5), (.str "min", .int 0),
    (.str "max", .int 200)]⟩

def plantConstant : GeneratorSpec := ⟨0, "constant", [(.str "value", .int 300)]⟩

def plantConfig : Config :=
  ⟨[⟨1, "pump", .empty, .empty, ⟨2, none, [plantSine, plantWalk]⟩, .empty⟩,
    ⟨2, "meter", .empty, .empty, .empty, ⟨1, none, [plantConstant]⟩⟩]⟩

theorem plantConfig_valid : plantConfig.validate = .ok () := by decide +kernel

theorem plant_generators {P : GeneratorSpec → Prop} (sine : P plantSine) (walk : P plantWalk)
    (constant : P plantConstant) : plantConfig.Generators P := by
  rw [← mem_placed_iff (Config.validate_eq_ok plantConfig_valid)]
  intro p member
  rcases List.mem_cons.mp member with rfl | member
  · exact sine
  rcases List.mem_cons.mp member with rfl | member
  · exact walk
  obtain rfl := List.mem_singleton.mp member
  exact constant

theorem inRange_year : InRange 31536000 (.finite 60) := by
  have most : 2 * mathPi * 31536000 ≤ ((2 ^ 28 : Int) : ℚ) * 2 ^ (0 : Int) := by norm_num [mathPi]
  have rounded := binary64.nearest_mono most
  rw [binary64.nearest_intCast_mul (by decide) (by decide)] at rounded
  constructor
  · exact binary64_lt_overflow (most.trans (by norm_num))
  · calc binary64.nearest (2 * mathPi * 31536000) ≤ 2 ^ 53 := rounded.trans (by norm_num)
      _ ≤ 2 ^ 53 * 60 := by norm_num
      _ < binary64.overflow * 60 :=
        mul_lt_mul_of_pos_right (binary64_lt_overflow le_rfl) (by norm_num)

theorem plantWalk_steady (T : ℚ) : plantWalk.Steady T ∧ plantWalk.Roomy := by
  apply GeneratorSpec.steady_of_ints rfl 100 5 0 200 <;>
    simp [keyword, plantWalk, Value.beq]

/-- The plant builds and runs for a year. -/
theorem plantConfig_runs : BuildsAndRuns sampleLib 31536000 plantConfig := by
  have float : ∀ n : Int, |n| < 2 ^ 53 → FloatOf (.int n) n := fun n => floatOf_int
  have mean : keyword plantSine.args "mean" = some (.int 250) := by
    simp [keyword, plantSine, Value.beq]
  have amp : keyword plantSine.args "amp" = some (.int 30) := by
    simp [keyword, plantSine, Value.beq]
  have period : keyword plantSine.args "period_s" = some (.int 60) := by
    simp [keyword, plantSine, Value.beq]
  have roomy : plantConfig.Generators GeneratorSpec.Roomy := by
    refine plant_generators ?_ (plantWalk_steady 0).2 trivial
    exact ⟨_, _, _, _, mean, amp, float 250 (by decide), float 30 (by decide),
      binary64_lt_overflow (by norm_num)⟩
  have steady : plantConfig.Generators (GeneratorSpec.Steady 31536000) := by
    refine plant_generators ?_ (plantWalk_steady _).1 trivial
    exact ⟨⟨_, GeneratorSpec.float?_of_int mean (by decide)⟩,
      ⟨_, GeneratorSpec.float?_of_int amp (by decide)⟩,
      _, GeneratorSpec.float?_of_int period (by decide), inRange_year⟩
  exact ((buildsAndRuns_iff plantConfig_valid sampleLib_sine).2.1 roomy _ (by norm_num)).mpr steady

def nullSine : GeneratorSpec :=
  ⟨0, "sine", [(.str "mean", .none), (.str "amp", .int 10), (.str "period_s", .int 60)]⟩

def nullPump : DeviceSpec := ⟨1, "pump", .empty, .empty, ⟨1, none, [nullSine]⟩, .empty⟩

def nullMean : Config := ⟨[nullPump]⟩

theorem nullMean_valid : nullMean.validate = .ok () := by decide +kernel

/-- The sine is made, and its first sample raises a `TypeError`. -/
theorem nullSine_first (sin : ℚ → ℚ) (flat : sin 0 = 0) (up : Bool) :
    nullSine.first (.double sin) up = .error unsupported := by
  have made : makeGenerator nullSine.fn nullSine.args = .ok (.sine .none (.int 10) (.int 60)) := by
    with_unfolding_all rfl
  have zero : binary64.round 0 = .finite 0 := by simpa using binary64_intCast (n := 0) (by decide)
  have divided : (Value.int 60).divInto binary64.round (.finite 0) = .ok (.finite 0) := by
    rw [Value.divInto, (floatOf_int (n := 60) (by decide)).1]
    simp [Number.div, zero]
  have scaled : (Value.int 10).mulFloat binary64.round (.finite 0) = .ok (.finite 0) := by
    rw [Value.mulFloat, (floatOf_int (n := 10) (by decide)).1]
    simp [Number.mul, zero]
  have called : (MathLib.double sin).sine (.finite 0) = .ok (.finite 0) := by
    rw [MathLib.sine]
    simp [MathLib.double, flat]
  have arithmetic : (MathLib.double sin).rounded = binary64.round := rfl
  have added : Value.none.add binary64.round (.float (.finite 0)) = .error unsupported := rfl
  simp only [GeneratorSpec.first, made, Generator.sample, arithmetic, turns_double, mul_zero, zero,
    divided, called, scaled, added, Raise.ok_bind, Raise.error_bind]

/-- Validation accepts it, and building the store raises a `TypeError`. -/
theorem nullMean_escapes : nullMean.validate = .ok () ∧
    buildDatastore sampleLib (fun _ => true) nullMean = .error (.py (.typeError "")) ∧
    ¬ BuildsAndRuns sampleLib binary64.largest nullMean := by
  have raised : buildDatastore sampleLib (fun _ => true) nullMean =
      .error (.py (.typeError "")) := by
    have valid := (Config.validate_eq_ok nullMean_valid).devices nullPump List.mem_cons_self
    have first : nullSine.first sampleLib true = .error unsupported :=
      nullSine_first (fun _ => 0) rfl true
    have bound : bindGenerators sampleLib (fun _ => true) .holdingRegisters
        (nullPump.region .holdingRegisters).generators nullPump.fresh [] =
        .error (.py (.typeError "")) := by
      refine (bindGenerators_cons (by decide) (by decide) (fresh_realizes valid) _).trans ?_
      rw [first]
      rfl
    have devices : buildDevices sampleLib (fun _ => true) nullMean.devices [] [] =
        .error (.py (.typeError "")) := by
      rw [nullMean, buildDevices, buildDevice_eq valid, bound]
      rfl
    rw [buildDatastore, devices]
    rfl
  refine ⟨nullMean_valid, raised, fun runs => ?_⟩
  obtain ⟨store, bindings, built, _⟩ := runs fun _ => true
  rw [raised] at built
  cases built

end ModbusSim.Setup
