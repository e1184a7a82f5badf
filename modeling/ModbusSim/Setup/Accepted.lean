import ModbusSim.Setup.Steady

/-!
# What validation accepts

A configuration passes its validators exactly when it is well formed, down to the arguments of its
generators: no name that the factory does not know, none missing, and values that it can take. A
refusal raises a `ValueError`, apart from the `OverflowError` of an infinite constant, which stops
the validation (`validate_exact`).
-/

namespace ModbusSim.Setup

open PyStruct PyValue Raise Raise.Report ModbusSim.Frame Store

/-! ### The arguments of a generator -/

/-- A walk's bounds are in order, and its start compares with them as far as it is compared. -/
structure Boundable (start min max : Value) : Prop where
  ordered : max.lt min = .ok false
  compared : start.lt min = .ok true ∨
    start.lt min = .ok false ∧ ∃ above, max.lt start = .ok above

/-- What `random.Random` takes for a seed. -/
def Seed (seed : Value) : Prop :=
  seed = .none ∨ (∃ m, seed.number? = some m) ∨ (∃ s, seed = .str s) ∨ ∃ b, seed = .bytes b

namespace GeneratorSpec

def Names (g : GeneratorSpec) (names : List String) : Prop :=
  ∀ entry ∈ g.args, ∃ name ∈ names, entry.1 = .str name

def Accepted (g : GeneratorSpec) : Prop :=
  match g.fn with
  | "constant" => g.Names ["value"] ∧ ∃ q, g.number? "value" = some (.finite q)
  | "sine" => g.Names ["mean", "amp", "period_s"] ∧ (∃ mean, keyword g.args "mean" = some mean) ∧
      (∃ amp, keyword g.args "amp" = some amp) ∧ ∃ p, g.number? "period_s" = some p ∧ Positive p
  | "random_walk" => g.Names ["start", "step", "min", "max", "seed"] ∧
      (∃ step, keyword g.args "step" = some step) ∧
      (∃ start min max, keyword g.args "start" = some start ∧ keyword g.args "min" = some min ∧
        keyword g.args "max" = some max ∧ Boundable start min max) ∧
      ∀ seed, keyword g.args "seed" = some seed → Seed seed
  | _ => False

end GeneratorSpec

namespace Generator

end Generator

/-! ### What a factory takes -/

theorem names_iff {g : GeneratorSpec} {params : List Param} :
    (∀ entry ∈ g.args, ∃ param ∈ params, entry.1 = .str param.name) ↔
      g.Names (params.map Param.name) := by
  simp only [GeneratorSpec.Names, List.mem_map, exists_exists_and_eq_and]

theorem number?_eq_some {g : GeneratorSpec} {name : String} {m : Number} :
    g.number? name = some m ↔ ∃ value, keyword g.args name = some value ∧ value.number? = some m :=
  Option.bind_eq_some_iff

namespace GeneratorSpec

theorem makeGenerator_unknown {fn : String} (unknown : fn ∉ generatorNames)
    (args : List (Value × Value)) :
    makeGenerator fn args = .error (.valueError ("unknown generator function '" ++ fn ++ "'")) := by
  simp only [generatorNames, List.mem_cons, List.not_mem_nil, or_false, not_or] at unknown
  unfold makeGenerator
  split
  next => exact absurd rfl unknown.1
  next => exact absurd rfl unknown.2.1
  next => exact absurd rfl unknown.2.2
  next => rfl

end GeneratorSpec

/-! ### The checks of a configuration -/

theorem mem_generatorNames_of_made {fn : String} {args : List (Value × Value)} {g : Generator}
    (made : makeGenerator fn args = .ok g) : fn ∈ generatorNames := by
  by_contra unknown
  cases (GeneratorSpec.makeGenerator_unknown unknown args).symm.trans made

theorem GeneratorSpec.validate_iff {g : GeneratorSpec} : g.validate = .ok [] ↔
    (0 ≤ g.addr ∧ g.addr ≤ 0xFFFF) ∧ ∃ made, makeGenerator g.fn g.args = .ok made := by
  refine ⟨validate_eq_ok, ?_⟩
  rintro ⟨bounds, made, making⟩
  have known := mem_generatorNames_of_made making
  refine after_eq_nil.mpr ⟨both_eq_nil.mpr ⟨checkField_eq_nil.mpr bounds,
    failIf_eq_nil.mpr (not_not.mpr known)⟩, caught_eq_nil.mpr ?_⟩
  rw [checkArgs, making]

theorem RegionSpec.validate_iff {spec : RegionSpec} : spec.validate = .ok [] ↔ spec.Valid := by
  refine ⟨validate_eq_ok, fun valid => ?_⟩
  have small := valid.size.2
  refine after_eq_nil.mpr ⟨both_eq_nil.mpr ⟨checkField_eq_nil.mpr valid.size,
    each_eq_nil.mpr fun g member => ?_⟩, caught_eq_nil.mpr (seq_eq_ok.mpr
      ⟨forM_eq_ok.mpr fun init given => ?_, forM_eq_ok.mpr fun g member => ?_⟩)⟩
  · have inside := valid.addresses g member
    exact GeneratorSpec.validate_iff.mpr ⟨⟨inside.1, by omega⟩, valid.made g member⟩
  · have fits := valid.fits init (by simpa using given)
    exact raiseIf_eq_ok.mpr (by omega)
  · have inside := valid.addresses g member
    exact raiseIf_eq_ok.mpr (by omega)

theorem DeviceSpec.validate_iff {spec : DeviceSpec} : spec.validate = .ok [] ↔ spec.Valid := by
  refine ⟨validate_eq_ok, fun valid => ?_⟩
  have regions := fun r => RegionSpec.validate_iff.mpr (valid.regions r)
  refine after_eq_nil.mpr ⟨both_eq_nil.mpr ⟨checkField_eq_nil.mpr valid.unit,
    both_eq_nil.mpr ⟨regions .coils, both_eq_nil.mpr ⟨regions .discreteInputs,
      both_eq_nil.mpr ⟨regions .holdingRegisters, regions .inputRegisters⟩⟩⟩⟩,
    caught_eq_nil.mpr (seq_eq_ok.mpr
      ⟨forM_eq_ok.mpr fun r member => ?_, forM_eq_ok.mpr fun r member => ?_⟩)⟩
  · obtain ⟨none, flags⟩ := valid.bits r member
    refine seq_eq_ok.mpr ⟨raiseIf_eq_ok.mpr (by simp [none]), forM_eq_ok.mpr fun init given =>
      raiseIf_eq_ok.mpr ?_⟩
    rintro ⟨v, slot, other⟩
    exact other (by simpa using flags init (by simpa using given) v slot)
  · refine forM_eq_ok.mpr fun init given => raiseIf_eq_ok.mpr ?_
    rintro ⟨v, slot, outside⟩
    exact outside (valid.words r member init (by simpa using given) v slot)

theorem uniqueUnitIds_iff {seen : List Int} {devices : List DeviceSpec} :
    Config.uniqueUnitIds seen devices = .ok () ↔
      (devices.map DeviceSpec.unitId).Nodup ∧ ∀ device ∈ devices, device.unitId ∉ seen := by
  refine ⟨uniqueUnitIds_eq_ok, ?_⟩
  induction devices generalizing seen with
  | nil => exact fun _ => rfl
  | cons device devices ih =>
    rintro ⟨distinct, fresh⟩
    obtain ⟨first, others⟩ := List.nodup_cons.mp distinct
    rw [Config.uniqueUnitIds, if_neg (fresh device List.mem_cons_self)]
    refine ih ⟨others, fun other member => ?_⟩
    rw [List.mem_cons, not_or]
    refine ⟨fun same => first ?_, fresh other (List.mem_cons_of_mem _ member)⟩
    exact List.mem_map.mpr ⟨other, member, same⟩

theorem Config.validate_iff {config : Config} : config.validate = .ok () ↔ config.Valid := by
  refine ⟨validate_eq_ok, fun valid => failures_eq_nil.mp (after_eq_nil.mpr
    ⟨each_eq_nil.mpr fun spec member => ?_, caught_eq_nil.mpr ?_⟩)⟩
  · exact DeviceSpec.validate_iff.mpr (valid.devices spec member)
  · exact uniqueUnitIds_iff.mpr ⟨valid.unique, fun _ _ => List.not_mem_nil⟩

/-! ### What a refusal raises -/

/-- What `_check_args` catches. -/
def Caught (e : PyError) : Prop := ∃ text, e = .typeError text ∨ e = .valueError text

theorem caught_unsupported : Caught unsupported := ⟨_, .inl rfl⟩

theorem caught_of_lt {x y : Value} {e : PyError} (raised : x.lt y = .error e) : Caught e := by
  rw [Value.lt_eq_error raised]
  exact caught_unsupported

theorem caught_of_bindKeywords {params : List Param} {args : List (Value × Value)} {e : PyError}
    (raised : bindKeywords params args = .error e) : Caught e := by
  rw [bindKeywords_eq_error raised]
  exact caught_unsupported

namespace Generator

theorem makeConstant_eq_error {value : Value} {e : PyError}
    (raised : makeConstant value = .error e) :
    Caught e ∨ e = .overflowError ∧ ∃ negative, value.number? = some (.infinite negative) := by
  rcases bind_eq_error.mp raised with clamping | ⟨_, _, result⟩
  · rcases bind_eq_error.mp clamping with rounding | ⟨ivalue, _, result⟩
    · rw [Value.round] at rounding
      cases number : value.number? with
      | none =>
        rw [number] at rounding
        cases rounding
        exact .inl caught_unsupported
      | some m =>
        rw [number] at rounding
        cases m with
        | finite => cases rounding
        | infinite negative =>
          cases rounding
          exact .inr ⟨rfl, negative, rfl⟩
        | nan =>
          cases rounding
          exact .inl ⟨_, .inr rfl⟩
    · split at result
      · cases result
      · split at result <;> cases result
  · cases result

theorem makeSine_eq_error {mean amp periodS : Value} {e : PyError}
    (raised : makeSine mean amp periodS = .error e) : Caught e := by
  rcases bind_eq_error.mp raised with comparing | ⟨refused, _, result⟩
  · rw [Value.leZero] at comparing
    split at comparing
    · cases comparing
    · cases comparing
      exact caught_unsupported
  · cases refused with
    | true =>
      cases result
      exact ⟨_, .inr rfl⟩
    | false => cases result

theorem bound_eq_error {min max value : Value} {e : PyError}
    (raised : bound min max value = .error e) : Caught e := by
  rcases bind_eq_error.mp raised with comparing | ⟨below, _, result⟩
  · exact caught_of_lt comparing
  · cases below with
    | true => cases result
    | false =>
      rcases bind_eq_error.mp result with comparing | ⟨above, _, result⟩
      · exact caught_of_lt comparing
      · cases above <;> cases result

theorem makeRandomWalk_eq_error {start step min max seed : Value} {e : PyError}
    (raised : makeRandomWalk start step min max seed = .error e) : Caught e := by
  rcases bind_eq_error.mp raised with comparing | ⟨refused, _, result⟩
  · exact caught_of_lt comparing
  · cases refused with
    | true =>
      cases result
      exact ⟨_, .inr rfl⟩
    | false =>
      rcases bind_eq_error.mp result with bounding | ⟨value, _, result⟩
      · exact bound_eq_error bounding
      · rcases bind_eq_error.mp result with seeding | ⟨_, _, result⟩
        · cases seed <;> cases seeding <;> exact caught_unsupported
        · cases result

end Generator

/-- A constant of an infinite value, which nothing else keeps from being made. -/
def GeneratorSpec.Overflows (g : GeneratorSpec) : Prop :=
  (0 ≤ g.addr ∧ g.addr ≤ 0xFFFF) ∧ g.fn = "constant" ∧ g.Names ["value"] ∧
    ∃ negative, g.number? "value" = some (.infinite negative)

/-- What making a generator raises is caught, or it is the `OverflowError` of an infinite
constant. -/
theorem makeGenerator_eq_error {g : GeneratorSpec} {e : PyError}
    (raised : makeGenerator g.fn g.args = .error e) :
    Caught e ∨ e = .overflowError ∧ g.fn = "constant" ∧ g.Names ["value"] ∧
      ∃ negative, g.number? "value" = some (.infinite negative) := by
  unfold makeGenerator at raised
  split at raised
  next same =>
    rcases bind_eq_error.mp raised with binding | ⟨values, bound, result⟩
    · exact .inl (caught_of_bindKeywords binding)
    · split at result
      next value =>
        obtain ⟨known, _ | ⟨given, _⟩⟩ := bindKeywords_iff.mp bound
        rcases Generator.makeConstant_eq_error result with caught | ⟨overflow, infinite⟩
        · exact .inl caught
        · rw [← g.number?_of_required given] at infinite
          exact .inr ⟨overflow, same, names_iff.mp known, infinite⟩
      next =>
        cases result
        exact .inl caught_unsupported
  next =>
    rcases bind_eq_error.mp raised with binding | ⟨values, _, result⟩
    · exact .inl (caught_of_bindKeywords binding)
    · split at result
      · exact .inl (Generator.makeSine_eq_error result)
      · cases result
        exact .inl caught_unsupported
  next =>
    rcases bind_eq_error.mp raised with binding | ⟨values, _, result⟩
    · exact .inl (caught_of_bindKeywords binding)
    · split at result
      · exact .inl (Generator.makeRandomWalk_eq_error result)
      · cases result
        exact .inl caught_unsupported
  next =>
    cases raised
    exact .inl ⟨_, .inr rfl⟩

theorem makeGenerator_overflows {g : GeneratorSpec} (constant : g.fn = "constant")
    (names : g.Names ["value"]) {negative : Bool}
    (infinite : g.number? "value" = some (.infinite negative)) :
    makeGenerator g.fn g.args = .error .overflowError := by
  obtain ⟨value, given, number⟩ := number?_eq_some.mp infinite
  have bound : bindKeywords [⟨"value", none⟩] g.args = .ok [value] :=
    bindKeywords_iff.mpr ⟨names_iff.mpr names, .cons (by rw [given]; rfl) .nil⟩
  have rounding : value.round = .error .overflowError := by
    rw [Value.round, number]
    rfl
  rw [constant, makeGenerator, bound, ok_bind]
  show Generator.makeConstant value = _
  rw [Generator.makeConstant, clampU16, rounding]
  rfl

/-! ### What escapes the validation -/

/-- A validator that raises nothing but a `ValueError`. -/
def ValueErrors (x : Except PyError Unit) : Prop := ∀ e, x = .error e → ∃ text, e = .valueError text

theorem valueErrors_raiseIf {p : Prop} [Decidable p] {text : String} :
    ValueErrors (raiseIf p (.valueError text)) :=
  fun _ raised => ⟨text, (raiseIf_eq_error.mp raised).2.symm⟩

theorem ValueErrors.seq {x y : Except PyError Unit} (first : ValueErrors x)
    (second : ValueErrors y) : ValueErrors (x >>= fun _ => y) :=
  fun e raised => (seq_eq_error raised).elim (first e) (second e)

theorem valueErrors_forM {γ : Type} {f : γ → Except PyError Unit} {items : List γ}
    (all : ∀ item, ValueErrors (f item)) : ValueErrors (items.forM f) := by
  intro e raised
  obtain ⟨item, _, refused⟩ := forM_eq_error raised
  exact all item e refused

theorem ValueErrors.caught {x : Except PyError Unit} (only : ValueErrors x) :
    ¬ Escapes (Setup.caught x) := by
  unfold Setup.caught
  split
  next => exact not_escapes_ok _
  next => exact not_escapes_ok _
  next e other =>
    obtain ⟨text, same⟩ := only e rfl
    exact absurd same (other text)

theorem RegionSpec.checkBounds_valueErrors (spec : RegionSpec) : ValueErrors spec.checkBounds :=
  (valueErrors_forM fun _ => valueErrors_raiseIf).seq
    (valueErrors_forM fun _ => valueErrors_raiseIf)

theorem DeviceSpec.checkRegions_valueErrors (spec : DeviceSpec) : ValueErrors spec.checkRegions :=
  (valueErrors_forM fun _ =>
    valueErrors_raiseIf.seq (valueErrors_forM fun _ => valueErrors_raiseIf)).seq
    (valueErrors_forM fun _ => valueErrors_forM fun _ => valueErrors_raiseIf)

theorem uniqueUnitIds_valueErrors (seen : List Int) (devices : List DeviceSpec) :
    ValueErrors (Config.uniqueUnitIds seen devices) := by
  induction devices generalizing seen with
  | nil =>
    intro e raised
    cases raised
  | cons device devices ih =>
    intro e raised
    rw [Config.uniqueUnitIds] at raised
    split at raised
    · cases raised
      exact ⟨_, rfl⟩
    · exact ih _ e raised

theorem GeneratorSpec.caught_checkArgs {g : GeneratorSpec} {e : PyError} :
    caught g.checkArgs = .error e ↔ makeGenerator g.fn g.args = .error e ∧ ¬ Caught e := by
  rw [checkArgs]
  cases making : makeGenerator g.fn g.args with
  | ok made => simp [caught]
  | error raised =>
    cases raised with
    | typeError text | valueError text =>
      refine iff_of_false (by simp [caught]) ?_
      rintro ⟨same, escapes⟩
      cases same
      exact escapes ⟨text, by simp⟩
    | structError | indexError | overflowError | zeroDivisionError =>
      simp only [caught, Except.error.injEq, iff_self_and]
      rintro rfl ⟨text, same | same⟩ <;> cases same

theorem checkField_safe (lo hi v : Int) : ¬ Escapes (checkField lo hi v) := by
  simp [checkField]

theorem GeneratorSpec.escapes_iff {g : GeneratorSpec} : Escapes g.validate ↔ g.Overflows := by
  have arguments : Escapes (caught g.checkArgs) ↔ g.fn = "constant" ∧ g.Names ["value"] ∧
      ∃ negative, g.number? "value" = some (.infinite negative) := by
    constructor
    · rintro ⟨e, raised⟩
      obtain ⟨making, escapes⟩ := caught_checkArgs.mp raised
      rcases makeGenerator_eq_error making with caught | ⟨_, overflow⟩
      · exact absurd caught escapes
      · exact overflow
    · rintro ⟨constant, names, negative, infinite⟩
      refine ⟨_, caught_checkArgs.mpr ⟨makeGenerator_overflows constant names infinite, ?_⟩⟩
      rintro ⟨text, same | same⟩ <;> cases same
  rw [validate, escapes_after, escapes_both, arguments, both_eq_nil, checkField_eq_nil,
    failIf_eq_nil, Overflows, not_not]
  constructor
  · rintro ((field | name) | ⟨⟨bounds, _⟩, overflow⟩)
    · exact absurd field (checkField_safe _ _ _)
    · exact absurd name not_escapes_failIf
    · exact ⟨bounds, overflow⟩
  · rintro ⟨bounds, constant, overflow⟩
    exact .inr ⟨⟨bounds, by rw [constant]; decide⟩, constant, overflow⟩

theorem RegionSpec.escapes_iff {spec : RegionSpec} :
    Escapes spec.validate ↔ ∃ g ∈ spec.generators, g.Overflows := by
  simp [validate, checkField_safe, spec.checkBounds_valueErrors.caught, GeneratorSpec.escapes_iff]

theorem DeviceSpec.escapes_iff {spec : DeviceSpec} :
    Escapes spec.validate ↔ ∃ r, ∃ g ∈ (spec.region r).generators, g.Overflows := by
  simp only [validate, escapes_after, escapes_both, checkField_safe, RegionSpec.escapes_iff,
    spec.checkRegions_valueErrors.caught, and_false, or_false, false_or]
  constructor
  · rintro (coils | discreteInputs | holdingRegisters | inputRegisters)
    · exact ⟨.coils, coils⟩
    · exact ⟨.discreteInputs, discreteInputs⟩
    · exact ⟨.holdingRegisters, holdingRegisters⟩
    · exact ⟨.inputRegisters, inputRegisters⟩
  · rintro ⟨r, overflow⟩
    cases r with
    | coils => exact .inl overflow
    | discreteInputs => exact .inr (.inl overflow)
    | holdingRegisters => exact .inr (.inr (.inl overflow))
    | inputRegisters => exact .inr (.inr (.inr overflow))

theorem Config.escapes_iff {config : Config} : Escapes config.failures ↔
    ∃ spec ∈ config.devices, ∃ r, ∃ g ∈ (spec.region r).generators, g.Overflows := by
  simp [failures, DeviceSpec.escapes_iff, (uniqueUnitIds_valueErrors _ _).caught]

/-! Nothing but an `OverflowError` escapes. -/

theorem ValueErrors.raises {P : PyError → Prop} {x : Except PyError Unit} (only : ValueErrors x) :
    Raises P (Setup.caught x) :=
  fun e raised => absurd ⟨e, raised⟩ only.caught

theorem checkField_raises {P : PyError → Prop} (lo hi v : Int) : Raises P (checkField lo hi v) :=
  fun e raised => absurd ⟨e, raised⟩ (checkField_safe lo hi v)

theorem GeneratorSpec.validate_raises (g : GeneratorSpec) :
    Raises (· = .overflowError) g.validate := by
  refine ((checkField_raises _ _ _).both (raises_ok _)).after fun e raised => ?_
  obtain ⟨making, escapes⟩ := caught_checkArgs.mp raised
  rcases makeGenerator_eq_error making with caught | ⟨overflow, _⟩
  · exact absurd caught escapes
  · exact overflow

theorem RegionSpec.validate_raises (spec : RegionSpec) :
    Raises (· = .overflowError) spec.validate :=
  ((checkField_raises _ _ _).both (.each fun g _ => g.validate_raises)).after
    spec.checkBounds_valueErrors.raises

theorem DeviceSpec.validate_raises (spec : DeviceSpec) :
    Raises (· = .overflowError) spec.validate :=
  ((checkField_raises _ _ _).both (spec.coils.validate_raises.both
    (spec.discreteInputs.validate_raises.both (spec.holdingRegisters.validate_raises.both
      spec.inputRegisters.validate_raises)))).after spec.checkRegions_valueErrors.raises

end ModbusSim.Setup
