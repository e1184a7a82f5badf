import ModbusSim.Lib.Number
import ModbusSim.Lib.Raise
import ModbusSim.Lib.Struct

/-!
# Values of a configuration file

The values that a YAML mapping can hold, with the operators of the language on them. Numbers compare
exactly, whatever their types; integers add exactly, and any other arithmetic is of floats, to which
an integer is converted first. Strings, byte strings, lists and tuples compare and concatenate with
their like, dates and sets compare with theirs, and anything else raises a `TypeError`.
-/

namespace PyValue

open PyStruct

/-- `int(round(x))` -/
def Number.round : Number → Except PyError Int
  | .finite q => .ok (roundHalfEven q)
  | .infinite _ => .error .overflowError
  | .nan => .error (.valueError "cannot convert float NaN to integer")

/-- A time with a zone is its instant in UTC, one without is the time itself. -/
inductive Value where
  | none
  | bool (b : Bool)
  | int (n : Int)
  | float (x : Number)
  | str (s : String)
  | bytes (b : Bytes)
  | date (day : Int)
  | datetime (aware : Bool) (instant : Int)
  | list (items : List Value)
  | tuple (items : List Value)
  | set (items : List Value)
  | dict (entries : List (Value × Value))

/-- A `TypeError` of the interpreter; its text is not modelled. -/
def unsupported : PyError := .typeError ""

def Value.number? : Value → Option Number
  | .bool b => some (.finite (if b then 1 else 0))
  | .int n => some (.finite n)
  | .float x => some x
  | _ => Option.none

mutual

/-- `x == y` -/
def Value.beq : Value → Value → Bool
  | .none, .none => true
  | .str s, .str t => s == t
  | .bytes b, .bytes c => b == c
  | .date d, .date e => d == e
  | .datetime a t, .datetime b u => a == b && t == u
  | .list xs, .list ys | .tuple xs, .tuple ys => beqItems xs ys
  | .set xs, .set ys => xs.length == ys.length && subset xs ys
  | .dict xs, .dict ys => xs.length == ys.length && beqEntries xs ys
  | x, y =>
    match x.number?, y.number? with
    | some m, some n => m.beq n
    | _, _ => false

def beqItems : List Value → List Value → Bool
  | [], [] => true
  | x :: xs, y :: ys => x.beq y && beqItems xs ys
  | _, _ => false

def subset : List Value → List Value → Bool
  | [], _ => true
  | x :: xs, ys => ys.any (fun y => x.beq y) && subset xs ys

def beqEntries : List (Value × Value) → List (Value × Value) → Bool
  | [], _ => true
  | (k, v) :: xs, ys => ys.any (fun entry => k.beq entry.1 && v.beq entry.2) && beqEntries xs ys

end

mutual

/-- `x < y`; of sets it is proper inclusion. -/
def Value.lt : Value → Value → Except PyError Bool
  | .str s, .str t => .ok (s < t)
  | .bytes b, .bytes c => .ok (b < c)
  | .date d, .date e => .ok (d < e)
  | .datetime a t, .datetime b u => if a = b then .ok (t < u) else .error unsupported
  | .list xs, .list ys | .tuple xs, .tuple ys => ltItems xs ys
  | .set xs, .set ys => .ok (xs.length < ys.length && subset xs ys)
  | x, y =>
    match x.number?, y.number? with
    | some m, some n => .ok (m.lt n)
    | _, _ => .error unsupported

/-- Lists compare at the first place where they differ. -/
def ltItems : List Value → List Value → Except PyError Bool
  | _, [] => .ok false
  | [], _ :: _ => .ok true
  | x :: xs, y :: ys => if x.beq y then ltItems xs ys else x.lt y

end

namespace Value

/-- `x <= 0` -/
def leZero (x : Value) : Except PyError Bool :=
  match x.number? with
  | some m => .ok (m.lt (.finite 0) || m.beq (.finite 0))
  | Option.none => .error unsupported

/-- `-x` -/
def neg : Value → Except PyError Value
  | .int n => .ok (.int (-n))
  | .bool b => .ok (.int (if b then -1 else 0))
  | .float x => .ok (.float x.neg)
  | _ => .error unsupported

def int? : Value → Option Int
  | .bool b => some (if b then 1 else 0)
  | .int n => some n
  | _ => Option.none

section Arithmetic

variable (fl : ℚ → Number)

/-- `float(x)` of a number -/
def toFloat : Value → Except PyError Number
  | .float x => .ok x
  | x =>
    match x.int? with
    | some n =>
      match fl n with
      | .finite q => .ok (.finite q)
      | _ => .error .overflowError
    | Option.none => .error unsupported

/-- `x + y` -/
def add : Value → Value → Except PyError Value
  | .str s, .str t => .ok (.str (s ++ t))
  | .bytes b, .bytes c => .ok (.bytes (b ++ c))
  | .list xs, .list ys => .ok (.list (xs ++ ys))
  | .tuple xs, .tuple ys => .ok (.tuple (xs ++ ys))
  | x, y =>
    match x.int?, y.int? with
    | some m, some n => .ok (.int (m + n))
    | _, _ =>
      match x.number?, y.number? with
      | some _, some _ => do
        let p ← x.toFloat fl
        let q ← y.toFloat fl
        return .float (p.add fl q)
      | _, _ => .error unsupported

/-- `x * y`, for a float `y` -/
def mulFloat (x : Value) (y : Number) : Except PyError Number := do
  return (← x.toFloat fl).mul fl y

/-- `y / x`, for a float `y` -/
def divInto (y : Number) (x : Value) : Except PyError Number := do
  let d ← x.toFloat fl
  if d = .finite 0 then throw .zeroDivisionError
  return y.div fl d

end Arithmetic

/-- `int(round(x))` -/
def round (x : Value) : Except PyError Int :=
  match x.number? with
  | some m => m.round
  | Option.none => .error unsupported

/-! ### Numbers among values

What compares or adds with a number is one, and the result is of the numbers. -/

theorem number_of_int {x : Value} {n : Int} (int : x.int? = some n) :
    x.number? = some (.finite n) := by
  cases x with
  | bool b => cases b <;> cases int <;> simp [number?]
  | int => cases int; rfl
  | _ => cases int

theorem lt_of_left {x : Value} {m : Number} (left : x.number? = some m) (y : Value) :
    x.lt y = match y.number? with
      | some n => .ok (m.lt n)
      | Option.none => .error unsupported := by
  cases x <;> cases left <;> cases y <;> rfl

theorem lt_of_right {y : Value} {n : Number} (right : y.number? = some n) (x : Value) :
    x.lt y = match x.number? with
      | some m => .ok (m.lt n)
      | Option.none => .error unsupported := by
  cases y <;> cases right <;> cases x <;> rfl

theorem lt_of_number {x y : Value} {m n : Number} (left : x.number? = some m)
    (right : y.number? = some n) : x.lt y = .ok (m.lt n) := by
  rw [lt_of_left left, right]

theorem number_of_lt {x y : Value} {b : Bool} (compared : x.lt y = .ok b) :
    (∃ m, x.number? = some m) ↔ ∃ n, y.number? = some n := by
  constructor
  · rintro ⟨m, left⟩
    rw [lt_of_left left] at compared
    cases right : y.number? with
    | none =>
      rw [right] at compared
      cases compared
    | some n => exact ⟨n, rfl⟩
  · rintro ⟨n, right⟩
    rw [lt_of_right right] at compared
    cases left : x.number? with
    | none =>
      rw [left] at compared
      cases compared
    | some m => exact ⟨m, rfl⟩

theorem neg_of_number {x : Value} {m : Number} (number : x.number? = some m) :
    ∃ z, x.neg = .ok z ∧ z.number? = some m.neg := by
  cases x with
  | bool b => cases number; cases b <;> simp [neg, number?, Number.neg]
  | int n => cases number; simp [neg, number?, Number.neg]
  | float v => cases number; simp [neg, number?]
  | _ => cases number

theorem number_of_neg {x z : Value} (negated : x.neg = .ok z) : ∃ m, x.number? = some m := by
  cases x <;> first | exact ⟨_, rfl⟩ | cases negated

theorem int_of_neg {x z : Value} {n : Int} (int : x.int? = some n) (negated : x.neg = .ok z) :
    z.int? = some (-n) := by
  cases x with
  | bool b => cases b <;> cases int <;> cases negated <;> rfl
  | int n => cases int; cases negated; rfl
  | _ => cases int

theorem round_of_number {x : Value} {q : ℚ} (number : x.number? = some (.finite q)) :
    x.round = .ok (roundHalfEven q) := by
  rw [round, number]
  rfl

theorem finite_of_round {x : Value} {n : Int} (rounded : x.round = .ok n) :
    ∃ q, x.number? = some (.finite q) := by
  rw [round] at rounded
  cases number : x.number? with
  | none => simp [number, unsupported] at rounded
  | some m =>
    cases m with
    | finite q => exact ⟨q, rfl⟩
    | infinite | nan => simp [number, Number.round] at rounded

variable {fl : ℚ → Number}

theorem toFloat_of_int {x : Value} {n : Int} (int : x.int? = some n) :
    x.toFloat fl = match fl n with
      | .finite q => .ok (.finite q)
      | _ => .error .overflowError := by
  cases x <;> cases int <;> rfl

theorem number_of_toFloat {x : Value} {p : Number} (converted : x.toFloat fl = .ok p) :
    x.number? = some p ∨ ∃ n q, x.int? = some n ∧ fl n = .finite q ∧ p = .finite q := by
  cases int : x.int? with
  | some n =>
    rw [toFloat_of_int int] at converted
    split at converted
    next q rounded =>
      cases converted
      exact .inr ⟨n, q, rfl, rounded, rfl⟩
    next => cases converted
  | none =>
    cases x with
    | float x => cases converted; exact .inl rfl
    | bool | int => cases int
    | _ => cases converted

theorem near_of_toFloat {x : Value} {m p : Number} (number : x.number? = some m)
    (converted : x.toFloat fl = .ok p) : m.Near p := by
  rcases number_of_toFloat converted with same | ⟨n, q, int, _, rfl⟩
  · exact .inl (Option.some.inj (number.symm.trans same))
  · cases number.symm.trans (number_of_int int)
    exact .inr ⟨Number.isFinite_finite _, Number.isFinite_finite q⟩

theorem exists_number_of_toFloat {x : Value} {p : Number} (converted : x.toFloat fl = .ok p) :
    ∃ m, x.number? = some m := by
  rcases number_of_toFloat converted with number | ⟨n, _, int, _⟩
  · exact ⟨p, number⟩
  · exact ⟨_, number_of_int int⟩

/-- The sum of two integers is one, and any other sum is of floats. -/
theorem add_of_right {y : Value} {n : Number} (right : y.number? = some n) (x : Value) :
    x.add fl y = match x.int?, y.int? with
      | some k, some l => .ok (.int (k + l))
      | _, _ =>
        match x.number? with
        | some _ => do
          let p ← x.toFloat fl
          let q ← y.toFloat fl
          return .float (p.add fl q)
        | Option.none => .error unsupported := by
  cases y <;> cases right <;> cases x <;> rfl

theorem add_of_int {x y : Value} {k l : Int} (left : x.int? = some k) (right : y.int? = some l) :
    x.add fl y = .ok (.int (k + l)) := by
  rw [add_of_right (number_of_int right), left, right]

theorem add_of_toFloat {x y : Value} {p q : Number}
    (mixed : x.int? = Option.none ∨ y.int? = Option.none) (left : x.toFloat fl = .ok p)
    (right : y.toFloat fl = .ok q) : x.add fl y = .ok (.float (p.add fl q)) := by
  obtain ⟨m, first⟩ := exists_number_of_toFloat left
  obtain ⟨n, second⟩ := exists_number_of_toFloat right
  rw [add_of_right second, first, left, right]
  split
  next k l one other => simp [one, other] at mixed
  next => rfl

theorem add_eq_ok {x y z : Value} {n : Number} (right : y.number? = some n)
    (added : x.add fl y = .ok z) :
    (∃ k l, x.int? = some k ∧ y.int? = some l ∧ z = .int (k + l)) ∨
      ∃ p q, x.toFloat fl = .ok p ∧ y.toFloat fl = .ok q ∧ z = .float (p.add fl q) := by
  rw [add_of_right right] at added
  split at added
  next k l left other =>
    cases added
    exact .inl ⟨k, l, left, other, rfl⟩
  next =>
    split at added
    next =>
      obtain ⟨p, first, rest⟩ := Raise.bind_eq_ok.mp added
      obtain ⟨q, second, result⟩ := Raise.bind_eq_ok.mp rest
      cases result
      exact .inr ⟨p, q, first, second, rfl⟩
    next => cases added

theorem number_of_add {x y z : Value} {n : Number} (right : y.number? = some n)
    (added : x.add fl y = .ok z) : ∃ m, x.number? = some m := by
  rcases add_eq_ok right added with ⟨k, _, int, _⟩ | ⟨p, _, converted, _⟩
  · exact ⟨_, number_of_int int⟩
  · exact exists_number_of_toFloat converted

theorem sums_of_add {x y z : Value} {m n : Number} (left : x.number? = some m)
    (right : y.number? = some n) (added : x.add fl y = .ok z) :
    ∃ r, z.number? = some r ∧ m.Sums n r := by
  rcases add_eq_ok right added with ⟨k, l, one, other, rfl⟩ | ⟨p, q, first, second, rfl⟩
  · cases left.symm.trans (number_of_int one)
    cases right.symm.trans (number_of_int other)
    exact ⟨_, rfl, .inl ⟨Number.isFinite_finite _, Number.isFinite_finite _⟩⟩
  · refine ⟨_, rfl, Number.sums_of_near ?_ ?_⟩
    · exact near_of_toFloat left first
    · exact near_of_toFloat right second

/-! Where nothing is rounded, every number is a float. -/

theorem toFloat_exact {x : Value} {m : Number} (number : x.number? = some m) :
    x.toFloat .finite = .ok m := by
  cases int : x.int? with
  | some n =>
    cases number.symm.trans (number_of_int int)
    exact toFloat_of_int int
  | none =>
    cases x with
    | float x => cases number; rfl
    | bool | int => cases int
    | _ => cases number

theorem add_exact {x y : Value} {m n : Number} (left : x.number? = some m)
    (right : y.number? = some n) :
    ∃ z, x.add .finite y = .ok z ∧ z.number? = some (m.add .finite n) := by
  cases one : x.int? with
  | none => exact ⟨_, add_of_toFloat (.inl one) (toFloat_exact left) (toFloat_exact right), rfl⟩
  | some k =>
    cases other : y.int? with
    | none => exact ⟨_, add_of_toFloat (.inr other) (toFloat_exact left) (toFloat_exact right), rfl⟩
    | some l =>
      cases left.symm.trans (number_of_int one)
      cases right.symm.trans (number_of_int other)
      exact ⟨_, add_of_int one other, by simp [number?, Number.add]⟩

end Value

mutual

theorem Value.lt_eq_error {x y : Value} {e : PyError} (raised : x.lt y = .error e) :
    e = unsupported := by
  unfold Value.lt at raised
  split at raised
  next => cases raised
  next => cases raised
  next => cases raised
  next =>
    split at raised
    · cases raised
    · cases raised
      rfl
  next xs ys => exact ltItems_eq_error raised
  next xs ys => exact ltItems_eq_error raised
  next => cases raised
  next =>
    split at raised
    · cases raised
    · cases raised
      rfl
termination_by sizeOf x

theorem ltItems_eq_error {xs ys : List Value} {e : PyError} (raised : ltItems xs ys = .error e) :
    e = unsupported := by
  match xs, ys with
  | _, [] => simp [ltItems] at raised
  | [], _ :: _ => simp [ltItems] at raised
  | x :: xs, y :: ys =>
    rw [ltItems] at raised
    split at raised
    · exact ltItems_eq_error raised
    · exact Value.lt_eq_error raised
termination_by sizeOf xs

end

/-! ### Keyword arguments -/

/-- A parameter of a function, with its default if it has one. -/
structure Param where
  name : String
  default : Option Value

def keyword (args : List (Value × Value)) (name : String) : Option Value :=
  (args.find? fun entry => entry.1.beq (.str name)).map Prod.snd

/-- `f(**args)`: the arguments in the order of the parameters. -/
def bindKeywords (params : List Param) (args : List (Value × Value)) :
    Except PyError (List Value) :=
  if args.all fun entry => params.any fun param => entry.1.beq (.str param.name) then
    params.mapM fun param =>
      match (keyword args param.name).or param.default with
      | some value => .ok value
      | Option.none => .error unsupported
  else .error unsupported

theorem bindKeywords_eq_ok {params : List Param} {args : List (Value × Value)} {values : List Value}
    (bound : bindKeywords params args = .ok values) :
    List.Forall₂ (fun param value => (keyword args param.name).or param.default = some value)
      params values := by
  rw [bindKeywords] at bound
  split at bound
  next =>
    refine (Raise.mapM_eq_ok bound).imp fun param value given => ?_
    split at given
    next found =>
      cases given
      exact found
    next => cases given
  next => cases bound

theorem Value.beq_str {x : Value} {s : String} : x.beq (.str s) = true ↔ x = .str s := by
  cases x <;> simp [Value.beq, number?]

/-- Arguments are bound when their names are those of parameters, and each parameter has one or a
default. -/
theorem bindKeywords_iff {params : List Param} {args : List (Value × Value)} {values : List Value} :
    bindKeywords params args = .ok values ↔
      (∀ entry ∈ args, ∃ param ∈ params, entry.1 = .str param.name) ∧
        List.Forall₂ (fun param value => (keyword args param.name).or param.default = some value)
          params values := by
  constructor
  · intro bound
    refine ⟨?_, bindKeywords_eq_ok bound⟩
    rw [bindKeywords] at bound
    split at bound
    next known => simpa only [List.all_eq_true, List.any_eq_true, Value.beq_str] using known
    next => cases bound
  · rintro ⟨known, given⟩
    rw [bindKeywords, if_pos]
    · exact Raise.mapM_of_forall₂ (given.imp fun param value found => by rw [found])
    · simpa only [List.all_eq_true, List.any_eq_true, Value.beq_str] using known

theorem bindKeywords_eq_error {params : List Param} {args : List (Value × Value)} {e : PyError}
    (raised : bindKeywords params args = .error e) : e = unsupported := by
  rw [bindKeywords] at raised
  split at raised
  next =>
    obtain ⟨param, _, missing⟩ := Raise.mapM_eq_error raised
    split at missing
    next => cases missing
    next =>
      cases missing
      rfl
  next =>
    cases raised
    rfl

end PyValue
