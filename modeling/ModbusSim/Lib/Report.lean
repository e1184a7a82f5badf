import ModbusSim.Lib.Raise

/-!
# Checks that go on after a failure

A report lists the failures that checks have left, none if they all pass, or is an exception that is
no failure and stops the checks at once.
-/

namespace Raise

universe u v w

/-- The failures of a check, or an exception that escapes it. -/
abbrev Report (ε : Type u) (φ : Type v) := Except ε (List φ)

namespace Report

variable {ε : Type u} {φ : Type v} {γ : Type w}

def failIf (p : Prop) [Decidable p] (failure : φ) : Report ε φ := .ok (if p then [failure] else [])

def both (x y : Report ε φ) : Report ε φ :=
  match x with
  | .error e => .error e
  | .ok first => y.map fun second => first ++ second

def each (f : γ → Report ε φ) : List γ → Report ε φ
  | [] => .ok []
  | item :: items => both (f item) (each f items)

def after (x y : Report ε φ) : Report ε φ :=
  match x with
  | .ok [] => y
  | failed => failed

def Escapes (x : Report ε φ) : Prop := ∃ e, x = .error e

/-! ### Passing -/

@[simp] theorem failIf_eq_nil {p : Prop} [Decidable p] {failure : φ} :
    (failIf p failure : Report ε φ) = .ok [] ↔ ¬ p := by
  by_cases wrong : p <;> simp [failIf, wrong]

@[simp] theorem both_eq_nil {x y : Report ε φ} : both x y = .ok [] ↔ x = .ok [] ∧ y = .ok [] := by
  cases x <;> cases y <;> simp [both, Except.map]

@[simp] theorem each_eq_nil {f : γ → Report ε φ} {items : List γ} :
    each f items = .ok [] ↔ ∀ item ∈ items, f item = .ok [] := by
  induction items with
  | nil => simp [each]
  | cons item items ih => rw [each, both_eq_nil, ih, List.forall_mem_cons]

@[simp] theorem after_eq_nil {x y : Report ε φ} : after x y = .ok [] ↔ x = .ok [] ∧ y = .ok [] := by
  unfold after
  split
  next => simp
  next failed => exact ⟨fun passed => absurd passed failed, fun passed => passed.1⟩

/-! ### Escaping -/

@[simp] theorem not_escapes_ok (failures : List φ) : ¬ Escapes (.ok failures : Report ε φ) := by
  rintro ⟨e, same⟩
  cases same

@[simp] theorem not_escapes_failIf {p : Prop} [Decidable p] {failure : φ} :
    ¬ Escapes (failIf p failure : Report ε φ) := not_escapes_ok _

@[simp] theorem escapes_both {x y : Report ε φ} : Escapes (both x y) ↔ Escapes x ∨ Escapes y := by
  cases x <;> cases y <;> simp [both, Escapes, Except.map]

@[simp] theorem escapes_each {f : γ → Report ε φ} {items : List γ} :
    Escapes (each f items) ↔ ∃ item ∈ items, Escapes (f item) := by
  induction items with
  | nil => simp [each]
  | cons item items ih =>
    rw [each, escapes_both, ih]
    simp

@[simp] theorem escapes_after {x y : Report ε φ} :
    Escapes (after x y) ↔ Escapes x ∨ x = .ok [] ∧ Escapes y := by
  unfold after
  split
  next => simp
  next failed => exact ⟨.inl, fun escapes => escapes.elim id fun both => absurd both.1 failed⟩

def Raises (P : ε → Prop) (x : Report ε φ) : Prop := ∀ e, x = .error e → P e

theorem raises_ok {P : ε → Prop} (failures : List φ) : Raises P (.ok failures : Report ε φ) := by
  intro e same
  cases same

theorem Raises.both {P : ε → Prop} {x y : Report ε φ} (first : Raises P x) (second : Raises P y) :
    Raises P (both x y) := by
  intro e raised
  cases x with
  | error e' => exact first e raised
  | ok failures =>
    cases y with
    | error e' => exact second e raised
    | ok more => cases raised

theorem Raises.each {P : ε → Prop} {f : γ → Report ε φ} {items : List γ}
    (all : ∀ item ∈ items, Raises P (f item)) : Raises P (each f items) := by
  induction items with
  | nil => exact raises_ok []
  | cons item items ih =>
    rw [List.forall_mem_cons] at all
    exact all.1.both (ih all.2)

theorem Raises.after {P : ε → Prop} {x y : Report ε φ} (first : Raises P x) (second : Raises P y) :
    Raises P (after x y) := by
  unfold Report.after
  split
  next => exact second
  next => exact first

end Report

end Raise
