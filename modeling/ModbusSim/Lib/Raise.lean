import Mathlib.Tactic.Common

/-!
# Calls that may raise

A call returns a value or raises: `Except`. The simp set that runs such calls step by step, and
the inversions that take a successful or a raising sequence apart.
-/

namespace Raise

universe u v w

variable {ε : Type u} {α β : Type v}

@[simp] theorem ok_bind (a : α) (f : α → Except ε β) : (Except.ok a >>= f) = f a := rfl

@[simp] theorem error_bind (e : ε) (f : α → Except ε β) :
    ((Except.error e : Except ε α) >>= f) = .error e := rfl

@[simp] theorem pure_eq (a : α) : (pure a : Except ε α) = .ok a := rfl

@[simp] theorem throw_eq (e : ε) : (throw e : Except ε α) = .error e := rfl

theorem bind_eq_ok {x : Except ε α} {f : α → Except ε β} {b : β} :
    (x >>= f) = .ok b ↔ ∃ a, x = .ok a ∧ f a = .ok b := by
  cases x <;> simp

theorem bind_eq_error {x : Except ε α} {f : α → Except ε β} {e : ε} :
    (x >>= f) = .error e ↔ x = .error e ∨ ∃ a, x = .ok a ∧ f a = .error e := by
  cases x <;> simp

/-- `if p: raise e` -/
def raiseIf (p : Prop) [Decidable p] (e : ε) : Except ε Unit := if p then .error e else .ok ()

theorem raiseIf_eq_ok {p : Prop} [Decidable p] {e : ε} : raiseIf p e = .ok () ↔ ¬ p := by
  by_cases raised : p <;> simp [raiseIf, raised]

theorem seq_eq_ok {x y : Except ε Unit} :
    (x >>= fun _ => y) = .ok () ↔ x = .ok () ∧ y = .ok () := by
  cases x <;> simp

theorem forM_eq_ok {γ : Type w} {f : γ → Except ε Unit} {items : List γ} :
    items.forM f = .ok () ↔ ∀ item ∈ items, f item = .ok () := by
  induction items with
  | nil => exact ⟨fun _ _ member => by simp at member, fun _ => rfl⟩
  | cons item items ih =>
    have step : (item :: items).forM f = (f item >>= fun _ => items.forM f) := rfl
    rw [step, seq_eq_ok, ih]
    simp

theorem mapM_eq_ok {γ : Type w} {f : γ → Except ε α} {items : List γ} {values : List α}
    (mapped : items.mapM f = .ok values) :
    List.Forall₂ (fun item value => f item = .ok value) items values := by
  induction items generalizing values with
  | nil =>
    cases mapped
    exact .nil
  | cons item items ih =>
    rw [List.mapM_cons, bind_eq_ok] at mapped
    obtain ⟨value, given, rest⟩ := mapped
    obtain ⟨others, later, result⟩ := bind_eq_ok.mp rest
    cases result
    exact .cons given (ih later)

/-! ### What is raised -/

theorem raiseIf_eq_error {p : Prop} [Decidable p] {e raised : ε} :
    raiseIf p e = .error raised ↔ p ∧ e = raised := by
  by_cases holds : p <;> simp [raiseIf, holds]

theorem seq_eq_error {x y : Except ε Unit} {e : ε} (raised : (x >>= fun _ => y) = .error e) :
    x = .error e ∨ y = .error e := by
  cases x with
  | error other => exact .inl raised
  | ok => exact .inr raised

theorem forM_eq_error {γ : Type w} {f : γ → Except ε Unit} {items : List γ} {e : ε}
    (raised : items.forM f = .error e) : ∃ item ∈ items, f item = .error e := by
  induction items with
  | nil => cases raised
  | cons item items ih =>
    rcases seq_eq_error (x := f item) raised with first | later
    · exact ⟨item, List.mem_cons_self, first⟩
    · obtain ⟨other, member, same⟩ := ih later
      exact ⟨other, List.mem_cons_of_mem _ member, same⟩

theorem mapM_of_forall₂ {γ : Type w} {f : γ → Except ε α} {items : List γ} {values : List α}
    (each : List.Forall₂ (fun item value => f item = .ok value) items values) :
    items.mapM f = .ok values := by
  induction each with
  | nil => rfl
  | cons first _ ih => rw [List.mapM_cons, first, ok_bind, ih, ok_bind, pure_eq]

theorem mapM_eq_error {γ : Type w} {f : γ → Except ε α} {items : List γ} {e : ε}
    (raised : items.mapM f = .error e) : ∃ item ∈ items, f item = .error e := by
  induction items with
  | nil => cases raised
  | cons item items ih =>
    rw [List.mapM_cons, bind_eq_error] at raised
    rcases raised with first | ⟨value, _, rest⟩
    · exact ⟨item, List.mem_cons_self, first⟩
    · rcases bind_eq_error.mp rest with later | ⟨_, _, result⟩
      · obtain ⟨other, member, same⟩ := ih later
        exact ⟨other, List.mem_cons_of_mem _ member, same⟩
      · cases result

end Raise
