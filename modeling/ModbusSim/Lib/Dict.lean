import Mathlib.Data.List.Basic
import Mathlib.Data.List.Nodup

/-!
# Insertion-ordered dictionaries

A dictionary keeps its keys in the order of their first insertion; no key occurs twice.
Setting a present key replaces its value in place, setting a new one appends it.
-/

universe u v w

@[ext] structure Dict (κ : Type u) (α : Type v) where
  entries : List (κ × α)
  nodup : (entries.map Prod.fst).Nodup

namespace Dict

variable {κ : Type u} {α : Type v} {β : Type w} [DecidableEq κ]

def empty : Dict κ α := ⟨[], List.nodup_nil⟩

def keys (d : Dict κ α) : List κ := d.entries.map Prod.fst

def get? (d : Dict κ α) (k : κ) : Option α :=
  (d.entries.find? fun entry => entry.1 = k).map Prod.snd

/-- Replace the value of `k` in the entries that have it. -/
def replace (k : κ) (a : α) (entry : κ × α) : κ × α := if entry.1 = k then (k, a) else entry

theorem replace_fst (k : κ) (a : α) (entry : κ × α) : (replace k a entry).1 = entry.1 := by
  by_cases same : entry.1 = k <;> simp [replace, same]

theorem map_replace_fst (k : κ) (a : α) (entries : List (κ × α)) :
    (entries.map (replace k a)).map Prod.fst = entries.map Prod.fst := by
  rw [List.map_map]
  exact List.map_congr_left fun entry _ => replace_fst k a entry

def set (d : Dict κ α) (k : κ) (a : α) : Dict κ α :=
  if present : k ∈ d.keys then ⟨d.entries.map (replace k a), by rw [map_replace_fst]; exact d.nodup⟩
  else ⟨d.entries ++ [(k, a)], by
    rw [List.map_append]
    exact d.nodup.append (List.nodup_singleton k) (by simpa [keys] using present)⟩

theorem get?_eq_some_iff {d : Dict κ α} {k : κ} {a : α} : d.get? k = some a ↔ (k, a) ∈ d.entries := by
  constructor
  · intro found
    obtain ⟨⟨k', a'⟩, search, rfl⟩ := Option.map_eq_some_iff.mp found
    have same : k' = k := by simpa using List.find?_some search
    subst same
    exact List.mem_of_find?_eq_some search
  · intro member
    cases search : d.entries.find? fun entry => entry.1 = k with
    | none => simpa using List.find?_eq_none.mp search (k, a) member
    | some entry =>
      have same : entry.1 = k := by simpa using List.find?_some search
      have unique := List.inj_on_of_nodup_map d.nodup (List.mem_of_find?_eq_some search) member same
      simp [get?, search, unique]

theorem mem_keys_iff {d : Dict κ α} {k : κ} : k ∈ d.keys ↔ ∃ a, d.get? k = some a := by
  simp [keys, get?_eq_some_iff]

theorem get?_set_self (d : Dict κ α) (k : κ) (a : α) : (d.set k a).get? k = some a := by
  rw [get?_eq_some_iff, set]
  split
  next present =>
    obtain ⟨entry, member, rfl⟩ := List.mem_map.mp present
    exact List.mem_map.mpr ⟨entry, member, by simp [replace]⟩
  next => simp

theorem get?_set_of_ne (d : Dict κ α) {k l : κ} (a : α) (other : l ≠ k) :
    (d.set k a).get? l = d.get? l := by
  apply Option.ext
  intro b
  rw [get?_eq_some_iff, get?_eq_some_iff, set]
  split
  next present =>
    constructor
    · intro member
      obtain ⟨entry, before, same⟩ := List.mem_map.mp member
      by_cases hit : entry.1 = k
      · simp [replace, hit] at same
        exact absurd same.1.symm other
      · rw [replace, if_neg hit] at same
        exact same ▸ before
    · intro member
      exact List.mem_map.mpr ⟨(l, b), member, by simp [replace, other]⟩
  next => simp [other]

theorem get?_set (d : Dict κ α) (k l : κ) (a : α) :
    (d.set k a).get? l = if l = k then some a else d.get? l := by
  by_cases same : l = k
  · rw [if_pos same, same, get?_set_self]
  · rw [if_neg same, get?_set_of_ne d a same]

theorem keys_set_of_mem {d : Dict κ α} {k : κ} (a : α) (present : k ∈ d.keys) :
    (d.set k a).keys = d.keys := by
  rw [set, dif_pos present]
  exact map_replace_fst k a d.entries

theorem keys_set_of_not_mem {d : Dict κ α} {k : κ} (a : α) (absent : k ∉ d.keys) :
    (d.set k a).keys = d.keys ++ [k] := by
  rw [set, dif_neg absent]
  simp [keys]

theorem set_of_get? {d : Dict κ α} {k : κ} {a : α} (found : d.get? k = some a) : d.set k a = d := by
  have present : k ∈ d.keys := mem_keys_iff.mpr ⟨a, found⟩
  rw [set, dif_pos present]
  apply Dict.ext
  refine (List.map_congr_left fun entry member => ?_).trans (List.map_id _)
  by_cases same : entry.1 = k
  · have other : (k, entry.2) ∈ d.entries := same ▸ member
    have value := Option.some.inj ((get?_eq_some_iff.mpr other).symm.trans found)
    rw [replace, if_pos same, ← same, ← value]
    rfl
  · rw [replace, if_neg same]
    rfl

end Dict
