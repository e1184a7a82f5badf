import ModbusSim.Lib.PyText
import ModbusSim.Lib.Raise

/-!
# Values on the command line

What `--value` and `--values` are read as, and how values are printed. What a read prints between
its brackets can be given to a write, which reads it as the same values (`values_read_back`).
-/

namespace ModbusSim.Cli

open PyText

/-- What a converter raises; `argparse` ends the program on either. -/
inductive ConvertError where
  | argumentTypeError (message : String)
  | valueError
  deriving DecidableEq, Repr

def trueWords : List Text := ["1".toList, "on".toList, "true".toList, "yes".toList]
def falseWords : List Text := ["0".toList, "off".toList, "false".toList, "no".toList]

/-- `_coil_value` -/
def coilValue (u : Unicode) (text : Text) : Except ConvertError Bool :=
  let lowered := u.lowered (u.strip text)
  if trueWords.contains lowered then .ok true
  else if falseWords.contains lowered then .ok false
  else .error (.argumentTypeError ("expected on/off (got " ++ u.repr text ++ ")"))

/-- `int(text, 0)` -/
def intValue (u : Unicode) (text : Text) : Except ConvertError Int :=
  match u.int0 text with
  | some n => .ok n
  | none => .error .valueError

/-- `[part for part in text.split(",") if part.strip() != ""]` -/
def parts (u : Unicode) (text : Text) : List Text :=
  (text.splitOn ',').filter fun part => u.strip part ≠ []

/-- `_int_list` -/
def intList (u : Unicode) (text : Text) : Except ConvertError (List Int) :=
  (parts u text).mapM (intValue u)

/-- `_coil_list` -/
def coilList (u : Unicode) (text : Text) : Except ConvertError (List Bool) :=
  (parts u text).mapM (coilValue u)

/-! ### What is printed -/

def shownBool (b : Bool) : Text := if b then "True".toList else "False".toList

def between {α : Type} (shown : α → Text) (values : List α) : Text := joined (values.map shown)

/-- `str(values)` -/
def shownList {α : Type} (shown : α → Text) (values : List α) : String :=
  "[" ++ String.ofList (between shown values) ++ "]"

section Lists

variable {α : Type} {shown : α → Text} {convert : Text → Except ConvertError α}

theorem parts_between (u : Unicode) {v : α} {values : List α}
    (plain : ∀ w ∈ v :: values, ',' ∉ shown w)
    (content : ∀ w ∈ v :: values, ∃ c ∈ shown w, u.space c = false) :
    parts u (between shown (v :: values)) = shown v :: values.map fun v => ' ' :: shown v := by
  have texts : ∀ t ∈ shown v :: values.map shown, ',' ∉ t := by
    intro t member
    rw [← List.map_cons] at member
    obtain ⟨w, listed, rfl⟩ := List.mem_map.mp member
    exact plain w listed
  have nonblank : ∀ {w : α} {t : Text}, w ∈ v :: values → shown w ⊆ t → u.strip t ≠ [] := by
    intro w t listed sub
    obtain ⟨c, member, inner⟩ := content w listed
    exact trim_ne_nil inner (sub member)
  rw [parts, between, List.map_cons, splitOn_joined texts, List.map_map]
  apply List.filter_eq_self.mpr
  intro t member
  rw [decide_eq_true_eq]
  rcases List.mem_cons.mp member with rfl | later
  · exact nonblank List.mem_cons_self (List.Subset.refl _)
  · obtain ⟨w, listed, rfl⟩ := List.mem_map.mp later
    exact nonblank (List.mem_cons_of_mem v listed) (List.subset_cons_self ' ' _)

theorem mapM_parts (u : Unicode) {values : List α} (plain : ∀ v ∈ values, ',' ∉ shown v)
    (content : ∀ v ∈ values, ∃ c ∈ shown v, u.space c = false)
    (reads : ∀ v ∈ values, convert (shown v) = .ok v)
    (blank : ∀ v ∈ values, convert (' ' :: shown v) = .ok v) :
    (parts u (between shown values)).mapM convert = .ok values := by
  have all : ∀ {write : α → Text} {vs : List α}, (∀ v ∈ vs, convert (write v) = .ok v) →
      (vs.map write).mapM convert = .ok vs := by
    intro write vs holds
    induction vs with
    | nil => rfl
    | cons v vs ih =>
      rw [List.forall_mem_cons] at holds
      rw [List.map_cons, List.mapM_cons, holds.1, Raise.ok_bind, ih holds.2, Raise.ok_bind]
      rfl
  cases values with
  | nil => rfl
  | cons v values =>
    rw [List.forall_mem_cons] at reads blank
    rw [parts_between u plain content, List.mapM_cons, reads.1, Raise.ok_bind, all blank.2]
    rfl

end Lists

theorem coilValue_shown (u : Unicode) (b : Bool) : coilValue u (shownBool b) = .ok b := by
  cases b <;> rfl

theorem coilValue_blank (u : Unicode) (b : Bool) : coilValue u (' ' :: shownBool b) = .ok b := by
  cases b <;> rfl

theorem intList_between (u : Unicode) {values : List Int}
    (shows : ∀ v ∈ values, Shows v) :
    intList u (between shownInt values) = .ok values := by
  have reads : ∀ v ∈ values, intValue u (shownInt v) = .ok v := by
    intro v member
    rw [intValue, int0_shownInt u (shows v member)]
  refine mapM_parts u (fun v _ member => ?_) (fun v _ => ?_) reads fun v member => ?_
  · exact absurd (inNumeral_of_shown member).toNat (by decide)
  · obtain ⟨c, text, shown⟩ := List.exists_cons_of_ne_nil (shownInt_ne_nil v)
    have member : c ∈ shownInt v := shown ▸ List.mem_cons_self
    exact ⟨c, member, (inNumeral_of_shown member).space u⟩
  · rw [intValue, int0_blank, ← intValue, reads v member]

theorem coilList_between (u : Unicode) (values : List Bool) :
    coilList u (between shownBool values) = .ok values := by
  refine mapM_parts u (fun v _ => ?_) (fun v _ => ?_) (fun v _ => coilValue_shown u v)
    fun v _ => coilValue_blank u v
  · cases v <;> decide
  · cases v with
    | true => exact ⟨'T', by decide, rfl⟩
    | false => exact ⟨'F', by decide, rfl⟩

/-- A list of integers that Python can show, and any list of booleans, is read back from what is
printed for it. -/
theorem values_read_back (u : Unicode) :
    (∀ values : List Int, (∀ v ∈ values, Shows v) →
        intList u (between shownInt values) = .ok values) ∧
      ∀ values : List Bool, coilList u (between shownBool values) = .ok values :=
  ⟨fun _ shows => intList_between u shows, coilList_between u⟩

def asciiOnly : Unicode :=
  ⟨fun _ => false, fun _ => none, fun text => text, fun text => "'" ++ String.ofList text ++ "'"⟩

theorem values_read_back_some :
    between shownInt [275, -16, 0] = "275, -16, 0".toList ∧
      intList asciiOnly (between shownInt [275, -16, 0]) = .ok [275, -16, 0] ∧
      coilList asciiOnly (between shownBool [true, false]) = .ok [true, false] := by
  obtain ⟨integers, booleans⟩ := values_read_back asciiOnly
  refine ⟨by decide, integers _ ?_, booleans _⟩
  decide

end ModbusSim.Cli
