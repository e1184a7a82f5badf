import Mathlib.Data.List.TakeWhile

/-!
# Python texts

A text is a list of code points. What Python knows of those outside ASCII is a table; `strip`,
`lower` and `int(text, 0)` are as documented on the others. The numeral that is shown for an
integer is read back as this integer (`int0_shownInt`), with a blank before it too.
-/

namespace PyText

abbrev Text := List Char

/-- What is known of the code points outside ASCII, and how a text is quoted. -/
structure Unicode where
  isSpace : Char → Bool
  decimal : Char → Option Nat
  lower : Text → Text
  repr : Text → String

def isAscii (c : Char) : Bool := c.toNat < 128

/-- The code points that `int` skips around a numeral. -/
def isBlank (c : Char) : Bool := (9 ≤ c.toNat && c.toNat ≤ 13) || c.toNat = 32

/-- `c.isspace()` -/
def Unicode.space (u : Unicode) (c : Char) : Bool :=
  if isAscii c then isBlank c || (28 ≤ c.toNat && c.toNat ≤ 31) else u.isSpace c

def trim (p : Char → Bool) (text : Text) : Text := ((text.dropWhile p).reverse.dropWhile p).reverse

/-- `text.strip()` -/
def Unicode.strip (u : Unicode) (text : Text) : Text := trim u.space text

/-- `text.lower()` -/
def Unicode.lowered (u : Unicode) (text : Text) : Text :=
  if text.all isAscii then text.map Char.toLower else u.lower text

/-! ### Numerals -/

/-- Spaces and decimal digits of all scripts count as those of ASCII. -/
def Unicode.toAscii (u : Unicode) (c : Char) : Char :=
  if isAscii c then c
  else if u.isSpace c then ' '
  else match u.decimal c with
    | some digit => digit.digitChar
    | none => '?'

def digitValue (c : Char) : Nat :=
  if c.isDigit then c.toNat - 48
  else if c.isLower then c.toNat - 87
  else if c.isUpper then c.toNat - 55
  else 37

/-- `sys.get_int_max_str_digits()` -/
def maxStrDigits : Nat := 4300

/-- Digits, with single underscores between them. The number of decimal digits is limited. -/
def numeral (base : Nat) (text : Text) : Option Nat :=
  let groups := text.splitOn '_'
  let digits := groups.flatten.map digitValue
  if [] ∈ groups ∨ ¬ (∀ d ∈ digits, d < base) ∨ base = 10 ∧ maxStrDigits < digits.length then none
  else some (digits.foldl (fun n d => base * n + d) 0)

def afterPrefix : Text → Text
  | '_' :: text => text
  | text => text

/-- A numeral without its sign: the prefix says the base, and without one only zero may start
with a zero. -/
def magnitude : Text → Option Nat
  | '0' :: c :: text =>
    if c = 'x' ∨ c = 'X' then numeral 16 (afterPrefix text)
    else if c = 'o' ∨ c = 'O' then numeral 8 (afterPrefix text)
    else if c = 'b' ∨ c = 'B' then numeral 2 (afterPrefix text)
    else (numeral 10 ('0' :: c :: text)).filter (· = 0)
  | text => numeral 10 text

def signed : Text → Option Int
  | '-' :: text => (magnitude text).map fun n : Nat => -(n : Int)
  | '+' :: text => (magnitude text).map Int.ofNat
  | text => (magnitude text).map Int.ofNat

/-- `int(text, 0)`, where it raises no `ValueError` -/
def Unicode.int0 (u : Unicode) (text : Text) : Option Int :=
  signed (trim isBlank (text.map u.toAscii))

/-! ### Ends -/

theorem trim_of_forall {p : Char → Bool} {text : Text} (inner : ∀ c ∈ text, p c = false) :
    trim p text = text := by
  have front : ∀ {t : Text}, (∀ c ∈ t, p c = false) → t.dropWhile p = t := by
    intro t none
    cases t with
    | nil => rfl
    | cons c t => rw [List.dropWhile_cons_of_neg (by simp [none c List.mem_cons_self])]
  rw [trim, front inner, front (by simpa using inner), List.reverse_reverse]

theorem trim_cons {p : Char → Bool} {c : Char} (outer : p c = true) (text : Text) :
    trim p (c :: text) = trim p text := by
  rw [trim, List.dropWhile_cons_of_pos outer, ← trim]

theorem trim_ne_nil {p : Char → Bool} {c : Char} (inner : p c = false) {text : Text}
    (member : c ∈ text) : trim p text ≠ [] := by
  intro empty
  have kept : c ∈ text.dropWhile p := by
    rw [← List.takeWhile_append_dropWhile (p := p) (l := text)] at member
    rcases List.mem_append.mp member with front | rest
    · exact absurd (List.mem_takeWhile_imp front) (by simp [inner])
    · exact rest
  rw [trim, List.reverse_eq_nil_iff, List.dropWhile_eq_nil_iff] at empty
  have outer := empty c (List.mem_reverse.mpr kept)
  rw [inner] at outer
  cases outer

/-! ### What is shown is read back -/

def InNumeral (c : Char) : Prop := c.isDigit = true ∨ c = '-'

theorem toNat_of_isDigit {c : Char} (digit : c.isDigit = true) : 48 ≤ c.toNat ∧ c.toNat ≤ 57 := by
  simp only [Char.isDigit, Bool.and_eq_true, decide_eq_true_eq] at digit
  exact ⟨UInt32.le_iff_toNat_le.mp digit.1, UInt32.le_iff_toNat_le.mp digit.2⟩

theorem InNumeral.toNat {c : Char} (shown : InNumeral c) : 45 ≤ c.toNat ∧ c.toNat ≤ 57 := by
  rcases shown with digit | rfl
  · obtain ⟨least, most⟩ := toNat_of_isDigit digit
    exact ⟨by omega, most⟩
  · decide

theorem InNumeral.isBlank {c : Char} (shown : InNumeral c) : isBlank c = false := by
  have := shown.toNat
  simp only [PyText.isBlank, Bool.or_eq_false_iff, Bool.and_eq_false_iff, decide_eq_false_iff_not]
  omega

theorem InNumeral.space {c : Char} (shown : InNumeral c) (u : Unicode) : u.space c = false := by
  have := shown.toNat
  rw [Unicode.space, if_pos (by simp only [isAscii, decide_eq_true_eq]; omega), shown.isBlank]
  simp only [Bool.false_or, Bool.and_eq_false_iff, decide_eq_false_iff_not]
  omega

theorem InNumeral.toAscii {c : Char} (shown : InNumeral c) (u : Unicode) : u.toAscii c = c := by
  have := shown.toNat
  exact if_pos (by simp only [isAscii, decide_eq_true_eq]; omega)

theorem numeral_of_digits {text : Text} (digits : ∀ c ∈ text, c.isDigit = true) (content : text ≠ [])
    (few : text.length ≤ maxStrDigits) :
    numeral 10 text = some (Nat.ofDigitChars 10 text 0) := by
  have single : '_' ∉ text := fun member => absurd (digits _ member) (by decide)
  have value : ∀ c ∈ text, digitValue c = c.toNat - '0'.toNat :=
    fun c member => if_pos (digits c member)
  have decimal : ∀ d ∈ text.map digitValue, d < 10 := by
    intro d member
    obtain ⟨c, here, rfl⟩ := List.mem_map.mp member
    have := toNat_of_isDigit (digits c here)
    rw [value c here]
    show c.toNat - 48 < 10
    omega
  unfold numeral
  simp only [List.splitOn_eq_singleton single, List.flatten_singleton]
  rw [if_neg]
  · rw [List.map_congr_left value, List.foldl_map]
    rfl
  · rw [List.mem_singleton, List.length_map]
    rintro (empty | above | ⟨_, many⟩)
    · exact content empty.symm
    · exact above decimal
    · omega

theorem toDigits_head {n : Nat} {text : Text} (zero : Nat.toDigits 10 n = '0' :: text) : n = 0 := by
  induction n using Nat.strongRecOn generalizing text with
  | ind n ih =>
    rw [Nat.toDigits_eq_if (by decide)] at zero
    split at zero
    · exact Nat.digitChar_eq_zero.mp (List.cons.inj zero).1
    next large =>
      cases front : Nat.toDigits 10 (n / 10) with
      | nil => exact absurd front Nat.toDigits_ne_nil
      | cons c rest =>
        rw [front] at zero
        obtain ⟨rfl, _⟩ := List.cons.inj zero
        have := ih (n / 10) (by omega) front
        omega

theorem magnitude_toDigits {n : Nat} (few : (Nat.toDigits 10 n).length ≤ maxStrDigits) :
    magnitude (Nat.toDigits 10 n) = some n := by
  have digits : ∀ c ∈ Nat.toDigits 10 n, c.isDigit = true :=
    fun c member => Nat.isDigit_of_mem_toDigits (by decide) (by decide) member
  have plain := numeral_of_digits digits Nat.toDigits_ne_nil few
  rw [Nat.ofDigitChars_ten_toDigits] at plain
  unfold magnitude
  split
  next c text shown =>
    obtain rfl := toDigits_head shown
    cases shown
  next => exact plain

/-- `str(n)` -/
def shownInt (n : Int) : Text := (toString n).toList

/-- An integer that `str` does not refuse; the sign is not counted. -/
def Shows (n : Int) : Prop := (Nat.toDigits 10 n.natAbs).length ≤ maxStrDigits

instance : DecidablePred Shows := fun n =>
  inferInstanceAs (Decidable ((Nat.toDigits 10 n.natAbs).length ≤ maxStrDigits))

theorem shownInt_natCast (n : Nat) : shownInt n = Nat.toDigits 10 n := by
  rw [shownInt, Int.toString_eq_repr, Int.repr_eq_if, if_pos (Int.natCast_nonneg n), Int.toNat_natCast]
  exact Nat.toList_repr

theorem shownInt_neg {n : Nat} (positive : 0 < n) :
    shownInt (-(n : Int)) = '-' :: Nat.toDigits 10 n := by
  rw [shownInt, Int.toString_eq_repr, Int.repr_eq_if, if_neg (by omega)]
  simp

theorem shownInt_cases (n : Int) : ∃ m : Nat,
    (n = m ∧ shownInt n = Nat.toDigits 10 m) ∨ (n = -(m : Int) ∧ shownInt n = '-' :: Nat.toDigits 10 m) := by
  rcases Int.le_total 0 n with least | most
  · obtain ⟨m, rfl⟩ := Int.eq_ofNat_of_zero_le least
    exact ⟨m, .inl ⟨rfl, shownInt_natCast m⟩⟩
  · obtain ⟨m, same⟩ := Int.eq_ofNat_of_zero_le (Int.neg_nonneg_of_nonpos most)
    have value : n = -(m : Int) := by omega
    rcases Nat.eq_zero_or_pos m with rfl | positive
    · rw [value]
      exact ⟨0, .inl ⟨rfl, rfl⟩⟩
    · rw [value]
      exact ⟨m, .inr ⟨rfl, shownInt_neg positive⟩⟩

theorem inNumeral_of_shown {n : Int} {c : Char} (member : c ∈ shownInt n) : InNumeral c := by
  have digit : ∀ {m : Nat}, c ∈ Nat.toDigits 10 m → c.isDigit = true :=
    fun member => Nat.isDigit_of_mem_toDigits (by decide) (by decide) member
  obtain ⟨m, ⟨_, shown⟩ | ⟨_, shown⟩⟩ := shownInt_cases n
  · rw [shown] at member
    exact .inl (digit member)
  · rw [shown] at member
    rcases List.mem_cons.mp member with rfl | rest
    · exact .inr rfl
    · exact .inl (digit rest)

theorem shownInt_ne_nil (n : Int) : shownInt n ≠ [] := by
  obtain ⟨m, ⟨_, shown⟩ | ⟨_, shown⟩⟩ := shownInt_cases n
  · rw [shown]
    exact Nat.toDigits_ne_nil
  · rw [shown]
    exact List.cons_ne_nil '-' _

/-- What is shown for an integer is read back. -/
theorem int0_shownInt (u : Unicode) {n : Int} (shows : Shows n) :
    u.int0 (shownInt n) = some n := by
  have ascii : (shownInt n).map u.toAscii = shownInt n :=
    (List.map_congr_left fun c member => (inNumeral_of_shown member).toAscii u).trans (List.map_id _)
  rw [Unicode.int0, ascii, trim_of_forall fun c member => (inNumeral_of_shown member).isBlank]
  obtain ⟨m, ⟨rfl, shown⟩ | ⟨rfl, shown⟩⟩ := shownInt_cases n
  · rw [Shows, Int.natAbs_natCast] at shows
    have digits := magnitude_toDigits shows
    rw [shown]
    unfold signed
    split
    next text minus =>
      have member : '-' ∈ Nat.toDigits 10 m := minus ▸ List.mem_cons_self
      exact absurd (Nat.isDigit_of_mem_toDigits (by decide) (by decide) member) (by decide)
    next text plus =>
      have member : '+' ∈ Nat.toDigits 10 m := plus ▸ List.mem_cons_self
      exact absurd (Nat.isDigit_of_mem_toDigits (by decide) (by decide) member) (by decide)
    next =>
      rw [digits]
      rfl
  · rw [Shows, Int.natAbs_neg, Int.natAbs_natCast] at shows
    rw [shown, signed, magnitude_toDigits shows, Option.map_some]

theorem int0_blank (u : Unicode) (text : Text) : u.int0 (' ' :: text) = u.int0 text := by
  rw [Unicode.int0, List.map_cons, show u.toAscii ' ' = ' ' from rfl, trim_cons rfl]
  rfl

/-! ### Texts with separators -/

/-- `", ".join(texts)` -/
def joined (texts : List Text) : Text := [',', ' '].intercalate texts

theorem splitOn_joined {text : Text} {texts : List Text}
    (plain : ∀ t ∈ text :: texts, ',' ∉ t) :
    (joined (text :: texts)).splitOn ',' = text :: texts.map (' ' :: ·) := by
  induction texts generalizing text with
  | nil =>
    rw [joined, List.intercalate_singleton]
    exact List.splitOn_eq_singleton (plain text List.mem_cons_self)
  | cons next texts ih =>
    have first := plain text List.mem_cons_self
    have later : ∀ t ∈ (' ' :: next) :: texts, ',' ∉ t := by
      intro t member
      rcases List.mem_cons.mp member with rfl | rest
      · have own := plain next (List.mem_cons_of_mem _ List.mem_cons_self)
        simpa using own
      · exact plain t (List.mem_cons_of_mem _ (List.mem_cons_of_mem _ rest))
    have split := ih later
    have shape : joined ((' ' :: next) :: texts) = ' ' :: joined (next :: texts) := by
      cases texts <;> simp [joined]
    rw [shape] at split
    have whole : joined (text :: next :: texts) = text ++ ',' :: ' ' :: joined (next :: texts) := by
      simp [joined]
    rw [whole, List.splitOn_append_cons_self_of_not_mem first, split, List.map_cons]

end PyText
