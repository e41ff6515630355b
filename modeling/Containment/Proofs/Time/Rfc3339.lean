/-
Module: Containment.Proofs.Time.Rfc3339
Purpose: Every instant of the supported range is read back from its text, whatever its year and however fine its
  fraction.
Main exports: Decimal.Spells, Instant.Supported, Instant.read_spelling, Instant.read_toText
-/
import Containment.Proofs.Text.Utf8
import Containment.Proofs.Time.Calendar
import Containment.Time.Rfc3339.Reader

namespace Containment

open Text Time

/-! ### Numbers -/

namespace Text.Decimal

/-- These characters are decimal digits, at least one, and stand for this number. -/
structure Spells (digits : List Char) (n : Nat) : Prop where
  nonempty : digits ≠ []
  isDigit : ∀ c ∈ digits, isDigit c = true
  value : value digits = n

theorem isDigit_iff {c : Char} : isDigit c = true ↔ 48 ≤ c.toNat ∧ c.toNat ≤ 57 := by
  rw [isDigit, Bool.and_eq_true, decide_eq_true_eq, decide_eq_true_eq]
  exact Iff.rfl

theorem isBlank_of_isDigit {c : Char} (digit : isDigit c = true) : isBlank c = false := by
  rw [isDigit_iff] at digit
  simp only [isBlank, Bool.or_eq_false_iff, Bool.and_eq_false_iff, decide_eq_false_iff_not, beq_eq_false_iff_ne]
  omega

theorem isDigit_digitChar {n : Nat} (h : n < 10) : isDigit (Nat.digitChar n) = true := by
  decide +revert

theorem toNat_digitChar {n : Nat} (h : n < 10) : (Nat.digitChar n).toNat - 48 = n := by
  decide +revert

theorem value_append_singleton (digits : List Char) (c : Char) :
    value (digits ++ [c]) = 10 * value digits + (c.toNat - 48) := by
  simp only [value, List.foldl_append, List.foldl_cons, List.foldl_nil]

/-- One more digit at the end. -/
theorem Spells.snoc {digits : List Char} {n d : Nat} (isDigits : ∀ c ∈ digits, Decimal.isDigit c = true)
    (valued : Decimal.value digits = n) (h : d < 10) : Spells (digits ++ [Nat.digitChar d]) (10 * n + d) := by
  refine ⟨List.append_ne_nil_of_right_ne_nil _ (List.cons_ne_nil _ _), ?_, ?_⟩
  · intro c mem
    rcases List.mem_append.1 mem with early | last
    · exact isDigits c early
    · rw [List.mem_singleton.1 last]
      exact isDigit_digitChar h
  · rw [value_append_singleton, valued, toNat_digitChar h]

theorem spells_digitChar {d : Nat} (h : d < 10) : Spells [Nat.digitChar d] d := by
  refine ⟨List.cons_ne_nil _ _, ?_, ?_⟩
  · intro c mem
    rw [List.mem_singleton.1 mem]
    exact isDigit_digitChar h
  · change 10 * 0 + ((Nat.digitChar d).toNat - 48) = d
    rw [toNat_digitChar h]
    exact Nat.zero_add d

theorem spells_fixedDigits {width n : Nat} (fits : n < 10 ^ (width + 1)) : Spells (fixedDigits (width + 1) n) n := by
  induction width generalizing n with
  | zero =>
    have single : n < 10 := fits
    rw [fixedDigits, Nat.mod_eq_of_lt single]
    exact spells_digitChar single
  | succ width ih =>
    have shorter : n / 10 < 10 ^ (width + 1) := by
      rw [Nat.div_lt_iff_lt_mul (by decide)]
      exact fits
    have spells := ih shorter
    have last := Spells.snoc spells.isDigit spells.value (Nat.mod_lt n (by decide : 0 < 10))
    rw [Nat.div_add_mod] at last
    exact last

theorem spells_toDigits (n : Nat) : Spells (Nat.toDigits 10 n) n := by
  induction n using Nat.strongRecOn with
  | ind n ih =>
    by_cases single : n < 10
    · rw [Nat.toDigits_of_lt_base single]
      exact spells_digitChar single
    · have spells := ih (n / 10) (by omega)
      have last := Spells.snoc spells.isDigit spells.value (Nat.mod_lt n (by decide : 0 < 10))
      rw [Nat.div_add_mod] at last
      rw [Nat.toDigits_of_base_le (by decide) (by omega)]
      exact last

theorem spells_padded (width n : Nat) : Spells (padded (width + 1) n) n := by
  simp only [padded]
  by_cases fits : n < Nat.pow 10 (width + 1)
  · rw [if_pos fits]
    exact spells_fixedDigits fits
  · rw [if_neg fits]
    exact spells_toDigits n

theorem length_padded {width n : Nat} (short : n < 10 ^ width) : (padded width n).length = width := by
  have fits : n < Nat.pow 10 width := short
  rw [padded, if_pos fits, length_fixedDigits]

theorem length_padded_le {width n size : Nat} (short : n < 10 ^ size) (room : 0 < width ∧ width ≤ size) :
    (padded width n).length ≤ size := by
  rw [padded]
  split
  · rw [length_fixedDigits]
    exact room.2
  · exact (Nat.length_toDigits_le_iff (by decide) (room.1.trans_le room.2)).2 short

end Text.Decimal

namespace Time

open Text Decimal

namespace Reader

variable {digits rest : List Char} {n width : Nat}

/-- No more digits follow. -/
def Stops (rest : List Char) : Prop :=
  ∀ c ∈ rest.head?, Decimal.isDigit c = false

theorem stops_cons {c : Char} (h : Decimal.isDigit c = false) : Stops (c :: rest) := by
  intro d same
  cases same
  exact h

/-- A text that begins with digits does not begin with a blank. -/
theorem skipBlanks_digits (spells : Spells digits n) : skipBlanks (digits ++ rest) = digits ++ rest := by
  cases digits with
  | nil => exact absurd rfl spells.nonempty
  | cons d ds =>
    have unblank := isBlank_of_isDigit (spells.isDigit d List.mem_cons_self)
    rw [List.cons_append, skipBlanks, List.dropWhile_cons_of_neg (Bool.not_eq_true _ ▸ unblank)]

/-- What is taken as a number: all digits, up to the width. -/
theorem takeWhile_digits (spells : Spells digits n) (room : digits.length ≤ width)
    (ends : digits.length = width ∨ Stops rest) :
    ((digits ++ rest).take width).takeWhile Decimal.isDigit = digits := by
  rw [List.take_append, List.take_of_length_le room, List.takeWhile_append_of_pos spells.isDigit]
  refine Eq.trans (congrArg (digits ++ ·) ?_) (List.append_nil digits)
  rcases ends with full | stops
  · rw [full, Nat.sub_self, List.take_zero, List.takeWhile_nil]
  · cases rest with
    | nil => rw [List.take_nil, List.takeWhile_nil]
    | cons c cs =>
      have undigit := stops c rfl
      cases width - digits.length with
      | zero => rw [List.take_zero, List.takeWhile_nil]
      | succ more => rw [List.take_succ_cons, List.takeWhile_cons_of_neg (Bool.not_eq_true _ ▸ undigit)]

theorem number_eq (spells : Spells digits n) (small : n ≤ numberLimit) (room : digits.length ≤ width)
    (ends : digits.length = width ∨ Stops rest) : number width (digits ++ rest) = .ok (n, rest) := by
  have taken := takeWhile_digits spells room ends
  cases digits with
  | nil => exact absurd rfl spells.nonempty
  | cons d ds =>
    simp only [number, taken]
    simp only [List.cons_append]
    rw [spells.value, if_pos small, List.length_cons, List.drop_succ_cons, List.drop_left]
    rfl

/-- A field of two digits. -/
theorem field_eq {low high : Nat} (lower : low ≤ n) (upper : n ≤ high) (short : n < 100) :
    field 2 low high (padded 2 n ++ rest) = .ok (n, rest) := by
  have spells := spells_padded 1 n
  have full : (padded 2 n).length = 2 := length_padded short
  have small : n ≤ numberLimit := by
    simp only [numberLimit]
    omega
  rw [field, skipBlanks_digits spells, number_eq spells small (Nat.le_of_eq full) (.inl full)]
  exact if_pos ⟨lower, upper⟩

/-- A sign in front is neither a blank nor a digit. -/
theorem ne_of_spells {sign : Char} {cs : List Char} (spells : Spells digits n) (unlike : Decimal.isDigit sign = false) :
    digits ++ rest ≠ sign :: cs := by
  cases digits with
  | nil => exact absurd rfl spells.nonempty
  | cons d ds =>
    intro same
    have digit := spells.isDigit d List.mem_cons_self
    rw [(List.cons.inj same).1, unlike] at digit
    cases digit

/-- A year that fits in 32 bits, with its sign if it needs one. -/
theorem year_eq {y : Int} (lower : -2147483648 ≤ y) (upper : y ≤ 2147483647) (stops : Stops rest) :
    year (yearDigits y ++ rest) = .ok (y, rest) := by
  have small : y.natAbs ≤ numberLimit := by
    simp only [numberLimit]
    omega
  have spells := spells_padded 3 y.natAbs
  simp only [yearDigits]
  by_cases plain : 0 ≤ y ∧ y ≤ 9999
  · have same : (y.natAbs : Int) = y := Int.natAbs_of_nonneg plain.1
    have short : (padded 4 y.natAbs).length = 4 := length_padded (by omega)
    have read : number 4 (padded 4 y.natAbs ++ rest) = .ok (y.natAbs, rest) :=
      number_eq spells small (Nat.le_of_eq short) (.inl short)
    rw [if_pos plain, show y.toNat = y.natAbs by omega]
    simp only [year, skipBlanks_digits spells]
    split
    · rename_i cs minus
      exact absurd minus (ne_of_spells spells rfl)
    · rename_i cs plus
      exact absurd plus (ne_of_spells spells rfl)
    · rw [read]
      change (if -2147483648 ≤ (y.natAbs : Int) ∧ (y.natAbs : Int) ≤ 2147483647 then
        Except.ok ((y.natAbs : Int), rest) else _) = _
      rw [same, if_pos ⟨lower, upper⟩]
  · have read : number (padded 4 y.natAbs ++ rest).length (padded 4 y.natAbs ++ rest) = .ok (y.natAbs, rest) := by
      refine number_eq spells small ?_ (.inr stops)
      rw [List.length_append]
      exact Nat.le_add_right _ _
    rw [if_neg plain]
    by_cases negative : y < 0
    · have same : -(y.natAbs : Int) = y := by omega
      rw [if_pos negative]
      simp only [year, List.cons_append, skipBlanks, List.dropWhile_cons_of_neg (show ¬ isBlank '-' = true by decide)]
      rw [read]
      change (if -2147483648 ≤ -(y.natAbs : Int) ∧ -(y.natAbs : Int) ≤ 2147483647 then
        Except.ok (-(y.natAbs : Int), rest) else _) = _
      rw [same, if_pos ⟨lower, upper⟩]
    · have same : (y.natAbs : Int) = y := by omega
      rw [if_neg negative]
      simp only [year, List.cons_append, skipBlanks, List.dropWhile_cons_of_neg (show ¬ isBlank '+' = true by decide)]
      rw [read]
      change (if -2147483648 ≤ (y.natAbs : Int) ∧ (y.natAbs : Int) ≤ 2147483647 then
        Except.ok ((y.natAbs : Int), rest) else _) = _
      rw [same, if_pos ⟨lower, upper⟩]

/-- The fraction of a second, up to the zone. -/
theorem fraction_digits {width : Nat} (spells : Spells digits n) (full : digits.length = width) (room : width ≤ 9)
    (small : n ≤ numberLimit) (stops : Stops rest) :
    fraction ('.' :: (digits ++ rest)) = .ok (n * 10 ^ (9 - width), rest) := by
  have unused : rest.dropWhile Decimal.isDigit = rest := by
    cases rest with
    | nil => rfl
    | cons c cs => rw [List.dropWhile_cons_of_neg (Bool.not_eq_true _ ▸ stops c rfl)]
  rw [fraction, number_eq spells small (full ▸ room) (.inr stops)]
  have used : (digits ++ rest).length - rest.length = width := by
    rw [List.length_append, full, Nat.add_sub_cancel]
  change Except.ok (n * Nat.pow 10 (9 - ((digits ++ rest).length - rest.length)), rest.dropWhile Decimal.isDigit) = _
  rw [used, unused]
  rfl

theorem fraction_eq {nanos : Nat} (fits : nanos < 1000000000) :
    fraction (fractionDigits nanos ++ 'Z' :: rest) = .ok (nanos, 'Z' :: rest) := by
  have stops : Stops ('Z' :: rest) := stops_cons rfl
  have step : ∀ width m, width < 9 → m < 10 ^ (width + 1) →
      fraction ('.' :: (fixedDigits (width + 1) m ++ 'Z' :: rest)) = .ok (m * 10 ^ (9 - (width + 1)), 'Z' :: rest) := by
    intro width m room bound
    have below : 10 ^ (width + 1) ≤ 10 ^ 9 := Nat.pow_le_pow_right (by decide) room
    apply fraction_digits (spells_fixedDigits bound) (length_fixedDigits _ _) room _ stops
    simp only [numberLimit]
    omega
  simp only [fractionDigits]
  by_cases whole : nanos = 0
  · rw [if_pos whole, whole]
    rfl
  rw [if_neg whole]
  by_cases millis : nanos % 1000000 = 0
  · rw [if_pos millis, List.cons_append, step 2 _ (by decide) (by omega)]
    congr 2
    omega
  rw [if_neg millis]
  by_cases micros : nanos % 1000 = 0
  · rw [if_pos micros, List.cons_append, step 5 _ (by decide) (by omega)]
    congr 2
    omega
  · rw [if_neg micros, List.cons_append, step 8 _ (by decide) fits]
    congr 2
    omega

theorem literal_eq {c : Char} (unblank : isBlank c = false) : literal c (skipBlanks (c :: rest)) = .ok rest := by
  rw [skipBlanks, List.dropWhile_cons_of_neg (Bool.not_eq_true _ ▸ unblank), literal, if_pos rfl]
  rfl

end Reader

theorem Date.bounds {date : Date} (valid : date.isValid = true) :
    (-262143 ≤ date.year ∧ date.year ≤ 262142) ∧ (1 ≤ date.month ∧ date.month ≤ 12) ∧ 1 ≤ date.day ∧ date.day ≤ 31 := by
  obtain ⟨years, months, first, last⟩ := Date.isValid_iff.1 valid
  exact ⟨years, months, first, last.trans (Date.monthLength_le _ _)⟩

namespace Instant

/-- An instant of the supported range. A leap second goes on from the last second of a minute. -/
structure Supported (t : Instant) : Prop where
  inRange : t.inRange = true
  nanos : t.nanos < 1000000000 ∨ t.nanos < 2000000000 ∧ t.secs % 60 = 59

theorem secondOfDay_lt (t : Instant) : t.secondOfDay < 86400 := by
  simp only [secondOfDay]
  omega

variable {t : Instant}

theorem Supported.isValid_date (supported : t.Supported) : t.date.isValid = true := by
  have range := supported.inRange
  simp only [Instant.inRange, Bool.and_eq_true, decide_eq_true_eq] at range
  exact Date.isValid_ofDays range.1 range.2

/-- Day and time of day make up the instant. -/
theorem secs_eq (t : Instant) : t.date.toDays * 86400 +
    ((t.secondOfDay / 3600 * 3600 + t.secondOfDay / 60 % 60 * 60 + t.secondOfDay % 60 : Nat) : Int) - 0 = t.secs := by
  rw [show t.date.toDays = t.secs / 86400 from Date.toDays_ofDays (t.secs / 86400)]
  simp only [secondOfDay]
  omega

/-- The whole seconds that a leap second is ahead. -/
def leap (t : Instant) : Nat :=
  t.nanos / 1000000000

/-- The nanoseconds within a second, be it a leap second or not. -/
def fractionNanos (t : Instant) : Nat :=
  t.nanos - t.leap * 1000000000

/-- A leap second is told by the number 60. -/
theorem Supported.second_eq (supported : t.Supported) :
    (if t.secondOfDay % 60 + t.leap = 60 then (59, t.fractionNanos + 1000000000)
      else (t.secondOfDay % 60 + t.leap, t.fractionNanos)) = (t.secondOfDay % 60, t.nanos) := by
  have nanos := supported.nanos
  have fraction_eq : t.fractionNanos = t.nanos - t.leap * 1000000000 := rfl
  have secondOfMinute : t.secondOfDay % 60 = (t.secs % 60).toNat := by
    simp only [secondOfDay]
    omega
  have leap_eq : t.leap = t.nanos / 1000000000 := rfl
  split
  all_goals
    rw [Prod.mk.injEq]
    omega

theorem Supported.second_le (supported : t.Supported) : t.secondOfDay % 60 + t.leap ≤ 60 := by
  have nanos := supported.nanos
  simp only [leap, secondOfDay]
  omega

theorem fractionNanos_lt (t : Instant) : t.fractionNanos < 1000000000 := by
  simp only [fractionNanos, leap]
  omega

/-- The characters of a date and a time of day in UTC. -/
def spelling (date : Date) (hour minute second nanos : Nat) : List Char :=
  yearDigits date.year ++ '-' :: (padded 2 date.month ++ '-' :: (padded 2 date.day ++
    'T' :: (padded 2 hour ++ ':' :: (padded 2 minute ++ ':' :: (padded 2 second ++ (fractionDigits nanos ++ ['Z']))))))

theorem write_eq (t : Instant) : t.write .zulu =
    spelling t.date (t.secondOfDay / 3600) (t.secondOfDay / 60 % 60) (t.secondOfDay % 60 + t.leap)
      t.fractionNanos := by
  simp only [write, spelling, leap, fractionNanos, Zone.chars, List.append_assoc, List.cons_append]

open Reader in
/-- Reading takes the fields one by one and puts them together. -/
theorem read_spelling {date : Date} {hour minute second nanos ofMinute : Nat} (valid : date.isValid = true)
    (hour_le : hour ≤ 23) (minute_le : minute ≤ 59) (second_le : second ≤ 60) (nanos_lt : nanos < 1000000000)
    (noted : (if second = 60 then (59, nanos + 1000000000) else (second, nanos)) = (ofMinute, t.nanos))
    (secs : date.toDays * 86400 + ((hour * 3600 + minute * 60 + ofMinute : Nat) : Int) - 0 = t.secs)
    (inRange : t.inRange = true) : Instant.read (spelling date hour minute second nanos) = .ok t := by
  have bounds := Date.bounds valid
  have onYear : ∀ rest, year (yearDigits date.year ++ '-' :: rest) = .ok (date.year, '-' :: rest) :=
    fun rest => year_eq (by omega) (by omega) (stops_cons rfl)
  have onMonth : ∀ rest, field 2 1 12 (padded 2 date.month ++ rest) = .ok (date.month, rest) :=
    fun rest => field_eq (by omega) (by omega) (by omega)
  have onDay : ∀ rest, field 2 1 31 (padded 2 date.day ++ rest) = .ok (date.day, rest) :=
    fun rest => field_eq (by omega) (by omega) (by omega)
  have onHour : ∀ rest, field 2 0 23 (padded 2 hour ++ rest) = .ok (hour, rest) :=
    fun rest => field_eq (Nat.zero_le _) hour_le (by omega)
  have onMinute : ∀ rest, field 2 0 59 (padded 2 minute ++ rest) = .ok (minute, rest) :=
    fun rest => field_eq (Nat.zero_le _) minute_le (by omega)
  have onSecond : ∀ rest, field 2 0 60 (padded 2 second ++ rest) = .ok (second, rest) :=
    fun rest => field_eq (Nat.zero_le _) second_le (by omega)
  have onFraction : fraction (fractionDigits nanos ++ ['Z']) = .ok (nanos, ['Z']) := fraction_eq nanos_lt
  have dash : ∀ rest, literal '-' (skipBlanks ('-' :: rest)) = .ok rest := fun rest => literal_eq rfl
  have colon : ∀ rest, literal ':' (skipBlanks (':' :: rest)) = .ok rest := fun rest => literal_eq rfl
  have letter : ∀ rest, dateEnd ('T' :: rest) = .ok rest := fun rest => rfl
  have zulu : zone (skipBlanks ['Z']) = .ok (0, []) := rfl
  simp only [Instant.read, spelling, onYear, onMonth, onDay, onHour, onMinute, onSecond, onFraction, dash, colon,
    letter, zulu, bind, Except.bind]
  have nothing : (!(skipBlanks []).isEmpty) = false := rfl
  have near : ¬ 86400 ≤ Int.natAbs 0 := by decide
  simp only [nothing, valid, Bool.not_true, Bool.false_eq_true, if_false, if_neg near, noted, secs, inRange, if_true]
  rfl

/-- An instant is read back from its text. -/
theorem read_write (supported : t.Supported) : Instant.read (t.write .zulu) = .ok t := by
  have ofDay := t.secondOfDay_lt
  rw [write_eq]
  exact read_spelling supported.isValid_date (by omega) (by omega) supported.second_le t.fractionNanos_lt
    supported.second_eq t.secs_eq supported.inRange

/-- The text of an instant, as records hold it. -/
theorem read_toText (supported : t.Supported) : Instant.read t.toText.toList = .ok t := by
  rw [toText, String.toList_ofList]
  exact read_write supported

/-- The text of an instant is short. -/
theorem length_write_le (supported : t.Supported) : (t.write .zulu).length ≤ 40 := by
  have ofDay := t.secondOfDay_lt
  have ofMinute := supported.second_le
  have bounds := Date.bounds supported.isValid_date
  have year : (yearDigits t.date.year).length ≤ 7 := by
    simp only [yearDigits]
    split
    · exact (length_padded (by omega)).trans_le (by decide)
    · exact Nat.succ_le_succ (length_padded_le (by omega) (by decide))
  have month : (padded 2 t.date.month).length = 2 := length_padded (by omega)
  have day : (padded 2 t.date.day).length = 2 := length_padded (by omega)
  have hour : (padded 2 (t.secondOfDay / 3600)).length = 2 := length_padded (by omega)
  have minute : (padded 2 (t.secondOfDay / 60 % 60)).length = 2 := length_padded (by omega)
  have second : (padded 2 (t.secondOfDay % 60 + t.leap)).length = 2 := length_padded (by omega)
  have fraction : (fractionDigits t.fractionNanos).length ≤ 10 := by
    simp only [fractionDigits]
    repeat' split
    all_goals simp
  simp only [write_eq, spelling, List.length_append, List.length_cons, List.length_nil]
  omega

theorem utf8ByteSize_toText_le (supported : t.Supported) : t.toText.utf8ByteSize ≤ 160 := by
  have length := length_write_le supported
  have size := Utf8.utf8ByteSize_ofList_le (t.write .zulu)
  rw [toText]
  omega

end Instant

end Time

end Containment
