import DyeIsLife.Time.Calendar
import Mathlib.Algebra.Group.Nat.Defs

/-!
# Printed times

`DateTime.now().toString()` prints the fields of the local wall clock without
the offset of its time zone: `2020-04-26 17:07:11.250` with three more digits
unless the microseconds are zero.  The text determines the local reading, and
nothing more: two clocks in different zones print the same text whenever they
show the same time.
-/

namespace DyeIsLife.Time

/-! ## Padded numbers -/

/-- The decimal digits of a number, padded with zeros. -/
def digits (width n : Nat) : List Char :=
  List.replicate (width - (Nat.toDigits 10 n).length) '0' ++ Nat.toDigits 10 n

theorem ofDigitChars_digits (width n : Nat) : Nat.ofDigitChars 10 (digits width n) 0 = n := by
  rw [digits, Nat.ofDigitChars_append, Nat.ofDigitChars_replicate_zero, Nat.mul_zero,
    Nat.ofDigitChars_ten_toDigits]

theorem digits_injective {width n n' : Nat} (same : digits width n = digits width n') :
    n = n' := by
  rw [← ofDigitChars_digits width n, same, ofDigitChars_digits]

theorem isDigit_of_mem_digits {width n : Nat} {c : Char} (member : c ∈ digits width n) :
    c.isDigit = true := by
  rcases List.mem_append.mp member with padding | digit
  · rw [List.eq_of_mem_replicate padding]
    rfl
  · exact Nat.isDigit_of_mem_toDigits (by decide) (by decide) digit

theorem not_mem_digits {c : Char} (separator : c.isDigit = false) (width n : Nat) :
    c ∉ digits width n := by
  intro member
  rw [isDigit_of_mem_digits member] at separator
  contradiction

theorem digits_ne_nil (width n : Nat) : digits width n ≠ [] := by
  intro nothing
  exact Nat.toDigits_ne_nil (List.append_eq_nil_iff.mp nothing).2

theorem length_digits {width n : Nat} (positive : 0 < width) (small : n < 10 ^ width) :
    (digits width n).length = width := by
  have short := (Nat.length_toDigits_le_iff (by decide : 1 < 10) positive).mpr small
  rw [digits, List.length_append, List.length_replicate]
  omega

/-- The four digits of a year, with a sign before the common era. -/
def yearDigits (year : Int) : List Char :=
  (if year < 0 then ['-'] else []) ++ digits 4 year.natAbs

theorem yearDigits_injective {year year' : Int} (same : yearDigits year = yearDigits year') :
    year = year' := by
  have noSign : ∀ n rest, digits 4 n ≠ '-' :: rest := by
    intro n rest starts
    apply not_mem_digits (by decide : '-'.isDigit = false) 4 n
    rw [starts]
    exact List.mem_cons_self
  unfold yearDigits at same
  split at same
  · split at same
    · have sameDigits := digits_injective (List.append_cancel_left same)
      omega
    · exact absurd same.symm (noSign _ _)
  · split at same
    · exact absurd same (noSign _ _)
    · have sameDigits := digits_injective same
      omega

/-! ## The text of a reading -/

/-- The digits behind the point. -/
def fraction (millisecond microsecond : Nat) : List Char :=
  digits 3 millisecond ++ if microsecond = 0 then [] else digits 3 microsecond

theorem not_mem_fraction {c : Char} (separator : c.isDigit = false)
    (millisecond microsecond : Nat) : c ∉ fraction millisecond microsecond := by
  intro member
  rcases List.mem_append.mp member with first | second
  · exact not_mem_digits separator 3 millisecond first
  · split at second
    · contradiction
    · exact not_mem_digits separator 3 microsecond second

theorem fraction_injective {millisecond millisecond' microsecond microsecond' : Nat}
    (small : millisecond < 1000) (small' : millisecond' < 1000)
    (same : fraction millisecond microsecond = fraction millisecond' microsecond') :
    millisecond = millisecond' ∧ microsecond = microsecond' := by
  have lengths : (digits 3 millisecond).length = (digits 3 millisecond').length := by
    rw [length_digits (by decide) small, length_digits (by decide) small']
  rcases List.append_inj same lengths with ⟨first, second⟩
  constructor
  · exact digits_injective first
  · split at second
    · rename_i zero
      split at second
      · rename_i zero'
        rw [zero, zero']
      · exact absurd second.symm (digits_ne_nil 3 microsecond')
    · split at second
      · exact absurd second (digits_ne_nil 3 microsecond)
      · exact digits_injective second

namespace WallClock

/-- The characters of `toString`. -/
def chars (clock : WallClock) : List Char :=
  yearDigits clock.date.year ++ '-' :: digits 2 clock.date.month ++ '-' :: digits 2 clock.date.day ++
    ' ' :: digits 2 clock.hour ++ ':' :: digits 2 clock.minute ++ ':' :: digits 2 clock.second ++
    '.' :: fraction clock.millisecond clock.microsecond

/-- `DateTime.toString` of a local time. -/
def toString (clock : WallClock) : String :=
  String.ofList clock.chars

end WallClock

/-- The two sides of the last occurrence of a separator. -/
theorem append_cons_inj {α : Type} {separator : α} {before before' after after' : List α}
    (absent : separator ∉ after) (absent' : separator ∉ after')
    (same : before ++ separator :: after = before' ++ separator :: after') :
    before = before' ∧ after = after' := by
  rcases List.append_eq_append_iff.mp same with ⟨middle, rfl, rest⟩ | ⟨middle, rfl, rest⟩
  · cases middle with
    | nil =>
        cases rest
        exact ⟨(List.append_nil before).symm, rfl⟩
    | cons first middle =>
        cases rest
        exact absurd (List.mem_append_right _ List.mem_cons_self) absent
  · cases middle with
    | nil =>
        cases rest
        exact ⟨List.append_nil before', rfl⟩
    | cons first middle =>
        cases rest
        exact absurd (List.mem_append_right _ List.mem_cons_self) absent'

namespace WallClock

/-- The text determines all fields. -/
theorem chars_injective {clock clock' : WallClock} (small : clock.millisecond < 1000)
    (small' : clock'.millisecond < 1000) (same : clock.chars = clock'.chars) : clock = clock' := by
  have noSeparator : ∀ {c : Char}, c.isDigit = false → ∀ n, c ∉ digits 2 n :=
    fun separator n => not_mem_digits separator 2 n
  rcases append_cons_inj (not_mem_fraction (by decide) _ _) (not_mem_fraction (by decide) _ _) same
    with ⟨toSeconds, fractions⟩
  rcases append_cons_inj (noSeparator (by decide) _) (noSeparator (by decide) _) toSeconds
    with ⟨toMinutes, seconds⟩
  rcases append_cons_inj (noSeparator (by decide) _) (noSeparator (by decide) _) toMinutes
    with ⟨toHours, minutes⟩
  rcases append_cons_inj (noSeparator (by decide) _) (noSeparator (by decide) _) toHours
    with ⟨toDays, hours⟩
  rcases append_cons_inj (noSeparator (by decide) _) (noSeparator (by decide) _) toDays
    with ⟨toMonths, days⟩
  rcases append_cons_inj (noSeparator (by decide) _) (noSeparator (by decide) _) toMonths
    with ⟨years, months⟩
  rcases fraction_injective small small' fractions with ⟨milliseconds, microseconds⟩
  rcases clock with ⟨⟨year, month, day⟩, hour, minute, second, millisecond, microsecond⟩
  rcases clock' with ⟨⟨year', month', day'⟩, hour', minute', second', millisecond', microsecond'⟩
  cases yearDigits_injective years
  cases digits_injective months
  cases digits_injective days
  cases digits_injective hours
  cases digits_injective minutes
  cases digits_injective seconds
  cases milliseconds
  cases microseconds
  rfl

/-- Two readings with the same text are the same reading. -/
theorem toString_ofMicroseconds_injective {reading reading' : Int}
    (same : (ofMicroseconds reading).toString = (ofMicroseconds reading').toString) :
    reading = reading' := by
  apply ofMicroseconds_injective
  exact chars_injective (millisecond_ofMicroseconds_lt reading)
    (millisecond_ofMicroseconds_lt reading') (String.ofList_injective same)

end WallClock

example : (WallClock.ofMicroseconds 1587920831250000).toString = "2020-04-26 17:07:11.250" := by
  decide

/-! ## Local time -/

/-- A time zone: the offset of local time at each instant, in microseconds.
It may change with the seasons. -/
abbrev TimeZone := Int → Int

/-- What a wall clock shows in a zone at an instant. -/
def TimeZone.localTime (zone : TimeZone) (now : Int) : Int :=
  now + zone now

end DyeIsLife.Time
