import ObjectQuery.Calendar.Timestamp
import ObjectQuery.Proofs.Text

/-! Written dates and points in time. Numerals are read up to the next character that is no digit, or up to
their greatest width, so each text is read as what was written. -/
namespace ObjectQuery
open Text

namespace Text

def Stops (cs : List Char) : Prop := ∀ c rest, cs = c :: rest → c.isDigit = false

theorem Stops.cons {c : Char} {rest : List Char} (other : c.isDigit = false) : Stops (c :: rest) := by
  intro d more same
  cases same
  exact other

theorem Stops.dropWhile {cs : List Char} (stops : Stops cs) : cs.dropWhile Char.isDigit = cs := by
  cases cs with
  | nil => rfl
  | cons c rest => simp [stops c rest rfl]

theorem valueOfNat (n : Nat) : valueOf (toString n).toList = n := by
  rw [Nat.toString_eq_ofList_toDigits, String.toList_ofList]
  exact Nat.ofDigitChars_ten_toDigits

theorem paddedList (width n : Nat) :
    (padded width n).toList = List.replicate (width - (toString n).length) '0' ++ (toString n).toList := by
  simp [padded]

theorem paddedDigits {width n : Nat} {c : Char} (mem : c ∈ (padded width n).toList) : c.isDigit = true := by
  rw [paddedList] at mem
  rcases List.mem_append.mp mem with mem | mem
  · rw [List.eq_of_mem_replicate mem]
    decide
  · exact digitOfNat mem

theorem paddedSome (width n : Nat) : (padded width n).toList ≠ [] := by
  rw [paddedList, Nat.toString_eq_ofList_toDigits, String.toList_ofList]
  exact List.append_ne_nil_of_right_ne_nil _ Nat.toDigits_ne_nil

theorem valueOfPadded (width n : Nat) : valueOf (padded width n).toList = n := by
  rw [paddedList]
  change Nat.ofDigitChars 10 _ 0 = n
  rw [Nat.ofDigitChars_append, Nat.ofDigitChars_replicate_zero]
  exact valueOfNat n

theorem paddedLength {width n : Nat} (some : 0 < width) (bound : n < Nat.pow 10 width) :
    (padded width n).toList.length = width := by
  have short : (toString n).length ≤ width := by
    rw [Nat.toString_eq_ofList_toDigits, String.length_ofList]
    exact (Nat.length_toDigits_le_iff (by decide) some).mpr bound
  rw [paddedList, List.length_append, List.length_replicate, String.length_toList]
  omega

theorem numeralRead {width : Nat} {digits rest : List Char} (each : ∀ c ∈ digits, c.isDigit = true)
    (some : digits ≠ []) (short : digits.length ≤ width) (ends : Stops rest ∨ digits.length = width) :
    numeral width (digits ++ rest) = .some (valueOf digits, rest) := by
  have front : ((digits ++ rest).take width).takeWhile Char.isDigit = digits := by
    have none : (rest.take (width - digits.length)).takeWhile Char.isDigit = [] := by
      rcases ends with stops | full
      · cases rest with
        | nil => simp
        | cons c more =>
          cases width - digits.length with
          | zero => rfl
          | succ k => simp [stops c more rfl]
      · simp [full]
    rw [List.take_append, List.take_of_length_le short, List.takeWhile_append_of_pos each, none,
      List.append_nil]
  have present : digits.isEmpty = false := by simpa using some
  simp only [numeral, front, present, Bool.false_eq_true, if_false, List.drop_left]

theorem numeralPadded {width greatest n : Nat} {rest : List Char} (short : (padded width n).toList.length ≤ greatest)
    (ends : Stops rest ∨ (padded width n).toList.length = greatest) :
    numeral greatest ((padded width n).toList ++ rest) = some (n, rest) := by
  rw [numeralRead (fun _ mem => paddedDigits mem) (paddedSome width n) short ends, valueOfPadded]

theorem numeralTwo {n : Nat} (bound : n < 100) (rest : List Char) :
    numeral 2 ((padded 2 n).toList ++ rest) = some (n, rest) := by
  have full : (padded 2 n).toList.length = 2 := paddedLength (by decide) bound
  exact numeralPadded (Nat.le_of_eq full) (.inr full)

theorem skipBlanksDigit {c : Char} {rest : List Char} (digit : c.isDigit = true) :
    skipBlanks (c :: rest) = c :: rest := by
  have range : 48 ≤ c.toNat ∧ c.toNat ≤ 57 := by
    simpa [Char.isDigit, UInt32.le_iff_toNat_le] using digit
  have full : isBlank c = false := by
    simp only [isBlank, Bool.or_eq_false_iff, Bool.and_eq_false_iff, decide_eq_false_iff_not, beq_eq_false_iff_ne]
    omega
  simp [skipBlanks, full]

theorem skipBlanksPadded (width n : Nat) (rest : List Char) :
    skipBlanks ((padded width n).toList ++ rest) = (padded width n).toList ++ rest := by
  cases digits : (padded width n).toList with
  | nil => exact absurd digits (paddedSome width n)
  | cons c more => exact skipBlanksDigit (paddedDigits (digits ▸ List.mem_cons_self))

end Text

namespace Date
open Calendar

theorem readYearDigits {digits rest : List Char} (each : ∀ c ∈ digits, c.isDigit = true) (some : digits ≠ []) :
    readYear (digits ++ rest) = (numeral 4 (digits ++ rest)).map fun read => ((read.1 : Int), read.2) := by
  cases digits with
  | nil => exact absurd rfl some
  | cons c more =>
    have digit := each c List.mem_cons_self
    have unsigned : c ≠ '-' ∧ c ≠ '+' := by
      constructor
      · rintro rfl; cases digit
      · rintro rfl; cases digit
    unfold readYear
    split
    · next same => exact absurd (List.cons.inj same).1 unsigned.1
    · next same => exact absurd (List.cons.inj same).1 unsigned.2
    · cases numeral 4 (c :: more ++ rest) <;> rfl

theorem yearRead (year : Int) {rest : List Char} (stops : Stops rest) :
    readYear (skipBlanks ((yearText year).toList ++ rest)) = some (year, rest) := by
  have whole : numeral ((padded 4 year.natAbs).toList ++ rest).length ((padded 4 year.natAbs).toList ++ rest) =
      some (year.natAbs, rest) :=
    numeralPadded (by simp) (.inl stops)
  have minus (cs : List Char) : skipBlanks ('-' :: cs) = '-' :: cs := rfl
  have plus (cs : List Char) : skipBlanks ('+' :: cs) = '+' :: cs := rfl
  unfold yearText
  split
  · next plain =>
    have full : (padded 4 year.toNat).toList.length = 4 := paddedLength (by decide) (show _ < 10000 by omega)
    have same : ((year.toNat : Nat) : Int) = year := by omega
    rw [skipBlanksPadded, readYearDigits (fun _ mem => paddedDigits mem) (paddedSome _ _),
      numeralPadded (Nat.le_of_eq full) (.inr full)]
    simp [same]
  · split
    · next negative =>
      have same : -((year.natAbs : Nat) : Int) = year := by omega
      have parts : ("-" ++ padded 4 year.natAbs).toList ++ rest = '-' :: ((padded 4 year.natAbs).toList ++ rest) := by
        simp
      rw [parts, minus]
      simp only [readYear, whole, Option.bind_eq_bind, Option.bind_some, same]
    · next positive =>
      have same : ((year.natAbs : Nat) : Int) = year := by omega
      have parts : ("+" ++ padded 4 year.natAbs).toList ++ rest = '+' :: ((padded 4 year.natAbs).toList ++ rest) := by
        simp
      rw [parts, plus]
      simp only [readYear, whole, Option.bind_eq_bind, Option.bind_some, same]

theorem textRead (d : Date) (rest : List Char) :
    read (d.text.toList ++ rest) = some (d, rest) := by
  obtain ⟨year, month, day, real⟩ := d
  have small : month < 100 ∧ day < 100 := by
    obtain ⟨_, _, _, month12, _, inMonth⟩ := real
    refine ⟨by omega, Nat.lt_of_le_of_lt inMonth ?_⟩
    unfold daysIn
    repeat' split
    all_goals decide
  have dashed (cs : List Char) : dash ('-' :: cs) = some cs := rfl
  have parts : (text ⟨year, month, day, real⟩).toList ++ rest =
      (yearText year).toList ++ ('-' :: ((padded 2 month).toList ++ ('-' :: ((padded 2 day).toList ++ rest)))) := by
    simp [text]
  rw [parts]
  simp only [read, yearRead year (Stops.cons (c := '-') rfl), dashed, skipBlanksPadded,
    numeralTwo small.1, numeralTwo small.2, Option.bind_eq_bind, Option.bind_some, of?, dif_pos real]

theorem ofText (d : Date) : ofText? d.text = some d := by
  have whole := d.textRead []
  rw [List.append_nil] at whole
  simp only [ofText?, whole, Option.bind_eq_bind, Option.bind_some]
  rfl

end Date

namespace TimeOfDay

theorem fractionRead {n : Nat} (bound : n < 1000000000) {rest : List Char} (stops : Stops rest)
    (other : ∀ more, rest ≠ '.' :: more) : readFraction ((fractionText n).toList ++ rest) = some (n, rest) := by
  have read (width value : Nat) (some : 0 < width) (le : width ≤ 9) (small : value < Nat.pow 10 width) :
      readFraction (("." ++ padded width value).toList ++ rest) = .some (value * Nat.pow 10 (9 - width), rest) := by
    have full : (padded width value).toList.length = width := paddedLength some small
    have digits : numeral 9 ((padded width value).toList ++ rest) = .some (value, rest) :=
      numeralPadded (full.symm ▸ le) (.inl stops)
    have parts : ("." ++ padded width value).toList ++ rest = '.' :: ((padded width value).toList ++ rest) := by
      simp
    have length : ((padded width value).toList ++ rest).length - rest.length = width := by
      rw [List.length_append, full]
      omega
    rw [parts]
    simp only [readFraction, digits, Option.bind_eq_bind, Option.bind_some, length, stops.dropWhile]
  unfold fractionText
  split
  · next none =>
    subst none
    change readFraction rest = _
    unfold readFraction
    split
    · next more => exact absurd rfl (other more)
    · rfl
  · split
    · next thousands =>
      rw [read 3 _ (by decide) (by decide) (show _ < 1000 by omega)]
      simp only [Option.some.injEq, Prod.mk.injEq, and_true]
      change n / 1000000 * 1000000 = n
      omega
    · split
      · rw [read 6 _ (by decide) (by decide) (show _ < 1000000 by omega)]
        simp only [Option.some.injEq, Prod.mk.injEq, and_true]
        change n / 1000 * 1000 = n
        omega
      · rw [read 9 _ (by decide) (by decide) bound]
        simp only [Option.some.injEq, Prod.mk.injEq, and_true]
        exact Nat.mul_one n

theorem textRead (t : TimeOfDay) {rest : List Char} (stops : Stops rest) (other : ∀ more, rest ≠ '.' :: more) :
    read (t.text.toList ++ rest) = some (t, rest) := by
  obtain ⟨hour, minute, second, nanosecond, real⟩ := t
  have colons (cs : List Char) : colon (':' :: cs) = some cs := rfl
  have parts : (text ⟨hour, minute, second, nanosecond, real⟩).toList ++ rest =
      (padded 2 hour).toList ++ (':' :: ((padded 2 minute).toList ++ (':' :: ((padded 2 second).toList ++
        ((fractionText nanosecond).toList ++ rest))))) := by
    simp [text]
  have fraction := fractionRead real.2.2.2 stops other
  rw [parts]
  simp only [read, colons, skipBlanksPadded, numeralTwo (show hour < 100 by omega),
    numeralTwo (show minute < 100 by omega), numeralTwo (show second < 100 by omega), fraction,
    Option.bind_eq_bind, Option.bind_some, of?, dif_pos real]

end TimeOfDay

namespace Timestamp

theorem toUniversalSelf (t : Timestamp) : toUniversal t.date t.time 0 = some t := by
  obtain ⟨date, ⟨hour, minute, second, nanosecond, real⟩⟩ := t
  obtain ⟨hours, minutes, seconds, nanoseconds⟩ := real
  have today : ¬ (60 * (hour : Int) + minute - 0 < 0) ∧ ¬ 1440 ≤ 60 * (hour : Int) + minute - 0 := by omega
  have clock : ((60 * (hour : Int) + minute - 0) % 1440).toNat = 60 * hour + minute := by omega
  have parts : (60 * hour + minute) / 60 = hour ∧ (60 * hour + minute) % 60 = minute := by omega
  simp only [toUniversal, today, if_false, clock, parts, Option.bind_eq_bind, Option.bind_some, TimeOfDay.of?]
  rw [dif_pos ⟨hours, minutes, seconds, nanoseconds⟩]
  rfl

theorem ofText (t : Timestamp) : ofText? t.text = some t := by
  have zone : Stops ['Z'] := Stops.cons rfl
  have time : TimeOfDay.read (t.time.text.toList ++ ['Z']) = some (t.time, ['Z']) := t.time.textRead zone nofun
  have date := t.date.textRead ('T' :: (t.time.text.toList ++ ['Z']))
  have parts : t.text.toList = t.date.text.toList ++ ('T' :: (t.time.text.toList ++ ['Z'])) := by
    simp [text]
  have offset : readOffset (skipBlanks ['Z']) = some (0, []) := rfl
  simp only [ofText?, parts, date, time, offset, toUniversalSelf, Option.bind_eq_bind, Option.bind_some]
  rfl

end Timestamp
end ObjectQuery
