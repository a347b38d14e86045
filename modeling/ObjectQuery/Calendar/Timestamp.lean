import ObjectQuery.Calendar.Date

/-! Points in time in universal time, to the nanosecond. The text is
`YYYY-MM-DDTHH:MM:SS[.fraction]Z`; a text with another offset is moved to universal time. -/
namespace ObjectQuery
open Text (skipBlanks numeral pair padded isBlank)

structure TimeOfDay where
  hour : Nat
  minute : Nat
  second : Nat
  nanosecond : Nat
  real : hour < 24 ∧ minute < 60 ∧ second ≤ 60 ∧ nanosecond < 1000000000
  deriving DecidableEq, Repr

structure Timestamp where
  date : Date
  time : TimeOfDay
  deriving DecidableEq, Repr

namespace TimeOfDay

def of? (hour minute second nanosecond : Nat) : Option TimeOfDay :=
  if h : hour < 24 ∧ minute < 60 ∧ second ≤ 60 ∧ nanosecond < 1000000000 then
    some ⟨hour, minute, second, nanosecond, h⟩
  else none

def fractionText (nanosecond : Nat) : String :=
  if nanosecond = 0 then ""
  else if nanosecond % 1000000 = 0 then "." ++ padded 3 (nanosecond / 1000000)
  else if nanosecond % 1000 = 0 then "." ++ padded 6 (nanosecond / 1000)
  else "." ++ padded 9 nanosecond

def text (t : TimeOfDay) : String :=
  padded 2 t.hour ++ ":" ++ padded 2 t.minute ++ ":" ++ padded 2 t.second ++ fractionText t.nanosecond

def colon (cs : List Char) : Option (List Char) :=
  match skipBlanks cs with
  | ':' :: rest => some rest
  | _ => none

def readFraction : List Char → Option (Nat × List Char)
  | '.' :: rest => do
    let (n, after) ← numeral 9 rest
    some (n * Nat.pow 10 (9 - (rest.length - after.length)), after.dropWhile Char.isDigit)
  | cs => some (0, cs)

def read (cs : List Char) : Option (TimeOfDay × List Char) := do
  let (hour, cs) ← numeral 2 (skipBlanks cs)
  let (minute, cs) ← numeral 2 (skipBlanks (← colon cs))
  let (second, cs) ← numeral 2 (skipBlanks (← colon cs))
  let (nanosecond, cs) ← readFraction cs
  some (← of? hour minute second nanosecond, cs)

end TimeOfDay

namespace Timestamp

def text (t : Timestamp) : String := t.date.text ++ "T" ++ t.time.text ++ "Z"

def readOffset (cs : List Char) : Option (Int × List Char) :=
  let clock (negative : Bool) (cs : List Char) : Option (Int × List Char) := do
    let (hours, cs) ← pair cs
    let (minutes, cs) ← pair (cs.dropWhile fun c => c == ':' || isBlank c)
    if hours < 24 ∧ minutes < 60 then
      let offset : Int := 60 * hours + minutes
      some (if negative then -offset else offset, cs)
    else none
  match cs with
  | 'Z' :: rest | 'z' :: rest => some (0, rest)
  | '+' :: rest => clock false rest
  | '-' :: rest | '−' :: rest => clock true rest
  | u :: t :: c :: rest => if [u.toUpper, t.toUpper, c.toUpper] = ['U', 'T', 'C'] then some (0, rest) else none
  | _ => none

def toUniversal (date : Date) (time : TimeOfDay) (offset : Int) : Option Timestamp := do
  let minutes : Int := 60 * time.hour + time.minute - offset
  let date ← if minutes < 0 then date.previous? else if 1440 ≤ minutes then date.next? else some date
  let minute := (minutes % 1440).toNat
  let time ← TimeOfDay.of? (minute / 60) (minute % 60) time.second time.nanosecond
  some ⟨date, time⟩

def ofText? (s : String) : Option Timestamp := do
  let (date, cs) ← Date.read s.toList
  let cs ← match cs with
    | 'T' :: rest | 't' :: rest | ' ' :: rest => some rest
    | _ => none
  let (time, cs) ← TimeOfDay.read cs
  let (offset, cs) ← readOffset (skipBlanks cs)
  let t ← toUniversal date time offset
  if (skipBlanks cs).isEmpty then some t else none

end Timestamp
end ObjectQuery
