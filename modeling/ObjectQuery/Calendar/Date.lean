import ObjectQuery.Text.Blank
import ObjectQuery.Text.Numeral

/-! Days of the proleptic Gregorian calendar, and their text `YYYY-MM-DD`. Years outside
0 to 9999 carry a sign. -/
namespace ObjectQuery
open Text (skipBlanks numeral padded)

namespace Calendar

def isLeap (year : Int) : Bool := year % 4 == 0 && (year % 100 != 0 || year % 400 == 0)

def daysIn (year : Int) (month : Nat) : Nat :=
  if month = 2 then (if isLeap year then 29 else 28)
  else if month = 4 ∨ month = 6 ∨ month = 9 ∨ month = 11 then 30
  else 31

def firstYear : Int := -262143

def lastYear : Int := 262142

def Exists (year : Int) (month day : Nat) : Prop :=
  firstYear ≤ year ∧ year ≤ lastYear ∧ 1 ≤ month ∧ month ≤ 12 ∧ 1 ≤ day ∧ day ≤ daysIn year month

instance (year : Int) (month day : Nat) : Decidable (Exists year month day) := by
  unfold Exists; infer_instance

end Calendar

structure Date where
  year : Int
  month : Nat
  day : Nat
  real : Calendar.Exists year month day
  deriving DecidableEq, Repr

namespace Date
open Calendar

def of? (year : Int) (month day : Nat) : Option Date :=
  if h : Exists year month day then some ⟨year, month, day, h⟩ else none

def next? (d : Date) : Option Date :=
  if d.day < daysIn d.year d.month then of? d.year d.month (d.day + 1)
  else if d.month < 12 then of? d.year (d.month + 1) 1
  else of? (d.year + 1) 1 1

def previous? (d : Date) : Option Date :=
  if 1 < d.day then of? d.year d.month (d.day - 1)
  else if 1 < d.month then of? d.year (d.month - 1) (daysIn d.year (d.month - 1))
  else of? (d.year - 1) 12 31

def yearText (year : Int) : String :=
  if 0 ≤ year ∧ year ≤ 9999 then padded 4 year.toNat
  else (if year < 0 then "-" else "+") ++ padded 4 year.natAbs

def text (d : Date) : String :=
  yearText d.year ++ "-" ++ padded 2 d.month ++ "-" ++ padded 2 d.day

def readYear (cs : List Char) : Option (Int × List Char) :=
  match cs with
  | '-' :: rest => do let (n, rest) ← numeral rest.length rest; some (-(n : Int), rest)
  | '+' :: rest => do let (n, rest) ← numeral rest.length rest; some ((n : Int), rest)
  | _ => do let (n, rest) ← numeral 4 cs; some ((n : Int), rest)

def dash (cs : List Char) : Option (List Char) :=
  match skipBlanks cs with
  | '-' :: rest => some rest
  | _ => none

def read (cs : List Char) : Option (Date × List Char) := do
  let (year, cs) ← readYear (skipBlanks cs)
  let (month, cs) ← numeral 2 (skipBlanks (← dash cs))
  let (day, cs) ← numeral 2 (skipBlanks (← dash cs))
  some (← of? year month day, cs)

def ofText? (s : String) : Option Date := do
  let (date, rest) ← read s.toList
  if (skipBlanks rest).isEmpty then some date else none

end Date
end ObjectQuery
