import ObjectQuery.Decimal.Shortest
import ObjectQuery.Text.Numeral

/-! Floating-point numbers from written decimals by one scaling. The digits make a significand
of 64 bits, and a rounded product or quotient with a power of ten gives the number, which is
close to the decimal but not always the nearest. -/
namespace ObjectQuery.Decimal

namespace Scaled

def push? (significand : Nat) (digit : Char) : Option Nat :=
  let n := 10 * significand + Text.digitValue digit
  if n < UInt64.size then some n else none

def ofWhole (significand : Nat) : List Char → Scaled
  | [] => ⟨significand, 0⟩
  | d :: rest =>
    match push? significand d with
    | some n => ofWhole n rest
    | none => ⟨significand, rest.length + 1⟩

def withFraction (s : Scaled) : List Char → Scaled
  | [] => s
  | d :: rest =>
    match push? s.digits d with
    | some n => withFraction ⟨n, s.exponent - 1⟩ rest
    | none => s

def ofDigits (whole fraction : List Char) (exponent : Int) : Scaled :=
  let s := (ofWhole 0 whole).withFraction fraction
  { s with exponent := s.exponent + exponent }

end Scaled

def greatestPower : Nat := 308

def powerOfTen (exponent : Nat) : Float := Float.ofScientific 1 false exponent

def divide (x : Float) (places : Nat) : Float :=
  if places ≤ greatestPower then x / powerOfTen places
  else if x == 0 then x
  else divide (x / powerOfTen greatestPower) (places - greatestPower)
termination_by places
decreasing_by simp only [greatestPower] at *; omega

def Scaled.scale? (s : Scaled) : Option Float :=
  let x := Float.ofNat s.digits
  if s.exponent < 0 then some (divide x s.exponent.natAbs)
  else if s.exponent ≤ greatestPower then
    let y := x * powerOfTen s.exponent.toNat
    if y.isInf then none else some y
  else if s.digits = 0 then some x
  else none

end ObjectQuery.Decimal
