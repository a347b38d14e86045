import ObjectQuery.Decimal.Shortest

/-! Layout of decimal digits as text: positional within a range of magnitudes, otherwise
with a signed exponent. -/
namespace ObjectQuery.Decimal

/-- The decisions of a number format. The point of `0.d₁d₂… * 10 ^ p` is `p`; numbers whose
point lies in the range are written positionally. -/
structure Notation where
  leastPoint : Int
  greatestPoint : Int
  deriving DecidableEq, Repr

def zeros (n : Nat) : String := String.ofList (List.replicate n '0')

def Scaled.point (d : Scaled) : Int := d.exponent + (toString d.digits).length

def positional (digits : List Char) (point : Int) : String :=
  if point ≤ 0 then "0." ++ zeros (-point).toNat ++ String.ofList digits
  else if digits.length ≤ point.toNat then
    String.ofList digits ++ zeros (point.toNat - digits.length) ++ ".0"
  else String.ofList (digits.take point.toNat) ++ "." ++ String.ofList (digits.drop point.toNat)

def scientific (digits : List Char) (exponent : Int) : String :=
  let mantissa := match digits with
    | [] => ""
    | [d] => String.singleton d
    | d :: rest => String.singleton d ++ "." ++ String.ofList rest
  mantissa ++ "e" ++ (if exponent < 0 then "-" else "+") ++ toString exponent.natAbs

def Notation.magnitude (style : Notation) (d : Scaled) : String :=
  let digits := (toString d.digits).toList
  if d.digits = 0 then "0.0"
  else if style.leastPoint ≤ d.point ∧ d.point ≤ style.greatestPoint then positional digits d.point
  else scientific digits (d.point - 1)

def isNegative (x : Float) : Bool := x.toBits.toNat / Nat.pow 2 63 == 1

def isFinite (x : Float) : Bool := x.toBits.toNat / Nat.pow 2 52 % 2048 != 2047

def Notation.text (style : Notation) (x : Float) : String :=
  (if isNegative x then "-" else "") ++ style.magnitude (shortest x)

end ObjectQuery.Decimal
