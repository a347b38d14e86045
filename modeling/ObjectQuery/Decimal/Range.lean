import ObjectQuery.Decimal.Notation

/-! The range of floating-point numbers among decimals. -/
namespace ObjectQuery.Decimal

def Scaled.isInRange (d : Scaled) : Bool :=
  if d.digits = 0 ∨ d.point < -400 then true
  else if 400 < d.point then false
  -- decimals round to infinity from halfway between the greatest number and `2 ^ 1024`
  else comparePowers d.digits 10 d.exponent (Nat.pow 2 54 - 1) 2 970 == .lt

end ObjectQuery.Decimal
