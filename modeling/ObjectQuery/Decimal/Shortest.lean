/-! The fewest decimal digits that identify a binary floating-point number. A finite
number stands for the interval of reals that round to it; the shortest decimal is the
coarsest grid point in that interval, and the one nearest to the number among those. -/
namespace ObjectQuery.Decimal

structure Binary where
  significand : Nat
  exponent : Int
  narrowBelow : Bool
  deriving DecidableEq, Repr

structure Scaled where
  digits : Nat
  exponent : Int
  deriving DecidableEq, Repr

def Binary.ofFloat (x : Float) : Binary :=
  let bits : Nat := x.toBits.toNat
  let fraction : Nat := bits % Nat.pow 2 52
  let biased : Nat := bits / Nat.pow 2 52 % 2048
  if biased = 0 then ⟨fraction, -1074, false⟩
  else ⟨Nat.pow 2 52 + fraction, (biased : Int) - 1075, fraction == 0 && biased > 1⟩

def comparePowers (a base : Nat) (p : Int) (b other : Nat) (q : Int) : Ordering :=
  compare (a * base.pow p.toNat * other.pow (-q).toNat) (b * other.pow q.toNat * base.pow (-p).toNat)

def Binary.contains (v : Binary) (d : Scaled) : Bool :=
  let quarters := v.exponent - 2
  let low := 4 * v.significand - (if v.narrowBelow then 1 else 2)
  let high := 4 * v.significand + 2
  let above := comparePowers d.digits 10 d.exponent low 2 quarters
  let below := comparePowers d.digits 10 d.exponent high 2 quarters
  -- the ends round to the number exactly when the significand is even
  (above == .gt || (above == .eq && v.significand % 2 == 0)) &&
    (below == .lt || (below == .eq && v.significand % 2 == 0))

def Binary.scale (v : Binary) : Int :=
  -- the binary logarithm is off by at most two
  let guess := ((Nat.log2 v.significand : Int) + v.exponent) * 30103 / 100000
  let fits (k : Int) := comparePowers v.significand 2 v.exponent 1 10 k == .lt
  if fits (guess - 1) then guess - 1
  else if fits guess then guess
  else if fits (guess + 1) then guess + 1
  else guess + 2

def Binary.floorOn (v : Binary) (grid : Int) : Nat :=
  (v.significand * Nat.pow 2 v.exponent.toNat * Nat.pow 10 (-grid).toNat) /
    (Nat.pow 2 (-v.exponent).toNat * Nat.pow 10 grid.toNat)

def Binary.onGrid (v : Binary) (grid : Int) : Option Scaled :=
  let n := v.floorOn grid
  match v.contains ⟨n, grid⟩, v.contains ⟨n + 1, grid⟩ with
  | false, false => none
  | true, false => some ⟨n, grid⟩
  | false, true => some ⟨n + 1, grid⟩
  | true, true =>
    -- the nearer one, and of two equally near the even one
    match comparePowers (2 * v.significand) 2 v.exponent (2 * n + 1) 10 grid with
    | .lt => some ⟨n, grid⟩
    | .gt => some ⟨n + 1, grid⟩
    | .eq => some ⟨if n % 2 = 0 then n else n + 1, grid⟩

def Binary.search (v : Binary) (scale : Int) : Nat → Nat → Option Scaled
  | 0, _ => none
  | tries + 1, places =>
    match v.onGrid (scale - places) with
    | some d => some d
    | none => v.search scale tries (places + 1)

def Scaled.strip : Nat → Scaled → Scaled
  | 0, d => d
  | steps + 1, d =>
    if d.digits ≠ 0 ∧ d.digits % 10 = 0 then Scaled.strip steps ⟨d.digits / 10, d.exponent + 1⟩
    else d

def Binary.exact (v : Binary) : Scaled :=
  ⟨v.significand * Nat.pow 2 v.exponent.toNat * Nat.pow 5 (-v.exponent).toNat,
    -((-v.exponent).toNat : Int)⟩

def shortest (x : Float) : Scaled :=
  let v := Binary.ofFloat x
  if v.significand = 0 then ⟨0, 0⟩
  else Scaled.strip 20 ((v.search v.scale 17 1).getD v.exact)

end ObjectQuery.Decimal
