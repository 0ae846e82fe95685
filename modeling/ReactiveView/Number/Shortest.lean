/-
# Shortest decimals

A finite binary64 number is `m · 2 ^ q`.  The reals that round to it form an
interval, whose ends belong to it exactly when `m` is even.  `shortest m q` is the
decimal `c · 10 ^ g` with the largest `g` that lies in the interval; if both
neighbours of the number on that grid do, it is the nearer one, and the upper one
of two equally near.
-/

namespace ReactiveView
namespace Number

/-- A decimal `digits · 10 ^ exponent`. -/
structure Decimal where
  digits : Nat
  exponent : Int
  deriving DecidableEq, Repr

/-- The positive number `m · 2 ^ q` together with the interval that rounds to it,
as fractions over one denominator: `low ≤ value ≤ high` over `unit`. -/
structure Interval where
  low : Nat
  value : Nat
  high : Nat
  unit : Nat
  /-- The ends round to the number as well. -/
  closed : Bool
  deriving Repr

/-- The interval of `m · 2 ^ q`.  Below a power of two the numbers lie twice as
dense, unless they are subnormal. -/
def Interval.of (m : Nat) (q : Int) : Interval :=
  let dense := m == Nat.pow 2 52 && q > -1074
  let scale := Nat.pow 2 (q - 2).toNat
  { low := (if dense then 4 * m - 1 else 4 * m - 2) * scale
    value := 4 * m * scale
    high := (4 * m + 2) * scale
    unit := Nat.pow 2 (2 - q).toNat
    closed := m % 2 == 0 }

/-- The decimal `c · 10 ^ g` lies in the interval. -/
def Interval.holds (i : Interval) (c : Nat) (g : Int) : Bool :=
  let x := c * Nat.pow 10 g.toNat * i.unit
  let scale := Nat.pow 10 (-g).toNat
  if i.closed then i.low * scale ≤ x && x ≤ i.high * scale
  else i.low * scale < x && x < i.high * scale

/-- The best decimal of the interval on the grid of `10 ^ g`, if one lies there. -/
def Interval.onGrid (i : Interval) (g : Int) : Option Decimal :=
  let step : Nat := Nat.pow 10 g.toNat * i.unit
  let value : Nat := i.value * Nat.pow 10 (-g).toNat
  let c : Nat := value / step
  match i.holds c g && c != 0, i.holds (c + 1) g with
  | true, true => some ⟨if 2 * (value % step) < step then c else c + 1, g⟩
  | true, false => some ⟨c, g⟩
  | false, true => some ⟨c + 1, g⟩
  | false, false => none

/-- The first hit on `count` grids, from `10 ^ g` downwards. -/
def Interval.search (i : Interval) : (count : Nat) → (g : Int) → Option Decimal
  | 0, _ => none
  | count + 1, g => i.onGrid g <|> i.search count (g - 1)

/-- The shortest decimal that reads back as `m · 2 ^ q`.  The search begins above
the number; nineteen grids reach the seventeenth digit. -/
def shortest (m : Nat) (q : Int) : Option Decimal :=
  let binary : Int := (m.log2 : Int) + 1 + q
  (Interval.of m q).search 20 (binary * 30103 / 100000 + 1)

/-- Sign, significand and binary exponent of a finite number. -/
def parts (x : Float) : Bool × Nat × Int :=
  let bits : Nat := x.toBits.toNat
  let e : Nat := bits / Nat.pow 2 52 % Nat.pow 2 11
  let f : Nat := bits % Nat.pow 2 52
  (bits / Nat.pow 2 63 == 1,
    if e = 0 then (f, -1074) else (f + Nat.pow 2 52, (e : Int) - 1075))

end Number
end ReactiveView
