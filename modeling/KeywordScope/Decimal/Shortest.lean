/-!
# Shortest decimals

The decimal with the fewest digits among those that read back as a given binary number, and of
those the nearest.

* `Binary`: a positive number `m · 2^q`, and how far the next number below is.
* `Binary.shortest`: its shortest decimal `digits · 10^exponent`.
* `Binary.ofFloat?`: the binary number that a float holds, apart from its sign.

Decimals with few digits lie on coarse grids `10^k`. The grids are tried from coarse to fine; on
each, only the two neighbours of the number can be nearest to it.
-/

namespace KeywordScope
namespace Decimal

/-- Which of two equally near decimals is taken. -/
inductive Tie where
  | upward
  | toEven
  deriving DecidableEq, Repr

/-- The decimal `digits · 10^exponent`. -/
structure Scaled where
  digits : Nat
  exponent : Int
  deriving DecidableEq, Repr

/-- The number `mantissa · 2^exponent`. -/
structure Binary where
  mantissa : Nat
  exponent : Int
  /-- The binary number below is only half as far away as the one above. -/
  isLowest : Bool
  deriving DecidableEq, Repr

namespace Binary

/-- The ends of the interval that is rounded to the number, counted in `2^(exponent - 2)`. They lie
halfway to the neighbours. -/
def interval (b : Binary) : Nat × Nat :=
  (4 * b.mantissa - (if b.isLowest then 1 else 2), 4 * b.mantissa + 2)

/-- The quotient of `n · 2^(exponent - 2)` and the grid `10^k`, as numerator and denominator. -/
def onGrid (b : Binary) (k : Int) (n : Nat) : Nat × Nat :=
  let binary := b.exponent - 2
  (n * Nat.pow 2 binary.toNat * Nat.pow 10 (-k).toNat,
    Nat.pow 2 (-binary).toNat * Nat.pow 10 k.toNat)

/-- The decimal `c · 10^k` is read back as the number: it lies in its interval. The ends belong to
the interval if the mantissa is even. -/
def readsBack (b : Binary) (k : Int) (c : Nat) : Bool :=
  let (low, high) := b.interval
  let (lowN, d) := b.onGrid k low
  let (highN, _) := b.onGrid k high
  if b.mantissa % 2 = 0 then lowN ≤ c * d && c * d ≤ highN
  else lowN < c * d && c * d < highN

/-- The nearest decimal on the grid `10^k` that reads back as the number. -/
def nearestOnGrid? (b : Binary) (tie : Tie) (k : Int) : Option Nat :=
  let (n, d) := b.onGrid k (4 * b.mantissa)
  let floor := n / d
  let down := b.readsBack k floor
  let up := b.readsBack k (floor + 1)
  if down && up then
    let twice := 2 * (n - floor * d)
    if twice < d then some floor
    else if d < twice then some (floor + 1)
    else match tie with
      | .upward => some (floor + 1)
      | .toEven => some (if floor % 2 = 0 then floor else floor + 1)
  else if down then some floor
  else if up then some (floor + 1)
  else none

/-- The first hit on the grids from `10^k` down, of which the last one holds the number itself. -/
def search (b : Binary) (tie : Tie) (k : Int) : Nat → Scaled
  | 0 => let (n, d) := b.onGrid k (4 * b.mantissa); ⟨n / d, k⟩
  | steps + 1 =>
    match b.nearestOnGrid? tie k with
    | some digits => ⟨digits, k⟩
    | none => b.search tie (k - 1) steps

/-- The decimal of fewest digits that is read back as the number. -/
def shortest (b : Binary) (tie : Tie) : Scaled :=
  let log := (Nat.log2 b.mantissa : Int) + 1 + b.exponent
  let coarsest := if 0 ≤ log then log * 31 / 100 + 1 else -(-log * 30 / 100) + 1
  let finest := min 0 b.exponent
  b.search tie coarsest (coarsest - finest).toNat

/-- The binary number that a positive finite float holds. -/
def ofFloat? (x : Float) : Option Binary :=
  let bits : Nat := x.toBits.toNat
  let fraction : Nat := bits % Nat.pow 2 52
  let exponent : Nat := bits / Nat.pow 2 52 % Nat.pow 2 11
  if exponent = Nat.pow 2 11 - 1 then none
  else if exponent = 0 then
    if fraction = 0 then none else some ⟨fraction, -1074, false⟩
  else some ⟨Nat.pow 2 52 + fraction, exponent - 1075, fraction = 0 && 1 < exponent⟩

end Binary

end Decimal
end KeywordScope
