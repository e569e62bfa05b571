import KeywordScope.Decimal.Shortest

/-!
# Notations for floats

* `FloatFormat`: how finite numbers, infinities and what is no number are written.
* `FloatFormat.write`: the text of a float: its shortest decimal in the notation of the format.
* `FloatFormat.plain`: always positional, as values are shown.
* `FloatFormat.json`: scientific for large and small numbers, as in JSON.
-/

namespace KeywordScope

open Decimal

/-- How floats are written. -/
structure FloatFormat where
  /-- Which of two equally near decimals is taken. -/
  tie : Tie
  /-- The decimal exponents of the first digit with which a number is written positionally; all
  of them if absent. -/
  positional? : Option (Int × Int)
  /-- Whole numbers get `.0`. -/
  pointZero : Bool
  notANumber : String
  infinity : String
  negativeInfinity : String

namespace FloatFormat

/-- The decimal in positional notation. -/
def positional (pointZero : Bool) (d : Scaled) : String :=
  let digits := Nat.toDigits 10 d.digits
  if 0 ≤ d.exponent then
    String.ofList (digits ++ List.replicate d.exponent.toNat '0') ++ (if pointZero then ".0" else "")
  else
    let places := (-d.exponent).toNat
    let digits := List.replicate (places + 1 - digits.length) '0' ++ digits
    let (whole, fraction) := digits.splitAt (digits.length - places)
    String.ofList (whole ++ '.' :: fraction)

/-- The decimal in scientific notation, with a sign before the exponent. -/
def scientific (d : Scaled) : String :=
  let digits := Nat.toDigits 10 d.digits
  let exponent := d.exponent + digits.length - 1
  let mantissa := match digits with
    | [] => []
    | [digit] => [digit]
    | digit :: more => digit :: '.' :: more
  String.ofList mantissa ++ "e" ++ (if exponent < 0 then "-" else "+") ++ toString exponent.natAbs

/-- The text of a positive decimal. -/
def writeScaled (format : FloatFormat) (d : Scaled) : String :=
  let first := d.exponent + (Nat.toDigits 10 d.digits).length - 1
  match format.positional? with
  | none => positional format.pointZero d
  | some (low, high) =>
    if low ≤ first ∧ first ≤ high then positional format.pointZero d else scientific d

/-- The text of a float. -/
def write (format : FloatFormat) (x : Float) : String :=
  let isNegative := x.toBits.toNat / Nat.pow 2 63 = 1
  if x.isNaN then format.notANumber
  else if x.isInf then (if isNegative then format.negativeInfinity else format.infinity)
  else
    (if isNegative then "-" else "") ++
      match Binary.ofFloat? x with
      | none => positional format.pointZero ⟨0, 0⟩
      | some b => format.writeScaled (b.shortest format.tie)

/-- Shown values have all their digits before or after the point, and no point in whole
numbers. -/
def plain : FloatFormat where
  tie := .upward
  positional? := none
  pointZero := false
  notANumber := "NaN"
  infinity := "inf"
  negativeInfinity := "-inf"

/-- JSON numbers are positional from `0.00001` up to sixteen digits before the point. -/
def json : FloatFormat where
  tie := .toEven
  positional? := some (-5, 15)
  pointZero := true
  notANumber := "null"
  infinity := "null"
  negativeInfinity := "null"

end FloatFormat

end KeywordScope
