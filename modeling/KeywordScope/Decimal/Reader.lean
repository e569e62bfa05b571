/-!
# Reading decimals

* `readFloat?`: the float nearest to a decimal, with an optional sign, point and exponent.
* `readNat?`: a natural number below a bound, with an optional plus sign.
-/

namespace KeywordScope

/-- The number that decimal digits write; nothing if a character is no digit. -/
def digitsValue? (cs : List Char) : Option Nat :=
  if cs.all Char.isDigit then some (cs.foldl (fun n c => 10 * n + (c.toNat - '0'.toNat)) 0)
  else none

/-- The natural number below `bound` that a text writes: digits, perhaps behind a plus sign. -/
def readNat? (bound : Nat) (text : String) : Option Nat := do
  let digits := match text.toList with
    | '+' :: rest => rest
    | cs => cs
  guard !digits.isEmpty
  let n ← digitsValue? digits
  guard (n < bound)
  return n

/-- The exponent behind an `e`. -/
def readExponent? : List Char → Option Int
  | '-' :: cs => do guard !cs.isEmpty; return -(← digitsValue? cs)
  | '+' :: cs => do guard !cs.isEmpty; return ← digitsValue? cs
  | cs => do guard !cs.isEmpty; return ← digitsValue? cs

/-- The float nearest to the number that has these digits before `exponent` further places. Floats
are infinite long before 400 places, and zero long before as many zeros behind the point. -/
def nearestFloat? (digits : List Char) (exponent : Int) : Option Float := do
  let digits := digits.dropWhile (· == '0')
  let mantissa ← digitsValue? digits
  let places := exponent + digits.length
  if mantissa = 0 || places < -400 then return 0
  if 400 < places then return 1 / 0
  return Float.ofScientific mantissa (exponent < 0) exponent.natAbs

/-- The float of a decimal without a sign. -/
def readUnsignedFloat? (cs : List Char) : Option Float := do
  let isMark (c : Char) := c == 'e' || c == 'E'
  let (number, mark) := cs.span (!isMark ·)
  let exponent ← match mark with
    | [] => some 0
    | _ :: rest => readExponent? rest
  let (whole, point) := number.span (· != '.')
  let fraction := point.drop 1
  guard !(whole ++ fraction).isEmpty
  nearestFloat? (whole ++ fraction) (exponent - fraction.length)

/-- The float nearest to the number that a text writes. -/
def readFloat? (text : String) : Option Float :=
  let unsigned (cs : List Char) : Option Float :=
    match String.ofList (cs.map Char.toLower) with
    | "nan" => some (0 / 0)
    | "inf" => some (1 / 0)
    | "infinity" => some (1 / 0)
    | _ => readUnsignedFloat? cs
  match text.toList with
  | '-' :: cs => (unsigned cs).map (- ·)
  | '+' :: cs => unsigned cs
  | cs => unsigned cs

end KeywordScope
