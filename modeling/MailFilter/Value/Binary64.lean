/-!
# Floating point numbers of 64 bits

The finite numbers `± mantissa · 2 ^ exponent`, the infinities and the undefined number: rounding
a decimal to the nearest of them, and the shortest decimal that reads back.
-/

namespace MailFilter.Value

/-- A number of the binary format with 53 bits of precision. -/
inductive Binary64 where
  | finite (negative : Bool) (mantissa : Nat) (exponent : Int)
  | infinite (negative : Bool)
  | undefined
  deriving DecidableEq, Repr

namespace Binary64

def minExponent : Int := -1074

def maxExponent : Int := 971

/-- The least mantissa of full length, the fifty-second power of two. -/
def fullMantissa : Nat := 4503599627370496

/-- The nearest natural number to a quotient, the even one of two. -/
def roundHalfEven (num den : Nat) : Nat :=
  let q := num / den
  let r := num % den
  if 2 * r > den || (2 * r == den && q % 2 == 1) then q + 1 else q

/-- A quotient of natural numbers times a power of two, as a quotient. -/
def scaled (num den : Nat) (power : Int) : Nat × Nat :=
  if power ≥ 0 then (num * Nat.pow 2 power.toNat, den) else (num, den * Nat.pow 2 (-power).toNat)

/-- The number nearest to a positive quotient: the lengths of its two parts bound its size up to
a factor of two. -/
def ofQuotient (negative : Bool) (num den : Nat) : Binary64 :=
  let guess : Int := (num.log2 : Int) - den.log2 - 53
  let fits (e : Int) : Bool := let (n, d) := scaled num den (-e); n / d < 2 * fullMantissa
  let exponent := max minExponent (if fits guess then guess else guess + 1)
  let (n, d) := scaled num den (-exponent)
  let mantissa := roundHalfEven n d
  let (mantissa, exponent) :=
    if mantissa == 2 * fullMantissa then (fullMantissa, exponent + 1) else (mantissa, exponent)
  if exponent > maxExponent then .infinite negative
  else if mantissa == 0 then .finite negative 0 0
  else .finite negative mantissa exponent

/-- The number nearest to `digits · 10 ^ power`. Powers far out of range are settled by size. -/
def ofDecimal (negative : Bool) (digits : Nat) (power : Int) : Binary64 :=
  if digits == 0 then .finite negative 0 0
  else
    let size : Int := (Nat.toDigits 10 digits).length + power
    if size > 400 then .infinite negative
    else if size < -400 then .finite negative 0 0
    else if power ≥ 0 then ofQuotient negative (digits * Nat.pow 10 power.toNat) 1
    else ofQuotient negative digits (Nat.pow 10 (-power).toNat)

/-- The integer next to a number toward zero, for a finite number. -/
def truncate? : Binary64 → Option Int
  | .finite negative mantissa exponent =>
    let (n, d) := scaled mantissa 1 exponent
    let magnitude : Int := (n / d : Nat)
    some (if negative then -magnitude else magnitude)
  | _ => none

/-- The number as many times as a natural number says. -/
def times : Binary64 → Nat → Binary64
  | .finite negative mantissa exponent, n =>
    let (num, den) := scaled (mantissa * n) 1 exponent
    if num == 0 then .finite negative 0 0 else ofQuotient negative num den
  | .infinite negative, n => if n == 0 then .undefined else .infinite negative
  | .undefined, _ => .undefined

def negated : Binary64 → Binary64
  | .finite negative mantissa exponent => .finite (!negative) mantissa exponent
  | .infinite negative => .infinite (!negative)
  | .undefined => .undefined

/-- The sum of two numbers that are not negative, rounded to the nearest number. -/
def plus : Binary64 → Binary64 → Binary64
  | .finite _ m d, .finite _ n e =>
    let (a, b) := scaled m 1 d
    let (p, q) := scaled n 1 e
    if m == 0 && n == 0 then .finite false 0 0 else ofQuotient false (a * q + p * b) (b * q)
  | .undefined, _ | _, .undefined => .undefined
  | _, _ => .infinite false

/-- How the number compares with an integer; the undefined number does not. -/
def compareInt? : Binary64 → Int → Option Ordering
  | .finite negative mantissa exponent, n =>
    let (num, den) := scaled mantissa 1 exponent
    some (compare (if negative then -(num : Int) else num) (n * den))
  | .infinite negative, _ => some (if negative then .lt else .gt)
  | .undefined, _ => none

def isZero : Binary64 → Bool
  | .finite _ mantissa _ => mantissa == 0
  | _ => false

/-- The interval of the decimals that round to a positive number, as numerators over one
denominator, and whether its ends belong to it. -/
structure Interval where
  low : Nat
  mid : Nat
  high : Nat
  den : Nat
  closed : Bool

/-- The interval of `mantissa · 2 ^ exponent`: it reaches half way to the neighbours, and the lower
neighbour of a power of two is nearer. -/
def interval (mantissa : Nat) (exponent : Int) : Interval :=
  let narrow := mantissa == fullMantissa && exponent > minExponent
  let (unit, den) := scaled 1 4 exponent
  { low := (4 * mantissa - (if narrow then 1 else 2)) * unit
    mid := 4 * mantissa * unit
    high := (4 * mantissa + 2) * unit
    den := den
    closed := mantissa % 2 == 0 }

def Interval.holds (i : Interval) (num den : Nat) : Bool :=
  let below (a b : Nat) : Bool := if i.closed then a ≤ b else a < b
  below (i.low * den) (num * i.den) && below (num * i.den) (i.high * den)

/-- The decimal place of a positive quotient: the `k` with `10 ^ (k - 1) ≤ num / den < 10 ^ k`. -/
def decimalPlace (num den : Nat) : Int :=
  if num ≥ den then (Nat.toDigits 10 (num / den)).length
  else 1 - ((Nat.toDigits 10 ((den - 1) / num)).length : Int)

/-- Of the two multiples of `10 ^ (place - count)` next to the middle of an interval, the nearer
one that lies in it, counted in that unit. -/
def onGrid? (i : Interval) (place : Int) (count : Nat) : Option Nat :=
  let power := place - count
  let (num, den) := if power ≥ 0 then (i.mid, i.den * Nat.pow 10 power.toNat)
    else (i.mid * Nat.pow 10 (-power).toNat, i.den)
  let value (k : Nat) : Nat × Nat :=
    if power ≥ 0 then (k * Nat.pow 10 power.toNat, 1) else (k, Nat.pow 10 (-power).toNat)
  let lower := num / den
  let near := roundHalfEven num den
  let far := if near == lower then lower + 1 else lower
  [near, far].find? fun k => let (n, d) := value k; k > 0 && i.holds n d

/-- The shortest digits that read back, and the place of the decimal point before the first. -/
def shortest (mantissa : Nat) (exponent : Int) : List Char × Int :=
  let i := interval mantissa exponent
  let place := decimalPlace i.mid i.den
  match (List.range 18).findSome? fun n => (onGrid? i place (n + 1)).map (·, n + 1) with
  | some (k, count) =>
    let digits := Nat.toDigits 10 k
    let place := place + ((digits.length : Int) - count)
    ((digits.reverse.dropWhile (· == '0')).reverse, place)
  | none => (['0'], 1)

/-- Positional text up to sixteen digits before the point and four zeros after it, an exponent of
at least two digits beyond. -/
def text : Binary64 → String
  | .undefined => "nan"
  | .infinite negative => if negative then "-inf" else "inf"
  | .finite negative mantissa exponent =>
    let sign := if negative then "-" else ""
    if mantissa == 0 then sign ++ "0.0"
    else
      let (digits, place) := shortest mantissa exponent
      if place > 16 || place ≤ -4 then
        let power := place - 1
        let size := toString power.natAbs
        let fraction := if digits.length ≤ 1 then [] else '.' :: digits.drop 1
        sign ++ String.ofList (digits.take 1 ++ fraction) ++ "e" ++ (if power < 0 then "-" else "+") ++
          (if size.length < 2 then "0" ++ size else size)
      else if place ≤ 0 then
        sign ++ "0." ++ String.ofList (List.replicate (-place).toNat '0' ++ digits)
      else
        let whole := digits.take place.toNat
        let fraction := digits.drop place.toNat
        sign ++ String.ofList (whole ++ List.replicate (place.toNat - whole.length) '0') ++ "." ++
          (if fraction.isEmpty then "0" else String.ofList fraction)

end Binary64

end MailFilter.Value
