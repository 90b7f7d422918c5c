import RecedingHorizon.Decimal.Binary

/-!
# Decimals with a set number of digits

The text of a double with `n` digits after the point, either positional or with
a power of ten.  The exact value is rounded once, to the nearest decimal of that
form, and a value half way between two goes to the even one.

* `roundDiv`: a quotient of naturals to the nearest natural, ties to even.
* `decimalExponent`: the power of ten of the leading digit.
* `positional`, `scientific`: the digits of a magnitude in the two forms.
* `Decimal.Format`, `Decimal.Format.write`: the two forms as data, and a double
  written in one of them.
-/

namespace RecedingHorizon

namespace Decimal

/-- The natural nearest to `num / den`, the even one of two that are as near. -/
def roundDiv (num den : Nat) : Nat :=
  let q := num / den
  let r := num % den
  if 2 * r < den then q
  else if den < 2 * r then q + 1
  else if q % 2 = 0 then q else q + 1

/-- `num / den · 10 ^ k` as a quotient of naturals. -/
def scaleTen (num den : Nat) : Int → Nat × Nat
  | .ofNat k => (num * Nat.pow 10 k, den)
  | .negSucc k => (num, den * Nat.pow 10 (k + 1))

/-- The digits of a natural, at least `width` of them, zeros in front. -/
def padded (width n : Nat) : String :=
  let digits := toString n
  "".pushn '0' (width - digits.length) ++ digits

/-- The exponent `k` with `10 ^ k ≤ num / den < 10 ^ (k + 1)`, for a positive
quotient.  The digit counts of `num` and `den` leave two candidates. -/
def decimalExponent (num den : Nat) : Int :=
  let k : Int := (toString num).length - (toString den).length
  let scaled := scaleTen den 1 k
  if scaled.1 ≤ num * scaled.2 then k else k - 1

/-- The digits of a whole number of units `10 ^ (-places)`. -/
def placePoint (places units : Nat) : String :=
  if places = 0 then toString units
  else
    let unit := Nat.pow 10 places
    toString (units / unit) ++ "." ++ padded places (units % unit)

/-- The exponent with its sign and at least two digits. -/
def exponentText (k : Int) : String :=
  (if k < 0 then "e-" else "e+") ++ padded 2 k.natAbs

/-- `num / den` with `places` digits after the point, and whether one of the
digits is not zero. -/
def positional (places num den : Nat) : String × Bool :=
  let units := roundDiv (num * Nat.pow 10 places) den
  (placePoint places units, units ≠ 0)

/-- `num / den` with one digit before the point, `places` after it and the power
of ten, and whether one of the digits is not zero.  Rounding up from all nines
moves to the next power. -/
def scientific (places num den : Nat) : String × Bool :=
  if num = 0 then (placePoint places 0 ++ exponentText 0, false)
  else
    let k := decimalExponent num den
    let scaled := scaleTen num den (places - k)
    let units := roundDiv scaled.1 scaled.2
    if units < Nat.pow 10 (places + 1) then (placePoint places units ++ exponentText k, true)
    else (placePoint places (units / 10) ++ exponentText (k + 1), true)

/-- The two written forms, each with its number of digits after the point. -/
inductive Format where
  | fixed (places : Nat)
  | scientific (places : Nat)
  deriving DecidableEq

/-- A magnitude in one of the forms, and whether a digit is not zero. -/
def Format.digits : Format → Binary.Magnitude → String × Bool
  | .fixed places, q => positional places q.num q.den
  | .scientific places, q => Decimal.scientific places q.num q.den

/-- The text of a double.  `keepZeroSign` decides whether a negative number
whose digits are all zero keeps its sign. -/
def Format.write (format : Format) (keepZeroSign : Bool) (x : Float) : String :=
  match Binary.ofFloat x with
  | .undefined => "nan"
  | .infinite negative => if negative then "-inf" else "inf"
  | .finite negative m e =>
      let (text, nonzero) := format.digits (.ofScaled m e)
      if negative && (nonzero || keepZeroSign) then "-" ++ text else text

end Decimal

end RecedingHorizon
