import RecedingHorizon.Decimal.Rounded

/-!
# The fewest digits that read back

A double written with as few digits as still determine it.  The reals that round
to a double form an interval around it, the ends included when its mantissa is
even.  On the grid of decimals with a given number of digits only the two
neighbours of the value can be the nearest ones in that interval, so the first
grid with a neighbour inside gives the number of digits, and the nearer
neighbour the digits.

* `Interval`: the reals that round to a double, as quotients over one
  denominator.
* `shortestDigits`: digits and decimal exponent.
* `shortest`: the text, positional for moderate exponents.
-/

namespace RecedingHorizon

namespace Decimal

/-- The reals that round to a positive double, `low / den` to `high / den`, and
the double itself, `mid / den`. -/
structure Interval where
  low : Nat
  mid : Nat
  high : Nat
  den : Nat
  closed : Bool

/-- The interval of `m · 2 ^ e`.  A mantissa that is a bare power of two has a
neighbour below at half the distance, except among the smallest numbers. -/
def Interval.ofScaled (m : Nat) (e : Int) : Interval :=
  let narrow := m = Nat.pow 2 52 ∧ e ≠ -1074
  let q := Binary.Magnitude.ofScaled 1 (e - 2)
  { low := (4 * m - if narrow then 1 else 2) * q.num
    mid := 4 * m * q.num
    high := (4 * m + 2) * q.num
    den := q.den
    closed := m % 2 = 0 }

/-- Whether `num / den` lies in the interval. -/
def Interval.contains (i : Interval) (num den : Nat) : Bool :=
  if i.closed then
    i.low * den ≤ num * i.den && num * i.den ≤ i.high * den
  else
    i.low * den < num * i.den && num * i.den < i.high * den

/-- The nearer of the two neighbours of the interval's middle among the multiples
of `10 ^ unit` that lie in the interval, if one does. -/
def Interval.neighbour? (i : Interval) (unit : Int) : Option Nat :=
  let scaled := scaleTen i.mid i.den (-unit)
  let below := scaled.1 / scaled.2
  let inside (n : Nat) : Bool :=
    let q := scaleTen n 1 unit
    i.contains q.1 q.2
  let r := scaled.1 % scaled.2
  let belowFirst := 2 * r < scaled.2 || (2 * r = scaled.2 && below % 2 = 0)
  if inside below && (belowFirst || !inside (below + 1)) then some below
  else if inside (below + 1) then some (below + 1)
  else none

/-- Search the grids from `count` digits on; `fuel` grids are left.  Seventeen
digits always determine a double, so the last line is not reached from there. -/
def Interval.search (i : Interval) (k : Int) : Nat → Nat → Nat × Int
  | 0, count => (roundDiv (scaleTen i.mid i.den (count - k)).1 (scaleTen i.mid i.den (count - k)).2,
      k - count)
  | fuel + 1, count =>
      match i.neighbour? (k - count) with
      | some digits => (digits, k - count)
      | none => i.search k fuel (count + 1)

/-- Digits `d` and exponent `u` of the shortest decimal `d · 10 ^ u` that reads
back as the positive number `m · 2 ^ e`. -/
def shortestDigits (m : Nat) (e : Int) : Nat × Int :=
  let i := Interval.ofScaled m e
  i.search (decimalExponent i.mid i.den) 17 0

/-- Digits without the zeros at their end. -/
def dropZeros (digits : List Char) : List Char :=
  (digits.reverse.dropWhile (· = '0')).reverse

/-- Digits `d` with decimal exponent `k`, one digit before the point. -/
def withExponent (digits : List Char) (k : Int) : String :=
  match digits with
  | [] => "0.0"
  | [d] => String.ofList [d] ++ exponentText k
  | d :: ds => String.ofList (d :: '.' :: ds) ++ exponentText k

/-- Digits with the point `k + 1` places after the first one, zeros filled in and
at least one digit on either side. -/
def withPoint (digits : List Char) (k : Int) : String :=
  match k with
  | .negSucc n => String.ofList ('0' :: '.' :: (List.replicate n '0' ++ digits))
  | .ofNat n =>
      let before := (digits ++ List.replicate (n + 1 - digits.length) '0').take (n + 1)
      let after := digits.drop (n + 1)
      String.ofList (before ++ '.' :: (if after.isEmpty then ['0'] else after))

/-- The decimal exponents that are written positionally. -/
structure Positional where
  least : Int
  bound : Int

/-- Numbers in messages are positional from `0.0001` up to below `10 ^ 16`. -/
def messagePositional : Positional := ⟨-4, 16⟩

/-- The text of a positive number from its digits `d · 10 ^ u`. -/
def writeDigits (style : Positional) (d : Nat) (u : Int) : String :=
  let all := (toString d).toList
  let k := u + all.length - 1
  let digits := dropZeros all
  if style.least ≤ k ∧ k < style.bound then withPoint digits k else withExponent digits k

/-- The shortest text that reads back as the double. -/
def shortest (x : Float) : String :=
  match Binary.ofFloat x with
  | .undefined => "nan"
  | .infinite negative => if negative then "-inf" else "inf"
  | .finite negative m e =>
      let text :=
        if m = 0 then "0.0"
        else
          let (d, u) := shortestDigits m e
          writeDigits messagePositional d u
      if negative then "-" ++ text else text

end Decimal

end RecedingHorizon
