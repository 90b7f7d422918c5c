import RecedingHorizon.Decimal.Rounded

/-!
# The arithmetic the solver is written in

Every computation of this library is written once, over a type of scalars, and
read in two ways.  Run, the scalars are doubles.  Reasoned about, they are the
real numbers, or any type at all where a statement does not depend on the
arithmetic --- rounding, infinities and values that are not numbers included.

So the class asks for operations and not for laws.  It has the four operations
and the order, the functions the models and the horizon need, a euclidean length
of a pair that does not overflow on the way, and what is asked where scalars meet
whole numbers: whether a scalar is zero, finite, whole, what whole number comes
after it, and which scalar is nearest to a quotient.  It also says how much memory
there is for arrays of scalars, which is a matter of the machine.

Nothing here is reassociated by the library.  Sums run from left to right and a
product is formed in the order in which it is written.

Two instances matter: that of the doubles, at the end of this module, which runs, and
that of the real numbers, which is reasoned about.  Arithmetic on doubles is that of
the machine; what the checks ask of a number is read off its binary form.  A quotient
of whole numbers is rounded once.  It is brought into the range of the mantissas by a
power of two, or less far where the exponents end, and the number of units it comes to
is rounded to the nearest one, a half to the even one.  Both the rounded number and the
power are then exact, and so is their product, unless it lies past the largest double.

* `Scalar`: a type of scalars.
* `Binary.nearestRatio`: the double nearest to a quotient.
-/

namespace RecedingHorizon

/-- A type of scalars. -/
class Scalar (α : Type) extends Add α, Sub α, Mul α, Div α, Neg α, Zero α, One α,
    LT α, LE α, NatCast α, IntCast α, OfScientific α where
  decLt (a b : α) : Decidable (a < b)
  decLe (a b : α) : Decidable (a ≤ b)
  sqrt : α → α
  exp : α → α
  sin : α → α
  cos : α → α
  /-- The square, as the second power of a single scalar is found. -/
  square : α → α
  /-- The euclidean length of a pair, without overflow or underflow on the way. -/
  hypot : α → α → α
  /-- Whether a scalar equals zero, whatever its sign. -/
  isZero : α → Bool
  /-- Whether a scalar is a number and no infinity. -/
  isFinite : α → Bool
  /-- Whether a scalar is whole. -/
  wholeness : α → Wholeness
  /-- The least whole number not below a finite scalar. -/
  ceil : α → Int
  /-- The scalar nearest to the quotient of two whole numbers, the second one not
  zero. -/
  ratio : Int → Int → α
  /-- The bytes of memory there are for an array of scalars. -/
  memory : Nat

attribute [reducible, instance] Scalar.decLt Scalar.decLe

namespace Scalar

variable {α : Type} [Scalar α]

/-- The absolute value. -/
def abs (a : α) : α := if a < 0 then -a else a

/-- Whether a whole number lies below a scalar, exactly: a finite scalar is not
rounded to be compared, nor is the whole number. -/
def exceeds (x : α) (n : Int) : Bool := if isFinite x then n < ceil x else (0 : α) < x

/-- Whether a scalar lies below a whole number, exactly. -/
def below (x : α) (n : Int) : Bool := exceeds (-x) (-n)

/-- The least positive normal double.  A length below it is taken for zero. -/
def tiny : α := 2.2250738585072014e-308

end Scalar

/-! ## The double nearest to a quotient -/

namespace Binary

/-- The exponent `e`, not below that of the least double, for which
`num / den · 2 ^ (-e)` has at most fifty-three binary digits. -/
def unitExponent (num den : Nat) : Int :=
  let e : Int := (num.log2 : Int) - den.log2 - 53
  let q := Magnitude.ofScaled den (e + 53)
  max (if q.num ≤ num * q.den then e + 1 else e) (-1074)

/-- The double nearest to `num / den`. -/
def nearest (num den : Nat) : Float :=
  let e := unitExponent num den
  let q := Magnitude.ofScaled den e
  (Float.ofNat (Decimal.roundDiv (num * q.den) q.num)).scaleB e

/-- The double nearest to a quotient of whole numbers. -/
def nearestRatio (m n : Int) : Float :=
  let magnitude := nearest m.natAbs n.natAbs
  if (m < 0) = (n < 0) then magnitude else -magnitude

end Binary

/-! ## Doubles as scalars -/

/-- The length of `(a, b)`.  The larger of the two is brought near one by a power
of two first, which is exact, so that the squares neither overflow nor vanish.
An infinite entry wins over one that is not a number. -/
def Float.length₂ (a b : Float) : Float :=
  let a := a.abs
  let b := b.abs
  if a.isInf || b.isInf then 1.0 / 0.0
  else
    let larger := if a < b then b else a
    if larger == 0.0 then a + b
    else
      let e := larger.frExp.2
      let a := a.scaleB (-e)
      let b := b.scaleB (-e)
      (a * a + b * b).sqrt.scaleB e

instance : Scalar Float where
  zero := 0.0
  one := 1.0
  natCast := Float.ofNat
  intCast := Float.ofInt
  decLt := inferInstance
  decLe := inferInstance
  sqrt := Float.sqrt
  exp := Float.exp
  sin := Float.sin
  cos := Float.cos
  square x := x.pow 2.0
  hypot := Float.length₂
  isZero x := x == 0.0
  isFinite := Float.isFinite
  wholeness x := (Binary.ofFloat x).whole
  ceil x := (Binary.ofFloat x).ceil
  ratio := Binary.nearestRatio
  -- A tebibyte, which is more than a machine has to give.
  memory := Nat.pow 2 40

end RecedingHorizon
