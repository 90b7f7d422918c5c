import RecedingHorizon.Fault

/-!
# The arithmetic of given numbers

Whole numbers add, subtract and multiply to whole numbers, exactly.  Where a
whole number meets a scalar it is turned into the nearest scalar first, which
fails if it lies out of their range.  On scalars every operation is that of the
scalars and does not fail, except for division by zero.

* `Number.scalar`: a number as a scalar.
* `Number.plus`, `Number.minus`, `Number.times`, `Number.negate`, `Number.quotient`.
* `Number.multiple`: so many times a number, as when steps are counted.
* `Number.lt`: the order, which rounds nothing.
* `Number.operand`: a number as an operand of a function on scalars, for which a
  whole number has to fit a machine word.
-/

namespace RecedingHorizon

namespace Number

variable {α : Type} [Scalar α]

/-- A whole number as a scalar. -/
def ofWhole (n : Int) : Except (Fault α) α :=
  let x : α := n
  if Scalar.isFinite x then .ok x else .error .overflow

/-- The number as a scalar. -/
def scalar : Number α → Except (Fault α) α
  | whole n => ofWhole n
  | real x => .ok x

/-- An operation on two numbers, given on whole numbers and on scalars. -/
def combine (onWhole : Int → Int → Int) (onScalars : α → α → α) :
    Number α → Number α → Except (Fault α) (Number α)
  | whole m, whole n => .ok (.whole (onWhole m n))
  | whole m, real y => do return .real (onScalars (← ofWhole m) y)
  | real x, whole n => do return .real (onScalars x (← ofWhole n))
  | real x, real y => .ok (.real (onScalars x y))

def plus : Number α → Number α → Except (Fault α) (Number α) := combine (· + ·) (· + ·)

def minus : Number α → Number α → Except (Fault α) (Number α) := combine (· - ·) (· - ·)

def times : Number α → Number α → Except (Fault α) (Number α) := combine (· * ·) (· * ·)

def negate : Number α → Number α
  | whole n => .whole (-n)
  | real x => .real (-x)

/-- The multiple of a number by `i`. -/
def multiple (i : Nat) : Number α → Number α
  | whole n => .whole (i * n)
  | real x => .real ((i : α) * x)

/-- The square of a number, which has to stay in range. -/
def square : Number α → Except (Fault α) (Number α)
  | whole n => .ok (.whole (n * n))
  | real x =>
      let y := Scalar.square x
      if Scalar.isFinite x && !Scalar.isFinite y then .error .overflow else .ok (.real y)

/-- The quotient of two scalars, the second one not zero. -/
def scalarQuotient (x y : α) : Except (Fault α) α :=
  if Scalar.isZero y then .error .divisionByZero else .ok (x / y)

/-- The quotient of two numbers.  That of two whole numbers is the scalar nearest
to it, even if neither of them is in the range of the scalars. -/
def quotient : Number α → Number α → Except (Fault α) α
  | whole m, whole n =>
      if n = 0 then .error .divisionByZero
      else
        let x : α := Scalar.ratio m n
        if Scalar.isFinite x then .ok x else .error .overflow
  | whole m, real y => do scalarQuotient (← ofWhole m) y
  | real x, whole n => do scalarQuotient x (← ofWhole n)
  | real x, real y => scalarQuotient x y

/-- The strict order, exact also where a whole number meets a scalar. -/
def lt : Number α → Number α → Bool
  | whole m, whole n => m < n
  | whole m, real y => Scalar.exceeds y m
  | real x, whole n => Scalar.below x n
  | real x, real y => x < y

/-- The number as an operand of a function on scalars. -/
def operand : Number α → Except (Fault α) α
  | whole n => if fitsWord n then .ok n else .error .wideInteger
  | real x => .ok x

/-! ## On scalars -/

@[simp] theorem scalar_real (x : α) : (real x).scalar = .ok x := rfl

@[simp] theorem plus_real (x y : α) : (real x).plus (real y) = .ok (real (x + y)) := rfl

@[simp] theorem minus_real (x y : α) : (real x).minus (real y) = .ok (real (x - y)) := rfl

@[simp] theorem times_real (x y : α) : (real x).times (real y) = .ok (real (x * y)) := rfl

@[simp] theorem negate_real (x : α) : (real x).negate = real (-x) := rfl

@[simp] theorem multiple_real (i : Nat) (x : α) :
    (real x).multiple i = real ((i : α) * x) := rfl

@[simp] theorem quotient_real (x y : α) :
    (real x).quotient (real y) = scalarQuotient x y := rfl

@[simp] theorem lt_real (x y : α) : (real x).lt (real y) = decide (x < y) := rfl

@[simp] theorem operand_real (x : α) : (real x).operand = .ok x := rfl

end Number

end RecedingHorizon
