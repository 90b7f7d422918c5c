import RecedingHorizon.Number.Arithmetic

/-!
# The arithmetic of given values

A value that is no number has no arithmetic, and that is the fault whatever the
other operand.  All else is that of the numbers the values stand for.

* `Datum.asNumber`, `Datum.scalar`: the number, or that number as a scalar.
* `Datum.plus`, `Datum.minus`, `Datum.times`, `Datum.negate`, `Datum.multiple`,
  `Datum.quotient`: the operations, with numbers for answers.
* `Datum.lt`, `Datum.atMost`, `Datum.atLeast`: the order.
* `Datum.extent`: a value as the extent of an array.
-/

namespace RecedingHorizon

namespace Datum

variable {α : Type}

/-- The number a value stands for. -/
def asNumber (d : Datum α) : Except (Fault α) (Number α) :=
  match d.number? with
  | some a => .ok a
  | none => .error .noNumber

@[simp] theorem asNumber_number (a : Number α) : (number a).asNumber = .ok a := rfl

theorem asNumber_eq_ok_iff {d : Datum α} {a : Number α} :
    d.asNumber = .ok a ↔ d.number? = some a := by
  rw [asNumber]
  cases d.number? with
  | none =>
      constructor
      · intro h
        cases h
      · intro h
        cases h
  | some b =>
      constructor
      · exact fun h => congrArg some (Except.ok.inj h)
      · exact fun h => congrArg Except.ok (Option.some.inj h)

/-- The extent of an array, which has to be given as a whole number. -/
def extent : Datum α → Except (Fault α) Int
  | number (.whole n) => .ok n
  | _ => .error .fractionalExtent

variable [Scalar α]

/-- The value as a scalar. -/
def scalar (d : Datum α) : Except (Fault α) α := do (← d.asNumber).scalar

/-- The value as an operand of a function on scalars. -/
def operand (d : Datum α) : Except (Fault α) α := do (← d.asNumber).operand

def plus (a b : Datum α) : Except (Fault α) (Number α) := do
  (← a.asNumber).plus (← b.asNumber)

def minus (a b : Datum α) : Except (Fault α) (Number α) := do
  (← a.asNumber).minus (← b.asNumber)

def times (a b : Datum α) : Except (Fault α) (Number α) := do
  (← a.asNumber).times (← b.asNumber)

def negate (a : Datum α) : Except (Fault α) (Number α) := do
  return (← a.asNumber).negate

/-- The multiple of a value by `i`. -/
def multiple (i : Nat) (a : Datum α) : Except (Fault α) (Number α) := do
  return (← a.asNumber).multiple i

def square (a : Datum α) : Except (Fault α) (Number α) := do (← a.asNumber).square

def quotient (a b : Datum α) : Except (Fault α) α := do
  (← a.asNumber).quotient (← b.asNumber)

def lt (a b : Datum α) : Except (Fault α) Bool := do
  return (← a.asNumber).lt (← b.asNumber)

/-- The first value unless the second is smaller. -/
def atMost (a bound : Datum α) : Except (Fault α) (Datum α) := do
  if ← bound.lt a then return bound else return a

/-- The first value unless the second is larger. -/
def atLeast (a bound : Datum α) : Except (Fault α) (Datum α) := do
  if ← a.lt bound then return bound else return a

/-! ## On numbers -/

@[simp] theorem scalar_number (a : Number α) : (number a).scalar = a.scalar := rfl

@[simp] theorem operand_number (a : Number α) : (number a).operand = a.operand := rfl

@[simp] theorem plus_number (a b : Number α) : (number a).plus (number b) = a.plus b := rfl

@[simp] theorem minus_number (a b : Number α) : (number a).minus (number b) = a.minus b := rfl

@[simp] theorem times_number (a b : Number α) : (number a).times (number b) = a.times b := rfl

@[simp] theorem negate_number (a : Number α) : (number a).negate = .ok a.negate := rfl

@[simp] theorem multiple_number (i : Nat) (a : Number α) :
    (number a).multiple i = .ok (a.multiple i) := rfl

@[simp] theorem quotient_number (a b : Number α) :
    (number a).quotient (number b) = a.quotient b := rfl

@[simp] theorem lt_number (a b : Number α) : (number a).lt (number b) = .ok (a.lt b) := rfl

end Datum

end RecedingHorizon
