/-!
# Binary numbers taken apart

A double is a sign and a magnitude `m · 2 ^ e`, or an infinity, or not a number.
Everything exact that is said about a double --- its decimal digits, whether it
is a whole number, the whole number above it --- is said of this reading, in
integer arithmetic.

* `Binary.ofFloat`: the reading of a double.
* `Binary.Magnitude`: a magnitude as a quotient of naturals.
* `Binary.whole`, `Binary.ceil`: the whole number a double is, and the least one
  not below it.
-/

namespace RecedingHorizon

/-- What a double stands for: `finite s m e` is `± m · 2 ^ e`, negative if `s`. -/
inductive Binary where
  | undefined
  | infinite (negative : Bool)
  | finite (negative : Bool) (mantissa : Nat) (exponent : Int)
  deriving DecidableEq

/-- Whether a number is whole, and if so which one. -/
inductive Wholeness where
  /-- Not a number. -/
  | undefined
  /-- An infinity. -/
  | unbounded
  /-- A finite number between two whole ones. -/
  | fraction
  /-- The whole number itself. -/
  | whole (n : Int)
  deriving DecidableEq

namespace Binary

/-- The reading of a double: one sign bit, eleven exponent bits, fifty-two
fraction bits; the exponent zero marks the numbers without a leading one. -/
def ofFloat (x : Float) : Binary :=
  let bits := x.toBits.toNat
  let negative : Bool := bits / Nat.pow 2 63 = 1
  let exponent : Nat := bits / Nat.pow 2 52 % Nat.pow 2 11
  let fraction := bits % Nat.pow 2 52
  if exponent = 2047 then
    if fraction = 0 then infinite negative else undefined
  else if exponent = 0 then
    finite negative fraction (-1074)
  else
    finite negative (fraction + Nat.pow 2 52) ((exponent : Int) - 1075)

/-- A magnitude as a quotient of naturals. -/
structure Magnitude where
  num : Nat
  den : Nat
  deriving DecidableEq

/-- The quotient `m · 2 ^ e`. -/
def Magnitude.ofScaled (m : Nat) : Int → Magnitude
  | .ofNat e => ⟨m * Nat.pow 2 e, 1⟩
  | .negSucc e => ⟨m, Nat.pow 2 (e + 1)⟩

/-- The whole number that is read, if it is one. -/
def whole : Binary → Wholeness
  | undefined => .undefined
  | infinite _ => .unbounded
  | finite negative m e =>
      let q := Magnitude.ofScaled m e
      if q.num % q.den = 0 then
        .whole (if negative then -(q.num / q.den : Nat) else (q.num / q.den : Nat))
      else .fraction

/-- The least whole number not below a finite one; zero where there is none. -/
def ceil : Binary → Int
  | finite negative m e =>
      let q := Magnitude.ofScaled m e
      if negative then -(q.num / q.den : Nat) else ((q.num + q.den - 1) / q.den : Nat)
  | _ => 0

end Binary

end RecedingHorizon
