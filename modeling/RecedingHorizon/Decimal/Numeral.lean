import RecedingHorizon.Scalar

/-!
# Numerals

A number written down with digits: a sign or none, digits with a point before,
among or after them or with none, and a power of ten or none.  At least one digit
is needed.  The numeral is read exactly, as `± mantissa · 10 ^ exponent`, and
rounded once where a scalar is needed.

A text that is given for a number may have blanks around it, may have its digits
grouped by single low lines, and may name an infinity or say that it is not a
number, in letters of either case.

* `Numeral.spelled`: the whole number that digits spell.
* `Numeral.ofChars?`, `Numeral.scalar`: a numeral, and the scalar nearest to it.
* `Numeral.scalarOfText?`: the scalar a text stands for.
-/

namespace RecedingHorizon

/-- The number `± mantissa · 10 ^ exponent`. -/
structure Numeral where
  negative : Bool
  mantissa : Nat
  exponent : Int

namespace Numeral

/-- The whole number that digits spell. -/
def spelled (digits : List Char) : Nat :=
  digits.foldl (fun n c => 10 * n + (c.toNat - 48)) 0

@[simp] theorem spelled_nil : spelled [] = 0 := rfl

@[simp] theorem spelled_append_one (digits : List Char) (c : Char) :
    spelled (digits ++ [c]) = 10 * spelled digits + (c.toNat - 48) := by
  rw [spelled, List.foldl_append]
  rfl

/-- A sign taken off, and whether it is that of a negative number. -/
def signed : List Char → Bool × List Char
  | '-' :: cs => (true, cs)
  | '+' :: cs => (false, cs)
  | cs => (false, cs)

/-- The power of ten at the end of a numeral, if all that is left is one or nothing. -/
def power? : List Char → Option Int
  | [] => some 0
  | c :: cs =>
      let (negative, digits) := signed cs
      if (c = 'e' ∨ c = 'E') ∧ digits ≠ [] ∧ digits.all Char.isDigit then
        some (if negative then -(spelled digits : Int) else spelled digits)
      else none

/-- The digits after a point, and what is left. -/
def fraction : List Char → List Char × List Char
  | '.' :: cs => (cs.takeWhile Char.isDigit, cs.dropWhile Char.isDigit)
  | cs => ([], cs)

/-- The numeral that characters spell, if all of them belong to it. -/
def ofChars? (cs : List Char) : Option Numeral :=
  let (negative, cs) := signed cs
  let whole := cs.takeWhile Char.isDigit
  let (fraction, rest) := fraction (cs.dropWhile Char.isDigit)
  let digits := whole ++ fraction
  if digits.isEmpty then none
  else (power? rest).map fun power =>
    { negative, mantissa := spelled digits, exponent := power - fraction.length }

variable {α : Type} [Scalar α]

/-- The powers of ten between which a numeral is read.  One further from zero is an
infinity, and one nearer to it is zero. -/
def reach : Int := 400

/-- The scalar nearest to a numeral. -/
def scalar (a : Numeral) : α :=
  let size := a.exponent + (Nat.toDigits 10 a.mantissa).length
  let magnitude : α :=
    if a.mantissa = 0 ∨ size < -reach then 0
    else if reach < size then 1 / 0
    else OfScientific.ofScientific a.mantissa (a.exponent < 0) a.exponent.natAbs
  if a.negative then -magnitude else magnitude

/-! ## Numerals within texts -/

/-- Whether a character may stand around a numeral. -/
def isBlank (c : Char) : Bool :=
  [(0x9, 0xd), (0x20, 0x20), (0x85, 0x85), (0xa0, 0xa0), (0x1680, 0x1680), (0x2000, 0x200a),
    (0x2028, 0x2029), (0x202f, 0x202f), (0x205f, 0x205f), (0x3000, 0x3000)].any
    fun (first, last) => first ≤ c.toNat && c.toNat ≤ last

/-- Characters without the blanks around them. -/
def trimmed (cs : List Char) : List Char :=
  ((cs.dropWhile isBlank).reverse.dropWhile isBlank).reverse

/-- Characters without the low lines that stand between two digits.  `after` says
whether a digit stands before the first of them. -/
def ungrouped (after : Bool) : List Char → List Char
  | [] => []
  | '_' :: c :: cs =>
      if after && c.isDigit then c :: ungrouped true cs else '_' :: ungrouped false (c :: cs)
  | c :: cs => c :: ungrouped c.isDigit cs

/-- The scalar that a word names. -/
def named? (word : List Char) : Option α :=
  let (negative, word) := signed word
  let word := String.ofList (word.map Char.toLower)
  if word = "nan" then some (0 / 0)
  else if word = "inf" ∨ word = "infinity" then some (if negative then -(1 / 0) else 1 / 0)
  else none

/-- The scalar a text stands for. -/
def scalarOfText? (s : String) : Option α :=
  let cs := trimmed s.toList
  (named? cs).or ((ofChars? (ungrouped false cs)).map scalar)

end Numeral

end RecedingHorizon
