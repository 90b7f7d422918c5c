import RecedingHorizon.Scalar

/-!
# Values as they were given

A time, a step or a setting may be given as a whole number or as a scalar.  A
report quotes the number as it was given, and whole numbers compute among each
other exactly, however large.

What a caller gives need not be what is needed.  A datum is a number, or a truth
value, which counts as one or zero wherever a number is needed, or nothing at all,
a text, a list, or a record of named values.  It is looked at when it is used: a
model that does not depend on time is content without one, and a report quotes a
datum as it was given.

* `Number`: a number as it was given.
* `Datum`, `Datum.number?`: a value as it was given, and the number it stands for, if
  it is one.
-/

namespace RecedingHorizon

/-- A number as it was given. -/
inductive Number (α : Type) where
  | whole (n : Int)
  | real (x : α)

namespace Number

variable {α : Type}

instance : Coe α (Number α) := ⟨real⟩

instance (n : Nat) : OfNat (Number α) n := ⟨whole n⟩

/-- Whether a whole number fits a machine word, with a sign or without. -/
def fitsWord (n : Int) : Bool := -(Nat.pow 2 63 : Int) ≤ n && n < (Nat.pow 2 64 : Int)

/-- Whether the number is a whole one that no machine word holds. -/
def isWide : Number α → Bool
  | whole n => !fitsWord n
  | real _ => false

@[simp] theorem isWide_real (x : α) : (real x).isWide = false := rfl

/-- Whether the number can be quoted.  A whole number has digits only up to a
limit. -/
def isQuotable : Number α → Bool
  | whole n => n.natAbs < Nat.pow 10 4300
  | real _ => true

@[simp] theorem isQuotable_real (x : α) : (real x).isQuotable = true := rfl

variable [Scalar α]

/-- Whether the number equals zero. -/
def isZero : Number α → Bool
  | whole n => n = 0
  | real x => Scalar.isZero x

@[simp] theorem isZero_real (x : α) : (real x).isZero = Scalar.isZero x := rfl

/-- Whether the number is whole, however it was given. -/
def wholeness : Number α → Wholeness
  | whole n => .whole n
  | real x => Scalar.wholeness x

/-- The natural number that is given, or zero. -/
def toNat (a : Number α) : Nat :=
  match a.wholeness with
  | .whole n => n.toNat
  | _ => 0

end Number

/-- A value as it was given. -/
inductive Datum (α : Type) where
  | number (a : Number α)
  | flag (b : Bool)
  /-- Nothing stands where a value may be asked for. -/
  | nothing
  | text (s : String)
  | list (items : List (Datum α))
  /-- Named values, the names apart and in their order. -/
  | record (names : List String) (values : List (Datum α))

namespace Datum

variable {α : Type}

instance : Coe (Number α) (Datum α) := ⟨number⟩

instance : Coe α (Datum α) := ⟨fun x => number (.real x)⟩

instance (n : Nat) : OfNat (Datum α) n := ⟨number (.whole n)⟩

/-- The number a datum stands for. -/
def number? : Datum α → Option (Number α)
  | number a => some a
  | flag b => some (.whole (if b then 1 else 0))
  | _ => none

@[simp] theorem number?_number (a : Number α) : (number a).number? = some a := rfl

/-- Whether the datum can be quoted. -/
def isQuotable (d : Datum α) : Bool := d.number?.all Number.isQuotable

@[simp] theorem isQuotable_number (a : Number α) : (number a).isQuotable = a.isQuotable := rfl

variable [Scalar α]

/-- Whether the datum is a number that equals zero. -/
def isZero (d : Datum α) : Bool := d.number?.any Number.isZero

@[simp] theorem isZero_number (a : Number α) : (number a).isZero = a.isZero := rfl

/-- The natural number that is given, or zero. -/
def toNat (d : Datum α) : Nat := d.number?.elim 0 Number.toNat

@[simp] theorem toNat_number (a : Number α) : (number a).toNat = a.toNat := rfl

end Datum

end RecedingHorizon
