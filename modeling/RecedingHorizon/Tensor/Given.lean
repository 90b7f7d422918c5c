import RecedingHorizon.Tensor.Broadcast
import RecedingHorizon.Tensor.Literal
import RecedingHorizon.Tensor.Product

/-!
# Arrays and values as they were given

A number meets every entry of an array, and is turned into a scalar for that even
if there is no entry.  A list is an array.  What cannot be computed with at all is
not asked to where there is no entry, except for a text, which never is an
operand.

An array may be gathered from scalars and from numbers as they were given.  As a
rule it is an array of scalars.  But if one of the numbers is a whole one that no
machine word holds, all of them are kept as they are, and that number has to be in
the range of the scalars only where it is computed with: after the shapes have
been found to fit, and only if there is an entry to be computed.

* `Tensor.scaleBy`, `Tensor.divideBy`: an array multiplied or divided by a value.
* `Tensor.scaleItemBy`: an item of an array multiplied by a value.
* `Tensor.plusDatum`, `Tensor.minusDatum`: a value added or taken away.
* `Gathered.ofNumbers`: the array of given numbers.
* `Gathered.plus`, `Gathered.pullback`: what is computed with it.
-/

namespace RecedingHorizon

namespace Tensor

variable {α : Type} [Scalar α]

/-- An operation on entries, carried out on each entry and a value. -/
def meet (op : α → α → α) (a : Tensor α) (c : Datum α) : Except (Fault α) (Tensor α) :=
  match c with
  | .list _ => do a.pointwise op (← c.operands)
  | .nothing | .record .. => if a.entries.isEmpty then .ok a else .error .noNumber
  | c => do
      let c ← c.scalar
      return a.map fun x => op x c

/-- The array multiplied by a value. -/
def scaleBy (c : Datum α) (a : Tensor α) : Except (Fault α) (Tensor α) :=
  a.meet (fun x c => c * x) c

/-- An item of an array multiplied by a value.  An item that is a bare number is no
array any more, and has no multiple by a list. -/
def scaleItemBy (c : Datum α) (a : Tensor α) : Except (Fault α) (Tensor α) :=
  match c, a.shape with
  | .list _, [] => .error .noNumber
  | c, _ => a.scaleBy c

/-- The array divided by a value.  Division by zero is that of the scalars. -/
def divideBy (a : Tensor α) (c : Datum α) : Except (Fault α) (Tensor α) := a.meet (· / ·) c

/-- The array with a value taken from every entry. -/
def minusDatum (a : Tensor α) (c : Datum α) : Except (Fault α) (Tensor α) := a.meet (· - ·) c

/-- The array with a value added to every entry. -/
def plusDatum (a : Tensor α) (c : Datum α) : Except (Fault α) (Tensor α) := a.meet (· + ·) c

@[simp] theorem meet_real (op : α → α → α) (a : Tensor α) (c : α) :
    a.meet op (.number (.real c)) = .ok (a.map fun x => op x c) := rfl

@[simp] theorem scaleBy_real (c : α) (a : Tensor α) :
    scaleBy (.number (.real c)) a = .ok (a.scale c) := rfl

@[simp] theorem scaleItemBy_real (c : α) (a : Tensor α) :
    scaleItemBy (.number (.real c)) a = .ok (a.scale c) := rfl

@[simp] theorem divideBy_real (c : α) (a : Tensor α) :
    divideBy a (.number (.real c)) = .ok (a.divide c) := rfl

end Tensor

/-! ## Arrays gathered from numbers -/

/-- An array gathered from numbers. -/
inductive Gathered (α : Type) where
  | scalars (a : Tensor α)
  | numbers (a : Tensor (Number α))

namespace Gathered

variable {α : Type} [Scalar α]

/-- The numbers of an array as scalars. -/
def toScalars (a : Tensor (Number α)) : Except (Fault α) (Tensor α) := do
  let entries ← a.entries.mapM Number.scalar
  if h : entries.length = volume a.shape then return ⟨a.shape, entries, h⟩
  throw .shapeMismatch

/-- The array of given numbers. -/
def ofNumbers (a : Tensor (Number α)) : Except (Fault α) (Gathered α) :=
  if a.entries.any Number.isWide then .ok (.numbers a) else scalars <$> toScalars a

/-- What comes of the array where it is computed with. -/
def apply (op : Tensor α → Except (Fault α) (Tensor α)) : Gathered α → Except (Fault α) (Tensor α)
  | scalars a => op a
  | numbers a => do
      let trial ← op (.zeros a.shape)
      if trial.entries.isEmpty then return trial
      op (← toScalars a)

def plus (a : Gathered α) (b : Tensor α) : Except (Fault α) (Tensor α) :=
  a.apply fun a => a.plus b

/-- The product `Aᵀ b`. -/
def pullback (a : Gathered α) (b : Tensor α) : Except (Fault α) (Tensor α) :=
  a.apply fun a => a.pullback b

@[simp] theorem plus_scalars (a b : Tensor α) : (scalars a).plus b = a.plus b := rfl

@[simp] theorem pullback_scalars (a b : Tensor α) : (scalars a).pullback b = a.pullback b := rfl

end Gathered

end RecedingHorizon
