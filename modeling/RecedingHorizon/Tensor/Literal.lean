import RecedingHorizon.Datum.Arithmetic
import RecedingHorizon.Decimal.Numeral
import RecedingHorizon.Tensor

/-!
# Array literals

Arrays are given as nested lists.  A literal has a shape only if the items of
every list in it agree in shape, and if the lists do not lie too deep in each
other; otherwise it is ragged and stands for no array.  Its leaves are then
turned into scalars, which may fail as well, so a literal of two faults is ragged
first.  A place left empty holds what is not a number, except where the array is
to be computed with at once.

* `Datum.shape?`: the shape, if there is one.
* `Datum.tensor`, `Datum.operands`: the array.
* `Datum.ofTensor`: an array written down.
-/

namespace RecedingHorizon

namespace Datum

variable {α : Type}

/-- The shape of a list whose items have the given shapes. -/
def joinShapes : List (List Nat) → Option (List Nat)
  | [] => some [0]
  | s :: ss => if ss.all (· = s) then some ((ss.length + 1) :: s) else none

mutual

/-- The shape of a literal, if its lists agree. -/
def shape? : Datum α → Option (List Nat)
  | list items => (shapes? items).bind joinShapes
  | _ => some []

/-- The shapes of the items of a list. -/
def shapes? : List (Datum α) → Option (List (List Nat))
  | [] => some []
  | item :: items => (shape? item).bind fun s => (shapes? items).map (s :: ·)

end

mutual

/-- The leaves of a literal, from left to right. -/
def leaves : Datum α → List (Datum α)
  | list items => leavesOf items
  | leaf => [leaf]

/-- The leaves of the items of a list. -/
def leavesOf : List (Datum α) → List (Datum α)
  | [] => []
  | item :: items => leaves item ++ leavesOf items

end

/-- The lists of the given shape, filled with scalars in their order. -/
def fill : List Nat → List α → Datum α
  | [], x :: _ => number (.real x)
  | [], [] => list []
  | n :: shape, entries => list ((Vec.pieces (volume shape) n entries).map (fill shape))

/-- An array as a literal. -/
def ofTensor (a : Tensor α) : Datum α := fill a.shape a.entries

/-! ## Vectors written down -/

theorem ofTensor_ofVec (v : Vec α) :
    ofTensor (.ofVec v) = list (v.map fun x => number (.real x)) := by
  have h : ∀ v : Vec α, (Vec.pieces (volume []) v.length v).map (fill []) =
      v.map fun x => number (.real x) := by
    intro v
    induction v with
    | nil => rfl
    | cons x v ih =>
        simp only [volume_nil] at ih
        simp [fill]
        exact ih
  exact congrArg list (h v)

theorem shapes?_numbers (v : Vec α) :
    shapes? (v.map fun x => number (.real x)) = some (v.map fun _ => []) := by
  induction v with
  | nil => rfl
  | cons x v ih => simp [shapes?, shape?, ih]

theorem leavesOf_numbers (v : Vec α) :
    leavesOf (v.map fun x => number (.real x)) = v.map fun x => number (.real x) := by
  induction v with
  | nil => rfl
  | cons x v ih => simp [leavesOf, leaves, ih]

/-! ## Literals read -/

/-- The array of a literal whose leaves are read in a given way. -/
def read (leaf : Datum α → Except (Fault α) α) (literal : Datum α) :
    Except (Fault α) (Tensor α) := do
  match literal.shape? with
  | some shape =>
      if rankLimit < shape.length then throw .ragged
      let entries ← literal.leaves.mapM leaf
      if h : entries.length = volume shape then return ⟨shape, entries, h⟩
      throw .ragged
  | none => throw .ragged

variable [Scalar α]

/-- The entry an array has for a leaf.  A text has to be a numeral, and a record
cannot be a number. -/
def entry : Datum α → Except (Fault α) α
  | nothing => .ok (0 / 0)
  | text s =>
      match Numeral.scalarOfText? s with
      | some x => .ok x
      | none => .error .unreadable
  | leaf => leaf.scalar

/-- The array of a literal. -/
def tensor (literal : Datum α) : Except (Fault α) (Tensor α) := literal.read entry

/-- The array of a literal that is computed with as it stands, so that each leaf has
to be a number. -/
def operands (literal : Datum α) : Except (Fault α) (Tensor α) := literal.read scalar

theorem mapM_entry_real (v : Vec α) :
    (v.map fun x => number (.real x)).mapM entry = .ok v := by
  induction v with
  | nil => rfl
  | cons x v ih =>
      rw [List.map_cons, List.mapM_cons, ih]
      rfl

/-- A vector that is written down is read as itself. -/
@[simp] theorem tensor_ofTensor_ofVec (v : Vec α) :
    (ofTensor (.ofVec v)).tensor = .ok (.ofVec v) := by
  have hs : (list (v.map fun x => number (.real x))).shape? = some [v.length] := by
    rw [shape?, shapes?_numbers]
    cases v with
    | nil => rfl
    | cons x v => simp [joinShapes]
  rw [ofTensor_ofVec, tensor, read, hs]
  simp only [leaves, leavesOf_numbers, mapM_entry_real, rankLimit]
  simp [pure, Except.pure, bind, Except.bind, Tensor.ofVec]

end Datum

end RecedingHorizon
