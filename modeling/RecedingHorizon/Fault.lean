import RecedingHorizon.Datum

/-!
# What can go wrong

A computation that cannot answer says why.  A `Fault` is the cause, with the
values that a report quotes; how it is worded is decided in one place, in
`Fault.message`.  A cause also has a `Kind`, the coarse sort by which callers tell
faults apart, and kinds have ancestors: a wrong length is a wrong configuration,
which is both a fault of the solver and a wrong value.

* `Parameter`, `Requirement`: what was asked of a value that was given.
* `Attempt`: the iterate an unsuccessful search for the initial control ends at.
* `Fault`, `Fault.kind`: causes and their kinds.
* `Kind.lineage`: a kind with everything it is a case of, nearest first.
-/

namespace RecedingHorizon

/-- The numbers a caller chooses. -/
inductive Parameter where
  | horizonLength
  | growthRate
  | divisions
  | differenceStep
  | decayRate
  | krylovLimit
  | relativeTolerance
  | residualTolerance
  | iterationLimit
  | samplingPeriod
  deriving DecidableEq

/-- What is asked of a number that a caller chooses. -/
inductive Requirement where
  | positive
  | nonNegative
  | wholeNonNegative
  | atLeastOne
  deriving DecidableEq

/-- The iterate at which a search for the initial control gave up: its residual
norm, how many iterations led to it, and the tolerance it misses. -/
structure Attempt (α : Type) where
  solution : List α
  residualNorm : α
  iterations : Nat
  tolerance : α

/-- Why a computation has no answer. -/
inductive Fault (α : Type) where
  /-- A number does not meet its requirement. -/
  | unmet (parameter : Parameter) (requirement : Requirement) (got : Datum α)
  /-- A guess was given that is no vector. -/
  | guessNotVector (shape : List Nat)
  /-- A time lies before the start of the horizon. -/
  | beforeStart (time start : Datum α)
  /-- The controller has no initial solution yet. -/
  | uninitialized
  | stateShape (shape : List Nat) (expected : Int)
  | guessShape (shape : List Nat) (expected : Int)
  /-- The search for the initial control missed its tolerance. -/
  | unconverged (attempt : Attempt α)
  /-- Two operands do not fit together. -/
  | shapeMismatch
  /-- The items of an array literal differ in shape, or lie too deep. -/
  | ragged
  | negativeExtent
  /-- An array was asked for whose size cannot be written down. -/
  | oversized
  /-- An array was asked for that no memory can hold. -/
  | exhausted
  /-- Several values, or none, stand where one verdict is needed. -/
  | ambiguous
  /-- A text stands where a number is to be read. -/
  | unreadable
  /-- A number has too many digits to be quoted. -/
  | unquotable
  /-- A triangular system holds an infinity or something that is not a number. -/
  | nonFiniteSystem
  /-- A count was asked for that is not a number. -/
  | undefinedCount
  | unboundedCount
  /-- A number leaves the range of the scalars. -/
  | overflow
  /-- A row or entry past the end was asked for. -/
  | missingEntry
  | missingArgument
  | unknownArgument
  /-- What was given is no number where one is needed. -/
  | noNumber
  /-- A whole number does not fit a machine word. -/
  | wideInteger
  /-- A bare number was to be taken apart into items. -/
  | noItems
  /-- An extent was not given as a whole number. -/
  | fractionalExtent
  /-- A model leaves some of its functions open. -/
  | incompleteModel
  /-- A function was asked for that a model does not have. -/
  | missingFunction
  | divisionByZero
  /-- A step was taken before the one that prepares it. -/
  | unprepared

/-- The sorts of faults callers tell apart. -/
inductive Kind where
  /-- Faults of the solver. -/
  | solver
  | configuration
  | dimension
  | convergence
  /-- An operand with an unsuitable value. -/
  | value
  | runtime
  | index
  | type
  | overflow
  | zeroDivision
  | assertion
  /-- A part of something was asked for that is not there. -/
  | attribute
  | memory
  /-- Every ordinary fault. -/
  | ordinary
  /-- Everything that can be raised. -/
  | raisable
  /-- Every value. -/
  | anything
  deriving DecidableEq

/-- What every ordinary fault is a case of, nearest first. -/
def Kind.ordinaryLineage : List Kind := [.ordinary, .raisable, .anything]

/-- A kind and all it is a case of, nearest first. -/
def Kind.lineage : Kind → List Kind
  | .anything => [.anything]
  | .raisable => [.raisable, .anything]
  | .ordinary => ordinaryLineage
  | .configuration => .configuration :: .solver :: .value :: ordinaryLineage
  | .dimension => .dimension :: .configuration :: .solver :: .value :: ordinaryLineage
  | .convergence => .convergence :: .solver :: .runtime :: ordinaryLineage
  | kind => kind :: ordinaryLineage

/-- The kind of a fault. -/
def Fault.kind {α : Type} : Fault α → Kind
  | unmet .. | guessNotVector _ | beforeStart .. | uninitialized => .configuration
  | stateShape .. | guessShape .. => .dimension
  | unconverged _ => .convergence
  | shapeMismatch | ragged | negativeExtent | oversized | ambiguous | unreadable | unquotable
  | nonFiniteSystem | undefinedCount => .value
  | exhausted => .memory
  | unboundedCount | overflow => .overflow
  | missingEntry => .index
  | missingArgument | unknownArgument | noNumber | wideInteger | noItems
  | fractionalExtent | incompleteModel => .type
  | divisionByZero => .zeroDivision
  | unprepared => .assertion
  | missingFunction => .attribute

/-! ## Computations that may fail -/

section Computations

variable {ε β γ : Type}

/-- What comes after an answer goes on from it. -/
theorem ok_bind (b : β) (next : β → Except ε γ) : (Except.ok b >>= next) = next b := rfl

theorem error_bind (e : ε) (next : β → Except ε γ) :
    ((Except.error e : Except ε β) >>= next) = .error e := rfl

/-- A computation in two parts answers if both do. -/
theorem bind_eq_ok_iff {r : Except ε β} {next : β → Except ε γ} {c : γ} :
    (r >>= next) = .ok c ↔ ∃ b, r = .ok b ∧ next b = .ok c := by
  cases r with
  | error e =>
      constructor
      · intro h
        cases h
      · rintro ⟨b, h, -⟩
        cases h
  | ok b =>
      constructor
      · intro h
        exact ⟨b, rfl, h⟩
      · rintro ⟨b', h, hb⟩
        cases h
        exact hb

theorem pure_eq_ok (b : β) : (pure b : Except ε β) = .ok b := rfl

end Computations

end RecedingHorizon
