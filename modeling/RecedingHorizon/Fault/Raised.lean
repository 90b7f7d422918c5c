import RecedingHorizon.Datum
import RecedingHorizon.Decimal.Shortest
import RecedingHorizon.Fault
import RecedingHorizon.Scalar
import RecedingHorizon.Text.Quoted

/-!
# Faults in words

Every text a caller can read is made here.  Values are quoted as they were given: a
whole number by its digits, a double by the fewest digits that read back.  The items
of lists and records stand between brackets with a comma and a blank between them,
and a text among them in quotation marks; on its own it stands for itself.

Norms and tolerances, which are read for their size, have three digits after the
point and a power of ten.  A shape is quoted in round brackets, and a shape with one
extent keeps a comma so as not to look like a number.

A caller may raise a fault of one of the solver's kinds with arguments of its own.
Without arguments it has no text, one argument is its text, and several are quoted as
a tuple.  A fault of convergence needs a text, and may carry the iterate it ended at,
its residual norm and a count.

* `Datum.quoted`: a value as it was given.
* `Fault.message`: the text of a fault.
* `Raised`, `Raised.ofArguments`: a fault raised by hand.
-/

namespace RecedingHorizon

/-! ## Given values quoted -/

namespace Datum

/-- A number as it was given. -/
def quotedNumber : Number Float → String
  | .whole n => toString n
  | .real x => Decimal.shortest x

/-- A quoted value under its name. -/
def named (name value : String) : String := Text.quoted name ++ ": " ++ value

mutual

/-- The text of a value inside a list or a record. -/
def inside : Datum Float → String
  | number a => quotedNumber a
  | flag b => if b then "True" else "False"
  | nothing => "None"
  | text s => Text.quoted s
  | list items => "[" ++ ", ".intercalate (insideAll items) ++ "]"
  | record names values =>
      "\x7b" ++ ", ".intercalate (List.zipWith named names (insideAll values)) ++ "\x7d"

/-- The texts of values inside a list or a record, one by one. -/
def insideAll : List (Datum Float) → List String
  | [] => []
  | item :: items => inside item :: insideAll items

end

/-- The text of a value on its own. -/
def quoted : Datum Float → String
  | text s => s
  | other => other.inside

end Datum

/-! ## The wording of faults -/

namespace Report

/-- A number by its size. -/
def magnitude (x : Float) : String := (Decimal.Format.scientific 3).write true x

/-- A shape, or the extents asked for instead of it. -/
def shape : List Int → String
  | [] => "()"
  | [n] => "(" ++ toString n ++ ",)"
  | ns => "(" ++ ", ".intercalate (ns.map toString) ++ ")"

/-- The shape of an array. -/
def shapeOf (s : List Nat) : String := shape (s.map Int.ofNat)

end Report

/-- The name under which callers give a value. -/
def Parameter.label : Parameter → String
  | .horizonLength => "T_f"
  | .growthRate => "alpha"
  | .divisions => "horizon_division_num"
  | .differenceStep => "finite_difference_step"
  | .decayRate => "zeta"
  | .krylovLimit => "kmax"
  | .relativeTolerance => "gmres_rtol"
  | .residualTolerance => "residual_tolerance"
  | .iterationLimit => "max_iterations"
  | .samplingPeriod => "sampling_period"

/-- What is asked of a number, as the end of a sentence. -/
def Requirement.phrase : Requirement → String
  | .positive => "positive"
  | .nonNegative => "non-negative"
  | .wholeNonNegative => "a non-negative integer"
  | .atLeastOne => "at least 1"

/-- The text of a fault.  Faults that only say that operands do not belong
together have none. -/
def Fault.message : Fault Float → String
  | unmet parameter requirement got =>
      parameter.label ++ " must be " ++ requirement.phrase ++ ", got " ++ got.quoted
  | guessNotVector shape =>
      "initial_guess must be a vector, got shape " ++ Report.shapeOf shape
  | beforeStart time start =>
      "time " ++ time.quoted ++ " precedes the initial time " ++ start.quoted
  | uninitialized => "init_solution must be called before updating the control"
  | stateShape shape expected =>
      "state has shape " ++ Report.shapeOf shape ++ ", expected " ++ Report.shape [expected]
  | guessShape shape expected =>
      "initial guess has shape " ++ Report.shapeOf shape ++ ", expected " ++ Report.shape [expected]
  | unconverged attempt =>
      "initial solution did not converge: residual " ++ Report.magnitude attempt.residualNorm ++
        " after " ++ toString attempt.iterations ++ " iterations (tolerance " ++
        Report.magnitude attempt.tolerance ++ ")"
  | _ => ""

/-! ## Faults raised by hand -/

/-- A fault raised by hand. -/
structure Raised where
  kind : Kind
  message : String
  solution : Datum Float := .nothing
  residualNorm : Datum Float := .number (.real (0.0 / 0.0))
  iterations : Datum Float := 0

/-- Raise a fault of a kind with the given arguments. -/
def Raised.ofArguments (kind : Kind) (given : List (Datum Float)) : Except (Fault Float) Raised :=
  match kind, given with
  | .convergence, [] => .error .missingArgument
  | .convergence, [message] => .ok { kind, message := message.quoted }
  | .convergence, [message, solution] => .ok { kind, message := message.quoted, solution }
  | .convergence, [message, solution, residualNorm] =>
      .ok { kind, message := message.quoted, solution, residualNorm }
  | .convergence, [message, solution, residualNorm, iterations] =>
      .ok { kind, message := message.quoted, solution, residualNorm, iterations }
  | .convergence, _ => .error .unknownArgument
  | _, [] => .ok { kind, message := "" }
  | _, [message] => .ok { kind, message := message.quoted }
  | _, several => .ok { kind, message := "(" ++ ", ".intercalate (Datum.insideAll several) ++ ")" }

end RecedingHorizon
