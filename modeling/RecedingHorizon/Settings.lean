import RecedingHorizon.Fault.Raised
import RecedingHorizon.Tensor.Literal

/-!
# What the caller sets

The settings of a controller and the parameters of its initial solve are given
by name, as a draft.  A name that is missing or unknown is refused before any
value is looked at.  A draft is then checked entry by entry in a fixed order and
the first entry that fails is reported; a value of `Settings` or `InitParams`
has passed the checks.

A check reads its conditions from left to right and stops at the first that
fails, so a number that is not finite is rejected before it is compared, and a
number that has no whole part has no verdict at all.

* `Requirement.check`, `Requirement.checkFinite`: one requirement on one entry.
* `Settings.Draft`, `InitParams.Draft`: what was given.
* `Settings.Draft.check`, `InitParams.Draft.check`: the checked records.
* `Settings.Draft.Passes`, `Settings.Draft.check_eq_ok_iff`: the checks of a record are those of its
  entries; `Settings.Checked`, `Settings.Draft.checked`: what checked settings meet; the same for
  `InitParams`.
-/

namespace RecedingHorizon

variable {α : Type} [Scalar α]

/-! ## Requirements -/

namespace Number

/-- Whether a number is finite.  A whole number has to fit a machine word to be
asked. -/
def finite? : Number α → Except (Fault α) Bool
  | whole n => if fitsWord n then .ok true else .error .wideInteger
  | real x => .ok (Scalar.isFinite x)

/-- The whole number that is given, if it is one.  What is not a number has no
whole part and an infinity has one out of reach. -/
def whole? : Number α → Except (Fault α) (Option Int)
  | whole n => .ok (some n)
  | real x =>
      match Scalar.wholeness x with
      | .undefined => .error .undefinedCount
      | .unbounded => .error .unboundedCount
      | .fraction => .ok none
      | .whole n => .ok (some n)

/-- Whether a number is larger than zero. -/
def isPositive : Number α → Bool
  | whole n => 0 < n
  | real x => (0 : α) < x

/-- Whether a number is zero or larger. -/
def isNonNegative : Number α → Bool
  | whole n => 0 ≤ n
  | real x => (0 : α) ≤ x

end Number

namespace Datum

/-- Whether a value is finite.  A list is asked leaf by leaf, and there is a verdict
on it only if it has a single one. -/
def finite? : Datum α → Except (Fault α) Bool
  | list items => do
      let literal := list items
      if literal.shape?.all fun shape => rankLimit < shape.length then throw .ragged
      match ← literal.leaves.mapM fun leaf => do (← leaf.asNumber).finite? with
      | [verdict] => return verdict
      | _ => throw .ambiguous
  | other => do (← other.asNumber).finite?

/-- Whether a value is larger than zero. -/
def isPositive (d : Datum α) : Except (Fault α) Bool := do return (← d.asNumber).isPositive

/-- Whether a value is zero or larger. -/
def isNonNegative (d : Datum α) : Except (Fault α) Bool := do
  return (← d.asNumber).isNonNegative

/-- The whole number that is given, if it is one. -/
def whole? (d : Datum α) : Except (Fault α) (Option Int) := do (← d.asNumber).whole?

end Datum

namespace Requirement

/-- Whether a value meets a requirement. -/
def holds (requirement : Requirement) (got : Datum α) : Except (Fault α) Bool :=
  match requirement with
  | .positive => got.isPositive
  | .nonNegative => got.isNonNegative
  | .wholeNonNegative => got.whole?.map fun n => n.any (0 ≤ ·)
  | .atLeastOne => got.whole?.map fun n => n.any (1 ≤ ·)

/-- The value that is given, if it meets a requirement. -/
def check (requirement : Requirement) (parameter : Parameter) (got : Datum α) :
    Except (Fault α) (Datum α) := do
  if ← requirement.holds got then return got
  throw (.unmet parameter requirement got)

/-- The value that is given, if it is finite and meets a requirement. -/
def checkFinite (requirement : Requirement) (parameter : Parameter) (got : Datum α) :
    Except (Fault α) (Datum α) := do
  if ← got.finite? then requirement.check parameter got
  else throw (.unmet parameter requirement got)

variable {requirement : Requirement} {parameter : Parameter} {got d : Datum α}

/-- A value that has passed a check meets the requirement. -/
theorem holds_of_check (h : requirement.check parameter got = .ok d) :
    requirement.holds d = .ok true := by
  obtain ⟨b, hb, h⟩ := bind_eq_ok_iff.1 h
  cases b with
  | false => cases h
  | true =>
      cases h
      exact hb

/-- A value that meets a requirement passes its check. -/
theorem check_of_holds (h : requirement.holds got = .ok true) :
    requirement.check parameter got = .ok got := by
  rw [check, h]
  rfl

/-- A value that passes a check is given back as it was. -/
theorem eq_of_check (h : requirement.check parameter got = .ok d) : d = got := by
  obtain ⟨b, -, h⟩ := bind_eq_ok_iff.1 h
  cases b with
  | false => cases h
  | true =>
      cases h
      rfl

theorem holds_of_checkFinite (h : requirement.checkFinite parameter got = .ok d) :
    requirement.holds d = .ok true := by
  obtain ⟨b, -, h⟩ := bind_eq_ok_iff.1 h
  cases b with
  | false => cases h
  | true => exact holds_of_check h

theorem eq_of_checkFinite (h : requirement.checkFinite parameter got = .ok d) : d = got := by
  obtain ⟨b, -, h⟩ := bind_eq_ok_iff.1 h
  cases b with
  | false => cases h
  | true => exact eq_of_check h

theorem finite_of_checkFinite (h : requirement.checkFinite parameter got = .ok d) :
    d.finite? = .ok true := by
  obtain rfl := eq_of_checkFinite h
  obtain ⟨b, hb, h⟩ := bind_eq_ok_iff.1 h
  cases b with
  | false => cases h
  | true => exact hb

end Requirement

/-! ## Arguments given by name -/

/-- Arguments given by name. -/
abbrev Arguments (α : Type) := List (String × Datum α)

namespace Arguments

/-- The argument given under a name. -/
def find (given : Arguments α) (name : String) : Except (Fault α) (Datum α) :=
  match given.lookup name with
  | some argument => .ok argument
  | none => .error .missingArgument

/-- The argument given for a parameter. -/
def get (given : Arguments α) (parameter : Parameter) : Except (Fault α) (Datum α) :=
  given.find parameter.label

/-- Refuse arguments with a name that is not known. -/
def checkNames (given : Arguments α) (known : List String) : Except (Fault α) Unit :=
  if given.all fun entry => entry.1 ∈ known then .ok () else .error .unknownArgument

end Arguments

/-! ## Settings of the controller -/

/-- The settings of a controller. -/
structure Settings (α : Type) where
  /-- The length the horizon grows to. -/
  horizonLength : Datum α
  /-- The rate of growth; at rate zero the horizon has its full length always. -/
  growthRate : Datum α
  /-- The number of steps the horizon is cut into. -/
  divisions : Datum α
  /-- The step of the forward differences. -/
  differenceStep : Datum α
  /-- The rate at which the residual is made to decay. -/
  decayRate : Datum α
  /-- The most directions a linear solve may use. -/
  krylovLimit : Datum α
  /-- The relative residual at which a linear solve stops. -/
  relativeTolerance : Datum α

/-- The relative residual at which linear solves stop unless told otherwise. -/
def defaultRelativeTolerance : Datum α := .number (.real 1e-10)

/-- The settings of a controller as they were given. -/
structure Settings.Draft (α : Type) where
  horizonLength : Datum α
  growthRate : Datum α
  divisions : Datum α
  differenceStep : Datum α
  decayRate : Datum α
  krylovLimit : Datum α
  relativeTolerance : Datum α

namespace Settings.Draft

/-- The settings given by name.  Only the relative tolerance may be left out. -/
def ofArguments (given : Arguments α) : Except (Fault α) (Draft α) := do
  given.checkNames <| List.map Parameter.label
    [.horizonLength, .growthRate, .divisions, .differenceStep, .decayRate, .krylovLimit,
      .relativeTolerance]
  return {
    horizonLength := ← given.get .horizonLength
    growthRate := ← given.get .growthRate
    divisions := ← given.get .divisions
    differenceStep := ← given.get .differenceStep
    decayRate := ← given.get .decayRate
    krylovLimit := ← given.get .krylovLimit
    relativeTolerance :=
      (given.lookup Parameter.relativeTolerance.label).getD defaultRelativeTolerance }

/-- The settings, checked in the order in which they are listed. -/
def check (draft : Draft α) : Except (Fault α) (Settings α) := do
  return {
    horizonLength := ← Requirement.positive.checkFinite .horizonLength draft.horizonLength
    growthRate := ← Requirement.nonNegative.checkFinite .growthRate draft.growthRate
    divisions := ← Requirement.wholeNonNegative.check .divisions draft.divisions
    differenceStep := ← Requirement.positive.checkFinite .differenceStep draft.differenceStep
    decayRate := ← Requirement.nonNegative.checkFinite .decayRate draft.decayRate
    krylovLimit := ← Requirement.atLeastOne.check .krylovLimit draft.krylovLimit
    relativeTolerance :=
      ← Requirement.nonNegative.check .relativeTolerance draft.relativeTolerance }

end Settings.Draft

/-- Every setting meets its requirement. -/
structure Settings.Checked (settings : Settings α) : Prop where
  horizonLength : Requirement.positive.holds settings.horizonLength = .ok true
  growthRate : Requirement.nonNegative.holds settings.growthRate = .ok true
  divisions : Requirement.wholeNonNegative.holds settings.divisions = .ok true
  differenceStep : Requirement.positive.holds settings.differenceStep = .ok true
  decayRate : Requirement.nonNegative.holds settings.decayRate = .ok true
  krylovLimit : Requirement.atLeastOne.holds settings.krylovLimit = .ok true
  relativeTolerance : Requirement.nonNegative.holds settings.relativeTolerance = .ok true

/-- Every setting that is given has passed its own check. -/
structure Settings.Draft.Passes (draft : Settings.Draft α) (settings : Settings α) : Prop where
  horizonLength : Requirement.positive.checkFinite .horizonLength draft.horizonLength =
    .ok settings.horizonLength
  growthRate : Requirement.nonNegative.checkFinite .growthRate draft.growthRate =
    .ok settings.growthRate
  divisions : Requirement.wholeNonNegative.check .divisions draft.divisions =
    .ok settings.divisions
  differenceStep : Requirement.positive.checkFinite .differenceStep draft.differenceStep =
    .ok settings.differenceStep
  decayRate : Requirement.nonNegative.checkFinite .decayRate draft.decayRate =
    .ok settings.decayRate
  krylovLimit : Requirement.atLeastOne.check .krylovLimit draft.krylovLimit =
    .ok settings.krylovLimit
  relativeTolerance : Requirement.nonNegative.check .relativeTolerance draft.relativeTolerance =
    .ok settings.relativeTolerance

theorem Settings.Draft.check_eq_ok_iff {draft : Settings.Draft α} {settings : Settings α} :
    draft.check = .ok settings ↔ draft.Passes settings := by
  constructor
  · intro h
    obtain ⟨T, hT, h⟩ := bind_eq_ok_iff.1 h
    obtain ⟨a, ha, h⟩ := bind_eq_ok_iff.1 h
    obtain ⟨N, hN, h⟩ := bind_eq_ok_iff.1 h
    obtain ⟨s, hs, h⟩ := bind_eq_ok_iff.1 h
    obtain ⟨ζ, hζ, h⟩ := bind_eq_ok_iff.1 h
    obtain ⟨k, hk, h⟩ := bind_eq_ok_iff.1 h
    obtain ⟨τ, hτ, h⟩ := bind_eq_ok_iff.1 h
    cases h
    exact ⟨hT, ha, hN, hs, hζ, hk, hτ⟩
  · rintro ⟨hT, ha, hN, hs, hζ, hk, hτ⟩
    simp only [check, hT, ha, hN, hs, hζ, hk, hτ, ok_bind]
    rfl

/-- Settings that have passed the checks meet their requirements. -/
theorem Settings.Draft.checked {draft : Settings.Draft α} {settings : Settings α}
    (h : draft.check = .ok settings) : settings.Checked := by
  have hpasses := check_eq_ok_iff.1 h
  exact {
    horizonLength := Requirement.holds_of_checkFinite hpasses.horizonLength
    growthRate := Requirement.holds_of_checkFinite hpasses.growthRate
    divisions := Requirement.holds_of_check hpasses.divisions
    differenceStep := Requirement.holds_of_checkFinite hpasses.differenceStep
    decayRate := Requirement.holds_of_checkFinite hpasses.decayRate
    krylovLimit := Requirement.holds_of_check hpasses.krylovLimit
    relativeTolerance := Requirement.holds_of_check hpasses.relativeTolerance }

/-- Settings given back as a draft. -/
def Settings.draft {α : Type} (settings : Settings α) : Settings.Draft α where
  horizonLength := settings.horizonLength
  growthRate := settings.growthRate
  divisions := settings.divisions
  differenceStep := settings.differenceStep
  decayRate := settings.decayRate
  krylovLimit := settings.krylovLimit
  relativeTolerance := settings.relativeTolerance

/-- What has passed the checks is what was given, so that it passes them again. -/
theorem Settings.Draft.draft_of_check {draft : Settings.Draft α} {settings : Settings α}
    (h : draft.check = .ok settings) : settings.draft = draft := by
  obtain ⟨hT, ha, hN, hs, hζ, hk, hτ⟩ := check_eq_ok_iff.1 h
  rw [Settings.draft, Requirement.eq_of_checkFinite hT, Requirement.eq_of_checkFinite ha,
    Requirement.eq_of_check hN, Requirement.eq_of_checkFinite hs, Requirement.eq_of_checkFinite hζ,
    Requirement.eq_of_check hk, Requirement.eq_of_check hτ]

/-! ## Parameters of the initial solve -/

/-- The parameters of the solve that finds the initial control. -/
structure InitParams (α : Type) where
  /-- Where the search starts. -/
  guess : Vec α
  /-- The search ends when the residual norm is below this. -/
  residualTolerance : Datum α
  /-- The most iterations the search may take. -/
  iterationLimit : Datum α
  /-- The step of the forward differences. -/
  differenceStep : Datum α
  /-- The most directions a linear solve may use. -/
  krylovLimit : Datum α

/-- The parameters of the initial solve as they were given. -/
structure InitParams.Draft (α : Type) where
  guess : Datum α
  residualTolerance : Datum α
  iterationLimit : Datum α
  differenceStep : Datum α
  krylovLimit : Datum α

/-- The guess that is given.  It has to be a vector; a number and nothing at all
have the empty shape. -/
def Datum.asGuess (given : Datum α) : Except (Fault α) (Vec α) := do
  let guess ← given.tensor
  match guess.shape with
  | [_] => return guess.entries
  | shape => throw (.guessNotVector shape)

namespace InitParams.Draft

/-- The name under which callers give the guess. -/
def guessLabel : String := "initial_guess"

/-- The parameters given by name.  None may be left out. -/
def ofArguments (given : Arguments α) : Except (Fault α) (Draft α) := do
  given.checkNames <| guessLabel :: List.map Parameter.label
    [.residualTolerance, .iterationLimit, .differenceStep, .krylovLimit]
  return {
    guess := ← given.find guessLabel
    residualTolerance := ← given.get .residualTolerance
    iterationLimit := ← given.get .iterationLimit
    differenceStep := ← given.get .differenceStep
    krylovLimit := ← given.get .krylovLimit }

/-- The parameters, checked in the order in which they are listed. -/
def check (draft : Draft α) : Except (Fault α) (InitParams α) := do
  return {
    guess := ← draft.guess.asGuess
    residualTolerance :=
      ← Requirement.positive.check .residualTolerance draft.residualTolerance
    iterationLimit := ← Requirement.wholeNonNegative.check .iterationLimit draft.iterationLimit
    differenceStep := ← Requirement.positive.checkFinite .differenceStep draft.differenceStep
    krylovLimit := ← Requirement.atLeastOne.check .krylovLimit draft.krylovLimit }

end InitParams.Draft

/-- Every parameter meets its requirement. -/
structure InitParams.Checked (params : InitParams α) : Prop where
  residualTolerance : Requirement.positive.holds params.residualTolerance = .ok true
  iterationLimit : Requirement.wholeNonNegative.holds params.iterationLimit = .ok true
  differenceStep : Requirement.positive.holds params.differenceStep = .ok true
  finiteStep : params.differenceStep.finite? = .ok true
  krylovLimit : Requirement.atLeastOne.holds params.krylovLimit = .ok true

/-- The guess that is given is read, and every other parameter has passed its own check. -/
structure InitParams.Draft.Passes (draft : InitParams.Draft α) (params : InitParams α) : Prop where
  guess : draft.guess.asGuess = .ok params.guess
  residualTolerance : Requirement.positive.check .residualTolerance draft.residualTolerance =
    .ok params.residualTolerance
  iterationLimit : Requirement.wholeNonNegative.check .iterationLimit draft.iterationLimit =
    .ok params.iterationLimit
  differenceStep : Requirement.positive.checkFinite .differenceStep draft.differenceStep =
    .ok params.differenceStep
  krylovLimit : Requirement.atLeastOne.check .krylovLimit draft.krylovLimit =
    .ok params.krylovLimit

theorem InitParams.Draft.check_eq_ok_iff {draft : InitParams.Draft α} {params : InitParams α} :
    draft.check = .ok params ↔ draft.Passes params := by
  constructor
  · intro h
    obtain ⟨guess, hguess, h⟩ := bind_eq_ok_iff.1 h
    obtain ⟨τ, hτ, h⟩ := bind_eq_ok_iff.1 h
    obtain ⟨n, hn, h⟩ := bind_eq_ok_iff.1 h
    obtain ⟨s, hs, h⟩ := bind_eq_ok_iff.1 h
    obtain ⟨k, hk, h⟩ := bind_eq_ok_iff.1 h
    cases h
    exact ⟨hguess, hτ, hn, hs, hk⟩
  · rintro ⟨hguess, hτ, hn, hs, hk⟩
    simp only [check, hguess, hτ, hn, hs, hk, ok_bind]
    rfl

/-- Parameters that have passed the checks meet their requirements. -/
theorem InitParams.Draft.checked {draft : InitParams.Draft α} {params : InitParams α}
    (h : draft.check = .ok params) : params.Checked := by
  have hpasses := check_eq_ok_iff.1 h
  exact {
    residualTolerance := Requirement.holds_of_check hpasses.residualTolerance
    iterationLimit := Requirement.holds_of_check hpasses.iterationLimit
    differenceStep := Requirement.holds_of_checkFinite hpasses.differenceStep
    finiteStep := Requirement.finite_of_checkFinite hpasses.differenceStep
    krylovLimit := Requirement.holds_of_check hpasses.krylovLimit }

end RecedingHorizon
