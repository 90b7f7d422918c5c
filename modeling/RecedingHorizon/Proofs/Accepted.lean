import RecedingHorizon.Proofs.Answered
import RecedingHorizon.Proofs.Controller

/-!
# What settings are good for once they are accepted

Settings and parameters are checked before anything is made of them.  What passes should do, and
nearly all of it does: whatever numbers are given and whatever dimensions the model has, the
controller is made if memory has room for it, and the search for the initial action fails only as
a search does.

The exception is the most directions a solver may use.  The check asks for a whole number, in
whichever way it is given, but arrays are laid out by it: so it has to be given as a whole number,
or not be used at all, being larger than the dimension of the system.  A tolerance that is out of
the range of the scalars passes its check as well, and is met by the search.

* `Krylov.Solver.Sized`: the numbers of directions that make a solver; `ofExtents_of_holds`.
* `Newton.failsWith_solve_of_sized`, `failsWith_solve`: how a search fails with parameters that
  have been accepted.
* `Model.accepted_usable`: settings and parameters that have been accepted.
* `scalarSettings`, `integrator_unusable`: settings that are accepted and not used.
-/

namespace RecedingHorizon

variable {α : Type} [Scalar α]

/-! ## Numbers that have been accepted -/

namespace Datum

/-- What is positive is not zero, in an arithmetic whose zero is not positive. -/
theorem isZero_of_isPositive (hzero : ∀ a : α, 0 < a → Scalar.isZero a = false) {d : Datum α}
    (h : d.isPositive = .ok true) : d.isZero = false := by
  obtain ⟨a, ha, h⟩ := bind_eq_ok_iff.1 h
  rw [isZero, asNumber_eq_ok_iff.1 ha, Option.any_some]
  have hpos : a.isPositive = true := Except.ok.inj h
  cases a with
  | whole n => exact decide_eq_false (of_decide_eq_true hpos).ne'
  | real x => exact hzero x (of_decide_eq_true hpos)

/-- A number that is finite has a scalar, in an arithmetic that has all machine words. -/
theorem exists_scalar_of_finite (hword : ∀ n : ℤ, Number.fitsWord n → Scalar.isFinite (n : α))
    {d : Datum α} {a : Number α} (hd : d.number? = some a) (h : d.finite? = .ok true) :
    ∃ y, d.scalar = .ok y := by
  have hnumber : d.asNumber = .ok a := asNumber_eq_ok_iff.2 hd
  have hfinite : a.finite? = .ok true := by
    cases d with
    | list items => cases hd
    | number b | flag b | nothing | text b | record ns b =>
        rw [finite?, hnumber] at h
        · exact h
        · intro items hitems
          cases hitems
  rw [scalar, hnumber, ok_bind]
  cases a with
  | whole n =>
      have hfits : Number.fitsWord n = true := by
        rw [Number.finite?] at hfinite
        split at hfinite
        · assumption
        · cases hfinite
      exact ⟨n, if_pos (hword n hfits)⟩
  | real x => exact ⟨x, rfl⟩

/-- A number without a scalar is out of range. -/
theorem scalar_eq_error {d : Datum α} {a : Number α} (hd : d.number? = some a) {fault : Fault α}
    (h : d.scalar = .error fault) : fault = .overflow := by
  have hnumber : d.asNumber = .ok a := asNumber_eq_ok_iff.2 hd
  rw [scalar, hnumber, ok_bind] at h
  cases a with
  | whole n =>
      rw [Number.scalar, Number.ofWhole] at h
      split at h
      · cases h
      · cases h
        rfl
  | real x => cases h

end Datum

/-! ## Directions -/

namespace Krylov.Solver

/-- Whether a solver for systems of a dimension can be laid out with so many directions at most:
they were given as a whole number, or are more than there are dimensions. -/
def Sized (dim : ℕ) (limit : Datum α) : Prop :=
  (∃ l, limit = .number (.whole l)) ∨ (Datum.number (.whole dim)).lt limit = .ok true

/-- Memory has room for what the solver works in. -/
def HasRoom (dim : ℕ) (limit : Datum α) : Prop :=
  ∀ l : ℕ, limit.atMost (.number (.whole dim)) = .ok (.number (.whole l)) →
    Tensor.checkRoom [(l : ℤ) + 1, dim] = (.ok () : Except (Fault α) Unit) ∧
      Tensor.checkRoom [(l : ℤ) + 1, l] = (.ok () : Except (Fault α) Unit)

variable {dim : ℕ} {limit τ : Datum α}

/-- Where there is room, a solver is laid out with the smaller of the dimension and the most
directions asked for. -/
theorem exists_ofExtents {l : ℕ} (hroom : HasRoom dim limit)
    (hl : limit.atMost (.number (.whole dim)) = .ok (.number (.whole l))) :
    ofExtents (.number (.whole dim)) limit τ = .ok ⟨dim, l, τ⟩ := by
  obtain ⟨hbasis, hcolumns⟩ := hroom l hl
  have hextent (n : ℕ) : (Datum.number (.whole n) : Datum α).extent = .ok (n : ℤ) := rfl
  rw [ofExtents, hl, ok_bind, hextent, ok_bind, hextent, ok_bind, hbasis, ok_bind, hcolumns,
    ok_bind]
  rfl

/-- A number of directions that has been accepted makes a solver if it is sized, and none
otherwise. -/
theorem ofExtents_of_holds (hlimit : Requirement.atLeastOne.holds limit = .ok true)
    (hroom : HasRoom dim limit) :
    (Sized dim limit → ∃ solver, ofExtents (.number (.whole dim)) limit τ = .ok solver ∧
      solver.dim = dim ∧ solver.relativeTolerance = τ) ∧
    (¬Sized dim limit → ofExtents (.number (.whole dim)) limit τ = .error .fractionalExtent) := by
  obtain ⟨a, ha⟩ : ∃ a, limit.asNumber = .ok a := by
    rcases ha : limit.asNumber with fault | a
    · rw [Requirement.holds, Datum.whole?, ha] at hlimit
      cases hlimit
    · exact ⟨a, rfl⟩
  have hlt : (Datum.number (.whole dim)).lt limit = .ok (Number.lt (.whole dim) a) := by
    rw [Datum.lt, ha]
    rfl
  by_cases hsmall : Number.lt (.whole dim) a = true
  · have hmost : limit.atMost (.number (.whole dim)) = .ok (.number (.whole dim)) := by
      rw [Datum.atMost, hlt, hsmall]
      rfl
    refine ⟨fun _ => ⟨_, exists_ofExtents hroom hmost, rfl, rfl⟩, fun h => absurd (.inr ?_) h⟩
    rw [hlt, hsmall]
  · have hmost : limit.atMost (.number (.whole dim)) = .ok limit := by
      rw [Datum.atMost, hlt, Bool.eq_false_of_not_eq_true hsmall]
      rfl
    by_cases hwhole : ∃ l, limit = .number (.whole l)
    · obtain ⟨l, rfl⟩ := hwhole
      have hl : 1 ≤ l := of_decide_eq_true (Except.ok.inj hlimit)
      obtain ⟨l, rfl⟩ := Int.eq_ofNat_of_zero_le (show 0 ≤ l by omega)
      exact ⟨fun _ => ⟨_, exists_ofExtents hroom hmost, rfl, rfl⟩,
        fun h => absurd (.inl ⟨l, rfl⟩) h⟩
    · have hunsized : ¬Sized dim limit := by
        rintro (h | h)
        · exact hwhole h
        · rw [hlt] at h
          exact hsmall (Except.ok.inj h)
      refine ⟨fun h => absurd h hunsized, fun _ => ?_⟩
      have hextent : limit.extent = .error .fractionalExtent := by
        cases limit with
        | number b =>
            cases b with
            | whole l => exact absurd ⟨l, rfl⟩ hwhole
            | real x => rfl
        | flag b | nothing | text b | list b | record ns b => rfl
      rw [ofExtents, hmost, ok_bind, hextent]
      rfl

end Krylov.Solver

/-! ## The search -/

namespace Newton

variable {model : Model α} {draft : InitParams.Draft α} {params : InitParams α}
variable {t copies : Datum α} {x : Tensor α} {k : Number α} {scale : α}

/-- A search starts if there is a solver for it. -/
theorem exists_start (hm : model.Total) (hchecked : params.Checked)
    (hword : ∀ n : ℤ, Number.fitsWord n → Scalar.isFinite (n : α))
    (hzero : ∀ a : α, 0 < a → Scalar.isZero a = false)
    (hguess : (params.guess.length : ℤ) = model.actionDim) (ht : t.number? = some k)
    (hx : x.shape = [model.stateDim.toNat]) (hcopies : copyScale copies = .ok scale)
    {solver : Krylov.Solver α}
    (hsolver : Krylov.Solver.ofExtents (.number (.whole model.actionDim)) params.krylovLimit
      defaultRelativeTolerance = .ok solver)
    (hdim : solver.dim = model.actionDim.toNat)
    (htolerance : solver.relativeTolerance = defaultRelativeTolerance) :
    ∃ search first costate, start model t x params copies = .ok (search, first) ∧
      search.Ready costate ∧ first.Measured search costate ∧
      first.action.shape = [search.system.model.actionDim.toNat] := by
  obtain ⟨costate, hcostate, hcostateShape⟩ := hm.terminalGradient ht hx
  have hpositive : params.differenceStep.isPositive = .ok true := hchecked.differenceStep
  obtain ⟨a, ha⟩ := Datum.exists_number_of_isPositive hpositive
  have hready : Search.Ready ⟨⟨model, params.differenceStep⟩, solver, t, x, scale⟩ costate := {
    model := hm
    time := ⟨k, ht⟩
    state := hx
    costate := hcostateShape
    differenceStep := Datum.exists_scalar_of_finite hword ha hchecked.finiteStep
    divisible := .inr (Datum.isZero_of_isPositive hzero hpositive)
    dim := hdim
    relativeTolerance := ⟨1e-10, by rw [htolerance]; rfl⟩ }
  have haction : (Tensor.ofVec params.guess).shape = [model.actionDim.toNat] := by
    rw [Tensor.shape_ofVec, ← hguess, Int.toNat_natCast]
  have hmemory : ({ costate := some costate } : ZeroHorizon.Memory α).costate = some costate := rfl
  obtain ⟨first, hfirst⟩ := Search.exists_measure hready haction hmemory solver.workspace
  obtain ⟨hsame, hmeasured⟩ := Search.measured_measure rfl hfirst
  refine ⟨_, first, costate, ?_, hready, hmeasured, by rw [hsame]; exact haction⟩
  simp only [start, ZeroHorizon.runOn_prepare, hcostate, ok_bind, hsolver, hcopies, hfirst]
  rfl

/-- There is a solver for parameters that have been accepted, if their number of directions is
sized. -/
theorem exists_solver (hm : model.Total) (hchecked : params.Checked)
    (hroom : Krylov.Solver.HasRoom model.actionDim.toNat params.krylovLimit)
    (hsized : Krylov.Solver.Sized model.actionDim.toNat params.krylovLimit) :
    ∃ solver, Krylov.Solver.ofExtents (.number (.whole model.actionDim)) params.krylovLimit
        defaultRelativeTolerance = .ok solver ∧
      solver.dim = model.actionDim.toNat ∧
      solver.relativeTolerance = defaultRelativeTolerance := by
  have hsolver := (Krylov.Solver.ofExtents_of_holds (τ := defaultRelativeTolerance)
    hchecked.krylovLimit hroom).1 hsized
  rwa [Int.toNat_of_nonneg hm.actionDim] at hsolver

/-- A search with parameters that have been accepted, and a number of directions that is sized,
misses its tolerance if it does not succeed; or it has failed to read off the coefficients of a
solution, or the tolerance itself. -/
theorem failsWith_solve_of_sized {P : Fault α → Prop}
    (hP : ∀ w : Krylov.Workspace α, FailsWith P w.coefficients)
    (htolerance : FailsWith P params.residualTolerance.scalar)
    (hunconverged : ∀ attempt, P (.unconverged attempt)) (hm : model.Total)
    (hcheck : draft.check = .ok params)
    (hword : ∀ n : ℤ, Number.fitsWord n → Scalar.isFinite (n : α))
    (hzero : ∀ a : α, 0 < a → Scalar.isZero a = false)
    (hguess : (params.guess.length : ℤ) = model.actionDim) (ht : t.number? = some k)
    (hx : x.shape = [model.stateDim.toNat]) (hcopies : copyScale copies = .ok scale)
    (hroom : Krylov.Solver.HasRoom model.actionDim.toNat params.krylovLimit)
    (hsized : Krylov.Solver.Sized model.actionDim.toNat params.krylovLimit) :
    FailsWith P (solve model t x params copies) := by
  have hchecked := draft.checked hcheck
  obtain ⟨solver, hsolver, hdim, hrelative⟩ := exists_solver hm hchecked hroom hsized
  obtain ⟨search, first, costate, hstart, hready, hmeasured, haction⟩ :=
    exists_start hm hchecked hword hzero hguess ht hx hcopies hsolver hdim hrelative
  rw [solve, if_neg (not_not_intro hguess), hstart, ok_bind]
  refine FailsWith.bind htolerance fun tolerance _ => ?_
  refine FailsWith.bind (Search.failsWith_run hP hready hmeasured haction _ _ _) fun last _ => ?_
  exact FailsWith.ite (fun _ => .ok _) fun _ => .error (hunconverged _)

/-- A search with parameters that have been accepted misses its tolerance, or meets a triangular
system that is not finite, if it does not succeed and its number of directions is sized; and if
the tolerance is no scalar that is the fault. -/
theorem failsWith_solve (hm : model.Total) (hcheck : draft.check = .ok params)
    (hword : ∀ n : ℤ, Number.fitsWord n → Scalar.isFinite (n : α))
    (hzero : ∀ a : α, 0 < a → Scalar.isZero a = false)
    (hguess : (params.guess.length : ℤ) = model.actionDim) (ht : t.number? = some k)
    (hx : x.shape = [model.stateDim.toNat]) (hcopies : copyScale copies = .ok scale)
    (hroom : Krylov.Solver.HasRoom model.actionDim.toNat params.krylovLimit) :
    (Krylov.Solver.Sized model.actionDim.toNat params.krylovLimit →
      FailsWith (fun fault => (∃ attempt, fault = .unconverged attempt) ∨
        fault = .nonFiniteSystem ∨
        fault = .overflow ∧ params.residualTolerance.scalar = .error .overflow)
        (solve model t x params copies)) ∧
    (¬Krylov.Solver.Sized model.actionDim.toNat params.krylovLimit →
      solve model t x params copies = .error .fractionalExtent) := by
  have hchecked := draft.checked hcheck
  refine ⟨fun h => ?_, fun h => ?_⟩
  · refine failsWith_solve_of_sized (fun w fault hfault => ?_) (fun fault hfault => ?_)
      (fun attempt => .inl ⟨attempt, rfl⟩) hm hcheck hword hzero hguess ht hx hcopies hroom h
    · exact .inr (.inl (Krylov.Solver.failsWith_coefficients w fault hfault))
    · obtain ⟨a, ha⟩ := Datum.exists_number_of_isPositive hchecked.residualTolerance
      obtain rfl := Datum.scalar_eq_error ha hfault
      exact .inr (.inr ⟨rfl, hfault⟩)
  · obtain ⟨costate, hcostate, -⟩ := hm.terminalGradient ht hx
    obtain ⟨-, hunsized⟩ := Krylov.Solver.ofExtents_of_holds (τ := defaultRelativeTolerance)
      hchecked.krylovLimit hroom
    rw [Int.toNat_of_nonneg hm.actionDim] at hunsized
    rw [solve, if_neg (not_not_intro hguess)]
    simp only [start, ZeroHorizon.runOn_prepare, hcostate, ok_bind, hunsized h]
    rfl

end Newton

/-! ## Settings and parameters -/

/-- Memory has room for what a controller carries and for what its solver works in. -/
structure Controller.HasRoom (model : Model α) (settings : Settings α) : Prop where
  actions : Tensor.checkRoom [(settings.divisions.toNat : ℤ), model.actionDim.toNat] =
    (.ok () : Except (Fault α) Unit)
  nodes : Tensor.checkRoom [(settings.divisions.toNat : ℤ) + 1, model.stateDim.toNat] =
    (.ok () : Except (Fault α) Unit)
  solver : Krylov.Solver.HasRoom (settings.divisions.toNat * model.actionDim.toNat)
    settings.krylovLimit

/-- Settings that have been accepted make a controller if their number of directions is sized,
and none otherwise. -/
theorem Controller.ofSettings_of_checked {model : Model α} {settings : Settings α}
    (hstate : 0 ≤ model.stateDim) (haction : 0 ≤ model.actionDim) (hchecked : settings.Checked)
    (hroom : HasRoom model settings) :
    (Krylov.Solver.Sized (settings.divisions.toNat * model.actionDim.toNat) settings.krylovLimit →
      ∃ controller, ofSettings model settings = .ok controller) ∧
    (¬Krylov.Solver.Sized (settings.divisions.toNat * model.actionDim.toNat)
        settings.krylovLimit →
      ofSettings model settings = .error .fractionalExtent) := by
  obtain ⟨hsized, hunsized⟩ := Krylov.Solver.ofExtents_of_holds (τ := settings.relativeTolerance)
    hchecked.krylovLimit hroom.solver
  have hactions := hroom.actions
  have hnodes := hroom.nodes
  rw [Nat.cast_mul, Int.toNat_of_nonneg haction] at hsized hunsized
  rw [Int.toNat_of_nonneg haction] at hactions
  rw [Int.toNat_of_nonneg hstate] at hnodes
  refine ⟨fun h => ?_, fun h => ?_⟩
  · obtain ⟨solver, hsolver, -, -⟩ := hsized h
    rw [ofSettings, hsolver, ok_bind, hactions, ok_bind, hnodes]
    exact ⟨_, rfl⟩
  · rw [ofSettings, hunsized h]
    rfl

/-- What is accepted can be used, but for one slip.  Settings that pass their checks pass them
again, and make a controller if the most directions are given as a whole number or are more than
the system has dimensions; if they are given otherwise, there is none.  And for a model that
answers, a search with parameters that pass their checks, from a guess of the right length, does
not succeed only if it misses its tolerance, or meets a triangular system that is not finite, or
if the tolerance is out of the range of the scalars; again, if the most directions are given as a
whole number or not used. -/
theorem Model.accepted_usable {model : Model α} (hstate : 0 ≤ model.stateDim)
    (hcontrol : 0 ≤ model.controlDim) (hconstraint : 0 ≤ model.constraintDim)
    (hword : ∀ n : ℤ, Number.fitsWord n → Scalar.isFinite (n : α))
    (hzero : ∀ a : α, 0 < a → Scalar.isZero a = false) :
    (∀ {draft : Settings.Draft α} {settings : Settings α}, draft.check = .ok settings →
      Controller.HasRoom model settings → settings.draft.check = .ok settings ∧
      (Krylov.Solver.Sized (settings.divisions.toNat * model.actionDim.toNat)
          settings.krylovLimit →
            ∃ controller, Controller.ofSettings model settings = .ok controller) ∧
      (¬Krylov.Solver.Sized (settings.divisions.toNat * model.actionDim.toNat)
          settings.krylovLimit → Controller.ofSettings model settings = .error .fractionalExtent)) ∧
    (model.Total → ∀ {draft : InitParams.Draft α} {params : InitParams α} {t copies : Datum α}
      {x : Tensor α} {k : Number α} {scale : α}, draft.check = .ok params →
      (params.guess.length : ℤ) = model.actionDim → t.number? = some k →
      x.shape = [model.stateDim.toNat] → Newton.copyScale copies = .ok scale →
      Krylov.Solver.HasRoom model.actionDim.toNat params.krylovLimit →
      (Krylov.Solver.Sized model.actionDim.toNat params.krylovLimit →
        ∀ fault, Newton.solve model t x params copies = .error fault →
          (∃ attempt, fault = .unconverged attempt) ∨ fault = .nonFiniteSystem ∨
          fault = .overflow ∧ params.residualTolerance.scalar = .error .overflow) ∧
      (¬Krylov.Solver.Sized model.actionDim.toNat params.krylovLimit →
        Newton.solve model t x params copies = .error .fractionalExtent)) := by
  refine ⟨fun {draft settings} hcheck hroom => ?_,
    fun hm {draft params t copies x k scale} hcheck hguess ht hx hcopies hroom =>
      Newton.failsWith_solve hm hcheck hword hzero hguess ht hx hcopies hroom⟩
  have hagain : settings.draft.check = .ok settings := by
    rw [Settings.Draft.draft_of_check hcheck, hcheck]
  exact ⟨hagain, Controller.ofSettings_of_checked hstate (add_nonneg hcontrol hconstraint)
    (Settings.Draft.checked hcheck) hroom⟩

/-! ## One direction, given as a scalar -/

/-- Settings that have been accepted are accepted with any other number of directions that passes
its check. -/
theorem Settings.Draft.check_krylovLimit {draft : Draft α} {settings : Settings α} {k d : Datum α}
    (h : draft.check = .ok settings)
    (hk : Requirement.atLeastOne.check .krylovLimit k = .ok d) :
    ({ draft with krylovLimit := k } : Draft α).check =
      .ok { settings with krylovLimit := d } :=
  check_eq_ok_iff.2 { check_eq_ok_iff.1 h with krylovLimit := hk }

theorem InitParams.Draft.check_krylovLimit {draft : Draft α} {params : InitParams α}
    {k d : Datum α} (h : draft.check = .ok params)
    (hk : Requirement.atLeastOne.check .krylovLimit k = .ok d) :
    ({ draft with krylovLimit := k } : Draft α).check = .ok { params with krylovLimit := d } :=
  check_eq_ok_iff.2 { check_eq_ok_iff.1 h with krylovLimit := hk }

/-- Parameters that have been accepted are accepted with any other guess that can be read. -/
theorem InitParams.Draft.check_guess {draft : Draft α} {params : InitParams α} {given : Datum α}
    {guess : Vec α} (h : draft.check = .ok params) (hguess : given.asGuess = .ok guess) :
    ({ draft with guess := given } : Draft α).check = .ok { params with guess := guess } :=
  check_eq_ok_iff.2 { check_eq_ok_iff.1 h with guess := hguess }

/-- The settings of the controller of the integrator, but that the most directions are given as a
scalar. -/
noncomputable def scalarSettings : Settings ℝ :=
  { unitSettings with krylovLimit := .number (.real 1) }

/-- The parameters of the initial search of the integrator, but that the most directions are given
as a scalar. -/
noncomputable def scalarDraft : InitParams.Draft ℝ :=
  { unitDraft with krylovLimit := .number (.real 1) }

noncomputable def scalarParams : InitParams ℝ :=
  { unitParams with krylovLimit := .number (.real 1) }

/-- One direction, given as a scalar, passes the check of the number of directions. -/
theorem check_scalarLimit : Requirement.atLeastOne.check .krylovLimit (.number (.real (1 : ℝ))) =
    .ok (.number (.real 1)) := by
  have hwhole : Scalar.wholeness (1 : ℝ) = .whole 1 := by
    show (if (1 : ℝ) = (⌊(1 : ℝ)⌋ : ℝ) then Wholeness.whole ⌊(1 : ℝ)⌋ else .fraction) = _
    rw [Int.floor_one, Int.cast_one, if_pos rfl]
  refine Requirement.check_of_holds ?_
  rw [Requirement.holds, Datum.whole?, Datum.asNumber_number, ok_bind, Number.whole?, hwhole]
  rfl

/-- One direction that is given as a scalar is no more than one dimension. -/
theorem lt_scalarLimit :
    (Datum.number (.whole (1 : ℕ))).lt (.number (.real (1 : ℝ))) = .ok false := by
  have hone : (Datum.number (.whole (1 : ℕ)) : Datum ℝ).scalar = .ok 1 :=
    congrArg Except.ok (Int.cast_one)
  rw [Datum.lt_of_scalar hone rfl, decide_eq_false (lt_irrefl 1)]

theorem check_scalarSettings : scalarSettings.draft.check = .ok scalarSettings :=
  Settings.Draft.check_krylovLimit check_unitSettings check_scalarLimit

theorem check_scalarDraft : scalarDraft.check = .ok scalarParams :=
  InitParams.Draft.check_krylovLimit check_unitDraft check_scalarLimit

/-- Of two numbers the smaller one is not above the second. -/
theorem Datum.le_of_atMost {limit : Datum ℝ} {d l : ℕ}
    (h : limit.atMost (.number (.whole d)) = .ok (.number (.whole l))) : l ≤ d := by
  obtain ⟨smaller, hlt, h⟩ := bind_eq_ok_iff.1 h
  cases smaller with
  | true =>
      cases h
      exact le_rfl
  | false =>
      cases h
      have hnot : ¬(d : ℤ) < l := of_decide_eq_false (Except.ok.inj hlt)
      omega

/-- For a few dimensions there is always room. -/
theorem Krylov.Solver.hasRoom_of_le_three {d : ℕ} (h : d ≤ 3) (limit : Datum ℝ) :
    HasRoom d limit := by
  intro l hl
  have hle : l ≤ d := Datum.le_of_atMost hl
  interval_cases d <;> interval_cases l <;>
    exact ⟨Tensor.checkRoom_of_lt rfl (by decide), Tensor.checkRoom_of_lt rfl (by decide)⟩

theorem Krylov.Solver.hasRoom_one (limit : Datum ℝ) : HasRoom 1 limit :=
  hasRoom_of_le_three (by norm_num) limit

theorem Krylov.Solver.hasRoom_two (limit : Datum ℝ) : HasRoom 2 limit :=
  hasRoom_of_le_three (by norm_num) limit

/-- A solver for one dimension is sized by one direction that is given as a whole number, and not
by one that is given as a scalar. -/
theorem Krylov.Solver.sized_one : Sized 1 (1 : Datum ℝ) := .inl ⟨1, rfl⟩

/-- A solver for one unknown, which may use one direction and asks for an exact solution. -/
noncomputable def Krylov.Solver.single : Solver ℝ := ⟨1, 1, .number (.real 0)⟩

theorem Krylov.Solver.not_sized_scalarLimit : ¬Sized 1 (.number (.real (1 : ℝ))) := by
  rintro (⟨l, h⟩ | h)
  · cases h
  · rw [lt_scalarLimit] at h
    cases h

theorem actionDim_integrator : Regulator.integrator.model.actionDim.toNat = 1 := by
  rw [Regulator.integrator.answers.actionDim]
  rfl

/-- A search with the integrator has room for its solves, however many directions it may use. -/
theorem hasRoom_actionDim_integrator (limit : Datum ℝ) :
    Krylov.Solver.HasRoom Regulator.integrator.model.actionDim.toNat limit := by
  rw [actionDim_integrator]
  exact Krylov.Solver.hasRoom_one limit

theorem sized_actionDim_integrator :
    Krylov.Solver.Sized Regulator.integrator.model.actionDim.toNat unitParams.krylovLimit := by
  rw [actionDim_integrator]
  exact Krylov.Solver.sized_one

theorem length_guess_unitParams :
    (unitParams.guess.length : ℤ) = Regulator.integrator.model.actionDim :=
  Regulator.integrator.answers.actionDim.symm

theorem shape_state_integrator (x : Fin 1 → ℝ) :
    (Tensor.ofFn x).shape = [Regulator.integrator.model.stateDim.toNat] := by
  rw [Regulator.integrator.stateDim_model]
  rfl

theorem hasRoom_integrator {settings : Settings ℝ} (h : settings.divisions = 1) :
    Controller.HasRoom Regulator.integrator.model settings := by
  have hN : settings.divisions.toNat = 1 := by
    rw [h]
    rfl
  have hstate : Regulator.integrator.model.stateDim.toNat = 1 := by
    rw [Regulator.integrator.stateDim_model]
    rfl
  refine ⟨?_, ?_, ?_⟩
  · rw [hN, actionDim_integrator]
    exact Tensor.checkRoom_of_lt rfl (by decide)
  · rw [hN, hstate]
    exact Tensor.checkRoom_of_lt rfl (by decide)
  · rw [hN, actionDim_integrator]
    exact Krylov.Solver.hasRoom_one _

theorem copyScale_one : Newton.copyScale (1 : Datum ℝ) = .ok √((1 : ℤ) : ℝ) := by
  have hcopies : (1 : Datum ℝ).atLeast 1 = .ok 1 := rfl
  rw [Newton.copyScale, hcopies]
  rfl

section Integrator

open Krylov

/-- The settings and the parameters of the integrator are used with one direction given as a whole
number, and are not with one that is given as a scalar. -/
theorem integrator_accepted_usable :
    (unitSettings.draft.check = .ok unitSettings ∧
      ∃ controller, Controller.ofSettings Regulator.integrator.model unitSettings =
        .ok controller) ∧
    (scalarSettings.draft.check = .ok scalarSettings ∧
      Controller.ofSettings Regulator.integrator.model scalarSettings =
        .error .fractionalExtent) ∧
    (∀ fault, Newton.solve Regulator.integrator.model (.number (.real 0))
        (.ofFn (0 : Fin 1 → ℝ)) unitParams 1 = .error fault →
      (∃ attempt, fault = .unconverged attempt) ∨ fault = .nonFiniteSystem ∨
        fault = .overflow ∧ unitParams.residualTolerance.scalar = .error .overflow) ∧
    Newton.solve Regulator.integrator.model (.number (.real 0)) (.ofFn (0 : Fin 1 → ℝ))
      scalarParams 1 = .error .fractionalExtent := by
  have hdims := Regulator.integrator.total
  have hstate : 0 ≤ Regulator.integrator.model.stateDim := by
    rw [Regulator.integrator.stateDim_model]
    exact Int.natCast_nonneg 1
  obtain ⟨hsettings, hparams⟩ := Model.accepted_usable hstate hdims.controlDim hdims.constraintDim
    (fun _ _ => rfl) fun a ha => decide_eq_false ha.ne'
  have hdim : unitSettings.divisions.toNat * Regulator.integrator.model.actionDim.toNat = 1 := by
    rw [actionDim_integrator]
    rfl
  obtain ⟨hunit, hmade, -⟩ := hsettings check_unitSettings (hasRoom_integrator rfl)
  obtain ⟨hscalar, -, hrefused⟩ := hsettings check_scalarSettings (hasRoom_integrator rfl)
  refine ⟨⟨hunit, hmade ?_⟩, ⟨hscalar, hrefused ?_⟩, ?_, ?_⟩
  · rw [hdim]
    exact Solver.sized_one
  · rw [show scalarSettings.divisions = unitSettings.divisions from rfl, hdim]
    exact Solver.not_sized_scalarLimit
  · refine (hparams hdims check_unitDraft length_guess_unitParams rfl (shape_state_integrator 0)
      copyScale_one (hasRoom_actionDim_integrator _)).1 ?_
    rw [actionDim_integrator]
    exact Solver.sized_one
  · refine (hparams hdims check_scalarDraft length_guess_unitParams rfl (shape_state_integrator 0)
      copyScale_one (hasRoom_actionDim_integrator _)).2 ?_
    rw [actionDim_integrator]
    exact Solver.not_sized_scalarLimit

/-- Settings and parameters that are accepted and cannot be used. -/
theorem integrator_unusable :
    scalarSettings.draft.check = .ok scalarSettings ∧
      Controller.ofSettings Regulator.integrator.model scalarSettings =
        .error .fractionalExtent ∧
      scalarDraft.check = .ok scalarParams ∧
      Newton.solve Regulator.integrator.model (.number (.real 0)) (.ofFn (0 : Fin 1 → ℝ))
        scalarParams 1 = .error .fractionalExtent := by
  have hmost : (Datum.number (.real (1 : ℝ))).atMost (.number (.whole (1 : ℕ))) =
      .ok (.number (.real 1)) := by
    rw [Datum.atMost, lt_scalarLimit]
    rfl
  have hrefused (τ : Datum ℝ) : Solver.ofExtents (.number (.whole (1 : ℕ)))
      (.number (.real (1 : ℝ))) τ = .error .fractionalExtent := by
    rw [Solver.ofExtents, hmost]
    rfl
  have haction : Regulator.integrator.model.actionDim = (1 : ℕ) :=
    Regulator.integrator.answers.actionDim
  refine ⟨check_scalarSettings, ?_, check_scalarDraft, ?_⟩
  · have hdim : ((scalarSettings.divisions.toNat : ℤ) * ((1 : ℕ) : ℤ)) = (1 : ℕ) := rfl
    rw [Controller.ofSettings, haction, hdim]
    exact congrArg (· >>= _) (hrefused _)
  · have hlength : (scalarParams.guess.length : ℤ) = Regulator.integrator.model.actionDim :=
      haction.symm
    have hcostate := Regulator.integrator.answers.terminalGradient 0 0
    rw [Newton.solve, if_neg (not_not_intro hlength)]
    simp only [Newton.start, ZeroHorizon.runOn_prepare, hcostate, ok_bind, haction]
    rw [show scalarParams.krylovLimit = .number (.real 1) from rfl, hrefused]
    rfl

end Integrator

end RecedingHorizon
