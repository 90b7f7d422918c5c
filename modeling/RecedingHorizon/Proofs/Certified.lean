import RecedingHorizon.Proofs.NewtonSystem

/-!
# What a search vouches for

A search carries an action and its norm, and asks two questions about the norm: it goes on while the
norm is not below the tolerance in the sense of `tolerance ≤ norm`, and it succeeds if in the end
`norm < tolerance`.  Among numbers these are one question.  A norm that is no number answers no to
both, so that the search stops before its limit and has not succeeded.  Either way it hands out the
iterate it has stopped at, and the norm it hands out with it is the one measured there: the norm has
never been out of step with the action.

The arithmetic is left open, but its order has to be that of numbers as far as these go: what is at
least as large as the tolerance is not below it, and of two numbers, which are not above themselves,
one is below the other unless it is at least as large.

* `Scalar.Ordered`: such an order; `ordered_real`.
* `Newton.Search.Certifies`: what an outcome says of the iterate it carries.
* `Newton.solve_certified`: how a search ends.
-/

namespace RecedingHorizon

variable {α : Type} [Scalar α]

/-! ## Order -/

/-- The order of an arithmetic in which some values may be no numbers.  A number is what is at least
as large as itself; two numbers can be compared, and what is positive or finite is a number. -/
structure Scalar.Ordered (α : Type) [Scalar α] : Prop where
  not_lt : ∀ a b : α, a ≤ b → ¬b < a
  lt_or_le : ∀ a b : α, a ≤ a → b ≤ b → a < b ∨ b ≤ a
  positive : ∀ a : α, 0 < a → a ≤ a
  finite : ∀ a : α, Scalar.isFinite a → a ≤ a

theorem ordered_real : Scalar.Ordered ℝ where
  not_lt _ _ h := not_lt.2 h
  lt_or_le a b _ _ := lt_or_ge a b
  positive _ _ := le_rfl
  finite _ _ := le_rfl

/-- What is positive has a scalar that is a number, if it has one. -/
theorem Datum.le_self_of_isPositive (hα : Scalar.Ordered α) {d : Datum α} {y : α}
    (hd : d.isPositive = .ok true) (hy : d.scalar = .ok y) : y ≤ y := by
  obtain ⟨a, ha, hpositive⟩ := bind_eq_ok_iff.1 hd
  rw [scalar, ha, ok_bind] at hy
  have hpositive : a.isPositive = true := Except.ok.inj hpositive
  cases a with
  | whole n =>
      rw [Number.scalar, Number.ofWhole] at hy
      split at hy
      · next hfinite =>
          cases hy
          exact hα.finite _ hfinite
      · cases hy
  | real x =>
      cases hy
      exact hα.positive _ (of_decide_eq_true hpositive)

namespace Newton

/-! ## The outcome of a search -/

variable {model : Model α} {draft : InitParams.Draft α} {params : InitParams α}
  {t copies : Datum α} {x : Tensor α} {k : Number α}

theorem conclude_eq_error_iff {tolerance : α} {it : Iterate α} {count : ℕ} :
    conclude tolerance it count = .error (.unconverged
        ⟨it.action.entries, it.residualNorm, count, tolerance⟩) ↔
      ¬it.residualNorm < tolerance := by
  unfold conclude
  split
  · next h => exact iff_of_false (fun h => nomatch h) (not_not_intro h)
  · next h => exact iff_of_true rfl h

/-- A search that has stopped without success has reached its limit, or its norm is no number. -/
theorem Search.Ran.unconverged (hα : Scalar.Ordered α) {search : Search α} {tolerance : α}
    {left count : ℕ} {it last : Iterate α} (h : search.Ran tolerance left count it last)
    (htolerance : tolerance ≤ tolerance) (hmissed : ¬last.residualNorm < tolerance) :
    count = left ∨ ¬last.residualNorm ≤ last.residualNorm := by
  refine h.stopped.imp_right fun hbelow hnumber => ?_
  rcases hα.lt_or_le _ _ hnumber htolerance with hlt | hle
  · exact hmissed hlt
  · exact hbelow hle

/-- What the outcome of a search says of the iterate it carries: the search has come to it within
its limit, no iterate before has met the tolerance, it succeeds if this one has, and otherwise has
come to its limit, or to a norm that is no number. -/
structure Search.Certifies (search : Search α) (tolerance : α) (limit : ℕ)
    (first last : Iterate α) (count : ℕ) (outcome : Except (Fault α) (Solution α)) : Prop where
  reaches : search.Reaches first count last
  count_le : count ≤ limit
  found : outcome = .ok ⟨last.action, last.residualNorm, count⟩ ↔ last.residualNorm < tolerance
  missed : outcome = .error (.unconverged
      ⟨last.action.entries, last.residualNorm, count, tolerance⟩) ↔ ¬last.residualNorm < tolerance
  earlier : ∀ i it, i < count → search.Reaches first i it → ¬it.residualNorm < tolerance
  stopped : ¬last.residualNorm < tolerance →
    count = limit ∨ ¬last.residualNorm ≤ last.residualNorm

theorem Search.Ran.certifies (hα : Scalar.Ordered α) {search : Search α} {tolerance : α}
    {left count : ℕ} {it last : Iterate α} (h : search.Ran tolerance left count it last)
    (htolerance : tolerance ≤ tolerance) :
    search.Certifies tolerance left it last count (conclude tolerance last count) where
  reaches := h.reaches
  count_le := h.le
  found := conclude_eq_ok_iff
  missed := conclude_eq_error_iff
  earlier i u hi hu := hα.not_lt _ _ (h.earlier i u hi hu)
  stopped := h.unconverged hα htolerance

/-- A search that does not succeed where it starts goes on. -/
theorem Search.Certifies.count_pos {search : Search α} {tolerance : α} {limit count : ℕ}
    {first last : Iterate α} {outcome : Except (Fault α) (Solution α)}
    (h : search.Certifies tolerance limit first last count outcome) (hlimit : 0 < limit)
    (hnumber : first.residualNorm ≤ first.residualNorm)
    (hmissed : ¬first.residualNorm < tolerance) : 0 < count := by
  refine Nat.pos_of_ne_zero ?_
  rintro rfl
  cases h.reaches with
  | here =>
      rcases h.stopped hmissed with hend | hend
      · exact hlimit.ne hend
      · exact hend hnumber

/-- **The outcome of a search certifies the iterate it carries.**  With a model that answers and
parameters that have been accepted, a search fails if the number of copies has no scale, or the
tolerance no scalar.  Otherwise, unless a triangular system has not been finite, it comes to an end;
the norm of each of its iterates is that of the control gradient at its action, with the terminal
gradient for a costate and over all copies; and the outcome certifies the last one. -/
theorem solve_certified (hα : Scalar.Ordered α)
    (hword : ∀ n : ℤ, Number.fitsWord n → Scalar.isFinite (n : α))
    (hzero : ∀ a : α, 0 < a → Scalar.isZero a = false) (hm : model.Total)
    (hcheck : draft.check = .ok params)
    (hguess : (params.guess.length : ℤ) = model.actionDim) (ht : t.number? = some k)
    (hx : x.shape = [model.stateDim.toNat])
    (hsized : Krylov.Solver.Sized model.actionDim.toNat params.krylovLimit)
    (hroom : Krylov.Solver.HasRoom model.actionDim.toNat params.krylovLimit) :
    (∀ fault, copyScale copies = .error fault → solve model t x params copies = .error fault) ∧
    ∀ scale, copyScale copies = .ok scale →
      (∀ fault, params.residualTolerance.scalar = .error fault →
        solve model t x params copies = .error fault) ∧
      ∀ tolerance, params.residualTolerance.scalar = .ok tolerance →
        solve model t x params copies ≠ .error .nonFiniteSystem →
        ∃ (search : Search α) (first last : Iterate α) (count : ℕ) (costate : Tensor α),
          start model t x params copies = .ok (search, first) ∧
          first.action = .ofVec params.guess ∧ last.action.shape = [model.actionDim.toNat] ∧
          model.terminalGradient x t = .ok costate ∧
          (∀ i it, search.Reaches first i it → ∃ gradient,
            model.controlGradient x it.action costate t = .ok gradient ∧
              it.residualNorm = scale * gradient.norm) ∧
          search.Certifies tolerance params.iterationLimit.toNat first last count
            (solve model t x params copies) := by
  have hchecked := draft.checked hcheck
  obtain ⟨hsolver, -⟩ := Krylov.Solver.ofExtents_of_holds (τ := defaultRelativeTolerance)
    hchecked.krylovLimit hroom
  rw [Int.toNat_of_nonneg hm.actionDim] at hsolver
  obtain ⟨solver, hsolver, hdim, hrelative⟩ := hsolver hsized
  refine ⟨fun fault hfault => ?_, fun scale hscale => ?_⟩
  · obtain ⟨costate, hcostate, -⟩ := hm.terminalGradient ht hx
    rw [solve, if_neg (not_not_intro hguess)]
    simp only [start, ZeroHorizon.runOn_prepare, hcostate, ok_bind, hsolver, hfault]
    rfl
  · obtain ⟨search, first, costate, hstart, hready, hmeasured, haction⟩ :=
      exists_start hm hchecked hword hzero hguess ht hx hscale hsolver hdim hrelative
    obtain ⟨costate', hcostate, hmodel, htime, hstate, hscale', hfirst⟩ := start_eq_ok hstart
    obtain rfl := Except.ok.inj (hscale'.symm.trans hscale)
    rw [solve_of_start hguess hstart]
    refine ⟨fun fault hfault => by rw [hfault]; rfl, fun tolerance htolerance hfinite => ?_⟩
    rw [htolerance, ok_bind] at hfinite ⊢
    -- the only fault that is left is that of a triangular system
    have hfails := Search.failsWith_run Krylov.Solver.failsWith_coefficients hready hmeasured
      haction tolerance params.iterationLimit.toNat 0
    rcases hrun : search.run tolerance params.iterationLimit.toNat 0 first with
      fault | ⟨last, count⟩
    · rw [hrun, hfails fault hrun] at hfinite
      exact absurd rfl hfinite
    · obtain ⟨taken, rfl, hran⟩ := Search.ran_of_run hrun
      rw [Nat.zero_add, ok_bind]
      refine ⟨search, first, last, taken, costate', hstart, action_start hstart, ?_, hcostate,
        fun i it hit => ?_, hran.certifies hα ?_⟩
      · rw [Search.shape_run hrun, haction, hmodel]
      · obtain ⟨-, gradient, hgradient, hnorm⟩ := hit.holds Search.measured_advance hfirst
        rw [hmodel, htime, hstate] at hgradient
        exact ⟨gradient, hgradient, hnorm⟩
      · exact Datum.le_self_of_isPositive hα hchecked.residualTolerance htolerance

end Newton

/-- The search for the initial action of the integrator at one, with up to fifty iterations.  The
norm of the first iterate is one, and the search goes on from it. -/
theorem integrator_certified :
    ∃ (search : Newton.Search ℝ) (first last : Newton.Iterate ℝ) (count : ℕ),
      Newton.start Regulator.integrator.model (.number (.real 0)) (.ofFn (1 : Fin 1 → ℝ)) unitParams
        1 = .ok (search, first) ∧
      search.Certifies 1e-6 50 first last count (Newton.solve Regulator.integrator.model
        (.number (.real 0)) (.ofFn (1 : Fin 1 → ℝ)) unitParams 1) ∧
      first.residualNorm = 1 ∧ 0 < count := by
  have htotal := Regulator.integrator.total
  have hguess := length_guess_unitParams
  have hshape := shape_state_integrator 1
  have hroom := hasRoom_actionDim_integrator unitParams.krylovLimit
  have htime : (Datum.number (.real (0 : ℝ))).number? = some (.real 0) := rfl
  have htolerance : unitParams.residualTolerance.scalar = (.ok 1e-6 : Except (Fault ℝ) ℝ) := rfl
  have hfinite := Newton.failsWith_solve_of_sized (P := (· ≠ .nonFiniteSystem))
    Krylov.Solver.failsWith_coefficients_real (.of_ok htolerance) (fun _ h => nomatch h) htotal
    check_unitDraft (fun _ _ => rfl) isZero_of_pos hguess htime hshape copyScale_one hroom
    sized_actionDim_integrator
  obtain ⟨-, hcertified⟩ := Newton.solve_certified ordered_real (fun _ _ => rfl) isZero_of_pos
    htotal check_unitDraft hguess htime hshape sized_actionDim_integrator hroom
  obtain ⟨search, first, last, count, _, hstart, -, -, -, -, hcertifies⟩ :=
    (hcertified _ copyScale_one).2 _ htolerance fun h => hfinite _ h rfl
  obtain ⟨search', first', _, hstart', hnorm, -, -, -⟩ := Newton.exists_start_integrator
  obtain ⟨rfl, rfl⟩ := Prod.mk.inj (Except.ok.inj (hstart.symm.trans hstart'))
  refine ⟨search, first, last, count, hstart, hcertifies, hnorm,
    hcertifies.count_pos (Nat.succ_pos 49) le_rfl ?_⟩
  rw [hnorm]
  norm_num

end RecedingHorizon
