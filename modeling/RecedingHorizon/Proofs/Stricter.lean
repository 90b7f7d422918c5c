import RecedingHorizon.Proofs.Certified

/-!
# Searches that ask for more

Two searches from one guess may differ in what they ask for: over how many copies the norm is
measured, below which tolerance it has to fall, and how many iterations there are for it.  None of
this is read while a direction is looked for.  The norm is only carried along, so that more copies
multiply the norms of all iterates by one factor, which is one at least, and leave everything else
as it is.  A search that asks for more therefore goes through the same actions as one that asks for
less, and stops no earlier: where it has stopped below its own tolerance, the norm for fewer copies
was below the larger tolerance too.

In exact arithmetic no iteration fails, so that both come to their end.  When the one that asks for
more succeeds, and in no more iterations than the other one had, then that one has succeeded too, at
an action that the first has been through.

* `Newton.Search.actions`: the actions that a search goes through.
* `Newton.Search.rescaled`, `Newton.Iterate.rescaled`: a search that measures norms by another
  factor; `advance_rescaled`, `Reaches.rescaled`.
* `Newton.Search.Ran.prolonged`: of two runs the one that asks for more takes no fewer iterations.
* `Newton.exists_ran`: searches come to their end.
* `InitParams.Stricter`, `Newton.solve_prolonged`: of two searches one asks for more.
-/

namespace RecedingHorizon

variable {α : Type} [Scalar α]

namespace Newton

/-! ## The actions of a search -/

namespace Search

variable {search : Search α} {it u : Iterate α} {a : Tensor α} {count count' i : ℕ}

/-- The actions that a search goes through in so many iterations, as far as it gets. -/
def actions (search : Search α) : ℕ → Iterate α → List (Tensor α)
  | 0, it => [it.action]
  | count + 1, it =>
      it.action :: match search.advance it with
        | .ok next => search.actions count next
        | .error _ => []

theorem actions_of_advance {next : Iterate α} (h : search.advance it = .ok next) (count : ℕ) :
    search.actions (count + 1) it = it.action :: search.actions count next := by
  rw [actions, h]

/-- With more iterations the actions that a search goes through only go on. -/
theorem actions_prefix (search : Search α) (it : Iterate α) (h : count ≤ count') :
    search.actions count it <+: search.actions count' it := by
  induction count generalizing it count' with
  | zero =>
      cases count' with
      | zero => exact List.prefix_rfl
      | succ count' => exact List.prefix_cons_inj it.action |>.2 (List.nil_prefix)
  | succ count ih =>
      obtain ⟨count', rfl⟩ := Nat.exists_eq_add_one_of_ne_zero (Nat.ne_zero_of_lt h)
      rcases hnext : search.advance it with fault | next
      · rw [actions, actions, hnext]
      · rw [actions_of_advance hnext, actions_of_advance hnext, List.prefix_cons_inj]
        exact ih next (Nat.le_of_succ_le_succ h)

/-- The actions that a search goes through are those of the iterates that it comes to. -/
theorem mem_actions_iff : a ∈ search.actions count it ↔
    ∃ i u, i ≤ count ∧ search.Reaches it i u ∧ u.action = a := by
  induction count generalizing it with
  | zero =>
      rw [actions, List.mem_singleton]
      refine ⟨fun h => ⟨0, it, le_rfl, .here it, h.symm⟩, ?_⟩
      rintro ⟨i, u, hi, hu, rfl⟩
      obtain rfl := Nat.le_zero.1 hi
      cases hu
      rfl
  | succ count ih =>
      rw [actions, List.mem_cons]
      constructor
      · rintro (rfl | h)
        · exact ⟨0, it, Nat.zero_le _, .here it, rfl⟩
        · rcases hnext : search.advance it with fault | next
          · rw [hnext] at h
            cases h
          · rw [hnext] at h
            obtain ⟨i, u, hi, hu, rfl⟩ := ih.1 h
            exact ⟨i + 1, u, Nat.succ_le_succ hi, .next hnext hu, rfl⟩
      · rintro ⟨i, u, hi, hu, rfl⟩
        cases hu with
        | here => exact .inl rfl
        | next step rest =>
            rw [step]
            exact .inr (ih.2 ⟨_, u, Nat.le_of_succ_le_succ hi, rest, rfl⟩)

/-- A search goes through one more action than it takes iterations. -/
theorem length_actions (h : search.Reaches it count u) :
    (search.actions count it).length = count + 1 := by
  induction h with
  | here => rfl
  | next step _ ih => rw [actions_of_advance step, List.length_cons, ih]

/-! ## Where a search has been -/

/-- The iterate that a search comes to in so many iterations is the only one. -/
theorem Reaches.unique {v : Iterate α} (hu : search.Reaches it i u) (hv : search.Reaches it i v) :
    u = v := by
  induction hu with
  | here =>
      cases hv
      rfl
  | next step _ ih =>
      cases hv with
      | next step' rest =>
          obtain rfl := Except.ok.inj (step.symm.trans step')
          exact ih rest

/-- A search that comes to an iterate comes to one in every smaller number of iterations. -/
theorem Reaches.exists_of_le (h : search.Reaches it count u) (hi : i ≤ count) :
    ∃ v, search.Reaches it i v := by
  induction h generalizing i with
  | here it =>
      obtain rfl := Nat.le_zero.1 hi
      exact ⟨it, .here it⟩
  | @next it next last count step _ ih =>
      cases i with
      | zero => exact ⟨it, .here it⟩
      | succ i =>
          obtain ⟨v, hv⟩ := ih (Nat.le_of_succ_le_succ hi)
          exact ⟨v, .next step hv⟩

end Search

/-! ## Norms by another factor -/

/-- The search with its norms measured by `k` times the factor. -/
def Search.rescaled (search : Search ℝ) (k : ℝ) : Search ℝ :=
  { search with scale := k * search.scale }

/-- The iterate with `k` times its norm. -/
def Iterate.rescaled (it : Iterate ℝ) (k : ℝ) : Iterate ℝ :=
  { it with residualNorm := k * it.residualNorm }

namespace Search

variable {search : Search ℝ} {it u : Iterate ℝ} {k : ℝ} {count : ℕ}

theorem measure_rescaled (search : Search ℝ) (k : ℝ) (action : Tensor ℝ)
    (memory : ZeroHorizon.Memory ℝ) (w : Krylov.Workspace ℝ) :
    (search.rescaled k).measure action memory w =
      (search.measure action memory w).map (·.rescaled k) := by
  have hsystem : (search.rescaled k).system = search.system := rfl
  have htime : (search.rescaled k).time = search.time := rfl
  have hstate : (search.rescaled k).state = search.state := rfl
  rw [measure, measure, hsystem, htime, hstate]
  rcases (search.system.gradient search.time search.state action).runOn memory with
    ⟨fault | gradient, memory⟩
  · rfl
  · exact congrArg (fun r => Except.ok (⟨action, r, memory, w⟩ : Iterate ℝ)) (mul_assoc _ _ _)

/-- No iteration reads the norm. -/
theorem advance_rescaled (search : Search ℝ) (k : ℝ) (it : Iterate ℝ) :
    (search.rescaled k).advance (it.rescaled k) = (search.advance it).map (·.rescaled k) := by
  have hsolve : (search.rescaled k).solver.solve ((search.rescaled k).system.linearized
      (search.rescaled k).time (search.rescaled k).state (it.rescaled k).action) none
      (it.rescaled k).workspace = search.solver.solve (search.system.linearized search.time
        search.state it.action) none it.workspace := rfl
  have hmemory : (it.rescaled k).memory = it.memory := rfl
  have haction : (it.rescaled k).action = it.action := rfl
  rw [advance, advance, hsolve, hmemory, haction]
  rcases (search.solver.solve (search.system.linearized search.time search.state it.action) none
    it.workspace).run it.memory with ⟨⟨fault | outcome, w⟩, memory⟩
  · rfl
  · dsimp only
    rw [ok_bind, ok_bind]
    rcases it.action.increase outcome.solution with fault | action
    · rfl
    · exact search.measure_rescaled k action memory w

theorem actions_rescaled (search : Search ℝ) (k : ℝ) (it : Iterate ℝ) (count : ℕ) :
    (search.rescaled k).actions count (it.rescaled k) = search.actions count it := by
  induction count generalizing it with
  | zero => rfl
  | succ count ih =>
      rw [actions, actions, advance_rescaled]
      rcases search.advance it with fault | next
      · rfl
      · exact congrArg (it.action :: ·) (ih next)

theorem Reaches.rescaled (h : search.Reaches it count u) (k : ℝ) :
    (search.rescaled k).Reaches (it.rescaled k) count (u.rescaled k) := by
  induction h with
  | here => exact .here _
  | @next it _ _ _ step _ ih =>
      exact .next (by rw [advance_rescaled, step]; rfl) ih

/-! ## Two runs -/

variable {last : Iterate ℝ} {τ τ' : ℝ} {left left' count' : ℕ} {last' : Iterate ℝ}

/-- What measures by no less, with a tolerance that is no larger and no fewer iterations to go,
takes no fewer.  If it has ended below its tolerance, within as many iterations as the other one
had, then this one has ended below its own. -/
theorem Ran.prolonged (hk : 1 ≤ k) (hτ : τ' ≤ τ) (hleft : left ≤ left')
    (hnorm : ∀ i u, search.Reaches it i u → 0 ≤ u.residualNorm)
    (h : search.Ran τ left count it last)
    (h' : (search.rescaled k).Ran τ' left' count' (it.rescaled k) last') :
    count ≤ count' ∧ (last'.residualNorm < τ' → count' ≤ left → last.residualNorm < τ) := by
  have hgrows {i : ℕ} {u : Iterate ℝ} (hu : search.Reaches it i u) :
      u.residualNorm ≤ (u.rescaled k).residualNorm :=
    le_mul_of_one_le_left (hnorm i u hu) hk
  have hcount : count ≤ count' := by
    by_contra hless
    rw [not_le] at hless
    obtain ⟨u, hu⟩ := h.reaches.exists_of_le hless.le
    obtain rfl := h'.reaches.unique (hu.rescaled k)
    have hover : τ ≤ u.residualNorm := h.earlier count' u hless hu
    rcases h'.stopped with hlimit | hbelow
    · have hle := h.le
      omega
    · exact hbelow (hτ.trans (hover.trans (hgrows hu)))
  refine ⟨hcount, fun hlast' hwithin => ?_⟩
  rcases h.stopped with hlimit | hbelow
  · -- both have stopped at the same iterate
    obtain rfl : count' = count := by omega
    obtain rfl := h'.reaches.unique (h.reaches.rescaled k)
    exact (hgrows h.reaches).trans_lt (hlast'.trans_le hτ)
  · exact not_le.1 hbelow

end Search

/-! ## The factor for so many copies -/

variable {copies copies' : Datum ℝ} {c c' scale scale' : ℝ}

/-- The factor by which norms are measured is the root of the number of copies, or one. -/
theorem copyScale_eq (hc : copies.scalar = .ok c) (h : copyScale copies = .ok scale) :
    scale = √(max c 1) := by
  obtain ⟨bound, hbound, h⟩ := bind_eq_ok_iff.1 h
  obtain ⟨y, hy, h⟩ := bind_eq_ok_iff.1 h
  cases h
  have hscalar {d : Datum ℝ} {z : ℝ} (hd : d.scalar = .ok z) (hoperand : d.operand = .ok y) :
      y = z := by
    obtain ⟨a, ha, rfl⟩ := Datum.asNumber_of_scalar hd
    rw [Datum.operand, ha, ok_bind] at hoperand
    cases a with
    | whole n =>
        rw [Number.operand] at hoperand
        split at hoperand
        · exact (Except.ok.inj hoperand).symm
        · cases hoperand
    | real x => exact (Except.ok.inj hoperand).symm
  rw [Datum.atLeast, Datum.lt_of_scalar hc Datum.scalar_one, ok_bind] at hbound
  show √y = _
  by_cases hless : c < 1
  · rw [if_pos (decide_eq_true hless)] at hbound
    cases hbound
    rw [hscalar Datum.scalar_one hy, max_eq_right hless.le]
  · rw [if_neg (by simpa using hless)] at hbound
    cases hbound
    rw [hscalar hc hy, max_eq_left (not_lt.1 hless)]

theorem one_le_copyScale (hc : copies.scalar = .ok c) (h : copyScale copies = .ok scale) :
    1 ≤ scale := by
  rw [copyScale_eq hc h, Real.one_le_sqrt]
  exact le_max_right c 1

/-- The factor by which norms are measured grows with the number of copies. -/
theorem copyScale_le (hc : copies.scalar = .ok c) (hc' : copies'.scalar = .ok c') (hle : c ≤ c')
    (h : copyScale copies = .ok scale) (h' : copyScale copies' = .ok scale') : scale ≤ scale' := by
  rw [copyScale_eq hc h, copyScale_eq hc' h']
  exact Real.sqrt_le_sqrt (max_le_max_right 1 hle)

/-! ## A search comes to its end -/

variable {model : Model ℝ} {draft draft' : InitParams.Draft ℝ} {params params' : InitParams ℝ}
variable {t : Datum ℝ} {x : Tensor ℝ} {n : Number ℝ} {search : Search ℝ} {first : Iterate ℝ}

/-- In exact arithmetic a search with parameters that have been accepted starts, and comes to an
iterate of which its outcome is the verdict. -/
theorem exists_ran (hm : model.Total) (hcheck : draft.check = .ok params)
    (hguess : (params.guess.length : ℤ) = model.actionDim) (ht : t.number? = some n)
    (hx : x.shape = [model.stateDim.toNat])
    (hsized : Krylov.Solver.Sized model.actionDim.toNat params.krylovLimit)
    (hroom : Krylov.Solver.HasRoom model.actionDim.toNat params.krylovLimit)
    (hscale : copyScale copies = .ok scale) :
    ∃ search first last costate τ count, start model t x params copies = .ok (search, first) ∧
      search.Ready costate ∧ first.Measured search costate ∧
      params.residualTolerance.scalar = .ok τ ∧
      search.Ran τ params.iterationLimit.toNat count first last ∧
      solve model t x params copies = conclude τ last count := by
  have hchecked := draft.checked hcheck
  obtain ⟨solver, hsolver, hdim, hrelative⟩ := exists_solver hm hchecked hroom hsized
  obtain ⟨search, first, costate, hstart, hready, hmeasured, haction⟩ :=
    exists_start hm hchecked (fun _ _ => rfl) isZero_of_pos hguess ht hx hscale hsolver hdim
      hrelative
  obtain ⟨τ, hτ, -⟩ := Datum.scalar_of_isPositive hchecked.residualTolerance
  -- as triangular systems of real numbers are finite, nothing is left to fail
  have hanswers := Search.failsWith_run (P := fun _ => False)
    Krylov.Solver.failsWith_coefficients_real hready hmeasured haction τ
    params.iterationLimit.toNat 0
  rcases hrun : search.run τ params.iterationLimit.toNat 0 first with fault | ⟨last, count⟩
  · exact (hanswers fault hrun).elim
  · obtain ⟨taken, rfl, hran⟩ := Search.ran_of_run hrun
    refine ⟨search, first, last, costate, τ, taken, hstart, hready, hmeasured, hτ, hran, ?_⟩
    rw [solve_of_start hguess hstart, hτ, ok_bind, hrun, ok_bind, Nat.zero_add]

/-- The norm of an iterate is never negative. -/
theorem residualNorm_nonneg (hstart : start model t x params copies = .ok (search, first))
    {i : ℕ} {u : Iterate ℝ} (hu : search.Reaches first i u) : 0 ≤ u.residualNorm := by
  obtain ⟨costate, -, -, -, -, hscale, hfirst⟩ := start_eq_ok hstart
  obtain ⟨-, gradient, -, hnorm⟩ := hu.holds Search.measured_advance hfirst
  obtain ⟨_, -, h⟩ := bind_eq_ok_iff.1 hscale
  obtain ⟨y, -, h⟩ := bind_eq_ok_iff.1 h
  rw [hnorm, ← Except.ok.inj h]
  exact mul_nonneg (Real.sqrt_nonneg _) (Real.sqrt_nonneg _)

end Newton

/-! ## Two searches -/

/-- Parameters that ask for more than others from the same guess, with the same differences and the
same directions: a tolerance that is no larger, and no fewer iterations for it. -/
structure InitParams.Stricter (params' params : InitParams ℝ) : Prop where
  guess : params'.guess = params.guess
  differenceStep : params'.differenceStep = params.differenceStep
  krylovLimit : params'.krylovLimit = params.krylovLimit
  residualTolerance : ∀ τ τ', params.residualTolerance.scalar = .ok τ →
    params'.residualTolerance.scalar = .ok τ' → τ' ≤ τ
  iterationLimit : params.iterationLimit.toNat ≤ params'.iterationLimit.toNat

namespace Newton

variable {copies copies' : Datum ℝ} {c c' scale scale' : ℝ} {model : Model ℝ}
variable {draft draft' : InitParams.Draft ℝ} {params params' : InitParams ℝ} {t : Datum ℝ}
variable {x : Tensor ℝ} {n : Number ℝ} {search : Search ℝ} {first : Iterate ℝ}

/-- A search over other copies starts with the same action. -/
theorem start_rescaled (hstricter : params'.Stricter params)
    (hscale : copyScale copies = .ok scale) (hscale' : copyScale copies' = .ok scale')
    (hne : scale ≠ 0) (hstart : start model t x params copies = .ok (search, first)) :
    start model t x params' copies' =
      .ok (search.rescaled (scale' / scale), first.rescaled (scale' / scale)) := by
  rw [start] at hstart ⊢
  rw [hstricter.guess, hstricter.differenceStep, hstricter.krylovLimit]
  rcases hcostate : model.terminalGradient x t with fault | costate
  · simp only [ZeroHorizon.runOn_prepare, hcostate] at hstart
    cases hstart
  · simp only [ZeroHorizon.runOn_prepare, hcostate, ok_bind, hscale, hscale'] at hstart ⊢
    obtain ⟨solver, hsolver, hstart⟩ := bind_eq_ok_iff.1 hstart
    obtain ⟨it, hit, hstart⟩ := bind_eq_ok_iff.1 hstart
    cases hstart
    have hsearch : (⟨⟨model, params.differenceStep⟩, solver, t, x, scale'⟩ : Search ℝ) =
        Search.rescaled ⟨⟨model, params.differenceStep⟩, solver, t, x, scale⟩ (scale' / scale) := by
      rw [Search.rescaled, div_mul_cancel₀ _ hne]
    rw [hsolver, ok_bind, hsearch, Search.measure_rescaled, hit]
    rfl

/-- **A search that asks for more only goes on for longer.**  Let a model answer, let two sets of
parameters have been accepted, and let the second one ask for more, over no fewer copies.  Then
either search comes to an end that its outcome certifies.  The actions of the first are the first
ones of the second, which takes no fewer iterations; and if the second search succeeds, in no more
iterations than the first one could have taken, then the first succeeds as well, at an action that
the second has been through. -/
theorem solve_prolonged (hm : model.Total) (hcheck : draft.check = .ok params)
    (hcheck' : draft'.check = .ok params') (hstricter : params'.Stricter params)
    (hguess : (params.guess.length : ℤ) = model.actionDim) (ht : t.number? = some n)
    (hx : x.shape = [model.stateDim.toNat])
    (hsized : Krylov.Solver.Sized model.actionDim.toNat params.krylovLimit)
    (hroom : Krylov.Solver.HasRoom model.actionDim.toNat params.krylovLimit)
    (hc : copies.scalar = .ok c) (hc' : copies'.scalar = .ok c') (hle : c ≤ c')
    (hscale : copyScale copies = .ok scale) (hscale' : copyScale copies' = .ok scale') :
    ∃ (search search' : Search ℝ) (first first' last last' : Iterate ℝ) (τ τ' : ℝ)
      (count count' : ℕ),
      start model t x params copies = .ok (search, first) ∧
      start model t x params' copies' = .ok (search', first') ∧
      params.residualTolerance.scalar = .ok τ ∧ params'.residualTolerance.scalar = .ok τ' ∧
      search.Certifies τ params.iterationLimit.toNat first last count
        (solve model t x params copies) ∧
      search'.Certifies τ' params'.iterationLimit.toNat first' last' count'
        (solve model t x params' copies') ∧
      (search.actions count first).length = count + 1 ∧
      (search'.actions count' first').length = count' + 1 ∧
      search.actions count first <+: search'.actions count' first' ∧ count ≤ count' ∧
      ∀ found', solve model t x params' copies' = .ok found' →
        found'.iterations ≤ params.iterationLimit.toNat →
        ∃ found, solve model t x params copies = .ok found ∧
          found.action ∈ search'.actions count' first' := by
  obtain ⟨search, first, last, _, τ, count, hstart, -, -, hτ, hran, hsolve⟩ :=
    exists_ran hm hcheck hguess ht hx hsized hroom hscale
  obtain ⟨search', first', last', _, τ', count', hstart', -, -, hτ', hran', hsolve'⟩ :=
    exists_ran hm hcheck' (by rw [hstricter.guess]; exact hguess) ht hx
      (by rw [hstricter.krylovLimit]; exact hsized) (by rw [hstricter.krylovLimit]; exact hroom)
      hscale'
  have hpos : 0 < scale := one_pos.trans_le (one_le_copyScale hc hscale)
  -- the second search is the first one by another factor
  obtain ⟨rfl, rfl⟩ : search.rescaled (scale' / scale) = search' ∧
      first.rescaled (scale' / scale) = first' := by
    have hsame := (start_rescaled hstricter hscale hscale' hpos.ne' hstart).symm.trans hstart'
    exact Prod.mk.inj (Except.ok.inj hsame)
  have hfactor : 1 ≤ scale' / scale := (one_le_div hpos).2 (copyScale_le hc hc' hle hscale hscale')
  obtain ⟨hcount, hbelow⟩ := hran.prolonged hfactor (hstricter.residualTolerance τ τ' hτ hτ')
    hstricter.iterationLimit (fun _ _ => residualNorm_nonneg hstart) hran'
  have hcertifies := hran.certifies ordered_real le_rfl
  have hcertifies' := hran'.certifies ordered_real le_rfl
  have hactions := search.actions_rescaled (scale' / scale) first count'
  rw [← hsolve] at hcertifies
  rw [← hsolve'] at hcertifies'
  refine ⟨search, _, first, _, last, last', τ, τ', count, count', hstart, hstart', hτ, hτ',
    hcertifies, hcertifies', Search.length_actions hran.reaches,
    Search.length_actions hran'.reaches, ?_, hcount, fun found' hfound' hwithin => ?_⟩
  · rw [hactions]
    exact search.actions_prefix first hcount
  · have hlast' : last'.residualNorm < τ' := by
      by_contra hmissed
      rw [hcertifies'.missed.2 hmissed] at hfound'
      cases hfound'
    obtain rfl := Except.ok.inj (hfound'.symm.trans (hcertifies'.found.2 hlast'))
    refine ⟨_, hcertifies.found.2 (hbelow hlast' hwithin), ?_⟩
    rw [hactions, Search.mem_actions_iff]
    exact ⟨count, last, hcount, hran.reaches, rfl⟩

end Newton

/-- Parameters that have been accepted are accepted with any other tolerance and number of
iterations that pass their checks. -/
theorem InitParams.Draft.check_demands {draft : Draft α} {params : InitParams α} {τ n : Datum α}
    (h : draft.check = .ok params)
    (hτ : Requirement.positive.check .residualTolerance τ = .ok τ)
    (hn : Requirement.wholeNonNegative.check .iterationLimit n = .ok n) :
    ({ draft with residualTolerance := τ, iterationLimit := n } : Draft α).check =
      .ok { params with residualTolerance := τ, iterationLimit := n } :=
  check_eq_ok_iff.2 { check_eq_ok_iff.1 h with
    residualTolerance := hτ
    iterationLimit := hn }

/-- The search for the initial action of the integrator at one, once for one copy with a millionth
for a tolerance and fifty iterations, and once for two copies with a billionth and sixty iterations.
Neither stops where it starts. -/
theorem integrator_prolonged : ∃ (params : InitParams ℝ) (search search' : Newton.Search ℝ)
    (first first' : Newton.Iterate ℝ) (count count' : ℕ),
    params.iterationLimit = 60 ∧ params.residualTolerance = .number (.real 1e-9) ∧
    Newton.start Regulator.integrator.model (.number (.real 0)) (.ofFn (1 : Fin 1 → ℝ)) unitParams
      1 = .ok (search, first) ∧
    Newton.start Regulator.integrator.model (.number (.real 0)) (.ofFn (1 : Fin 1 → ℝ)) params
      2 = .ok (search', first') ∧
    first.residualNorm = 1 ∧ 0 < count ∧
    search.actions count first <+: search'.actions count' first' ∧ count ≤ count' := by
  have hpositive : (0 : ℝ) < 1e-9 := ofScientific_pos (by norm_num)
  have hτ : Requirement.positive.check .residualTolerance (.number (.real (1e-9 : ℝ))) =
      .ok (.number (.real 1e-9)) :=
    Requirement.check_of_holds (Datum.isPositive_of_pos rfl hpositive)
  have hcheck := InitParams.Draft.check_demands check_unitDraft hτ
    (n := (60 : Datum ℝ)) rfl
  have hstricter : InitParams.Stricter
      { unitParams with residualTolerance := .number (.real 1e-9), iterationLimit := 60 }
      unitParams := {
    guess := rfl
    differenceStep := rfl
    krylovLimit := rfl
    residualTolerance := by
      intro τ τ' hτ hτ'
      cases hτ
      cases hτ'
      norm_num
    iterationLimit := by
      show 50 ≤ 60
      norm_num }
  have htwo : (2 : Datum ℝ).scalar = .ok 2 := congrArg Except.ok (Int.cast_ofNat 2)
  have hscale : Newton.copyScale (2 : Datum ℝ) = .ok √((2 : ℤ) : ℝ) := by
    have hcopies : (2 : Datum ℝ).atLeast 1 = .ok 2 := rfl
    rw [Newton.copyScale, hcopies]
    rfl
  have htime : (Datum.number (.real (0 : ℝ))).number? = some (.real 0) := rfl
  obtain ⟨search, search', first, first', last, _, τ, _, count, count', hstart, hstart', hτ, -,
    hcertifies, -, -, -, hactions, hcount, -⟩ := Newton.solve_prolonged Regulator.integrator.total
      check_unitDraft hcheck hstricter length_guess_unitParams htime (shape_state_integrator 1)
      sized_actionDim_integrator (hasRoom_actionDim_integrator _) Datum.scalar_one htwo one_le_two
      copyScale_one hscale
  obtain ⟨search₁, first₁, _, hstart₁, hnorm, -, -, -⟩ := Newton.exists_start_integrator
  obtain ⟨rfl, rfl⟩ := Prod.mk.inj (Except.ok.inj (hstart.symm.trans hstart₁))
  obtain rfl : 1e-6 = τ := Except.ok.inj hτ
  refine ⟨_, search, search', first, first', count, count', rfl, rfl, hstart, hstart', hnorm,
    hcertifies.count_pos (Nat.succ_pos 49) le_rfl ?_, hactions, hcount⟩
  rw [hnorm]
  norm_num

end RecedingHorizon
