import RecedingHorizon.Proofs.Accepted
import RecedingHorizon.Proofs.Equilibrium
import RecedingHorizon.Proofs.Reseeded

/-!
# What a seeding needs

There is a solution to follow as soon as one seeding has been answered, and no call takes it away
again: a later seeding that fails leaves the one there was.  So whether a controller has a solution
can be read off its answers.

A seeding itself needs parameters for its search.  Those that have been set have passed their
checks.  Those it otherwise chooses pass them as well: there is memory for a guess of zeros, since
there is for a solver, and the difference step is that of settings that have been accepted.  With
such parameters, and in exact arithmetic, the search fails only if it does not converge, and after
it nothing fails: the horizon starts at the very time that is asked for, and the trajectory is shot
from the action that was found.  What remains is a state of another shape.

* `Model.Total.exists_answers`: a model that answers, as functions of vectors.
* `Controller.Seeded`, `initialized_performAll`: whether there is a solution to follow.
* `Controller.Exact`, `preserves_exact`: times and parameters, in every state that is reached.
* `Controller.exists_chosenParams`, `Controller.failsWith_seed`: the search, and the seeding.
-/

namespace RecedingHorizon

/-! ## Responses -/

/-- A model that answers, in exact arithmetic, has responses. -/
theorem Model.Total.exists_answers {model : Model ℝ} (hm : model.Total)
    (hstate : 0 ≤ model.stateDim) :
    ∃ (n m c : ℕ) (r : Responses n m c), model.Answers r := by
  obtain ⟨n, hn⟩ := Int.eq_ofNat_of_zero_le hstate
  obtain ⟨m, hcontrol⟩ := Int.eq_ofNat_of_zero_le hm.controlDim
  obtain ⟨c, hconstraint⟩ := Int.eq_ofNat_of_zero_le hm.constraintDim
  have haction : model.actionDim.toNat = m + c := by
    rw [Model.actionDim, hcontrol, hconstraint]
    omega
  have hx (x : Fin n → ℝ) : (Tensor.ofFn x).shape = [model.stateDim.toNat] := by
    rw [Tensor.shape_ofFn, hn, Int.toNat_natCast]
  have hu (u : Fin m → ℝ) : (Tensor.ofFn u).shape = [model.controlDim.toNat] := by
    rw [Tensor.shape_ofFn, hcontrol, Int.toNat_natCast]
  have ha (a : Fin (m + c) → ℝ) : (Tensor.ofFn a).shape = [model.actionDim.toNat] := by
    rw [Tensor.shape_ofFn, haction]
  have hvector {answer : Except (Fault ℝ) (Tensor ℝ)} {k : ℕ} {d : ℤ} (hd : d.toNat = k)
      (h : ∃ b, answer = .ok b ∧ b.shape = [d.toNat]) :
      ∃ v : Fin k → ℝ, answer = .ok (.ofFn v) := by
    obtain ⟨b, hb, hshape⟩ := h
    obtain ⟨v, rfl⟩ := Tensor.exists_eq_ofFn (hd ▸ hshape)
    exact ⟨v, hb⟩
  have hnNat : model.stateDim.toNat = n := by rw [hn, Int.toNat_natCast]
  have htime (t : ℝ) : (t : Datum ℝ).number? = some (.real t) := rfl
  choose dynamics hdynamics using fun (x : Fin n → ℝ) (u : Fin m → ℝ) (t : ℝ) =>
    hvector hnNat (hm.dynamics (htime t) (hx x) (hu u))
  choose terminal hterminal using fun (x : Fin n → ℝ) (t : ℝ) =>
    hvector hnNat (hm.terminalGradient (htime t) (hx x))
  choose pull hpull using fun (x : Fin n → ℝ) (a : Fin (m + c) → ℝ) (l : Fin n → ℝ) (t : ℝ) =>
    hvector hnNat (hm.stateGradient (htime t) (hx x) (ha a) (hx l))
  choose gradient hgradient using fun (x : Fin n → ℝ) (a : Fin (m + c) → ℝ) (l : Fin n → ℝ)
    (t : ℝ) => hvector haction (hm.controlGradient (htime t) (hx x) (ha a) (hx l))
  exact ⟨n, m, c, ⟨dynamics, terminal, pull, gradient⟩, hn, hcontrol, hconstraint, hdynamics,
    hterminal, hpull, hgradient⟩

namespace Controller

open Stateful

/-! ## What has been asked -/

section History

variable {α : Type} [Scalar α] {controller : Controller α}

/-- Among the calls there is a seeding that was answered. -/
def Seeded (operations : List (Operation α)) (replies : List (Except (Fault α) (Reply α))) : Prop :=
  ∃ (i : ℕ) (t measured : Datum α) (reply : Reply α), operations[i]? = some (.seed t measured) ∧
    replies[i]? = some (.ok reply)

omit [Scalar α] in
theorem seeded_cons {operation : Operation α} {operations : List (Operation α)}
    {reply : Except (Fault α) (Reply α)} {replies : List (Except (Fault α) (Reply α))} :
    Seeded (operation :: operations) (reply :: replies) ↔
      (∃ t measured answer, operation = .seed t measured ∧ reply = .ok answer) ∨
        Seeded operations replies := by
  constructor
  · rintro ⟨i, t, measured, answer, hoperation, hreply⟩
    cases i with
    | zero => exact .inl ⟨t, measured, answer, Option.some.inj hoperation, Option.some.inj hreply⟩
    | succ i => exact .inr ⟨i, t, measured, answer, hoperation, hreply⟩
  · rintro (⟨t, measured, answer, rfl, rfl⟩ | ⟨i, t, measured, answer, hoperation, hreply⟩)
    · exact ⟨0, t, measured, answer, rfl, rfl⟩
    · exact ⟨i + 1, t, measured, answer, hoperation, hreply⟩

/-- There is a solution to follow once a seeding is answered, and no call takes it away. -/
theorem initialized_perform (operation : Operation α) (state : State α) :
    ((controller.perform operation).runOn state).2.initialized = true ↔
      state.initialized = true ∨ ∃ t measured answer, operation = .seed t measured ∧
        ((controller.perform operation).runOn state).1 = .ok answer := by
  by_cases hoperation : ∃ t measured, operation = .seed t measured
  · obtain ⟨t, measured, rfl⟩ := hoperation
    rw [perform, runOn_map]
    rcases hseed : (controller.seed t measured).runOn state with ⟨fault | answer, state'⟩
    · have hsame : state'.initialized = state.initialized := by
        rcases seed_eq_error hseed with ⟨-, rfl⟩ | ⟨x, found, -, -, rfl⟩ <;> rfl
      dsimp only
      rw [hsame]
      refine ⟨.inl, ?_⟩
      rintro (h | ⟨_, _, _, -, h⟩)
      · exact h
      · cases h
    · obtain ⟨x, params, found, trajectory, -, -, -, -, rfl⟩ := seed_eq_ok hseed
      exact ⟨fun _ => .inr ⟨t, measured, _, rfl, rfl⟩, fun _ => rfl⟩
  · have hkept : ((controller.perform operation).runOn state).2.initialized =
        state.initialized := by
      exact preserves_perform_of (I := fun s => s.initialized = state.initialized)
        (fun given _ => preserves_perform_setInitParams (fun _ _ hs => hs) given)
        (fun t measured h => absurd ⟨t, measured, h⟩ hoperation)
        (Steady.update fun _ _ _ h _ hs => h.trans hs) state rfl
    rw [hkept]
    refine ⟨.inl, ?_⟩
    rintro (h | ⟨t, measured, _, hseed, -⟩)
    · exact h
    · exact absurd ⟨t, measured, hseed⟩ hoperation

theorem initialized_performAll (operations : List (Operation α)) (state : State α) :
    (controller.performAll operations state).2.initialized = true ↔
      state.initialized = true ∨ Seeded operations (controller.performAll operations state).1 := by
  induction operations generalizing state with
  | nil =>
      refine ⟨.inl, ?_⟩
      rintro (h | ⟨_, _, _, _, h, -⟩)
      · exact h
      · cases h
  | cons operation operations ih =>
      rw [performAll]
      dsimp only
      rw [ih, initialized_perform, seeded_cons, or_assoc]

end History

/-! ## What is given -/

/-- What is given to a call is exact: the time of a seeding is a real number, and parameters that
pass their checks ask for a whole number of directions, given as one. -/
def Operation.IsExact : Operation ℝ → Prop
  | .setInitParams given => ∀ draft params, InitParams.Draft.ofArguments given = .ok draft →
      draft.check = .ok params → ∃ k, params.krylovLimit = .number (.whole k)
  | .seed t _ => ∃ s : ℝ, t = .number (.real s)
  | _ => True

end Controller

/-- Parameters with which a search can be made for an action of so many entries. -/
structure InitParams.Usable (params : InitParams ℝ) (dim : ℤ) : Prop where
  checked : ∃ draft : InitParams.Draft ℝ, draft.check = .ok params
  guess : (params.guess.length : ℤ) = dim
  krylovLimit : ∃ k, params.krylovLimit = .number (.whole k)

namespace Controller

open Stateful

variable {controller : Controller ℝ} {state : State ℝ}

/-- The horizon starts at a real number, and the parameters that have been set can be used. -/
structure Exact (controller : Controller ℝ) (state : State ℝ) : Prop where
  start : ∃ t₀ : ℝ, state.start = .number (.real t₀)
  params : ∀ params, state.params = some params → params.Usable controller.model.actionDim

theorem exact_blank : controller.Exact controller.blank where
  start := ⟨0, rfl⟩
  params _ h := by cases h

theorem steady_exact : Steady controller.Exact := fun _ _ hstart _ hparams hs =>
  ⟨hstart ▸ hs.start, hparams ▸ hs.params⟩

theorem preserves_exact {operation : Operation ℝ} (h : operation.IsExact) :
    Preserves controller.Exact (controller.perform operation) := by
  refine preserves_perform_of ?_ ?_ steady_exact.update
  · rintro given rfl s hs
    rcases controller.runOn_setInitParams given with
      ⟨fault, hrun⟩ | ⟨params, hrun, ⟨draft, hdraft, hcheck⟩, hlength⟩
    · rw [hrun]
      exact hs
    · rw [hrun]
      refine ⟨hs.start, fun params' hparams => ?_⟩
      obtain rfl := Option.some.inj hparams
      exact ⟨⟨draft, hcheck⟩, hlength, h draft _ hdraft hcheck⟩
  · rintro t measured rfl
    exact preserves_seed_of (fun _ _ hs => ⟨h, hs.params⟩) (fun _ _ hs => ⟨hs.start, hs.params⟩)
      measured

end Controller

/-! ## The parameters of the search -/

/-- Where there is room for several rows there is room for one. -/
theorem Tensor.checkRoom_of_cons {a b : ℤ} (ha : 0 < a) (hb : 0 < b)
    (h : checkRoom [a, b] = (.ok () : Except (Fault ℝ) Unit)) :
    checkRoom [b] = (.ok () : Except (Fault ℝ) Unit) := by
  have hle : b ≤ a * b := le_mul_of_one_le_left hb.le ha
  obtain ⟨_, hextents, hmemory⟩ := bind_eq_ok_iff.1 h
  have hindex := all_isIndex_of_checkExtents hextents b (List.mem_cons_of_mem _ List.mem_cons_self)
  have hsize : ¬indexBound ≤ (entryBytes : ℤ) * b := by
    intro hsize
    have hproduct : indexBound ≤ (entryBytes : ℤ) * (a * b) :=
      hsize.trans (mul_le_mul_of_nonneg_left hle (Int.natCast_nonneg _))
    simp only [checkExtents, List.any_cons, List.any_nil, List.filter_cons, List.filter_nil, ha.ne',
      hb.ne', decide_not, decide_false, Bool.not_false, if_true, List.foldl_cons, List.foldl_nil,
      one_mul, if_pos hproduct, ne_eq] at hextents
    split at hextents
    · cases hextents
    · split at hextents <;> cases hextents
  have hvolume : ¬Scalar.memory ℝ ≤ entryBytes * volume [b.toNat] := by
    intro hvolume
    have hproduct : Scalar.memory ℝ ≤ entryBytes * volume [a.toNat, b.toNat] :=
      hvolume.trans (Nat.mul_le_mul_left _ (Nat.le_mul_of_pos_left _ (by omega)))
    have hfault := (if_pos hproduct).symm.trans hmemory
    cases hfault
  have hone : checkExtents [b] = (.ok () : Except (Fault ℝ) Unit) := by
    simp [checkExtents, hindex, hb.not_gt, hb.ne', hsize]
  rw [checkRoom, hone, ok_bind]
  exact if_neg hvolume

/-- A difference step that has passed its check passes it again. -/
theorem Settings.Draft.checkFinite_differenceStep {draft : Settings.Draft ℝ}
    {settings : Settings ℝ} (h : draft.check = .ok settings) :
    Requirement.positive.checkFinite .differenceStep settings.differenceStep =
      .ok settings.differenceStep := by
  have hstep := (check_eq_ok_iff.1 h).differenceStep
  rwa [← Requirement.eq_of_checkFinite hstep] at hstep

namespace Controller

variable {controller : Controller ℝ} {state : State ℝ}

/-- A guess of zeros finds room where the directions of a solver do. -/
theorem blank_of_hasRoom {k : ℕ} (hk : 0 < k)
    (hroom : ∀ limit, Krylov.Solver.HasRoom k (limit : Datum ℝ)) :
    (Tensor.blank [(k : ℤ)] : Except (Fault ℝ) (Tensor ℝ)) = .ok (.ofFn (0 : Fin k → ℝ)) := by
  have hone : (Datum.number (.whole (1 : ℕ)) : Datum ℝ).atMost (.number (.whole k)) =
      .ok (.number (.whole (1 : ℕ))) := by
    have hlt : (Datum.number (.whole k) : Datum ℝ).lt (.number (.whole (1 : ℕ))) =
        .ok (decide ((k : ℤ) < ((1 : ℕ) : ℤ))) := rfl
    rw [Datum.atMost, hlt, decide_eq_false (by omega)]
    rfl
  have hrows := (hroom _ 1 hone).1
  have hzeros : (Tensor.zeros [k] : Tensor ℝ) = .ofFn (0 : Fin k → ℝ) := Tensor.zeros_eq_ofFn
  rw [Tensor.blank, Tensor.checkRoom_of_cons (by omega) (by omega) hrows, ok_bind, ← hzeros]
  rfl

/-- The default parameters of a search for `k` entries, with differences of the step that is
given. -/
noncomputable def defaultDraft (k : ℕ) (step : Datum ℝ) : InitParams.Draft ℝ where
  guess := .ofTensor (.ofFn (0 : Fin k → ℝ))
  residualTolerance := .number (.real 1e-6)
  iterationLimit := 50
  differenceStep := step
  krylovLimit := .number (.whole k)

/-- If there is something to search for, the default parameters pass their checks. -/
theorem check_defaultInitParams {draft : Settings.Draft ℝ}
    (hsettings : draft.check = .ok controller.settings) (hdim : 0 < controller.model.actionDim)
    (hroom : ∀ limit, Krylov.Solver.HasRoom controller.model.actionDim.toNat (limit : Datum ℝ)) :
    ∃ initial params, controller.defaultInitParams = .ok initial ∧ initial.check = .ok params ∧
      params.guess = List.ofFn (0 : Fin controller.model.actionDim.toNat → ℝ) ∧
      params.residualTolerance = .number (.real 1e-6) ∧ params.iterationLimit = 50 ∧
      params.differenceStep = controller.settings.differenceStep ∧
      params.krylovLimit = .number (.whole controller.model.actionDim) := by
  obtain ⟨k, hk⟩ : ∃ k, k = controller.model.actionDim.toNat := ⟨_, rfl⟩
  have hwhole : controller.model.actionDim = k := by omega
  rw [← hk] at hroom ⊢
  have hblank : (Tensor.blank [controller.model.actionDim] : Except (Fault ℝ) (Tensor ℝ)) =
      .ok (.ofFn (0 : Fin k → ℝ)) := by
    rw [hwhole]
    exact blank_of_hasRoom (by omega) hroom
  have hguess := Datum.asGuess_of_tensor (Datum.tensor_ofTensor_ofFn (0 : Fin k → ℝ))
  have htolerance : Requirement.positive.check .residualTolerance (.number (.real (1e-6 : ℝ))) =
      .ok (.number (.real 1e-6)) :=
    Requirement.check_of_holds (Datum.isPositive_of_pos rfl millionth_pos)
  have hiterations : Requirement.wholeNonNegative.check .iterationLimit (50 : Datum ℝ) =
      .ok 50 := rfl
  have hlimit : Requirement.atLeastOne.check .krylovLimit (.number (.whole k) : Datum ℝ) =
      .ok (.number (.whole k)) :=
    Requirement.check_of_holds (congrArg Except.ok (decide_eq_true (hwhole ▸ hdim)))
  refine ⟨defaultDraft k controller.settings.differenceStep,
    { defaultDraft k controller.settings.differenceStep with guess := List.ofFn (0 : Fin k → ℝ) },
    ?_, ?_, rfl, rfl, rfl, rfl, by rw [hwhole]; rfl⟩
  · rw [defaultInitParams, hblank, hwhole]
    rfl
  · exact InitParams.Draft.check_eq_ok_iff.2 ⟨hguess, htolerance, hiterations,
      Settings.Draft.checkFinite_differenceStep hsettings, hlimit⟩

/-- The default parameters can be used, if there is something to search for. -/
theorem exists_defaultInitParams {draft : Settings.Draft ℝ}
    (hsettings : draft.check = .ok controller.settings) (hdim : 0 < controller.model.actionDim)
    (hroom : ∀ limit, Krylov.Solver.HasRoom controller.model.actionDim.toNat (limit : Datum ℝ)) :
    ∃ initial params, controller.defaultInitParams = .ok initial ∧
      initial.check = .ok params ∧ params.Usable controller.model.actionDim := by
  obtain ⟨initial, params, hdefault, hcheck, hguess, -, -, -, hlimit⟩ :=
    check_defaultInitParams hsettings hdim hroom
  refine ⟨initial, params, hdefault, hcheck, ⟨initial, hcheck⟩, ?_, _, hlimit⟩
  rw [hguess, List.length_ofFn, Int.toNat_of_nonneg hdim.le]

/-- There are parameters for a search, whether or not any have been set. -/
theorem exists_chosenParams {draft : Settings.Draft ℝ}
    (hsettings : draft.check = .ok controller.settings) (hdim : 0 < controller.model.actionDim)
    (hroom : ∀ limit, Krylov.Solver.HasRoom controller.model.actionDim.toNat (limit : Datum ℝ))
    (hs : controller.Exact state) :
    ∃ params, controller.chosenParams state = .ok params ∧
      params.Usable controller.model.actionDim := by
  rcases hparams : state.params with _ | params
  · obtain ⟨initial, params, hdefault, hcheck, husable⟩ :=
      exists_defaultInitParams hsettings hdim hroom
    refine ⟨params, ?_, husable⟩
    rw [chosenParams, hparams]
    exact bind_eq_ok_iff.2 ⟨initial, hdefault, hcheck⟩
  · exact ⟨params, by rw [chosenParams, hparams], hs.params params hparams⟩

/-! ## Seeding -/

section Calls

variable {n m c : ℕ} {r : Responses n m c} {h ζ T a t₀ t : ℝ} {measured : Datum ℝ} {y : Tensor ℝ}

/-- What is measured is accepted for a state if it has the shape of one. -/
theorem checkState_of_tensor (hmeasured : measured.tensor = .ok y) :
    controller.checkState measured =
      if y.shape.map Int.ofNat = [controller.model.stateDim] then .ok y
      else .error (.stateShape y.shape controller.model.stateDim) := by
  rw [checkState, hmeasured, ok_bind]
  split <;> rfl

/-- A search misses its tolerance, if it does not succeed. -/
theorem failsWith_search {P : Fault ℝ → Prop} (hunconverged : ∀ attempt, P (.unconverged attempt))
    (hc : controller.Serves r h ζ T a) (hm : controller.model.Total) {x : Tensor ℝ}
    (hx : x.shape = [controller.model.stateDim.toNat]) {params : InitParams ℝ}
    (hparams : params.Usable controller.model.actionDim)
    (hroom : Krylov.Solver.HasRoom controller.model.actionDim.toNat params.krylovLimit) (t : ℝ) :
    FailsWith P (Newton.solve controller.model t x params
      (.number (.whole controller.divisions))) := by
  obtain ⟨initial, hcheck⟩ := hparams.checked
  obtain ⟨s, hscale⟩ := Newton.exists_copyScale hc.extents
  obtain ⟨τ, hτ, -⟩ := Datum.scalar_of_isPositive (initial.checked hcheck).residualTolerance
  exact Newton.failsWith_solve_of_sized Krylov.Solver.failsWith_coefficients_real (.of_ok hτ)
    hunconverged hm hcheck (fun _ _ => rfl) isZero_of_pos hparams.guess rfl hx
    hscale hroom (.inl hparams.krylovLimit)

/-- What is accepted for a state is a vector of its length. -/
theorem exists_state (hc : controller.Serves r h ζ T a)
    (hcheck : controller.checkState measured = .ok y) : ∃ x : Fin n → ℝ, y = .ofFn x := by
  have hshape := shape_checkState hcheck
  rw [hc.model.stateDim, Int.toNat_natCast] at hshape
  exact Tensor.exists_eq_ofFn hshape

/-- The trajectory is shot from whatever action has been found. -/
theorem exists_shoot (hc : controller.Serves r h ζ T a)
    (hcheck : controller.checkState measured = .ok y) {params : InitParams ℝ} {copies : Datum ℝ}
    {found : Newton.Solution ℝ}
    (hfound : Newton.solve controller.model t y params copies = .ok found) :
    ∃ trajectory, controller.shoot t y found.action = .ok trajectory := by
  obtain ⟨x, rfl⟩ := exists_state hc hcheck
  obtain ⟨u, hu⟩ := exists_action hc hfound
  rw [shoot, step_eq hc rfl (le_refl t), ok_bind, hu, condense_replicate hc]
  exact ⟨_, rfl⟩

/-- Seeding fails where the state has not the right shape, or where the search does not converge,
and nowhere else. -/
theorem failsWith_seed (hc : controller.Serves r h ζ T a) (hm : controller.model.Total)
    {draft : Settings.Draft ℝ} (hsettings : draft.check = .ok controller.settings)
    (hdim : 0 < controller.model.actionDim)
    (hroom : ∀ limit, Krylov.Solver.HasRoom controller.model.actionDim.toNat (limit : Datum ℝ))
    (hs : controller.Exact state) (hmeasured : measured.tensor = .ok y) (t : ℝ) :
    FailsWith (fun fault => fault.kind = .dimension ∨ fault.kind = .convergence)
      ((controller.seed t measured).runOn state).1 := by
  obtain ⟨params, hparams, husable⟩ := exists_chosenParams hsettings hdim hroom hs
  have hsearch : FailsWith (fun fault => fault.kind = .dimension ∨ fault.kind = .convergence)
      (controller.search t measured state) := by
    refine FailsWith.bind ?_ fun x hx => ?_
    · rw [checkState_of_tensor hmeasured]
      exact FailsWith.ite (fun _ => .ok y) fun _ => .error (.inl rfl)
    refine FailsWith.bind (.of_ok hparams) fun params' hparams' => ?_
    obtain rfl := Except.ok.inj (hparams.symm.trans hparams')
    exact FailsWith.bind (failsWith_search (fun _ => .inr rfl) hc hm (shape_checkState hx) husable
      (hroom _) t) fun _ _ => .ok _
  rcases hseed : (controller.seed t measured).runOn state with ⟨fault | answer, state'⟩
  · rcases seed_eq_error hseed with ⟨hfault, -⟩ | ⟨x, found, hfound, hshoot, -⟩
    · exact .error (hsearch fault hfault)
    · obtain ⟨params', hx, -, hfound⟩ := search_eq_ok hfound
      obtain ⟨trajectory, htrajectory⟩ := exists_shoot hc hx hfound
      have hnone := htrajectory.symm.trans hshoot
      cases hnone
  · exact .ok answer

end Calls

end Controller

end RecedingHorizon
