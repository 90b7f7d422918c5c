import RecedingHorizon.Controller.Operation
import RecedingHorizon.Proofs.Endings
import RecedingHorizon.Proofs.SymmetricSystems

/-!
# Runs of a controller under a symmetry

Two controllers for a model that has a symmetry are called in the same order.  What one is told
the other is told as well, with every measured state and the initial guess multiplied by the sign,
and with all times told by the other clock.  Then they are in step: each call is answered by both
or refused by both, with arrays that are multiplied and with scalars that are the same, and what
they carry from one call to the next stays related in the same way.

Before there is a solution to follow, nothing looks at the time from which the horizon grows.  So
it is only from then on that the two starts have to belong to one moment.

* `Controller.Operation.Signed`, `Controller.Reply.Signed`: calls and replies that belong together.
* `Controller.State.Signed`: what the two controllers carry.
* `Controller.seed_symmetric`, `rates_symmetric`, `update_symmetric`, `residualNorm_symmetric`.
* `Controller.perform_symmetric`, `Controller.performAll_symmetric`: any calls.
-/

namespace RecedingHorizon

open Stateful

variable {σ : ℝ} {T : Datum ℝ → Datum ℝ → Prop} {E : Fault ℝ → Fault ℝ → Prop}

/-! ## What is given -/

/-- The second value is read as the multiple of the array as which the first one is read, or is
refused for the same reason. -/
def Datum.Signed (σ : ℝ) (d d' : Datum ℝ) : Prop := d'.tensor = d.tensor.map (Tensor.scale σ)

/-- Arguments by the same names, which differ in the guess only. -/
def Arguments.Signed (σ : ℝ) (given given' : Arguments ℝ) : Prop :=
  List.Forall₂ (fun a a' => a'.1 = a.1 ∧
    if a.1 = InitParams.Draft.guessLabel then a.2.Signed σ a'.2 else a'.2 = a.2) given given'

namespace Arguments.Signed

variable {given given' : Arguments ℝ} (h : given.Signed σ given')

include h

theorem lookup (name : String) :
    Option.Rel (fun d d' => if name = InitParams.Draft.guessLabel then d.Signed σ d' else d' = d)
      (given.lookup name) (given'.lookup name) := by
  induction h with
  | nil => exact .none
  | @cons a a' given given' ha _ ih =>
      obtain ⟨label, d⟩ := a
      obtain ⟨label', d'⟩ := a'
      obtain ⟨rfl, hd⟩ := ha
      rw [List.lookup_cons, List.lookup_cons]
      cases hname : name == label' with
      | false => exact ih
      | true =>
          rw [eq_of_beq hname]
          exact .some hd

theorem checkNames (known : List String) :
    given'.checkNames known = (given.checkNames known : Except (Fault ℝ) Unit) := by
  have hall : (given'.all fun entry => entry.1 ∈ known) =
      given.all fun entry => entry.1 ∈ known := by
    induction h with
    | nil => rfl
    | cons ha _ ih => rw [List.all_cons, List.all_cons, ha.1, ih]
  rw [Arguments.checkNames, hall, Arguments.checkNames]

/-- Under all names but that of the guess there is the same. -/
theorem find_eq {name : String} (hname : name ≠ InitParams.Draft.guessLabel) :
    given'.find name = given.find name := by
  have hlookup := h.lookup name
  rw [Arguments.find, Arguments.find]
  generalize given.lookup name = found at hlookup ⊢
  generalize given'.lookup name = found' at hlookup ⊢
  cases hlookup with
  | none => rfl
  | some hd =>
      rw [if_neg hname] at hd
      rw [hd]

theorem find_guess (hE : ∀ e, E e e) :
    Tally E (Datum.Signed σ) (given.find InitParams.Draft.guessLabel)
      (given'.find InitParams.Draft.guessLabel) := by
  have hlookup := h.lookup InitParams.Draft.guessLabel
  rw [Arguments.find, Arguments.find]
  generalize given.lookup InitParams.Draft.guessLabel = found at hlookup ⊢
  generalize given'.lookup InitParams.Draft.guessLabel = found' at hlookup ⊢
  cases hlookup with
  | none => exact .error (hE _)
  | some hd =>
      rw [if_pos rfl] at hd
      exact .ok hd

end Arguments.Signed

/-- Drafts that differ in the guess only. -/
structure InitParams.Draft.Signed (σ : ℝ) (draft draft' : InitParams.Draft ℝ) : Prop where
  guess : draft.guess.Signed σ draft'.guess
  residualTolerance : draft'.residualTolerance = draft.residualTolerance
  iterationLimit : draft'.iterationLimit = draft.iterationLimit
  differenceStep : draft'.differenceStep = draft.differenceStep
  krylovLimit : draft'.krylovLimit = draft.krylovLimit

theorem InitParams.Draft.ofArguments_symmetric (hE : ∀ e, E e e) {given given' : Arguments ℝ}
    (h : given.Signed σ given') :
    Tally E (Draft.Signed σ) (ofArguments given) (ofArguments given') := by
  have hget (parameter : Parameter) (hlabel : parameter.label ≠ guessLabel) :
      given'.get parameter = given.get parameter := h.find_eq hlabel
  unfold ofArguments
  rw [h.checkNames, hget _ (by decide), hget _ (by decide), hget _ (by decide), hget _ (by decide)]
  refine .same_bind hE _ fun _ _ => ?_
  refine (h.find_guess hE).bind fun guess guess' hguess => ?_
  refine .same_bind hE _ fun tolerance _ => .same_bind hE _ fun limit _ => ?_
  refine .same_bind hE _ fun step _ => .same_bind hE _ fun directions _ => ?_
  exact .ok ⟨hguess, rfl, rfl, rfl, rfl⟩

theorem Datum.asGuess_symmetric (hE : ∀ e, E e e) {d d' : Datum ℝ} (h : d.Signed σ d') :
    Tally E (fun v v' => v' = Vec.scale σ v) d.asGuess d'.asGuess := by
  unfold Datum.asGuess
  refine (Tally.of_map hE h).bind ?_
  rintro guess _ rfl
  obtain ⟨shape, entries, hentries⟩ := guess
  match shape with
  | [] => exact .error (hE _)
  | [_] => exact .ok rfl
  | _ :: _ :: _ => exact .error (hE _)

theorem InitParams.Draft.check_symmetric (hE : ∀ e, E e e) {draft draft' : InitParams.Draft ℝ}
    (h : draft.Signed σ draft') :
    Tally E (fun params params' => params' = params.scale σ) draft.check draft'.check := by
  unfold check
  rw [h.residualTolerance, h.iterationLimit, h.differenceStep, h.krylovLimit]
  refine (Datum.asGuess_symmetric hE h.guess).bind ?_
  rintro guess _ rfl
  refine .same_bind hE _ fun tolerance _ => .same_bind hE _ fun limit _ => ?_
  refine .same_bind hE _ fun step _ => .same_bind hE _ fun directions _ => ?_
  exact .ok rfl

namespace Controller

variable {controller : Controller ℝ}

/-! ## Calls and what is carried -/

/-- Calls that are told the same, with measured states and guess multiplied and times told by the
other clock.  Those that only ask for what is carried are told nothing. -/
inductive Operation.Signed (σ : ℝ) (T : Datum ℝ → Datum ℝ → Prop) :
    Operation ℝ → Operation ℝ → Prop
  | setInitParams {given given' : Arguments ℝ} :
      given.Signed σ given' → Signed σ T (.setInitParams given) (.setInitParams given')
  | seed {t t' measured measured' : Datum ℝ} :
      T t t' → measured.Signed σ measured' → Signed σ T (.seed t measured) (.seed t' measured')
  | update {t t' : Datum ℝ} (period : Datum ℝ) {measured measured' : Datum ℝ} :
      T t t' → measured.Signed σ measured' →
        Signed σ T (.update t period measured) (.update t' period measured')
  | residualNorm {t t' measured measured' : Datum ℝ} :
      T t t' → measured.Signed σ measured' →
        Signed σ T (.residualNorm t measured) (.residualNorm t' measured')
  | control : Signed σ T .control .control
  | actions : Signed σ T .actions .actions
  | trajectory : Signed σ T .trajectory .trajectory
  | direction : Signed σ T .direction .direction
  | outcome : Signed σ T .outcome .outcome

/-- Replies with arrays multiplied.  Norms, counts and verdicts are the same. -/
inductive Reply.Signed (σ : ℝ) : Reply ℝ → Reply ℝ → Prop
  | done : Signed σ .done .done
  | array (a : Tensor ℝ) : Signed σ (.array a) (.array (a.scale σ))
  | updated (control : Tensor ℝ) (outcome : Option (Krylov.Outcome ℝ)) :
      Signed σ (.updated control outcome)
        (.updated (control.scale σ) (outcome.map (Krylov.Outcome.scale σ)))
  | scalar (a : ℝ) : Signed σ (.scalar a) (.scalar a)
  | trajectory (p : Trajectory ℝ) : Signed σ (.trajectory p) (.trajectory (p.scale σ))
  | outcome (outcome : Option (Krylov.Outcome ℝ)) :
      Signed σ (.outcome outcome) (.outcome (outcome.map (Krylov.Outcome.scale σ)))

/-- What two controllers carry of which the second is told the multiplied states, by another clock.
-/
structure State.Signed (controller : Controller ℝ) (σ : ℝ) (T : Datum ℝ → Datum ℝ → Prop)
    (s s' : State ℝ) : Prop where
  /-- The horizons grow from one moment, once there is a solution to follow. -/
  start : s.initialized = true → T s.start s'.start
  actions : s'.actions.get = s.actions.get.scale σ
  direction : s'.direction.get = s.direction.get.scale σ
  trajectory : s'.trajectory.get = s.trajectory.get.scale σ
  initialized : s'.initialized = s.initialized
  outcome : s'.outcome = s.outcome.map (Krylov.Outcome.scale σ)
  params : s'.params = s.params.map (InitParams.scale σ)
  memory : s.memory.Signed σ s'.memory
  rotations : s.workspace.rotations.length = controller.solver.limit
  rotations' : s'.workspace.rotations.length = controller.solver.limit

/-- What two controllers carry whose arrays are multiplied, and whose horizons grow from one moment
in any case. -/
structure State.Following (controller : Controller ℝ) (σ : ℝ) (T : Datum ℝ → Datum ℝ → Prop)
    (s s' : State ℝ) : Prop extends State.Signed controller σ T s s' where
  moment : T s.start s'.start

/-- New controllers carry nothing, which is its own multiple. -/
theorem signed_blank (controller : Controller ℝ) (σ : ℝ) (T : Datum ℝ → Datum ℝ → Prop) :
    State.Signed controller σ T controller.blank controller.blank where
  start h := by cases h
  actions := (Tensor.zeros_map (mul_zero σ) _).symm
  direction := (Tensor.zeros_map (mul_zero σ) _).symm
  trajectory := congrArg₂ Trajectory.mk (Tensor.zeros_map (mul_zero σ) _).symm
    (Tensor.zeros_map (mul_zero σ) _).symm
  initialized := rfl
  outcome := rfl
  params := rfl
  memory := ⟨rfl, rfl, rfl, rfl⟩
  rotations := List.length_replicate
  rotations' := List.length_replicate

variable (hs : Symmetry σ T E) {t t' : Datum ℝ}

include hs

/-- Past the check for a solution the horizons grow from one moment. -/
theorem requireInitialized_abreast {γ γ' : Type} {Q : γ → γ' → Prop}
    {next : Unit → Stateful (State ℝ) ℝ γ} {next' : Unit → Stateful (State ℝ) ℝ γ'}
    (hnext : Abreast (State.Following controller σ T) E Q (next ⟨⟩) (next' ⟨⟩)) :
    Abreast (State.Signed controller σ T) E Q (requireInitialized >>= next)
      (requireInitialized >>= next') := by
  intro s s' hstate
  rw [runOn_bind, runOn_bind, runOn_requireInitialized, runOn_requireInitialized,
    hstate.initialized]
  cases hstarted : s.initialized with
  | false => exact ⟨.error (hs.fault _), hstate⟩
  | true =>
      obtain ⟨hanswer, hleft⟩ := hnext s s' { hstate with moment := hstate.start hstarted }
      exact ⟨hanswer, hleft.toSigned⟩

theorem checkState_symmetric {measured measured' : Datum ℝ} (h : measured.Signed σ measured') :
    Tally E (Tensor.Signed σ) (controller.checkState measured)
      (controller.checkState measured') := by
  unfold checkState
  refine (Tally.of_map hs.fault h).bind ?_
  rintro x _ rfl
  have hshape : (x.scale σ).shape = x.shape := rfl
  rw [hshape]
  split
  · exact .ok rfl
  · exact .error (hs.fault _)

theorem firstControl_symmetric (u : Tensor ℝ) :
    Tally E (Tensor.Signed σ) (controller.firstControl u)
      (controller.firstControl (u.scale σ)) := by
  unfold firstControl
  split
  · exact .ok (Tensor.ext_of_entries rfl rfl)
  · refine (Tally.of_map hs.fault (Tensor.item_map _ u 0)).bind ?_
    rintro first _ rfl
    exact hs.control controller.model first

theorem advanced_symmetric (period : Datum ℝ) (a rate : Tensor ℝ) :
    Tally E (Tensor.Signed σ) (advanced period a rate)
      (advanced period (a.scale σ) (rate.scale σ)) := by
  refine (hs.scaleBy period rate).bind ?_
  rintro step _ rfl
  exact hs.increase a step

/-! ## The initial solution -/

theorem setInitParams_symmetric {draft draft' : InitParams.Draft ℝ} (h : draft.Signed σ draft') :
    Abreast (State.Signed controller σ T) E Eq (controller.setInitParams draft)
      (controller.setInitParams draft') := by
  refine .liftM_bind (InitParams.Draft.check_symmetric hs.fault h) ?_
  rintro params _ rfl
  have hlength : (params.scale σ).guess.length = params.guess.length := Vec.length_scale _ _
  dsimp only
  rw [hlength]
  split
  · exact .bind (Q := fun _ _ => False) (.throw (hs.fault _)) fun _ _ h => h.elim
  · exact .modify fun s s' hstate => { hstate with params := rfl }

/-- The parameters that are used without others start from zero. -/
theorem defaultInitParams_symmetric :
    Tally E (InitParams.Draft.Signed σ) controller.defaultInitParams
      controller.defaultInitParams := by
  refine .same_bind hs.fault _ fun guess hguess => .ok ⟨?_, rfl, rfl, rfl, rfl⟩
  obtain ⟨_, -, hguess⟩ := bind_eq_ok_iff.1 hguess
  cases hguess
  have hzeros :
      (Datum.ofTensor (Tensor.zeros [controller.model.actionDim.toNat] : Tensor ℝ)).tensor =
        .ok (.zeros [controller.model.actionDim.toNat]) := by
    rw [Tensor.zeros_eq_ofFn]
    exact Datum.tensor_ofTensor_ofFn _
  rw [Datum.Signed, List.map_singleton, hzeros]
  exact congrArg Except.ok (Tensor.zeros_map (mul_zero σ) _).symm

/-- Seeding: the searches belong together, and so do the trajectories that are shot from them. -/
theorem seed_symmetric (hm : controller.model.Symmetric σ T E) (ht : T t t')
    {measured measured' : Datum ℝ} (hmeasured : measured.Signed σ measured') :
    Abreast (State.Signed controller σ T) E (Tensor.Signed σ) (controller.seed t measured)
      (controller.seed t' measured') := by
  refine .liftM_bind (checkState_symmetric hs hmeasured) ?_
  rintro x _ rfl
  refine .get_bind fun s s' hstate => ?_
  rw [hstate.params]
  extract_lets rest rest'
  have hrest (params : InitParams ℝ) : Abreast (State.Signed controller σ T) E (Tensor.Signed σ)
      (rest params) (rest' (params.scale σ)) := by
    refine .liftM_bind (Newton.solve_symmetric hs hm ht x params _) fun initial initial' h => ?_
    have haction : initial'.action = initial.action.scale σ := congrArg Newton.Solution.action h
    have hactions : (initial.action.scale σ).replicate controller.divisions =
        (initial.action.replicate controller.divisions).scale σ := Tensor.replicate_map _ _ _
    dsimp only
    rw [haction, hactions]
    -- from here on both horizons grow from the time of this call
    refine .modify_bind_of (State.Following controller σ T) (fun s s' hstate => ?_)
      (fun _ _ hstate => hstate.toSigned) ?_
    · exact { hstate with
        start := fun _ => ht
        actions := rfl
        direction := (Tensor.zeros_map (mul_zero σ) _).symm
        moment := ht }
    refine .liftM_bind (hs.step ht ht _ _ _) ?_
    rintro δ _ rfl
    refine .liftM_bind (hm.condense hs ht x (initial.action.replicate controller.divisions)
      (.number (.real δ)) none) ?_
    rintro trajectory _ rfl
    refine .modify_bind (fun s s' hstate => ?_)
      (.liftM (hs.control controller.model initial.action))
    exact { hstate with
      start := fun _ => hstate.moment
      trajectory := rfl
      initialized := rfl }
  cases s.params with
  | some params =>
      refine .bind (Q := fun params params' => params' = params.scale σ) (.pure rfl) ?_
      rintro params _ rfl
      exact hrest params
  | none =>
      refine .liftM_bind (defaultInitParams_symmetric hs) fun draft draft' hdraft => ?_
      refine .liftM_bind (InitParams.Draft.check_symmetric hs.fault hdraft) ?_
      rintro params _ rfl
      exact hrest params

/-! ## Following the solution -/

/-- The solves of a step belong together, and the rates of change are multiplied. -/
theorem rates_symmetric (hm : controller.model.Symmetric σ T E) (ht : T t t') (x : Tensor ℝ) :
    Abreast (State.Following controller σ T) E (fun p p' => p' = (p.1.scale σ, p.2.scale σ))
      (controller.rates t x) (controller.rates t' (x.scale σ)) := by
  refine .get_bind fun s s' hstate => ?_
  dsimp only
  have hflat (a : Tensor ℝ) : (a.scale σ).flat = a.flat.scale σ := Tensor.flat_map _ a
  have hrestarted : controller.continuation s'.start =
      (controller.continuation s.start).restarted s'.start := rfl
  rw [hstate.actions, hstate.direction, hstate.trajectory, hrestarted, hflat, hflat]
  have hsystem : (controller.continuation s.start).problem.model.Symmetric σ T E := hm
  -- the point is set
  have hprepare := Continuation.prepare_symmetric hs hsystem s'.start ht x s.actions.get
    s.trajectory.get s.memory s'.memory hstate.memory
  have htimed := Continuation.prepare_timed hs hsystem s'.start ht (x := x) (u := s.actions.get)
    (p := s.trajectory.get) hstate.memory
  generalize Stateful.runOn ((controller.continuation s.start).prepare t x s.actions.get
    s.trajectory.get) s.memory = run at hprepare htimed ⊢
  generalize Stateful.runOn (((controller.continuation s.start).restarted s'.start).prepare t'
    (x.scale σ) (s.actions.get.scale σ) (s.trajectory.get.scale σ)) s'.memory = run'
    at hprepare htimed ⊢
  obtain ⟨prepared, memory⟩ := run
  obtain ⟨prepared', memory'⟩ := run'
  obtain ⟨hprepared, hmemory⟩ := hprepare
  refine .modify_bind (fun s₁ s₁' hstate₁ => { hstate₁ with memory := hmemory }) ?_
  cases hprepared with
  | error h => exact .liftM_bind (Q := fun _ _ => False) (.error h) fun _ _ h => h.elim
  | ok _ =>
      refine .liftM_bind (Q := fun _ _ => True) (.ok trivial) fun _ _ _ => ?_
      -- the system is solved
      obtain ⟨hsolve, htimed, hrotations, hrotations'⟩ := Krylov.Solver.solve_signed hs
        controller.solver
        ((controller.continuation s.start).linearized t x s.actions.get.flat)
        (((controller.continuation s.start).restarted s'.start).linearized t' (x.scale σ)
          (s.actions.get.flat.scale σ)) (some s.direction.get.flat)
        (Continuation.residual_symmetric hs hsystem hstate.moment ht x s.actions.get.flat)
        (Continuation.image_symmetric hs hsystem hstate.moment s.actions.get.flat)
        hstate.rotations hstate.rotations' (htimed rfl)
      dsimp only [Option.map_some] at hsolve htimed hrotations' ⊢
      generalize (controller.solver.solve ((controller.continuation s.start).linearized t x
        s.actions.get.flat) (some s.direction.get.flat) s.workspace).run memory = run
        at hsolve htimed hrotations ⊢
      generalize (controller.solver.solve (((controller.continuation s.start).restarted
        s'.start).linearized t' (x.scale σ) (s.actions.get.flat.scale σ))
        (some (s.direction.get.flat.scale σ)) s'.workspace).run memory' = run'
        at hsolve htimed hrotations' ⊢
      obtain ⟨⟨outcome, workspace⟩, memory₁⟩ := run
      obtain ⟨⟨outcome', workspace'⟩, memory₁'⟩ := run'
      dsimp only at hsolve htimed hrotations hrotations' ⊢
      refine .modify_bind (fun s₁ s₁' hstate₁ => ?_) ?_
      · exact { hstate₁ with
          memory := htimed.toSigned
          rotations := hrotations
          rotations' := hrotations' }
      refine .liftM_bind hsolve ?_
      rintro outcome _ rfl
      refine .modify_bind (fun s₁ s₁' hstate₁ => { hstate₁ with outcome := rfl }) ?_
      refine .liftM_bind (Continuation.unflatten_symmetric hs (controller.continuation s.start)
        s'.start outcome.solution) ?_
      rintro direction _ rfl
      refine .modify_bind (fun s₁ s₁' hstate₁ => { hstate₁ with direction := rfl }) ?_
      have hrate := (Continuation.trajectoryRate_symmetric hs hsystem hstate.moment s.actions.get
        direction memory₁ memory₁' htimed).1
      refine .liftM_bind hrate ?_
      rintro rate _ rfl
      exact .pure rfl

/-- A step: all that is carried moves by a multiple. -/
theorem update_symmetric (hm : controller.model.Symmetric σ T E) (ht : T t t') (period : Datum ℝ)
    {measured measured' : Datum ℝ} (hmeasured : measured.Signed σ measured') :
    Abreast (State.Signed controller σ T) E (Tensor.Signed σ)
      (controller.update t period measured) (controller.update t' period measured') := by
  refine requireInitialized_abreast hs ?_
  refine .liftM_bind (.refl hs.fault period.isPositive) ?_
  rintro positive _ rfl
  cases positive with
  | false =>
      exact .bind (Q := fun _ _ => False) (.throw (hs.fault _)) fun _ _ h => h.elim
  | true =>
      refine .liftM_bind (checkState_symmetric hs hmeasured) ?_
      rintro x _ rfl
      refine (rates_symmetric hs hm ht x).bind ?_
      rintro ⟨direction, rate⟩ _ rfl
      refine .get_bind fun s s' hstate => ?_
      rw [hstate.actions]
      refine .liftM_bind (advanced_symmetric hs period s.actions.get direction) ?_
      rintro actions _ rfl
      refine .modify_bind (fun s₁ s₁' hstate₁ => { hstate₁ with actions := rfl }) ?_
      refine .get_bind fun s s' hstate => ?_
      rw [hstate.trajectory]
      refine .liftM_bind (advanced_symmetric hs period s.trajectory.get.states rate.states) ?_
      rintro states _ rfl
      refine .modify_bind (fun s₁ s₁' hstate₁ => { hstate₁ with trajectory := rfl }) ?_
      refine .liftM_bind (advanced_symmetric hs period s.trajectory.get.costates rate.costates) ?_
      rintro costates _ rfl
      refine .modify_bind (fun s₁ s₁' hstate₁ => { hstate₁ with trajectory := rfl }) ?_
      exact .liftM (firstControl_symmetric hs actions)

/-- The norm of the residual does not see the sign. -/
theorem residualNorm_symmetric (hm : controller.model.Symmetric σ T E) (ht : T t t')
    {measured measured' : Datum ℝ} (hmeasured : measured.Signed σ measured') :
    Abreast (State.Signed controller σ T) E Eq (controller.residualNorm t measured)
      (controller.residualNorm t' measured') := by
  refine requireInitialized_abreast hs ?_
  refine .liftM_bind (checkState_symmetric hs hmeasured) ?_
  rintro x _ rfl
  refine .get_bind fun s s' hstate => ?_
  have hrestarted : controller.problem s'.start =
      (controller.problem s.start).restarted s'.start := rfl
  dsimp only
  rw [hstate.actions, hstate.trajectory, hrestarted]
  have hproblem : (controller.problem s.start).model.Symmetric σ T E := hm
  refine .liftM_bind (Problem.residual_symmetric hs hproblem hstate.moment ht x s.actions.get
    s.trajectory.get) ?_
  rintro residual _ rfl
  exact .pure (residual.norm_scale hs.sign).symm

/-! ## Any calls -/

/-- Calls that belong together are answered by what belongs together, or refused alike. -/
theorem perform_symmetric (hm : controller.model.Symmetric σ T E)
    {operation operation' : Operation ℝ} (h : operation.Signed σ T operation') :
    Abreast (State.Signed controller σ T) E (Reply.Signed σ) (controller.perform operation)
      (controller.perform operation') := by
  cases h with
  | setInitParams hgiven =>
      refine .liftM_bind (InitParams.Draft.ofArguments_symmetric hs.fault hgiven) ?_
      intro draft draft' hdraft
      exact (setInitParams_symmetric hs hdraft).bind fun _ _ _ => .pure .done
  | seed ht hmeasured =>
      refine (seed_symmetric hs hm ht hmeasured).map ?_
      rintro control _ rfl
      exact .array control
  | update period ht hmeasured =>
      refine (update_symmetric hs hm ht period hmeasured).bind ?_
      rintro control _ rfl
      refine .get_bind fun s s' hstate => .pure ?_
      rw [hstate.outcome]
      exact .updated control s.outcome
  | residualNorm ht hmeasured =>
      refine (residualNorm_symmetric hs hm ht hmeasured).map ?_
      rintro norm _ rfl
      exact .scalar norm
  | control =>
      refine .get_bind fun s s' hstate => ?_
      rw [hstate.actions]
      refine .liftM_bind (firstControl_symmetric hs s.actions.get) ?_
      rintro control _ rfl
      exact .pure (.array control)
  | actions =>
      refine .get_bind fun s s' hstate => .pure ?_
      rw [hstate.actions]
      exact .array s.actions.get
  | trajectory =>
      refine .get_bind fun s s' hstate => .pure ?_
      rw [hstate.trajectory]
      exact .trajectory s.trajectory.get
  | direction =>
      refine .get_bind fun s s' hstate => .pure ?_
      rw [hstate.direction]
      exact .array s.direction.get
  | outcome =>
      refine .get_bind fun s s' hstate => .pure ?_
      rw [hstate.outcome]
      exact .outcome s.outcome

/-- Any sequences of calls that belong together are answered by what belongs together, call by call,
or refused alike. -/
theorem performAll_symmetric (hm : controller.model.Symmetric σ T E)
    {operations operations' : List (Operation ℝ)}
    (h : List.Forall₂ (Operation.Signed σ T) operations operations') {s s' : State ℝ}
    (hstate : State.Signed controller σ T s s') :
    List.Forall₂ (Tally E (Reply.Signed σ)) (controller.performAll operations s).1
        (controller.performAll operations' s').1 ∧
      State.Signed controller σ T (controller.performAll operations s).2
        (controller.performAll operations' s').2 := by
  induction h generalizing s s' with
  | nil => exact ⟨.nil, hstate⟩
  | cons hoperation _ ih =>
      obtain ⟨hreply, hleft⟩ := perform_symmetric hs hm hoperation s s' hstate
      obtain ⟨hreplies, hend⟩ := ih hleft
      exact ⟨.cons hreply hreplies, hend⟩

end Controller

end RecedingHorizon
