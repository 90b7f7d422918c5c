import RecedingHorizon.Proofs.Calls
import RecedingHorizon.Proofs.Endings
import RecedingHorizon.Proofs.Controller

/-!
# Seeding erases the past

A controller may be seeded at any time, whatever it has been asked before and however that
has ended.  It then goes on as a new controller with the same parameters of the initial
solve would, seeded in the same way.  The search looks at nothing else that is carried, and
what it finds is planted over the old sequence, the old direction, the old trajectory and
the old start of the horizon.  Three things are not written over.  The workspace of the
solver and the memory of the linear system are left as they are, but no solve reads in them
what it has not written.  And the outcome of the latest solve stays, until there is a new
one; no call but the one that asks for it looks at it.  So the two controllers can be told
apart by nothing else, and not even by that once a step has been taken.

* `Controller.Steady`: what a step leaves alone.
* `Controller.renewed`: a new controller, with the parameters that have been set;
  `IsSetUp`, `isSetUp_performAll`: it was asked for nothing else.
* `runOn_seed_renewed`: the seeding itself.
* `Controller.Apart`: states that are the same but for the outcome; `perform_apart` for one
  call on them.
* `performAll_reseeded`: any calls after a seeding.
-/

namespace RecedingHorizon

variable {α : Type} [Scalar α]

namespace Controller

open Stateful

variable {controller : Controller α}

/-! ## The parameters that have been set -/

/-- The state of a new controller, with the parameters that have been set. -/
def renewed (controller : Controller α) (state : State α) : State α :=
  { controller.blank with params := state.params }

theorem preserves_params_seed {p : Option (InitParams α)} (t measured : Datum α) :
    Preserves (fun s => s.params = p) (controller.seed t measured) :=
  preserves_seed_of (fun _ _ hs => hs) (fun _ _ hs => hs) measured

/-- A property of states that looks at nothing that a step writes: at the start of the horizon, at
whether there is a solution, and at the parameters only. -/
def Steady (I : State α → Prop) : Prop :=
  ∀ s s' : State α, s'.start = s.start → s'.initialized = s.initialized →
    s'.params = s.params → I s → I s'

omit [Scalar α] in
theorem steady_params (p : Option (InitParams α)) : Steady fun s : State α => s.params = p :=
  fun _ _ _ _ hparams hs => hparams.trans hs

namespace Steady

variable {I : State α → Prop}

theorem rates (hI : Steady I) (t : Datum α) (x : Tensor α) :
    Preserves I (controller.rates t x) := by
  refine Preserves.get_bind fun s _ => ?_
  extract_lets actions system
  split
  refine Preserves.bind (Preserves.modify fun s h => hI s _ rfl rfl rfl h) fun _ => ?_
  refine Preserves.bind (Preserves.liftM _) fun _ => ?_
  split
  refine Preserves.bind (Preserves.modify fun s h => hI s _ rfl rfl rfl h) fun _ => ?_
  refine Preserves.bind (Preserves.liftM _) fun _ => ?_
  refine Preserves.bind (Preserves.modify fun s h => hI s _ rfl rfl rfl h) fun _ => ?_
  refine Preserves.bind (Preserves.liftM _) fun _ => ?_
  refine Preserves.bind (Preserves.modify fun s h => hI s _ rfl rfl rfl h) fun _ => ?_
  split
  exact Preserves.bind (Preserves.liftM _) fun _ => Preserves.pure _

theorem follow (hI : Steady I) (period : Datum α) (rates : Tensor α × Trajectory α) :
    Preserves I (controller.follow period rates) :=
  preserves_follow (fun s _ _ h => hI s _ rfl rfl rfl h) period rates

theorem update (hI : Steady I) (t period measured : Datum α) :
    Preserves I (controller.update t period measured) := by
  intro s hs
  rw [runOn_update]
  split
  · exact hs
  · exact Preserves.bind (hI.rates t _) (hI.follow period) s hs

end Steady

/-- Setting the parameters fails and changes nothing, or sets them and changes nothing else.  What
is set has passed its checks, and its guess has the length of an action. -/
theorem runOn_setInitParams (controller : Controller α) (given : Arguments α) :
    (∃ fault, ∀ state, (controller.perform (.setInitParams given)).runOn state =
        (.error fault, state)) ∨
      ∃ params, (∀ state, (controller.perform (.setInitParams given)).runOn state =
          (.ok .done, { state with params := some params })) ∧
        (∃ draft, InitParams.Draft.ofArguments given = .ok draft ∧ draft.check = .ok params) ∧
        (params.guess.length : ℤ) = controller.model.actionDim := by
  rcases hdraft : InitParams.Draft.ofArguments given with fault | draft
  · exact .inl ⟨fault, fun state => by rw [perform, hdraft]; rfl⟩
  · rcases hcheck : draft.check with fault | params
    · exact .inl ⟨fault, fun state => by
        rw [perform, hdraft, runOn_ok_bind, setInitParams, hcheck]; rfl⟩
    · by_cases hdim : (params.guess.length : ℤ) ≠ controller.model.actionDim
      · exact .inl ⟨.guessShape [params.guess.length] controller.model.actionDim, fun state => by
          rw [perform, hdraft, runOn_ok_bind, setInitParams, hcheck, runOn_bind, runOn_ok_bind,
            if_pos hdim]; rfl⟩
      · exact .inr ⟨params, fun _ => perform_setInitParams hdraft hcheck (not_not.1 hdim),
          ⟨draft, rfl, hcheck⟩, not_not.1 hdim⟩

/-- Setting the parameters preserves a property that does not look at them. -/
theorem preserves_perform_setInitParams {I : State α → Prop}
    (h : ∀ s params, I s → I { s with params := some params }) (given : Arguments α) :
    Preserves I (controller.perform (.setInitParams given)) := by
  intro s hs
  rcases controller.runOn_setInitParams given with ⟨fault, hrun⟩ | ⟨params, hrun, -⟩
  · rw [hrun]
    exact hs
  · rw [hrun]
    exact h s params hs

/-- No call but that which sets the parameters changes them. -/
theorem preserves_params_perform {p : Option (InitParams α)} {operation : Operation α}
    (h : ∀ given, operation ≠ .setInitParams given) :
    Preserves (fun s => s.params = p) (controller.perform operation) :=
  preserves_perform_of (fun given hgiven => absurd hgiven (h given))
    (fun t measured _ => preserves_params_seed t measured) (steady_params p).update

/-- A state is set up if a new controller gets its parameters by being asked to set them, and
nothing else. -/
def IsSetUp (controller : Controller α) (state : State α) : Prop :=
  ∃ setup, (∀ operation ∈ setup, ∃ given, operation = .setInitParams given) ∧
    (controller.performAll setup controller.blank).2 = controller.renewed state

theorem isSetUp_perform (operation : Operation α) {state : State α}
    (h : controller.IsSetUp state) :
    controller.IsSetUp ((controller.perform operation).runOn state).2 := by
  obtain ⟨setup, hsetup, hrenewed⟩ := h
  by_cases hset : ∃ given, operation = .setInitParams given
  · obtain ⟨given, rfl⟩ := hset
    rcases controller.runOn_setInitParams given with ⟨fault, hrun⟩ | ⟨params, hrun, -⟩
    · rw [hrun]
      exact ⟨setup, hsetup, hrenewed⟩
    · -- all that counts is the latest of them
      refine ⟨[.setInitParams given], by simp, ?_⟩
      simp only [performAll, hrun]
      rfl
  · have hparams : ((controller.perform operation).runOn state).2.params = state.params :=
      preserves_params_perform (fun given h => hset ⟨given, h⟩) state rfl
    exact ⟨setup, hsetup, by rw [hrenewed, renewed, renewed, hparams]⟩

theorem isSetUp_performAll (operations : List (Operation α)) {state : State α}
    (h : controller.IsSetUp state) :
    controller.IsSetUp (controller.performAll operations state).2 := by
  induction operations generalizing state with
  | nil => exact h
  | cons operation operations ih => exact ih (isSetUp_perform operation h)

/-! ## The seeding -/

/-- The state with another outcome of the latest solve. -/
def State.withOutcome (state : State α) (outcome : Option (Krylov.Outcome α)) : State α :=
  { state with outcome }

/-- The second state is the first with outcome `o'` in the place of `o`. -/
structure Apart (o o' : Option (Krylov.Outcome α)) (state state' : State α) : Prop where
  outcome : state.outcome = o
  replaced : state' = state.withOutcome o'

/-- Seeding answers what it would on a new controller with the same parameters.  If it answers,
what it leaves is the same, but for the outcome and for what the solver works in. -/
theorem runOn_seed_renewed {state : State α} (hs : controller.Fits state) (t measured : Datum α) :
    ((controller.seed t measured).runOn state).1 =
        ((controller.seed t measured).runOn (controller.renewed state)).1 ∧
      ∀ answer, ((controller.seed t measured).runOn state).1 = .ok answer → ∃ seeded,
        Related Eq (fun w w' => w.rotations.length = w'.rotations.length)
          ((controller.seed t measured).runOn state).2 seeded ∧
        Apart state.outcome none seeded
          ((controller.seed t measured).runOn (controller.renewed state)).2 := by
  have hsearch : controller.search t measured (controller.renewed state) =
      controller.search t measured state := rfl
  rw [runOn_seed, runOn_seed, hsearch]
  rcases controller.search t measured state with fault | ⟨x, found⟩
  · exact ⟨rfl, fun _ h => by cases h⟩
  · dsimp only
    rcases controller.shoot t x found.action with fault | trajectory
    · exact ⟨rfl, fun _ h => by cases h⟩
    · refine ⟨rfl, fun _ _ => ⟨State.withOutcome
        { controller.planted (controller.renewed state) t found.action with
          trajectory := .pure trajectory
          initialized := true } state.outcome, ?_, rfl, rfl⟩⟩
      exact {
        start := rfl
        actions := rfl
        direction := rfl
        trajectory := ⟨rfl, rfl⟩
        initialized := rfl
        outcome := rfl
        params := rfl
        workspace := hs.rotations.trans controller.fits_blank.rotations.symm }

/-! ## The outcome is not looked at -/

variable {o o' : Option (Krylov.Outcome α)} {β γ : Type}

/-- A computation that takes a step before anything else: on states that are the same but for the
outcome, it fails in the same way and leaves such states, or it goes on from one state. -/
def Renews (controller : Controller α) (action : Stateful (State α) α β) : Prop :=
  ∀ state (o' : Option (Krylov.Outcome α)), controller.Fits state →
    action.runOn (state.withOutcome o') = action.runOn state ∨
      ∃ fault state', state'.outcome = state.outcome ∧
        action.runOn state = (.error fault, state') ∧
        action.runOn (state.withOutcome o') = (.error fault, state'.withOutcome o')

omit [Scalar α] in
/-- Whatever comes after the step does so on one state. -/
theorem Renews.bind {action : Stateful (State α) α β} (h : controller.Renews action)
    (next : β → Stateful (State α) α γ) : controller.Renews (action >>= next) := by
  intro state o' hs
  rw [runOn_bind, runOn_bind]
  rcases h state o' hs with hsame | ⟨fault, state', houtcome, hrun, hrun'⟩
  · exact .inl (by rw [hsame])
  · rw [hrun, hrun']
    exact .inr ⟨fault, state', houtcome, rfl, rfl⟩

/-- A step asks for the outcome nowhere, and has a new one once the linear system is solved. -/
theorem renews_update (hc : controller.Regular) (t period measured : Datum α) :
    controller.Renews (controller.update t period measured) := by
  intro state o' hs
  have hadmitted : controller.admitted period measured (state.withOutcome o') =
      controller.admitted period measured state := rfl
  rw [runOn_update, runOn_update, hadmitted]
  rcases controller.admitted period measured state with fault | x
  · exact .inr ⟨fault, state, rfl, rfl, rfl⟩
  · dsimp only
    have hsame : controller.solved t x (state.withOutcome o') = controller.solved t x state := rfl
    rw [runOn_bind, runOn_bind]
    rcases hsolved : controller.solved t x state with ⟨⟨fault | outcome, w⟩, memory⟩
    · rw [runOn_rates_of_error hsolved, runOn_rates_of_error (hsame.trans hsolved)]
      exact .inr ⟨fault, worked state w memory, rfl, rfl, rfl⟩
    · obtain ⟨direction, hdirection, -⟩ := exists_direction hc hs hsolved
      left
      rw [runOn_rates_of_ok hsolved hdirection,
        runOn_rates_of_ok (hsame.trans hsolved) hdirection]
      rfl

omit [Scalar α] in
theorem Renews.liftM_bind {r : Except (Fault α) β} {next : β → Stateful (State α) α γ}
    (h : ∀ b, controller.Renews (next b)) :
    controller.Renews ((MonadLiftT.monadLift r : Stateful (State α) α β) >>= next) := by
  intro state o' hs
  cases r with
  | error fault => exact .inr ⟨fault, state, rfl, rfl, rfl⟩
  | ok b => exact h b state o' hs

theorem renews_simulate (hc : controller.Regular) (period : Datum α) (cycles : ℕ)
    (run : Simulation α) : controller.Renews (controller.simulate period (cycles + 1) run) :=
  ((renews_update hc _ _ _).bind _).bind _

theorem seed_apart (t measured : Datum α) :
    Parallel (Apart o o') Eq (controller.seed t measured) (controller.seed t measured) := by
  rintro s _ ⟨rfl, rfl⟩
  have hsearch : controller.search t measured (s.withOutcome o') =
      controller.search t measured s := rfl
  rw [runOn_seed, runOn_seed, hsearch]
  split
  · exact ⟨.refl _, rfl, rfl⟩
  · split
    · exact ⟨.refl _, rfl, rfl⟩
    · exact ⟨.refl _, rfl, rfl⟩

theorem residualNorm_apart (t measured : Datum α) :
    Parallel (Apart o o') Eq (controller.residualNorm t measured)
      (controller.residualNorm t measured) := by
  refine Parallel.bind (Q := Eq) ?_ fun _ _ _ => ?_
  · rintro s _ ⟨rfl, rfl⟩
    rw [runOn_requireInitialized, runOn_requireInitialized]
    exact ⟨.refl _, rfl, rfl⟩
  · refine Parallel.liftM_bind fun x _ => Parallel.get_bind ?_
    rintro s _ ⟨rfl, rfl⟩
    exact Parallel.liftM_bind fun _ _ => Parallel.pure rfl

/-- How a call ends on two states that are the same but for the outcome: it answers the same and
fails in the same way, and leaves two states that are the same but for the outcome, or one state;
and one state if it is a step that is answered. -/
structure Alongside (controller : Controller α) (o o' : Option (Krylov.Outcome α))
    (operation : Operation α) (s s' : State α) : Prop where
  reply : ((controller.perform operation).runOn s).1 = ((controller.perform operation).runOn s').1
  state : ((controller.perform operation).runOn s).2 =
      ((controller.perform operation).runOn s').2 ∨
    Apart o o' ((controller.perform operation).runOn s).2
        ((controller.perform operation).runOn s').2 ∧
      ∀ t period measured, operation = .update t period measured →
        ∃ fault, ((controller.perform operation).runOn s).1 = .error fault

/-- Every call that does not ask for the outcome ends alike on two states that are the same but for
the outcome. -/
theorem perform_apart (hc : controller.Regular) {operation : Operation α}
    (hoperation : operation ≠ .outcome) {s s' : State α} (hs : controller.Fits s)
    (h : Apart o o' s s') : controller.Alongside o o' operation s s' := by
  have hrenewed (hrenews : controller.Renews (controller.perform operation)) :
      controller.Alongside o o' operation s s' := by
    obtain ⟨rfl, rfl⟩ := h
    rcases hrenews s o' hs with hsame | ⟨fault, state', houtcome, hrun, hrun'⟩
    · exact ⟨by rw [hsame], .inl (by rw [hsame])⟩
    · refine ⟨by rw [hrun, hrun'], .inr ⟨?_, fun _ _ _ _ => ⟨fault, by rw [hrun]⟩⟩⟩
      rw [hrun, hrun']
      exact ⟨houtcome, rfl⟩
  have hkept (hparallel : Parallel (Apart o o') Eq (controller.perform operation)
      (controller.perform operation))
      (hne : ∀ t period measured, operation ≠ .update t period measured) :
      controller.Alongside o o' operation s s' := by
    obtain ⟨hreply, hapart⟩ := hparallel s s' h
    exact ⟨hreply.eq, .inr ⟨hapart, fun t period measured h => absurd h (hne t period measured)⟩⟩
  cases operation with
  | outcome => exact absurd rfl hoperation
  | setInitParams given =>
      refine hkept ?_ (by simp)
      rintro s _ ⟨rfl, rfl⟩
      rcases controller.runOn_setInitParams given with ⟨fault, hset⟩ | ⟨params, hset, -⟩
      · rw [hset, hset]
        exact ⟨.refl _, rfl, rfl⟩
      · rw [hset, hset]
        exact ⟨.refl _, rfl, rfl⟩
  | seed t measured =>
      exact hkept (Parallel.map (seed_apart t measured) fun _ _ => congrArg Reply.array) (by simp)
  | update t period measured => exact hrenewed ((renews_update hc t period measured).bind _)
  | residualNorm t measured =>
      exact hkept (Parallel.map (residualNorm_apart t measured) fun _ _ => congrArg Reply.scalar)
        (by simp)
  | control =>
      refine hkept (Parallel.get_bind ?_) (by simp)
      rintro s _ ⟨rfl, rfl⟩
      exact Parallel.liftM_bind fun _ _ => Parallel.pure rfl
  | actions | trajectory | direction =>
      refine hkept (Parallel.get_bind ?_) (by simp)
      rintro s _ ⟨rfl, rfl⟩
      exact Parallel.pure rfl
  | horizon t =>
      refine hkept (Parallel.get_bind ?_) (by simp)
      rintro s _ ⟨rfl, rfl⟩
      exact Parallel.liftM_bind fun _ _ => Parallel.liftM_bind fun _ _ => Parallel.pure rfl
  | simulate t period measured cycles =>
      cases cycles with
      | zero =>
          refine hkept ?_ (by simp)
          refine Parallel.liftM_bind fun x _ => Parallel.bind (Parallel.pure rfl) ?_
          rintro run _ rfl
          exact Parallel.bind (residualNorm_apart _ _) fun _ _ h => Parallel.pure (h ▸ rfl)
      | succ cycles =>
          exact hrenewed (Renews.liftM_bind fun _ => (renews_simulate hc period cycles _).bind _)

/-! ## Calls after a seeding -/

/-- What is answered to the call at `i` is the same, or it is the outcome of the latest solve and
there has been none: every step before has failed. -/
def SameButOutcome (o o' : Option (Krylov.Outcome α)) (operations : List (Operation α))
    (replies replies' : List (Except (Fault α) (Reply α))) (i : ℕ) : Prop :=
  replies[i]? = replies'[i]? ∨
    operations[i]? = some .outcome ∧ replies[i]? = some (.ok (.outcome o)) ∧
      replies'[i]? = some (.ok (.outcome o')) ∧
      ∀ j < i, ∀ t period measured, operations[j]? = some (.update t period measured) →
        ∃ fault, replies[j]? = some (.error fault)

omit [Scalar α] in
/-- A call before, which is not a step that is answered, changes nothing of it. -/
theorem SameButOutcome.cons {operations : List (Operation α)}
    {replies replies' : List (Except (Fault α) (Reply α))} {i : ℕ}
    (h : SameButOutcome o o' operations replies replies' i) {operation : Operation α}
    {reply reply' : Except (Fault α) (Reply α)}
    (hfailed : ∀ t period measured, operation = .update t period measured →
      ∃ fault, reply = .error fault) :
    SameButOutcome o o' (operation :: operations) (reply :: replies) (reply' :: replies')
      (i + 1) := by
  rcases h with hsame | ⟨hask, hanswer, hanswer', hsteps⟩
  · exact .inl hsame
  · refine .inr ⟨hask, hanswer, hanswer', fun j hj t period measured hstep => ?_⟩
    cases j with
    | zero =>
        obtain ⟨fault, hfault⟩ := hfailed t period measured (Option.some.inj hstep)
        exact ⟨fault, congrArg some hfault⟩
    | succ j => exact hsteps j (Nat.lt_of_succ_lt_succ hj) t period measured hstep

omit [Scalar α] in
/-- What is the same but for workspaces of one size is in its shapes if the other is. -/
theorem Twins.fits {s s' : State α}
    (h : controller.Twins Eq (fun w w' => w.rotations.length = w'.rotations.length) s s') :
    controller.Fits s' where
  actions := h.2.actions ▸ h.1.actions
  direction := h.2.direction ▸ h.1.direction
  states := h.2.trajectory.states ▸ h.1.states
  costates := h.2.trajectory.costates ▸ h.1.costates
  rotations := h.2.workspace ▸ h.1.rotations

/-- States that are twins but for the outcome answer the same until they are asked for it. -/
theorem performAll_apart (hc : controller.Regular) (operations : List (Operation α))
    {s m s' : State α}
    (hs : controller.Twins Eq (fun w w' => w.rotations.length = w'.rotations.length) s m)
    (h : Apart o o' m s') (i : ℕ) :
    SameButOutcome o o' operations (controller.performAll operations s).1
      (controller.performAll operations s').1 i := by
  induction operations generalizing s m s' i with
  | nil => exact .inl rfl
  | cons operation operations ih =>
      by_cases hoperation : operation = .outcome
      · subst hoperation
        have houtcome : s.outcome = o := hs.2.outcome.trans h.outcome
        cases i with
        | zero =>
            refine .inr ⟨rfl, ?_, ?_, fun j hj => absurd hj (Nat.not_lt_zero j)⟩
            · rw [← houtcome]
              rfl
            · rw [h.replaced]
              rfl
        | succ i => exact (ih hs h i).cons fun _ _ _ h => by cases h
      · obtain ⟨hreply, hend⟩ := perform_parallel hc (.eq _) Krylov.Workspace.stable_length
          (fun _ _ _ h => h : operation = .trajectory → ∀ a a', a = a' → a = a') s m hs
        obtain ⟨hreply', hend'⟩ := perform_apart hc hoperation hs.fits h
        have hhead := hreply.eq.trans hreply'
        rcases hend' with hsame | ⟨hapart, hfailed⟩
        · -- from one state on nothing is different
          obtain ⟨hreplies, -⟩ := performAll_parallel hc (.eq _) Krylov.Workspace.stable_length
            (fun _ _ _ h => h : .trajectory ∈ operations → ∀ a a', a = a' → a = a') hend
          rw [hsame] at hreplies
          exact .inl (congrArg (·[i]?) (congrArg₂ List.cons hhead hreplies))
        · cases i with
          | zero => exact .inl (congrArg some hhead)
          | succ i =>
              refine (ih hend hapart i).cons fun t period measured hstep => ?_
              obtain ⟨fault, hfault⟩ := hfailed t period measured hstep
              exact ⟨fault, hreply.eq.trans hfault⟩

/-- Whatever a controller has been asked before, it answers a seeding as a new controller does
that has been asked for nothing but to set the parameters it has.  If the seeding is answered, any
calls after it are answered the same on both, with the outcome of the latest solve excepted as long
as every step fails. -/
theorem performAll_reseeded {model : Model α} {draft : Settings.Draft α} {settings : Settings α}
    {controller : Controller α} (hsettings : draft.check = .ok settings)
    (hcontroller : ofSettings model settings = .ok controller) {state : State α}
    (hstate : controller.Reachable state) (t measured : Datum α) :
    controller.IsSetUp state ∧
      ((controller.seed t measured).runOn state).1 =
        ((controller.seed t measured).runOn (controller.renewed state)).1 ∧
      ∀ answer, ((controller.seed t measured).runOn state).1 = .ok answer →
        ∀ operations i, SameButOutcome state.outcome none operations
          (controller.performAll operations ((controller.seed t measured).runOn state).2).1
          (controller.performAll operations
            ((controller.seed t measured).runOn (controller.renewed state)).2).1 i := by
  have hc := regular_ofSettings hsettings hcontroller
  have hfits := hstate.fits hc.actionDim
  obtain ⟨hanswer, hseeded⟩ := runOn_seed_renewed hfits t measured
  refine ⟨?_, hanswer, fun answer h operations i => ?_⟩
  · obtain ⟨history, rfl⟩ := hstate
    exact isSetUp_performAll history ⟨[], by simp, rfl⟩
  · obtain ⟨seeded, hrelated, hapart⟩ := hseeded answer h
    exact performAll_apart hc operations ⟨preserves_seed t measured state hfits, hrelated⟩ hapart i

end Controller

/-! ## The integrator -/

/-- The integrator, seeded at rest, after a step. -/
theorem exists_stepped_unitController : ∃ (state : Controller.State ℝ)
    (outcome : Krylov.Outcome ℝ), unitController.Reachable state ∧
      state.outcome = some outcome ∧ unitController.renewed state = unitController.blank := by
  obtain ⟨answer, seeded, hseed⟩ := seed_unitController
  obtain ⟨u, hs⟩ := Controller.seed_spec serves_unitController Nat.one_pos
    Controller.fits_blank.rotations hseed
  have hone : (1 : Datum ℝ).scalar = .ok 1 := congrArg Except.ok Int.cast_one
  obtain ⟨state, outcome, V, hupdate, -, -, houtcome, -⟩ :=
    Controller.update_spec (t := 0) (x := 0) serves_unitController Nat.one_pos hs le_rfl hone
      one_pos rfl
  refine ⟨state, outcome, ?_, houtcome, ?_⟩
  · refine ⟨[.seed (.number (.real 0)) (.ofTensor (.ofFn (0 : Fin 1 → ℝ))),
      .update (.number (.real 0)) 1 (.ofTensor (.ofFn (0 : Fin 1 → ℝ)))], ?_⟩
    simp only [Controller.performAll, Controller.perform, Stateful.runOn_map, hseed,
      Stateful.runOn_bind, hupdate]
    rfl
  · have hseeded : ((unitController.seed (.number (.real 0))
        (.ofTensor (.ofFn (0 : Fin 1 → ℝ)))).runOn unitController.blank).2.params = none :=
      Controller.preserves_params_seed _ _ unitController.blank rfl
    rw [hseed] at hseeded
    have hstepped : ((unitController.update (.number (.real 0)) 1
        (.ofTensor (.ofFn (0 : Fin 1 → ℝ)))).runOn seeded).2.params = none :=
      (Controller.steady_params none).update _ _ _ seeded hseeded
    rw [hupdate] at hstepped
    rw [Controller.renewed, hstepped]
    rfl

/-- The integrator has been seeded and has taken a step, so that there is an outcome of a solve.
Seeded anew, it goes on as a new controller. -/
theorem integrator_performAll_reseeded :
    ∃ (state : Controller.State ℝ) (answer : Tensor ℝ), unitController.Reachable state ∧
      state.outcome ≠ none ∧ unitController.IsSetUp state ∧
      unitController.renewed state = unitController.blank ∧
      ((unitController.seed (.number (.real 0)) (.ofTensor (.ofFn (0 : Fin 1 → ℝ)))).runOn
        state).1 = .ok answer ∧
      ∀ operations i, Controller.SameButOutcome state.outcome none operations
        (unitController.performAll operations ((unitController.seed (.number (.real 0))
          (.ofTensor (.ofFn (0 : Fin 1 → ℝ)))).runOn state).2).1
        (unitController.performAll operations ((unitController.seed (.number (.real 0))
          (.ofTensor (.ofFn (0 : Fin 1 → ℝ)))).runOn unitController.blank).2).1 i := by
  obtain ⟨answer, seeded, hseed⟩ := seed_unitController
  obtain ⟨state, outcome, hreachable, houtcome, hrenewed⟩ := exists_stepped_unitController
  obtain ⟨hsetup, hanswer, hsame⟩ := Controller.performAll_reseeded check_unitSettings
    ofSettings_unitSettings hreachable (.number (.real 0)) (.ofTensor (.ofFn (0 : Fin 1 → ℝ)))
  rw [hrenewed] at hanswer hsame
  have hanswer := hanswer.trans (congrArg Prod.fst hseed)
  refine ⟨state, answer, hreachable, ?_, hsetup, hrenewed, hanswer, hsame answer hanswer⟩
  rw [houtcome]
  exact Option.some_ne_none outcome

end RecedingHorizon
