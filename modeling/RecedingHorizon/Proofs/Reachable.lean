import Mathlib
import RecedingHorizon.Controller.Operation
import RecedingHorizon.Proofs.Nodes
import RecedingHorizon.Proofs.Search

/-!
# What a controller carries keeps its shape

Whatever a controller is asked, and whether or not it answers, its actions, its
direction and its trajectory have the shapes that the settings give them.  This
holds in any arithmetic and for any model: what is put in their place is either an
array of the same shape or has been spread into it.  The workspace keeps as many
rotations as there can be columns.

* `Controller.Fits`: the invariant.
* `Controller.Reachable`: the states that operations lead to.
* `preserves_perform_of`, `preserves_performAll`: any property that survives the calls that write.
* `preserves_seed`, `preserves_update` and so on: the invariant along each call.
* `Reachable.fits`: the invariant in every state that can be reached.
-/

namespace RecedingHorizon

variable {α : Type} [Scalar α]

/-! ## Shapes -/

namespace Tensor

variable {a b c : Tensor α}

/-- An array that is increased in place keeps its shape. -/
theorem shape_increase (h : a.increase b = .ok c) : c.shape = a.shape := by
  rw [increase] at h
  rcases hr : a.row.increase b with e | r
  · rw [hr] at h
    cases h
  · rw [hr] at h
    cases h
    exact r.2

omit [Scalar α] in
/-- A matrix has the extents that were asked for, if neither was left open. -/
theorem shape_reshape {height width : ℤ} (hh : 0 ≤ height) (hw : 0 ≤ width)
    (h : a.reshape (.number (.whole height)) width = .ok b) :
    b.shape = [height.toNat, width.toNat] := by
  have hr : resolve? a.entries.length height width = some (height, width) := by
    rw [resolve?, if_neg (not_lt.2 hh), if_neg (not_lt.2 hw)]
  rw [reshape, Datum.extent, ok_bind] at h
  by_cases hi : (!(isIndex height && isIndex width)) = true
  · rw [if_pos hi] at h
    cases h
  · rw [if_neg hi, hr] at h
    dsimp only at h
    by_cases hl : a.entries.length = volume [height.toNat, width.toNat]
    · rw [dif_pos hl] at h
      obtain ⟨_, -, hb⟩ := bind_eq_ok_iff.1 h
      cases hb
      rfl
    · rw [dif_neg hl] at h
      cases h

omit [Scalar α] in
theorem count_of_shape {n : ℕ} {shape : List ℕ} (h : a.shape = n :: shape) :
    a.count = .ok n := by
  rw [count, h]

end Tensor

namespace Model

variable {model : Model α} {t δ : Datum α} {x actions : Tensor α} {N n : ℕ} {w : List ℕ}

/-- States are vectors like the current one, one at each node. -/
theorem shape_shootStates {p : Option (Tensor α)} {X : Tensor α} (hx : x.count = .ok n)
    (ha : actions.shape = N :: w) (h : model.shootStates t x actions δ p = .ok X) :
    X.shape = [N + 1, n] := by
  rw [shootStates, Tensor.count_of_shape ha, ok_bind, hx, ok_bind] at h
  obtain ⟨_, -, h⟩ := bind_eq_ok_iff.1 h
  obtain ⟨first, -, h⟩ := bind_eq_ok_iff.1 h
  obtain ⟨rows, hrows, h⟩ := bind_eq_ok_iff.1 h
  obtain ⟨later, rfl, hlater, -⟩ := (Recurrence.run_eq_ok_iff _ _ _ _).1 hrows
  cases h
  rw [Tensor.shape_ofRows, List.length_cons, hlater]

/-- Costates have the shape of the states. -/
theorem shape_shootCostates {p : Option (Tensor α)} {X L : Tensor α} (hX : X.shape = [N + 1, n])
    (ha : actions.shape = N :: w) (h : model.shootCostates t X actions δ p = .ok L) :
    L.shape = [N + 1, n] := by
  rw [shootCostates, Tensor.count_of_shape ha, ok_bind, Tensor.count_of_shape hX] at h
  obtain ⟨final, -, h⟩ := bind_eq_ok_iff.1 h
  obtain ⟨rows, hrows, h⟩ := bind_eq_ok_iff.1 h
  obtain ⟨later, rfl, hlater, -⟩ := (Recurrence.run_eq_ok_iff _ _ _ _).1 hrows
  cases h
  have hbeyond : (zeroRows (N + 1 - (N + 1)) (X.shape.drop 1) : List (Row α _)).length = 0 := by
    rw [Nat.sub_self]
    rfl
  rw [Tensor.shape_ofRows, List.length_append, List.length_reverse, List.length_cons, hlater,
    hbeyond, hX]
  rfl

/-- A trajectory has states and costates at every node, of the length of the state it was
shot from. -/
theorem exists_shape_condense {p : Option (Defects α)} {trajectory : Trajectory α}
    (ha : actions.shape = N :: w) (h : model.condense t x actions δ p = .ok trajectory) :
    ∃ n, x.count = .ok n ∧
      trajectory.states.shape = [N + 1, n] ∧ trajectory.costates.shape = [N + 1, n] := by
  obtain ⟨X, hX, h⟩ := bind_eq_ok_iff.1 h
  obtain ⟨L, hL, h⟩ := bind_eq_ok_iff.1 h
  cases h
  obtain ⟨steps, -, hcount⟩ := bind_eq_ok_iff.1 hX
  obtain ⟨n, hx, -⟩ := bind_eq_ok_iff.1 hcount
  have hshape := shape_shootStates hx ha hX
  exact ⟨n, hx, hshape, shape_shootCostates hshape ha hL⟩

theorem shape_condense {p : Option (Defects α)} {trajectory : Trajectory α} (hx : x.shape = [n])
    (ha : actions.shape = N :: w) (h : model.condense t x actions δ p = .ok trajectory) :
    trajectory.states.shape = [N + 1, n] ∧ trajectory.costates.shape = [N + 1, n] := by
  obtain ⟨k, hk, hshape⟩ := exists_shape_condense ha h
  obtain rfl : n = k := Except.ok.inj ((Tensor.count_of_shape hx).symm.trans hk)
  exact hshape

end Model

/-! ## The search for the initial action -/

namespace Newton

namespace Search

variable {search : Search α} {it it' : Iterate α}

theorem action_measure {a : Tensor α} {memory : ZeroHorizon.Memory α}
    {w : Krylov.Workspace α} (h : search.measure a memory w = .ok it) :
    it.action = a := by
  obtain ⟨gradient, -, h⟩ := bind_eq_ok_iff.1 h
  cases h
  rfl

theorem shape_advance (h : search.advance it = .ok it') : it'.action.shape = it.action.shape := by
  obtain ⟨outcome, -, h⟩ := bind_eq_ok_iff.1 h
  obtain ⟨action, haction, h⟩ := bind_eq_ok_iff.1 h
  rw [action_measure h, Tensor.shape_increase haction]

/-- Every iterate of a search has the shape of the first. -/
theorem shape_run {tolerance : α} {left count count' : ℕ}
    (h : search.run tolerance left count it = .ok (it', count')) :
    it'.action.shape = it.action.shape :=
  holds_run (I := fun it' => it'.action.shape = it.action.shape)
    (fun hit hadvance => (shape_advance hadvance).trans hit) rfl h

end Search

/-- A search begins at its guess. -/
theorem action_start {model : Model α} {t copies : Datum α} {x : Tensor α} {params : InitParams α}
    {search : Search α} {first : Iterate α}
    (h : start model t x params copies = .ok (search, first)) :
    first.action = .ofVec params.guess := by
  obtain ⟨_, -, h⟩ := bind_eq_ok_iff.1 h
  obtain ⟨solver, -, h⟩ := bind_eq_ok_iff.1 h
  obtain ⟨scale, -, h⟩ := bind_eq_ok_iff.1 h
  obtain ⟨it, hit, h⟩ := bind_eq_ok_iff.1 h
  cases h
  exact Search.action_measure hit

theorem action_conclude {tolerance : α} {it : Iterate α} {count : ℕ} {found : Solution α}
    (h : conclude tolerance it count = .ok found) : found.action = it.action := by
  rw [conclude] at h
  split at h
  · cases h
    rfl
  · cases h

/-- What is found has as many entries as the guess. -/
theorem shape_solve {model : Model α} {t copies : Datum α} {x : Tensor α} {params : InitParams α}
    {found : Solution α} (h : solve model t x params copies = .ok found) :
    found.action.shape = [model.actionDim.toNat] := by
  by_cases hk : (params.guess.length : ℤ) = model.actionDim
  · rw [solve, if_neg (not_not.2 hk)] at h
    obtain ⟨⟨search, first⟩, hstart, h⟩ := bind_eq_ok_iff.1 h
    obtain ⟨tolerance, -, h⟩ := bind_eq_ok_iff.1 h
    obtain ⟨⟨last, count⟩, hrun, h⟩ := bind_eq_ok_iff.1 h
    rw [action_conclude h, Search.shape_run hrun, action_start hstart, Tensor.shape_ofVec, ← hk,
      Int.toNat_natCast]
  · rw [solve, if_pos hk] at h
    cases h

end Newton

/-! ## Rotations -/

namespace Krylov

variable {σ : Type} {equation : Equation (StateM σ) α} {solver : Solver α} {w : Workspace α}

theorem length_rotations_absorb (w : Workspace α) (image : Vec α) :
    (w.absorb image).1.rotations.length = w.rotations.length := by
  rw [Workspace.absorb]
  dsimp only
  split
  · rfl
  · exact List.length_set

namespace Solver

theorem length_rotations_step (β : α) (image : Tensor α) :
    (solver.step β image w).2.rotations.length = w.rotations.length := by
  rw [step]
  rcases solver.imageVector image with _ | v
  · rfl
  · have h := length_rotations_absorb w v
    dsimp only
    rcases habsorb : w.absorb v with ⟨w', _ | ending⟩
    · rw [habsorb] at h
      exact h
    · rw [habsorb] at h
      exact h

theorem length_rotations_iterate (β : α) (left : ℕ) (μ : σ) :
    ((solver.iterate equation β left w).run μ).1.2.rotations.length = w.rotations.length := by
  induction left generalizing w μ with
  | zero => rfl
  | succ left ih =>
      rw [iterate, Stateful.run_bind]
      rcases (equation.image (.ofVec w.direction)).run.run μ with ⟨_ | image, μ'⟩
      · rfl
      · dsimp only
        have hstep : (solver.step β image w).2.rotations.length = w.rotations.length :=
          length_rotations_step β image
        rcases hrun : solver.step β image w with ⟨_ | _ | ending, w'⟩
        · rw [hrun] at hstep
          exact hstep
        · rw [hrun] at hstep
          exact (ih μ').trans hstep
        · rw [hrun] at hstep
          exact hstep

/-- A solve keeps as many rotations as there were. -/
theorem length_rotations_solve (guess : Option (Tensor α)) (μ : σ) :
    ((solver.solve equation guess w).run μ).1.2.rotations.length = w.rotations.length := by
  rw [solve, Stateful.run_bind]
  rcases (equation.residual (guess.getD (Tensor.zeros [solver.dim]))).run.run μ with ⟨_ | r, μ'⟩
  · rfl
  · dsimp only
    split
    · rfl
    · rcases (r.divide r.norm).vector solver.dim with _ | first
      · rfl
      · dsimp only
        rw [Stateful.run_bind]
        exact length_rotations_iterate _ _ μ'

end Solver
end Krylov

/-! ## Every operation -/

namespace Controller

open Stateful

/-- What a controller carries has the shapes it is set to, and its workspace as many
rotations as there can be columns. -/
structure Fits (controller : Controller α) (state : State α) : Prop where
  actions : state.actions.get.shape = controller.actionsShape
  direction : state.direction.get.shape = controller.actionsShape
  states : state.trajectory.get.states.shape = controller.nodesShape
  costates : state.trajectory.get.costates.shape = controller.nodesShape
  rotations : state.workspace.rotations.length = controller.solver.limit

/-- A state that operations lead to from that of a new controller. -/
def Reachable (controller : Controller α) (state : State α) : Prop :=
  ∃ operations, (controller.performAll operations controller.blank).2 = state

variable {controller : Controller α}

theorem fits_blank : controller.Fits controller.blank where
  actions := rfl
  direction := rfl
  states := rfl
  costates := rfl
  rotations := List.length_replicate

/-- A measured state that is accepted is a vector of the dimension of the model. -/
theorem shape_checkState {measured : Datum α} {x : Tensor α}
    (h : controller.checkState measured = .ok x) :
    x.shape = [controller.model.stateDim.toNat] := by
  obtain ⟨y, -, h⟩ := bind_eq_ok_iff.1 h
  split at h
  · rename_i hshape
    cases h
    have hone : x.shape.length = 1 := by
      rw [← List.length_map Int.ofNat, hshape, List.length_singleton]
    obtain ⟨k, hk⟩ := List.length_eq_one_iff.1 hone
    rw [hk] at hshape ⊢
    rw [← (List.cons.inj hshape).1]
    rfl
  · cases h

theorem shape_advanced {period : Datum α} {a rate b : Tensor α}
    (h : advanced period a rate = .ok b) : b.shape = a.shape := by
  obtain ⟨_, -, h⟩ := bind_eq_ok_iff.1 h
  exact Tensor.shape_increase h

omit [Scalar α] in
theorem preserves_requireInitialized {I : State α → Prop} :
    Preserves I (requireInitialized (α := α)) := by
  refine Preserves.get_bind fun s _ => ?_
  split
  · exact Preserves.throw _
  · exact Preserves.pure _

theorem preserves_setInitParams (draft : InitParams.Draft α) :
    Preserves controller.Fits (controller.setInitParams draft) := by
  refine Preserves.liftM_bind fun params _ => ?_
  split
  · exact Preserves.bind (Preserves.throw _) fun _ => Preserves.modify fun s hs => { hs with }
  · exact Preserves.modify fun s hs => { hs with }

theorem preserves_seed (t measured : Datum α) :
    Preserves controller.Fits (controller.seed t measured) := by
  refine Preserves.liftM_bind fun x hx => Preserves.get_bind fun s _ => ?_
  extract_lets rest
  have hrest : ∀ params, Preserves controller.Fits (rest params) := by
    refine fun params => Preserves.liftM_bind fun initial hinitial => ?_
    have hactions : (initial.action.replicate controller.divisions).shape =
        controller.actionsShape :=
      congrArg (List.cons controller.divisions) (Newton.shape_solve hinitial)
    refine Preserves.bind (Preserves.modify fun s hs => ?_) fun _ => ?_
    · exact { hs with actions := hactions, direction := rfl }
    refine Preserves.liftM_bind fun δ _ => Preserves.liftM_bind fun trajectory htrajectory => ?_
    have hshape := Model.shape_condense (shape_checkState hx) hactions htrajectory
    refine Preserves.bind (Preserves.modify fun s hs => ?_) fun _ => Preserves.liftM _
    exact { hs with states := hshape.1, costates := hshape.2 }
  cases s.params with
  | some params => exact Preserves.bind (Preserves.pure params) hrest
  | none =>
      refine Preserves.bind (Preserves.liftM _) fun _ => ?_
      exact Preserves.bind (Preserves.liftM _) hrest

theorem preserves_rates (hdim : 0 ≤ controller.model.actionDim) (t : Datum α) (x : Tensor α) :
    Preserves controller.Fits (controller.rates t x) := by
  refine Preserves.get_bind fun s hs => ?_
  extract_lets actions system
  split
  rename_i prepared memory _
  refine Preserves.bind (Preserves.modify fun s' hs' => { hs' with }) fun _ => ?_
  refine Preserves.bind (Preserves.liftM _) fun _ => ?_
  split
  rename_i outcome w μ hsolve
  have hlength : w.rotations.length = s.workspace.rotations.length :=
    (congrArg (fun out => out.1.2.rotations.length) hsolve).symm.trans
      (Krylov.Solver.length_rotations_solve _ _)
  refine Preserves.bind (Preserves.modify fun s' hs' => ?_) fun _ => ?_
  · exact { hs' with rotations := hlength.trans hs.rotations }
  refine Preserves.liftM_bind fun outcome _ => ?_
  refine Preserves.bind (Preserves.modify fun s' hs' => { hs' with }) fun _ => ?_
  refine Preserves.liftM_bind fun direction hdirection => ?_
  refine Preserves.bind (Preserves.modify fun s' hs' => ?_) fun _ => ?_
  · exact { hs' with
      direction := Tensor.shape_reshape (Int.natCast_nonneg _) hdim hdirection }
  split
  exact Preserves.liftM_bind fun _ _ => Preserves.pure _

theorem preserves_update (hdim : 0 ≤ controller.model.actionDim) (t period measured : Datum α) :
    Preserves controller.Fits (controller.update t period measured) := by
  refine Preserves.bind preserves_requireInitialized fun _ => ?_
  refine Preserves.liftM_bind fun positive _ => ?_
  extract_lets rest
  have hrest : ∀ u, Preserves controller.Fits (rest u) := by
    refine fun u => Preserves.liftM_bind fun x _ => ?_
    refine Preserves.bind (preserves_rates hdim t x) fun rate => ?_
    split
    rename_i direction rate
    refine Preserves.get_bind fun s hs => Preserves.liftM_bind fun actions hactions => ?_
    refine Preserves.bind (Preserves.modify fun s' hs' => ?_) fun _ => ?_
    · exact { hs' with actions := (shape_advanced hactions).trans hs.actions }
    refine Preserves.get_bind fun s hs => Preserves.liftM_bind fun states hstates => ?_
    have hstates := (shape_advanced hstates).trans hs.states
    refine Preserves.bind (Preserves.modify fun s' hs' => ?_) fun _ => ?_
    · exact { hs' with states := hstates, costates := hs.costates }
    refine Preserves.liftM_bind fun costates hcostates => ?_
    have hcostates := (shape_advanced hcostates).trans hs.costates
    refine Preserves.bind (Preserves.modify fun s' hs' => ?_) fun _ => Preserves.liftM _
    exact { hs' with states := hstates, costates := hcostates }
  split
  · exact Preserves.bind (Preserves.throw _) hrest
  · exact hrest ⟨⟩

theorem preserves_residualNorm {I : State α → Prop} (t measured : Datum α) :
    Preserves I (controller.residualNorm t measured) := by
  refine Preserves.bind preserves_requireInitialized fun _ => ?_
  refine Preserves.liftM_bind fun x _ => Preserves.get_bind fun s _ => ?_
  exact Preserves.liftM_bind fun _ _ => Preserves.pure _

/-- What every step preserves is preserved by a cycle, which only looks at the state besides. -/
theorem preserves_cycle {I : State α → Prop} {period : Datum α}
    (hupdate : ∀ t measured, Preserves I (controller.update t period measured))
    (run : Simulation α) : Preserves I (controller.cycle period run) := by
  refine Preserves.bind (hupdate _ _) fun control => ?_
  refine Preserves.get_bind fun s _ => ?_
  refine Preserves.liftM_bind fun rate _ => Preserves.liftM_bind fun step _ => ?_
  refine Preserves.liftM_bind fun next _ => Preserves.liftM_bind fun time _ => Preserves.pure _

theorem preserves_simulate {I : State α → Prop} {period : Datum α}
    (hupdate : ∀ t measured, Preserves I (controller.update t period measured))
    (cycles : ℕ) (run : Simulation α) :
    Preserves I (controller.simulate period cycles run) := by
  induction cycles generalizing run with
  | zero => exact Preserves.pure run
  | succ cycles ih => exact Preserves.bind (preserves_cycle hupdate run) ih

/-- A call preserves what setting parameters, seeding and a step preserve: no other call changes
anything but by taking steps. -/
theorem preserves_perform_of {I : State α → Prop} {operation : Operation α}
    (hset : ∀ given, operation = .setInitParams given →
      Preserves I (controller.perform (.setInitParams given)))
    (hseed : ∀ t measured, operation = .seed t measured →
      Preserves I (controller.seed t measured))
    (hupdate : ∀ t period measured, Preserves I (controller.update t period measured)) :
    Preserves I (controller.perform operation) := by
  cases operation with
  | setInitParams given => exact hset given rfl
  | seed t measured => exact Preserves.map (hseed t measured rfl) _
  | update t period measured =>
      refine Preserves.bind (hupdate t period measured) fun _ => ?_
      exact Preserves.get_bind fun _ _ => Preserves.pure _
  | residualNorm t measured => exact Preserves.map (preserves_residualNorm t measured) _
  | control =>
      exact Preserves.get_bind fun _ _ => Preserves.liftM_bind fun _ _ => Preserves.pure _
  | actions | trajectory | direction | outcome =>
      exact Preserves.get_bind fun _ _ => Preserves.pure _
  | horizon t =>
      refine Preserves.get_bind fun _ _ => ?_
      exact Preserves.liftM_bind fun _ _ => Preserves.liftM_bind fun _ _ => Preserves.pure _
  | simulate t period measured cycles =>
      refine Preserves.liftM_bind fun x _ => ?_
      refine Preserves.bind (preserves_simulate (fun t => hupdate t period) cycles _) fun run => ?_
      exact Preserves.bind (preserves_residualNorm _ _) fun _ => Preserves.pure _

/-- What each of a sequence of calls preserves holds at its end. -/
theorem preserves_performAll {I : State α → Prop} {operations : List (Operation α)}
    (h : ∀ operation ∈ operations, Preserves I (controller.perform operation)) {state : State α}
    (hstate : I state) : I (controller.performAll operations state).2 := by
  induction operations generalizing state with
  | nil => exact hstate
  | cons operation operations ih =>
      exact ih (fun o ho => h o (List.mem_cons_of_mem _ ho))
        (h operation List.mem_cons_self state hstate)

/-- Every call leaves what is carried in its shapes, whether it answers or fails. -/
theorem preserves_perform (hdim : 0 ≤ controller.model.actionDim) (operation : Operation α) :
    Preserves controller.Fits (controller.perform operation) := by
  refine preserves_perform_of (fun given _ => ?_) (fun t measured _ => preserves_seed t measured)
    (preserves_update hdim)
  refine Preserves.liftM_bind fun draft _ => ?_
  exact Preserves.bind (preserves_setInitParams draft) fun _ => Preserves.pure _

theorem fits_performAll (hdim : 0 ≤ controller.model.actionDim) (operations : List (Operation α))
    {state : State α} (h : controller.Fits state) :
    controller.Fits (controller.performAll operations state).2 :=
  preserves_performAll (fun operation _ => preserves_perform hdim operation) h

/-- What a controller carries has its shapes in every state that can be reached. -/
theorem Reachable.fits (hdim : 0 ≤ controller.model.actionDim) {state : State α}
    (h : controller.Reachable state) : controller.Fits state := by
  obtain ⟨operations, rfl⟩ := h
  exact fits_performAll hdim operations fits_blank

end Controller

end RecedingHorizon
