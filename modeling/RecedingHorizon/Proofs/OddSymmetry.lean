import RecedingHorizon.Model.LinearQuadratic
import RecedingHorizon.Proofs.Controller
import RecedingHorizon.Proofs.SymmetricCalls

/-!
# Regulators are odd

A linear system whose quadratic cost is measured from the origin does not know a direction from
its opposite.  So the controller of such a system is odd: with every measured state and the guess
of the initial search negated, each call answers the negated arrays and the same norms, counts and
verdicts, and what is carried from call to call is negated as well.  A call that is refused is
refused for the same reason.  A search that gives up reports the negated iterate.

This is the symmetry of the sign minus one, by one clock.

* `LinearQuadratic.symmetric`: the functions of the system are linear.
* `Fault.Negated`: faults that belong together.
* `Controller.performAll_neg`: any calls, to a new controller.
-/

namespace RecedingHorizon

variable {σ : ℝ} {E : Fault ℝ → Fault ℝ → Prop}

/-! ## Linear systems -/

namespace LinearQuadratic

variable (hs : Symmetry σ Eq E) {system : LinearQuadratic ℝ}

include hs

theorem product_symmetric (W a : Tensor ℝ) :
    Tally E (Tensor.Signed σ) (W.product a) (W.product (a.scale σ)) :=
  .of_map hs.fault (Tensor.product_scale σ W a)

theorem pullback_symmetric (W a : Tensor ℝ) :
    Tally E (Tensor.Signed σ) (W.pullback a) (W.pullback (a.scale σ)) :=
  .of_map hs.fault (Tensor.pullback_scale σ W a)

/-- The deviation from a reference at the origin, weighted. -/
theorem deviation_symmetric (hreference : system.reference.scale σ = system.reference)
    (W x : Tensor ℝ) :
    Tally E (Tensor.Signed σ) (do W.product (← x.minus system.reference))
      (do W.product (← (x.scale σ).minus system.reference)) := by
  have hminus : Tally E (Tensor.Signed σ) (x.minus system.reference)
      ((x.scale σ).minus system.reference) := by
    have h := hs.minusArray x system.reference
    rwa [hreference] at h
  refine hminus.bind ?_
  rintro deviation _ rfl
  exact product_symmetric hs W deviation

omit hs in
theorem split_symmetric (hs : Symmetry σ Eq E) (stage : StageModel ℝ) (action : Tensor ℝ) :
    Tally E (fun p p' => p' = (p.1.scale σ, p.2.scale σ)) (stage.split action)
      (stage.split (action.scale σ)) := by
  refine (Tally.of_map hs.fault (Tensor.front_map _ _ action)).bind ?_
  rintro u _ rfl
  refine (Tally.of_map hs.fault (Tensor.back_map _ _ action)).bind ?_
  rintro multipliers _ rfl
  exact .ok rfl

theorem stateGradient_symmetric (hreference : system.reference.scale σ = system.reference)
    (x action l : Tensor ℝ) (t : Datum ℝ) :
    Tally E (Tensor.Signed σ) (system.stage.stateGradient x action l t)
      (system.stage.stateGradient (x.scale σ) (action.scale σ) (l.scale σ) t) := by
  refine (split_symmetric hs system.stage action).bind ?_
  rintro ⟨u, _⟩ _ rfl
  refine (deviation_symmetric hs hreference system.Q x).bind ?_
  rintro cost _ rfl
  refine (pullback_symmetric hs system.A l).bind ?_
  rintro flow _ rfl
  refine (hs.plusArray cost flow).bind ?_
  rintro gradient _ rfl
  exact .ok rfl

theorem controlGradient_symmetric (x action l : Tensor ℝ) (t : Datum ℝ) :
    Tally E (Tensor.Signed σ) (system.stage.controlGradient x action l t)
      (system.stage.controlGradient (x.scale σ) (action.scale σ) (l.scale σ) t) := by
  refine (split_symmetric hs system.stage action).bind ?_
  rintro ⟨u, _⟩ _ rfl
  refine ((product_symmetric hs system.R u).map
    (P := fun c c' => ∃ a : Tensor ℝ, c = .scalars a ∧ c' = Gathered.scalars (a.scale σ))
    fun a a' h => ⟨a, rfl, congrArg Gathered.scalars h⟩).bind ?_
  rintro _ _ ⟨cost, rfl, rfl⟩
  refine (pullback_symmetric hs system.B l).bind ?_
  rintro flow _ rfl
  refine (hs.plusArray cost flow).bind ?_
  rintro gradient _ rfl
  exact .ok rfl

/-- With the reference at the origin all functions of the system are linear. -/
theorem symmetric (hreference : system.reference.scale σ = system.reference) :
    system.stage.toModel.Symmetric σ Eq E where
  dynamics := by
    rintro t _ rfl x u
    refine (product_symmetric hs system.A x).bind ?_
    rintro drift _ rfl
    refine (product_symmetric hs system.B u).bind ?_
    rintro push _ rfl
    exact hs.plusArray drift push
  terminalGradient := by
    rintro t _ rfl x
    exact deviation_symmetric hs hreference system.F x
  stateGradient := by
    rintro t _ rfl x action l
    exact stateGradient_symmetric hs hreference x action l t
  controlGradient := by
    rintro t _ rfl x action l
    exact controlGradient_symmetric hs x action l t

end LinearQuadratic

/-! ## Runs -/

/-- Two faults are the same, or those of two searches of which the second gives up at the negated
iterate. -/
inductive Fault.Negated : Fault ℝ → Fault ℝ → Prop
  | same (e : Fault ℝ) : Negated e e
  | unconverged (attempt : Attempt ℝ) : Negated (.unconverged attempt)
      (.unconverged { attempt with solution := Vec.scale (-1) attempt.solution })

/-- Two faults that are the same but for the sign of an iterate are of one kind. -/
theorem Fault.Negated.kind_eq {e e' : Fault ℝ} (h : e.Negated e') : e'.kind = e.kind := by
  cases h <;> rfl

theorem symmetry_neg : Symmetry (-1) Eq Fault.Negated where
  sign := .neg_one
  fault := .same
  unconverged := .unconverged
  plus := by
    rintro t _ rfl b
    exact (Tally.refl .same _).imp fun _ _ h => congrArg Datum.number h
  step := by
    rintro t _ start _ rfl rfl length rate divisions
    exact .refl .same _

/-- A vector and its multiple are given as they should. -/
theorem Datum.signed_ofVec (σ : ℝ) (v : Vec ℝ) :
    (ofTensor (.ofVec v)).Signed σ (ofTensor (.ofVec (Vec.scale σ v))) := by
  rw [Signed, tensor_ofTensor_ofVec, tensor_ofTensor_ofVec]
  exact congrArg Except.ok (Tensor.ext_of_entries (by simp [Tensor.scale]) rfl)

namespace Controller

/-- Any calls to a new controller of a system with reference zero, told the negated states and
guess, have the negated answers, or are refused alike, and leave the negated arrays behind. -/
theorem performAll_neg {system : LinearQuadratic ℝ}
    (hreference : ∀ r ∈ system.reference.entries, r = 0)
    {settings : Settings ℝ} {controller : Controller ℝ}
    (hcontroller : ofSettings system.stage.toModel settings = .ok controller)
    {operations operations' : List (Operation ℝ)}
    (h : List.Forall₂ (Operation.Signed (-1) Eq) operations operations') :
    List.Forall₂ (Tally Fault.Negated (Reply.Signed (-1)))
        (controller.performAll operations controller.blank).1
        (controller.performAll operations' controller.blank).1 ∧
      State.Signed controller (-1) Eq (controller.performAll operations controller.blank).2
        (controller.performAll operations' controller.blank).2 := by
  have hmodel : controller.model = system.stage.toModel := (model_ofSettings hcontroller).1
  have hzero : system.reference.scale (-1) = system.reference := by
    have hentry : ∀ r ∈ system.reference.entries, -1 * r = r := fun r hr => by
      rw [hreference r hr, mul_zero]
    exact Tensor.ext_of_entries rfl ((List.map_congr_left hentry).trans (List.map_id' _))
  have hsymmetric : controller.model.Symmetric (-1) Eq Fault.Negated :=
    hmodel ▸ LinearQuadratic.symmetric symmetry_neg hzero
  exact performAll_symmetric symmetry_neg hsymmetric h (signed_blank controller (-1) Eq)

/-- Parameters of the initial search of the integrator, with a guess. -/
noncomputable def argumentsOfGuess (guess : ℝ) : Arguments ℝ :=
  [(InitParams.Draft.guessLabel, .ofTensor (.ofVec [guess])),
    (Parameter.residualTolerance.label, unitDraft.residualTolerance),
    (Parameter.iterationLimit.label, unitDraft.iterationLimit),
    (Parameter.differenceStep.label, unitDraft.differenceStep),
    (Parameter.krylovLimit.label, unitDraft.krylovLimit)]

/-- The integrator, with a guess, seeded and moved on one side of the origin and on the other. -/
theorem performAll_neg_integrator :
    (∀ r ∈ Regulator.integrator.system.reference.entries, r = 0) ∧
      ofSettings Regulator.integrator.system.stage.toModel unitSettings = .ok unitController ∧
      List.Forall₂ (Tally Fault.Negated (Reply.Signed (-1)))
        (unitController.performAll
          [.setInitParams (argumentsOfGuess 3),
            .seed (.number (.real 0)) (.ofTensor (.ofVec [1])),
            .update (.number (.real 1)) 1 (.ofTensor (.ofVec [2])), .trajectory]
          unitController.blank).1
        (unitController.performAll
          [.setInitParams (argumentsOfGuess (-3)),
            .seed (.number (.real 0)) (.ofTensor (.ofVec [-1])),
            .update (.number (.real 1)) 1 (.ofTensor (.ofVec [-2])), .trajectory]
          unitController.blank).1 := by
  have hreference : ∀ r ∈ Regulator.integrator.system.reference.entries, r = 0 := by
    intro r hr
    obtain ⟨_, rfl⟩ := List.mem_ofFn.1 hr
    rfl
  have hgiven (x : ℝ) : (Datum.ofTensor (.ofVec [x])).Signed (-1) (.ofTensor (.ofVec [-x])) := by
    have h := Datum.signed_ofVec (-1) [x]
    rwa [Vec.scale, List.map_singleton, neg_one_mul] at h
  have harguments : (argumentsOfGuess 3).Signed (-1) (argumentsOfGuess (-3)) := by
    refine .cons ⟨rfl, (if_pos rfl).mpr (hgiven 3)⟩ ?_
    exact .cons ⟨rfl, rfl⟩ (.cons ⟨rfl, rfl⟩ (.cons ⟨rfl, rfl⟩ (.cons ⟨rfl, rfl⟩ .nil)))
  refine ⟨hreference, ofSettings_unitSettings,
    (performAll_neg hreference ofSettings_unitSettings ?_).1⟩
  exact .cons (.setInitParams harguments)
    (.cons (.seed rfl (hgiven 1)) (.cons (.update _ rfl (hgiven 2)) (.cons .trajectory .nil)))

end Controller

end RecedingHorizon
