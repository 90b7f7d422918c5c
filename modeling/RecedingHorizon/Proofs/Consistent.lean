import Mathlib
import RecedingHorizon.Proofs.Answered
import RecedingHorizon.Proofs.Controller

/-!
# Residuals and images of one equation

A Krylov solver asks for the residual of its guess, and then for images.  Nothing of what it
finds means anything unless these belong to one equation `A v = b`: the residual of a guess has
to be `b`, which is the residual of zero, less the image of the guess.  It is not computed in
this way.  The system of a continuation step evaluates the stationarity only where the guess
leads, and combines it with that of the present in one formula; without a guess it uses another
formula, in which the decay and the drift stand apart.  In exact arithmetic the two formulas say
the same, for a model that may be any four functions.  It may even fail.  Then the one side fails
with what the other fails with.

What is remembered matters as well, since an image looks at what the residual has left.  It is
the same whatever the guess.

* `Krylov.Equation.IsConsistent`: residuals and images of one equation.
* `Continuation.settle`, `Continuation.finish`: the part of the residual that does not depend on
  the guess, and the part that does.
* `Continuation.shape_residual`, `Continuation.answers_of_prepare`: residuals of the dimension of
  the system, and a system that answers once the point is set.
* `Continuation.consistent`, `ZeroHorizon.consistent`, `Krylov.Equation.consistent_ofOperator`: the
  three systems; `Krylov.Equation.isConsistent` for all of them.
-/

namespace RecedingHorizon

open Stateful

/-- The residual of a guess is that of zero less the image of the guess, taken after either, and
either leaves the same to be remembered. -/
def Krylov.Equation.IsConsistent {σ : Type} (equation : Equation (StateM σ) ℝ) (n : ℕ) : Prop :=
  ∀ (v : Fin n → ℝ) (μ : σ),
    (runOn (equation.residual (.ofFn v)) μ).2 =
        (runOn (equation.residual (.ofFn (0 : Fin n → ℝ))) μ).2 ∧
      (runOn (equation.residual (.ofFn v)) μ).1 = (do
        let b ← (runOn (equation.residual (.ofFn (0 : Fin n → ℝ))) μ).1
        let image ← (runOn (equation.image (.ofFn v)) (runOn (equation.residual (.ofFn v)) μ).2).1
        b.minus image)

/-! ## Continuation -/

/-- The stationarity of actions has the shape of the actions. -/
theorem Model.shape_stationarity {α : Type} [Scalar α] {model : Model α} {t δ : Datum α}
    {x actions F : Tensor α} {trajectory : Trajectory α} {N : ℕ} {w : List ℕ}
    (ha : actions.shape = N :: w)
    (h : model.stationarity t x actions trajectory δ = .ok F) : F.shape = N :: w := by
  rw [Model.stationarity, Tensor.count_of_shape ha, ok_bind] at h
  obtain ⟨rows, hrows, h⟩ := bind_eq_ok_iff.1 h
  cases h
  rw [Tensor.shape_ofRows, ((Recurrence.collect_eq_ok_iff _ _ _).1 hrows).1, ha]
  rfl

namespace Continuation

variable {n m c : ℕ}

section Parts

variable {α : Type} [Scalar α]

/-- What the residual finds before it looks at the guess: the actions, their stationarity now, and
that one difference step ahead. -/
def settle (system : Continuation α) (t : Datum α) (x flat : Tensor α) :
    Stateful (Memory α) α (Tensor α × Tensor α × Tensor α) := do
  let trajectory ← Stateful.needed (← get).trajectory
  let actions ← system.unflatten flat
  let now ← system.problem.residual t x actions trajectory
  let defects ← now.defects.scaled (← system.decayed)
  modify fun memory => { memory with defects := some defects }
  let (next, _) ← system.ahead actions
  modify fun memory => { memory with stationarity := some next }
  return (actions, now.stationarity, next)

/-- The residual of a guess, from what has been found before looking at the guess. -/
def finish (system : Continuation α) (guess : Tensor α)
    (settled : Tensor α × Tensor α × Tensor α) : Stateful (Memory α) α (Tensor α) := do
  let (actions, present, next) := settled
  if guess.isZero then
    return (← system.unguessed present next).flat
  let (guessed, _) ← system.ahead (← system.moved actions (← system.unflatten guess))
  return (← system.guessedResidual present guessed).flat

theorem residual_eq_settle (system : Continuation α) (t : Datum α) (x flat guess : Tensor α) :
    system.residual t x flat guess = system.settle t x flat >>= system.finish guess := by
  simp only [residual, settle, finish, bind_assoc, pure_bind]

variable {system : Continuation α} {t : Datum α} {x flat actions present next : Tensor α}
variable {μ ν : Memory α}

theorem shape_aheadFrom_stationarity {N : ℕ} {w : List ℕ} (ha : actions.shape = N :: w)
    {p : Trajectory α} (h : system.aheadFrom μ actions = .ok (next, p)) : next.shape = N :: w := by
  rw [aheadFrom] at h
  split at h
  · obtain ⟨δ, -, h⟩ := bind_eq_ok_iff.1 h
    obtain ⟨trajectory, -, h⟩ := bind_eq_ok_iff.1 h
    obtain ⟨F, hF, h⟩ := bind_eq_ok_iff.1 h
    cases h
    exact Model.shape_stationarity ha hF
  · cases h

/-- What is found before looking at the guess: the actions as they are laid out, and the
stationarity one difference step ahead, which is remembered and would be found again. -/
theorem settle_eq_ok (h : (system.settle t x flat).runOn μ = (.ok (actions, present, next), ν)) :
    system.unflatten flat = .ok actions ∧ ν.stationarity = some next ∧
      (∃ p, system.aheadFrom ν actions = .ok (next, p)) ∧
      ∀ {N : ℕ} {w : List ℕ}, actions.shape = N :: w → present.shape = N :: w := by
  rw [settle, runOn_get_bind] at h
  obtain ⟨trajectory, μ₁, htrajectory, h⟩ := runOn_bind_eq_ok_iff.1 h
  obtain ⟨actions', μ₂, hactions, h⟩ := runOn_bind_eq_ok_iff.1 h
  obtain ⟨now, μ₃, hnow, h⟩ := runOn_bind_eq_ok_iff.1 h
  obtain ⟨factor, μ₄, hfactor, h⟩ := runOn_bind_eq_ok_iff.1 h
  obtain ⟨defects, μ₅, hdefects, h⟩ := runOn_bind_eq_ok_iff.1 h
  rw [runOn_bind, runOn_modify] at h
  dsimp only at h
  obtain ⟨⟨next', p⟩, μ₆, hnext, h⟩ := runOn_bind_eq_ok_iff.1 h
  rw [runOn_ahead] at hnext
  rw [runOn_bind, runOn_modify] at h
  cases h
  rw [runOn_liftM_eq_ok_iff] at hactions hnow
  obtain ⟨hahead, rfl⟩ := Prod.mk.inj hnext
  refine ⟨hactions.1, rfl, ⟨p, hahead⟩, fun {N w} ha => ?_⟩
  obtain ⟨δ, -, hresidual⟩ := bind_eq_ok_iff.1 hnow.1
  obtain ⟨F, hF, hresidual⟩ := bind_eq_ok_iff.1 hresidual
  obtain ⟨D, -, hresidual⟩ := bind_eq_ok_iff.1 hresidual
  cases hresidual
  exact Model.shape_stationarity ha hF

end Parts

variable {system : Continuation ℝ} {N k : ℕ} {h ζ : ℝ}

theorem Scaled.shape_unflatten (hs : system.Scaled N k h ζ) {flat actions : Tensor ℝ}
    (hactions : system.unflatten flat = .ok actions) : actions.shape = [N, k] := by
  rw [unflatten, hs.divisions, hs.actionDim] at hactions
  exact Tensor.shape_reshape (Int.natCast_nonneg N) (Int.natCast_nonneg k) hactions

/-- What is found before looking at the guess, on a horizon of so many steps: the actions, and the
stationarity of them now and one difference step ahead, have a row of as many entries as an action
for each step. -/
theorem exists_nodes_of_settle (hs : system.Scaled N k h ζ) {t : Datum ℝ}
    {x flat actions present next : Tensor ℝ} {μ ν : Memory ℝ}
    (hsettled : (system.settle t x flat).runOn μ = (.ok (actions, present, next), ν)) :
    ∃ a F G : ℕ → Fin k → ℝ,
      actions = .ofNodes N a ∧ present = .ofNodes N F ∧ next = .ofNodes N G := by
  obtain ⟨hactions, -, ⟨p, hnext⟩, hpresent⟩ := settle_eq_ok hsettled
  have hshape := hs.shape_unflatten hactions
  obtain ⟨a, ha⟩ := Tensor.exists_eq_ofNodes hshape
  obtain ⟨F, hF⟩ := Tensor.exists_eq_ofNodes (hpresent hshape)
  obtain ⟨G, hG⟩ := Tensor.exists_eq_ofNodes (shape_aheadFrom_stationarity hshape hnext)
  exact ⟨a, F, G, ha, hF, hG⟩

section Finish

variable (hs : system.Scaled N k h ζ) {a F G : ℕ → Fin k → ℝ} {ν : Memory ℝ}
include hs

theorem runOn_finish_zero :
    (system.finish (.ofFn (0 : Fin (N * k) → ℝ))
        (.ofNodes N a, .ofNodes N F, .ofNodes N G)).runOn ν =
      (.ok (.ofFn (flatten N ((h⁻¹ - ζ) • F - h⁻¹ • G))), ν) := by
  rw [finish]
  dsimp only
  rw [if_pos (Tensor.isZero_ofFn.2 rfl), unguessed_eq hs, runOn_ok_bind, Tensor.flat_ofNodes]
  rfl

variable {v : Fin (N * k) → ℝ}

/-- A guess that is not zero is looked at where it leads. -/
theorem runOn_finish (hv : v ≠ 0) :
    (system.finish (.ofFn v) (.ofNodes N a, .ofNodes N F, .ofNodes N G)).runOn ν = (do
      let (guessed, _) ← system.aheadFrom ν (.ofNodes N (a + h • RecedingHorizon.unflatten N v))
      return (← system.guessedResidual (.ofNodes N F) guessed).flat, ν) := by
  rw [finish]
  dsimp only
  rw [if_neg (mt Tensor.isZero_ofFn.1 hv)]
  simp only [runOn_bind, runOn_liftM, unflatten_eq hs, moved_eq hs, runOn_ahead]
  rcases system.aheadFrom ν (.ofNodes N (a + h • RecedingHorizon.unflatten N v)) with
    fault | ⟨guessed, p⟩
  · rfl
  · dsimp only [ok_bind]
    rcases system.guessedResidual (.ofNodes N F) guessed with fault | residual <;> rfl

/-- A guess that leads to actions with a stationarity has a residual by one formula, whether it is
zero or not. -/
theorem runOn_finish_of_ahead {G' : ℕ → Fin k → ℝ} {p p' : Trajectory ℝ}
    (hnext : system.aheadFrom ν (.ofNodes N a) = .ok (.ofNodes N G, p))
    (hguess : system.aheadFrom ν (.ofNodes N (a + h • RecedingHorizon.unflatten N v)) =
      .ok (.ofNodes N G', p')) :
    (system.finish (.ofFn v) (.ofNodes N a, .ofNodes N F, .ofNodes N G)).runOn ν =
      (.ok (.ofFn (flatten N ((h⁻¹ - ζ) • F - h⁻¹ • G'))), ν) := by
  by_cases hv : v = 0
  · subst hv
    rw [unflatten_zero, smul_zero, add_zero, hnext] at hguess
    rw [(Prod.mk.inj (Except.ok.inj hguess)).1, runOn_finish_zero hs]
  · rw [runOn_finish hs hv, hguess]
    simp only [ok_bind, guessedResidual_eq hs, Tensor.flat_ofNodes, pure_eq_ok]

/-- A guess that leads to actions without a stationarity fails as the search for that does.  Such a
guess is not zero, which leads nowhere. -/
theorem runOn_finish_of_fault {p : Trajectory ℝ} {fault : Fault ℝ}
    (hnext : system.aheadFrom ν (.ofNodes N a) = .ok (.ofNodes N G, p))
    (hguess : system.aheadFrom ν (.ofNodes N (a + h • RecedingHorizon.unflatten N v)) =
      .error fault) :
    (system.finish (.ofFn v) (.ofNodes N a, .ofNodes N F, .ofNodes N G)).runOn ν =
      (.error fault, ν) := by
  have hv : v ≠ 0 := by
    rintro rfl
    rw [unflatten_zero, smul_zero, add_zero, hnext] at hguess
    cases hguess
  rw [runOn_finish hs hv, hguess]
  rfl

/-- An image is the quotient of a difference with the stationarity that is remembered. -/
theorem runOn_image_of_settled {flat : Tensor ℝ}
    (hactions : system.unflatten flat = .ok (.ofNodes N a))
    (hbase : ν.stationarity = some (.ofNodes N G)) :
    (system.image flat (.ofFn v)).runOn ν = (do
      let ahead ← system.aheadFrom ν (.ofNodes N (a + h • RecedingHorizon.unflatten N v))
      let change ← ahead.1.minus (.ofNodes N G)
      return (← change.divideBy system.differenceStep).flat, ν) := by
  simp only [image, runOn_bind, runOn_get, runOn_needed, hbase, runOn_liftM, hactions,
    unflatten_eq hs, moved_eq hs, runOn_ahead]
  rcases system.aheadFrom ν (.ofNodes N (a + h • RecedingHorizon.unflatten N v)) with
    fault | ⟨guessed, p⟩
  · rfl
  · dsimp only [ok_bind]
    rcases guessed.minus (.ofNodes N G) with fault | change
    · rfl
    · dsimp only [ok_bind]
      rcases change.divideBy system.differenceStep with fault | quotient <;> rfl

/-- The residual of a guess is the residual of zero, less the image of the guess. -/
theorem finish_eq_sub {t : Datum ℝ} {x flat : Tensor ℝ} {settled : Tensor ℝ × Tensor ℝ × Tensor ℝ}
    {μ : Memory ℝ} (hsettled : (system.settle t x flat).runOn μ = (.ok settled, ν))
    (v : Fin (N * k) → ℝ) :
    ((system.finish (.ofFn v) settled).runOn ν).2 = ν ∧
      ((system.finish (.ofFn v) settled).runOn ν).1 = (do
        let b ← ((system.finish (.ofFn (0 : Fin (N * k) → ℝ)) settled).runOn ν).1
        let image ← ((system.image flat (.ofFn v)).runOn ν).1
        b.minus image) := by
  obtain ⟨actions, present, next⟩ := settled
  obtain ⟨hactions, hbase, ⟨p, hnext⟩, -⟩ := settle_eq_ok hsettled
  obtain ⟨a, F, G, rfl, rfl, rfl⟩ := exists_nodes_of_settle hs hsettled
  rw [runOn_finish_zero hs, runOn_image_of_settled hs hactions hbase]
  rcases hguess : system.aheadFrom ν (.ofNodes N (a + h • RecedingHorizon.unflatten N v)) with
    fault | ⟨guessed, p'⟩
  · rw [runOn_finish_of_fault hs hnext hguess]
    exact ⟨rfl, rfl⟩
  · obtain ⟨G', rfl⟩ := Tensor.exists_eq_ofNodes
      (shape_aheadFrom_stationarity (Tensor.shape_ofNodes _) hguess)
    rw [runOn_finish_of_ahead hs hnext hguess]
    simp only [Tensor.minus_ofNodes, divideBy_eq hs, ok_bind, Tensor.flat_ofNodes, pure_eq_ok,
      Tensor.minus_ofFn, true_and]
    refine congrArg (fun s => Except.ok (Tensor.ofFn s)) ?_
    -- the decay and the drift of the present are in both, and cancel
    show flatten N ((h⁻¹ - ζ) • F - h⁻¹ • G') =
      flatten N ((h⁻¹ - ζ) • F - h⁻¹ • G - h⁻¹ • (G' - G))
    rw [smul_sub]
    congr 1
    abel

end Finish

/-- The system of a continuation step is consistent, whatever its model is. -/
theorem consistent (hs : system.Scaled N k h ζ) (t : Datum ℝ) (x flat : Tensor ℝ) :
    (system.linearized t x flat).IsConsistent (N * k) := by
  intro v μ
  have hresidual (guess : Tensor ℝ) :
      runOn ((system.linearized t x flat).residual guess) μ =
        (system.settle t x flat >>= system.finish guess).runOn μ :=
    congrArg (fun action => runOn action μ) (system.residual_eq_settle t x flat guess)
  rw [hresidual, hresidual, runOn_bind, runOn_bind]
  rcases hsettled : (system.settle t x flat).runOn μ with ⟨fault | settled, ν⟩
  · exact ⟨rfl, rfl⟩
  · obtain ⟨hmemory, hresult⟩ := finish_eq_sub hs hsettled v
    dsimp only
    rw [hmemory, (finish_eq_sub hs hsettled 0).1]
    exact ⟨rfl, hresult⟩

/-- A residual of the system of a continuation step, if there is one, is a vector of the dimension
of the system. -/
theorem shape_residual (hs : system.Scaled N k h ζ) {t : Datum ℝ} {x flat guess b : Tensor ℝ}
    {μ μ' : Memory ℝ} (hresidual : (system.residual t x flat guess).runOn μ = (.ok b, μ')) :
    b.shape = [N * k] := by
  rw [residual_eq_settle] at hresidual
  obtain ⟨⟨actions, present, next⟩, ν, hsettled, hfinish⟩ := runOn_bind_eq_ok_iff.1 hresidual
  obtain ⟨a, F, G, rfl, rfl, rfl⟩ := exists_nodes_of_settle hs hsettled
  rw [finish] at hfinish
  dsimp only at hfinish
  split at hfinish
  · rw [unguessed_eq hs, runOn_ok_bind, Tensor.flat_ofNodes] at hfinish
    cases hfinish
    exact Tensor.shape_ofFn _
  · obtain ⟨direction, ν₁, hdirection, hfinish⟩ := runOn_bind_eq_ok_iff.1 hfinish
    obtain ⟨moved, ν₂, hmoved, hfinish⟩ := runOn_bind_eq_ok_iff.1 hfinish
    obtain ⟨⟨guessed, p'⟩, ν₃, hguessed, hfinish⟩ := runOn_bind_eq_ok_iff.1 hfinish
    rw [runOn_liftM_eq_ok_iff] at hdirection hmoved
    rw [runOn_ahead] at hguessed
    obtain ⟨d, rfl⟩ := Tensor.exists_eq_ofNodes (hs.shape_unflatten hdirection.1)
    obtain rfl := Except.ok.inj ((moved_eq hs a d).symm.trans hmoved.1)
    obtain ⟨G', rfl⟩ := Tensor.exists_eq_ofNodes
      (shape_aheadFrom_stationarity (Tensor.shape_ofNodes _) (Prod.mk.inj hguessed).1)
    dsimp only at hfinish
    rw [guessedResidual_eq hs, runOn_ok_bind, Tensor.flat_ofNodes] at hfinish
    cases hfinish
    exact Tensor.shape_ofFn _

/-- On the system of a model with responses every residual and image answers once a point is set. -/
theorem answers_of_prepare {r : Responses n m c} (hs : system.Replies r N h ζ) {t δ δ' : ℝ}
    (hnow : system.problem.horizon.step t = .ok δ)
    (hnext : system.problem.horizon.step (t + h) = .ok δ') (x : Fin n → ℝ)
    (a : ℕ → Fin (m + c) → ℝ) (X L : ℕ → Fin n → ℝ) (before : Memory ℝ) :
    ∃ μ J, (system.prepare t (.ofFn x) (.ofNodes N a)
        ⟨.ofNodes (N + 1) X, .ofNodes (N + 1) L⟩).runOn before = (.ok (), μ) ∧
      (system.linearized t (.ofFn x) (.ofFn (flatten N a))).Answers (N * (m + c)) (· = μ) J := by
  obtain ⟨E, hE⟩ : ∃ E, E = (1 - h * ζ) • r.stateDefects t δ x a X := ⟨_, rfl⟩
  obtain ⟨M, hM⟩ : ∃ M, M = (1 - h * ζ) • r.costateDefects t δ a X L N := ⟨_, rfl⟩
  refine ⟨_, (· = .of N X L (t + h) (predicted r N h t x a)
    (some ⟨.ofNodes (N + 1) E, .ofNodes (N + 1) M⟩)
    (some (.ofNodes N (r.condensed (t + h) δ' (predicted r N h t x a) a E M N)))),
    prepare_of hs before, fun {v μ} hv hμ => ?_, fun {v μ} hv hμ => ?_⟩
  · obtain ⟨v, rfl⟩ := Tensor.exists_eq_ofFn hv
    subst hμ
    exact ⟨_, _, residual_of hs hnow hnext before.defects before.stationarity hE hM v,
      Tensor.shape_ofFn _, rfl⟩
  · obtain ⟨v, rfl⟩ := Tensor.exists_eq_ofFn hv
    have himage := image_of (y := predicted r N h t x a) (a := a) (X := X) (L := L) (E := E)
      (M := M) hs hnext (RecedingHorizon.unflatten N v)
    rw [flatten_unflatten] at himage
    subst hμ
    exact ⟨_, _, himage, Tensor.shape_ofFn _, rfl⟩

end Continuation

/-! ## The horizon of length zero -/

namespace Tensor

/-- An array taken from itself leaves zeros. -/
theorem minus_self (a : Tensor ℝ) : a.minus a = .ok (.zeros a.shape) := by
  rw [minus, pointwise, dif_pos rfl]
  refine congrArg Except.ok (ext_of_entries rfl ?_)
  show List.zipWith (· - ·) a.entries a.entries = Vec.zeros (volume a.shape)
  rw [List.zipWith_self, ← a.length_entries]
  simp only [sub_self]
  exact List.map_const'

/-- Zeros taken from an array of their shape leave it as it is. -/
theorem minus_zeros (a : Tensor ℝ) : a.minus (.zeros a.shape) = .ok a := by
  have hshape : a.shape = (zeros a.shape : Tensor ℝ).shape := rfl
  have hentries :
      List.zipWith (· - ·) a.entries (List.replicate a.entries.length 0) = a.entries := by
    rw [← List.map_const', List.zipWith_map_right, List.zipWith_self]
    simp only [sub_zero, List.map_id']
  rw [minus, pointwise, dif_pos hshape]
  refine congrArg Except.ok (ext_of_entries rfl ?_)
  rwa [a.length_entries] at hentries

theorem divide_zeros (shape : List ℕ) (c : ℝ) : (Tensor.zeros shape).divide c = .zeros shape := by
  refine ext_of_entries rfl ?_
  show (Vec.zeros (volume shape)).map (fun x => x / c) = Vec.zeros (volume shape)
  rw [Vec.zeros, List.map_replicate, zero_div]

end Tensor

namespace ZeroHorizon

variable {system : ZeroHorizon ℝ} {h : ℝ} {k : ℕ}

theorem quotient_eq (hh : system.differenceStep.scalar = .ok h) (hpos : 0 < h)
    (change : Tensor ℝ) : system.quotient change = .ok (change.divide h) := by
  rw [quotient, Datum.isZero_of_scalar hh, decide_eq_false hpos.ne', Bool.and_false,
    if_neg Bool.false_ne_true, Tensor.divideBy_of_scalar _ hh]

/-- A gradient that has been found is found again when it is remembered. -/
theorem runOn_gradient_found {t : Datum ℝ} {x action base : Tensor ℝ} {μ ν : Memory ℝ}
    (hbase : (system.gradient t x action).runOn μ = (.ok base, ν)) :
    (system.gradient t x action).runOn { ν with base := some base } =
      (.ok base, { ν with base := some base }) := by
  rcases hcostate : μ.costate with _ | costate
  · rw [gradient, runOn_get_bind, runOn_bind, hcostate, needed, runOn_throw] at hbase
    cases hbase
  · rw [runOn_gradient hcostate] at hbase
    obtain ⟨hgradient, rfl⟩ := Prod.mk.inj hbase
    have hcostate' : { μ with base := some base }.costate = some costate := hcostate
    rw [runOn_gradient hcostate', hgradient]

/-- In a step of the initial search the residual of a guess asks for nothing but the gradient, and
for the image of the guess unless this is zero. -/
theorem runOn_residual {t : Datum ℝ} {x action base : Tensor ℝ} {μ ν : Memory ℝ} (guess : Tensor ℝ)
    (hbase : (system.gradient t x action).runOn μ = (.ok base, ν)) :
    (system.residual t x action guess).runOn μ =
      (if guess.isZero then pure base.neg
        else do base.neg.minus (← system.image t x action guess)).runOn
          { ν with base := some base } := by
  rw [residual, runOn_bind, hbase]
  rfl

/-- The linear system of a step of the initial search is consistent, whatever its model is. -/
theorem consistent (hh : system.differenceStep.scalar = .ok h) (hpos : 0 < h) (t : Datum ℝ)
    (x : Tensor ℝ) (u : Fin k → ℝ) : (system.linearized t x (.ofFn u)).IsConsistent k := by
  intro v μ
  show ((system.residual t x (.ofFn u) (.ofFn v)).runOn μ).2 =
      ((system.residual t x (.ofFn u) (.ofFn 0)).runOn μ).2 ∧
    ((system.residual t x (.ofFn u) (.ofFn v)).runOn μ).1 = (do
      let b ← ((system.residual t x (.ofFn u) (.ofFn 0)).runOn μ).1
      let image ← ((system.image t x (.ofFn u) (.ofFn v)).runOn
        ((system.residual t x (.ofFn u) (.ofFn v)).runOn μ).2).1
      b.minus image)
  rcases hbase : (system.gradient t x (.ofFn u)).runOn μ with ⟨fault | base, ν⟩
  · have hresidual (guess : Tensor ℝ) :
        (system.residual t x (.ofFn u) guess).runOn μ = (.error fault, ν) := by
      rw [residual, runOn_bind, hbase]
    rw [hresidual, hresidual]
    exact ⟨rfl, rfl⟩
  · obtain ⟨found, hfound⟩ : ∃ found, found = { ν with base := some base } := ⟨_, rfl⟩
    have hresidual (guess : Tensor ℝ) := runOn_residual guess hbase
    rw [← hfound] at hresidual
    have hzero : (system.residual t x (.ofFn u) (.ofFn (0 : Fin k → ℝ))).runOn μ =
        (.ok base.neg, found) := by
      rw [hresidual, if_pos (Tensor.isZero_ofFn.2 rfl), runOn_pure]
    by_cases hv : v = 0
    · have himage : ((system.image t x (.ofFn u) (.ofFn (0 : Fin k → ℝ))).runOn found).1 =
          .ok (.zeros base.neg.shape) := by
        have hagain : (system.gradient t x (.ofFn u)).runOn found = (.ok base, found) := by
          rw [hfound]
          exact runOn_gradient_found hbase
        simp only [image, runOn_bind, runOn_get, runOn_needed, runOn_liftM, hfound,
          Tensor.scaleBy_of_scalar _ hh, Tensor.scale_ofFn, smul_zero, Tensor.plus_ofFn, add_zero]
        rw [← hfound, hagain]
        simp only [Tensor.minus_self, quotient_eq hh hpos]
        exact congrArg Except.ok (Tensor.divide_zeros base.shape h)
      rw [hv, hzero, himage, ok_bind, ok_bind, Tensor.minus_zeros]
      exact ⟨rfl, rfl⟩
    · have hkept : ((system.image t x (.ofFn u) (.ofFn v)).runOn found).2 = found :=
        preserves_image (I := (· = found)) t x _ _ found rfl
      rcases himage : (system.image t x (.ofFn u) (.ofFn v)).runOn found with ⟨answer, found'⟩
      obtain rfl : found' = found := by rwa [himage] at hkept
      have hguess : (system.residual t x (.ofFn u) (.ofFn v)).runOn μ =
          (answer >>= fun image => base.neg.minus image, found') := by
        rw [hresidual, if_neg (mt Tensor.isZero_ofFn.1 hv), runOn_bind, himage]
        rcases answer with fault | image <;> rfl
      rw [hguess, hzero, himage]
      exact ⟨rfl, rfl⟩

/-- On the system of a model with responses every residual and image answers once the costate has
been found. -/
theorem answers_of_prepare {n m c : ℕ} {r : Responses n m c} (hm : system.model.Answers r)
    (hh : system.differenceStep.scalar = .ok h) (hpos : 0 < h) (t : ℝ) (x : Fin n → ℝ)
    (u : Fin (m + c) → ℝ) (before : Memory ℝ) :
    ∃ μ J, (system.prepare t (.ofFn x)).runOn before = (.ok (), μ) ∧
      (system.linearized t (.ofFn x) (.ofFn u)).Answers (m + c) (· = μ) J := by
  obtain ⟨gradient, hgradient⟩ : ∃ gradient : (Fin (m + c) → ℝ) → Fin (m + c) → ℝ, ∀ a,
      r.controlGradient x a (r.terminalGradient x t) t = gradient a := ⟨_, fun _ => rfl⟩
  have hfound (a : Fin (m + c) → ℝ) {μ : Memory ℝ}
      (hμ : μ.costate = some (.ofFn (r.terminalGradient x t))) :
      (system.gradient t (.ofFn x) (.ofFn a)).runOn μ = (.ok (.ofFn (gradient a)), μ) := by
    rw [runOn_gradient hμ, hm.controlGradient, hgradient]
  have himage (v : Fin (m + c) → ℝ) {μ : Memory ℝ}
      (hμ : μ.costate = some (.ofFn (r.terminalGradient x t)))
      (hbase : μ.base = some (.ofFn (gradient u))) :
      (system.image t (.ofFn x) (.ofFn u) (.ofFn v)).runOn μ =
        (.ok (.ofFn fun i => (gradient (u + h • v) - gradient u) i / h), μ) := by
    simp only [image, runOn_bind, runOn_get, runOn_needed, runOn_liftM, hbase,
      Tensor.scaleBy_of_scalar _ hh, Tensor.scale_ofFn, Tensor.plus_ofFn, hfound _ hμ,
      Tensor.minus_ofFn, quotient_eq hh hpos, Tensor.divide_ofFn]
  refine ⟨{ before with costate := some (.ofFn (r.terminalGradient x t)) },
    fun μ => μ.costate = some (.ofFn (r.terminalGradient x t)) ∧
      μ.base = some (.ofFn (gradient u)), ?_, fun {v μ} hv hμ => ?_, fun {v μ} hv hμ => ?_⟩
  · rw [runOn_prepare, hm.terminalGradient]
  · obtain ⟨v, rfl⟩ := Tensor.exists_eq_ofFn hv
    have hcostate : μ.costate = some (.ofFn (r.terminalGradient x t)) := by rw [hμ]
    have hresidual := runOn_residual (.ofFn v) (hfound u hcostate)
    by_cases hv : (Tensor.ofFn v).isZero = true
    · rw [if_pos hv, runOn_pure, Tensor.neg_ofFn] at hresidual
      exact ⟨_, _, hresidual, Tensor.shape_ofFn _, hcostate, rfl⟩
    · rw [if_neg hv, runOn_bind,
        himage (μ := { μ with base := some (.ofFn (gradient u)) }) v hcostate rfl] at hresidual
      dsimp only at hresidual
      rw [runOn_liftM, Tensor.neg_ofFn, Tensor.minus_ofFn] at hresidual
      exact ⟨_, _, hresidual, Tensor.shape_ofFn _, hcostate, rfl⟩
  · obtain ⟨v, rfl⟩ := Tensor.exists_eq_ofFn hv
    exact ⟨_, μ, himage v hμ.1 hμ.2, Tensor.shape_ofFn _, hμ⟩

end ZeroHorizon

namespace Krylov.Equation

/-- A linear operator is consistent with any right-hand side. -/
theorem consistent_ofOperator {σ : Type} {n p : ℕ} {A : Tensor ℝ → Except (Fault ℝ) (Tensor ℝ)}
    (g : (Fin n → ℝ) →ₗ[ℝ] Fin p → ℝ) (hA : ∀ v, A (.ofFn v) = .ok (.ofFn (g v)))
    (b : Fin p → ℝ) : (ofOperator A (.ofFn b) : Equation (StateM σ) ℝ).IsConsistent n := by
  intro v μ
  have hresidual (v : Fin n → ℝ) :
      operatorResidual A (.ofFn b) (.ofFn v) = .ok (.ofFn (b - g v)) := by
    rw [operatorResidual]
    split
    · next hv => rw [Tensor.isZero_ofFn.1 hv, map_zero, sub_zero]
    · rw [hA, ok_bind, Tensor.minus_ofFn]
  refine ⟨rfl, ?_⟩
  show operatorResidual A (.ofFn b) (.ofFn v) = (do
    let b ← operatorResidual A (.ofFn b) (.ofFn 0)
    let image ← A (.ofFn v)
    b.minus image)
  rw [hresidual, hresidual, map_zero, sub_zero, hA, ok_bind, ok_bind, Tensor.minus_ofFn]

/-- All three systems are consistent: that of a continuation step, at any point and whatever its
model is, that of a step of the initial search, and that of a linear operator.  For a model that
answers on vectors the first two answer too, once they are prepared. -/
theorem isConsistent :
    (∀ {system : Continuation ℝ} {N k : ℕ} {h ζ : ℝ}, system.Scaled N k h ζ →
      ∀ t x flat, (system.linearized t x flat).IsConsistent (N * k)) ∧
    (∀ {n m c N : ℕ} {system : Continuation ℝ} {r : Responses n m c} {h ζ T a t₀ t : ℝ},
      system.Replies r N h ζ → system.problem.horizon.finalLength.scalar = .ok T →
      system.problem.horizon.growthRate.scalar = .ok a →
      system.problem.horizon.start.scalar = .ok t₀ → t₀ ≤ t →
      ∀ (x : Fin n → ℝ) (U : ℕ → Fin (m + c) → ℝ) (X L : ℕ → Fin n → ℝ) before, ∃ μ J,
        (system.prepare t (.ofFn x) (.ofNodes N U)
          ⟨.ofNodes (N + 1) X, .ofNodes (N + 1) L⟩).runOn before = (.ok (), μ) ∧
        (system.linearized t (.ofFn x) (.ofFn (flatten N U))).Answers (N * (m + c)) (· = μ) J) ∧
    (∀ {system : ZeroHorizon ℝ} {h : ℝ}, system.differenceStep.scalar = .ok h → 0 < h →
      (∀ {k : ℕ} t x (u : Fin k → ℝ), (system.linearized t x (.ofFn u)).IsConsistent k) ∧
      ∀ {n m c : ℕ} {r : Responses n m c}, system.model.Answers r →
        ∀ (t : ℝ) (x : Fin n → ℝ) (u : Fin (m + c) → ℝ) before, ∃ μ J,
          (system.prepare t (.ofFn x)).runOn before = (.ok (), μ) ∧
          (system.linearized t (.ofFn x) (.ofFn u)).Answers (m + c) (· = μ) J) ∧
    ∀ {σ : Type} {n p : ℕ} {A : Tensor ℝ → Except (Fault ℝ) (Tensor ℝ)}
      (g : (Fin n → ℝ) →ₗ[ℝ] Fin p → ℝ), (∀ v, A (.ofFn v) = .ok (.ofFn (g v))) →
      ∀ b : Fin p → ℝ, (ofOperator A (.ofFn b) : Equation (StateM σ) ℝ).IsConsistent n := by
  refine ⟨fun hs => Continuation.consistent hs, ?_, fun hh hpos => ⟨?_, ?_⟩, ?_⟩
  · intro n m c N system r h ζ T a t₀ t hs hT ha hstart ht x U X L before
    have hnow := Horizon.step_of_scalar hT ha hstart hs.divisions ht
    have hnext := Horizon.step_of_scalar hT ha hstart hs.divisions
      (ht.trans (le_add_of_nonneg_right hs.step_pos.le))
    exact Continuation.answers_of_prepare hs hnow hnext x U X L before
  · exact fun t x u => ZeroHorizon.consistent hh hpos t x u
  · exact fun hm t x u before => ZeroHorizon.answers_of_prepare hm hh hpos t x u before
  · exact fun g hA b => consistent_ofOperator g hA b

/-- The systems of the integrator, and the operator that doubles a vector. -/
theorem isConsistent_integrator :
    (∀ t x flat, ((unitController.continuation 0).linearized t x flat).IsConsistent (1 * 1)) ∧
    (∀ (x : Fin 1 → ℝ) (U : ℕ → Fin 1 → ℝ) (X L : ℕ → Fin 1 → ℝ) before, ∃ μ J,
      ((unitController.continuation 0).prepare (.number (.real 2)) (.ofFn x) (.ofNodes 1 U)
        ⟨.ofNodes 2 X, .ofNodes 2 L⟩).runOn before = (.ok (), μ) ∧
      ((unitController.continuation 0).linearized (.number (.real 2)) (.ofFn x)
        (.ofFn (flatten 1 U))).Answers (1 * 1) (· = μ) J) ∧
    ((∀ t x (u : Fin 1 → ℝ), ((⟨Regulator.integrator.model, 1⟩ :
        ZeroHorizon ℝ).linearized t x (.ofFn u)).IsConsistent 1) ∧
      ∀ (x : Fin 1 → ℝ) (u : Fin 1 → ℝ) before, ∃ μ J,
        ((⟨Regulator.integrator.model, 1⟩ : ZeroHorizon ℝ).prepare (.number (.real 2))
          (.ofFn x)).runOn before = (.ok (), μ) ∧
        ((⟨Regulator.integrator.model, 1⟩ : ZeroHorizon ℝ).linearized (.number (.real 2)) (.ofFn x)
          (.ofFn u)).Answers 1 (· = μ) J) ∧
    ∀ b : Fin 1 → ℝ, (ofOperator (fun v => .ok (v.scale 2)) (.ofFn b) :
      Equation (StateM Unit) ℝ).IsConsistent 1 := by
  have hreplies := serves_unitController.replies_continuation 0
  have hstep : (⟨Regulator.integrator.model, 1⟩ : ZeroHorizon ℝ).differenceStep.scalar = .ok 1 :=
    congrArg Except.ok Int.cast_one
  have hstart : (unitController.continuation 0).problem.horizon.start.scalar = .ok 0 :=
    congrArg Except.ok Int.cast_zero
  obtain ⟨hcontinuation, hanswers, hzero, hoperator⟩ := isConsistent
  refine ⟨hcontinuation hreplies.toScaled, fun x U X L before => ?_, ?_, fun b => ?_⟩
  · exact hanswers hreplies serves_unitController.horizonLength serves_unitController.growthRate
      hstart zero_le_two x U X L before
  · obtain ⟨hconsistent, hfound⟩ := hzero hstep one_pos
    exact ⟨hconsistent, fun x u before => hfound Regulator.integrator.answers 2 x u before⟩
  · have hdoubled (v : Fin 1 → ℝ) : (.ok ((Tensor.ofFn v).scale 2) : Except (Fault ℝ) (Tensor ℝ)) =
        .ok (.ofFn (((2 : ℝ) • LinearMap.id : (Fin 1 → ℝ) →ₗ[ℝ] Fin 1 → ℝ) v)) :=
      congrArg Except.ok (Tensor.scale_ofFn 2 v)
    exact hoperator (A := fun v => .ok (v.scale 2)) _ hdoubled b

end Krylov.Equation

end RecedingHorizon
