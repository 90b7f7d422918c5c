import Mathlib
import RecedingHorizon.Residual
import RecedingHorizon.Proofs.Condensing

/-!
# Shooting over the real numbers

For a model that answers on vectors, each of the functions that walk along a
horizon succeeds, and its result is the array of the sequence written down for the
responses.  Nothing is asked but that the array of all nodes can be had.

* `Room`: the array of all nodes can be had.
* `Recurrence.run_eq_ok`, `Recurrence.collect_eq_ok`: values found one after the
  other are those of a sequence.
* `shootStates_eq`, `shootCostates_eq`, `condense_eq`: trajectories.
* `stateDefects_eq`, `costateDefects_eq`, `shootingDefects_eq`: defects.
* `stationarity_eq`: the stationarity.
* `Problem.residual_eq`, `Problem.condensedStationarity_eq`: the same on a horizon.
* `Residual.norm_ofNodes`, `Residual.norm_eq_zero_iff`: the norm of a residual.
-/

namespace RecedingHorizon

variable {n m c N : ℕ}

/-- The array of `N + 1` nodes with `n` entries each can be had. -/
def Room (N n : ℕ) : Prop :=
  Tensor.checkRoom [(N : ℤ) + 1, (n : ℤ)] = (.ok () : Except (Fault ℝ) Unit)

/-- The nodes of two steps or fewer find room, with a single entry each. -/
theorem Room.of_le_two (hN : N ≤ 2) : Room N 1 := by
  interval_cases N <;> exact Tensor.checkRoom_of_lt rfl (by decide)

namespace Recurrence

variable {ε β : Type}

theorem follow_of_step {step : ℕ → β → Except ε β} {g : ℕ → β} (left i : ℕ)
    (h : ∀ j < left, step (i + j) (g (i + j)) = .ok (g (i + j + 1))) :
    Follow step i (g i) (List.ofFn fun j : Fin left => g (i + j + 1)) := by
  induction left generalizing i with
  | zero => simp [Follow]
  | succ left ih =>
      rw [List.ofFn_succ]
      refine ⟨h 0 (Nat.succ_pos _), ?_⟩
      have hstep : ∀ j < left, step (i + 1 + j) (g (i + 1 + j)) = .ok (g (i + 1 + j + 1)) := by
        intro j hj
        have := h (j + 1) (Nat.succ_lt_succ hj)
        rwa [← Nat.add_assoc, Nat.add_right_comm i j 1] at this
      have hnext := ih (i + 1) hstep
      have hfun : (fun j : Fin left => g (i + (j.succ : ℕ) + 1)) =
          fun j : Fin left => g (i + 1 + j + 1) := by
        funext j
        rw [Fin.val_succ, Nat.add_right_comm i 1 j, Nat.add_assoc i j 1]
      rw [hfun]
      exact hnext

/-- Values found one from the other are those of a sequence that does so. -/
theorem run_eq_ok {step : ℕ → β → Except ε β} {g : ℕ → β} {n : ℕ}
    (h : ∀ j < n, step j (g j) = .ok (g (j + 1))) :
    run step n (g 0) = .ok (List.ofFn fun j : Fin (n + 1) => g j) := by
  rw [run_eq_ok_iff]
  refine ⟨List.ofFn fun j : Fin n => g (0 + j + 1), ?_, by simp, ?_⟩
  · rw [List.ofFn_succ]
    simp
  · exact follow_of_step n 0 fun j hj => by simpa using h j hj

/-- Values found each on its own are those of a sequence. -/
theorem collect_eq_ok {f : ℕ → Except ε β} {g : ℕ → β} {n : ℕ} (h : ∀ j < n, f j = .ok (g j)) :
    collect f n = .ok (List.ofFn fun j : Fin n => g j) := by
  rw [collect_eq_ok_iff]
  refine ⟨by simp, fun i hi => ?_⟩
  rw [h i (by simpa using hi), List.getElem_ofFn]

end Recurrence

/-- Listed the other way round, the first `n` terms of a sequence. -/
theorem reverse_ofFn {β : Type} (g : ℕ → β) (n : ℕ) :
    (List.ofFn fun j : Fin n => g j).reverse = List.ofFn fun j : Fin n => g (n - 1 - j) := by
  apply List.ext_getElem
  · simp
  · intro i h₁ h₂
    rw [List.getElem_reverse, List.getElem_ofFn, List.getElem_ofFn]
    exact congrArg (fun k => g (k - 1 - i)) List.length_ofFn

theorem zeroRows_zero (shape : List ℕ) : (zeroRows 0 shape : List (Row ℝ shape)) = [] := rfl

/-! ## Steps -/

/-- The array prescribes the defects, or there is none and the defects are zero. -/
def Prescribes (N : ℕ) (E : ℕ → Fin n → ℝ) : Option (Tensor ℝ) → Prop
  | none => E = 0
  | some a => a = .ofNodes (N + 1) E

theorem addDefect_eq {E : ℕ → Fin n → ℝ} {p : Option (Tensor ℝ)} (hp : Prescribes N E p) {i : ℕ}
    (hi : i ≤ N) (v : Fin n → ℝ) :
    addDefect (p.map Tensor.path) i (Tensor.nodeRow v) = .ok (Tensor.nodeRow (v + E i)) := by
  cases p with
  | none =>
      obtain rfl : E = 0 := hp
      simp [addDefect]
  | some a =>
      obtain rfl : a = .ofNodes (N + 1) E := hp
      simp only [Option.map_some, addDefect, Path.node_path,
        Tensor.item_ofNodes E (Nat.lt_succ_of_le hi), ok_bind]
      rw [Row.increase, Tensor.val_nodeRow, Tensor.plus_ofFn]
      simp only [ok_bind, Tensor.shape_ofFn, dif_pos]
      rfl

namespace Model

variable {model : Model ℝ} {r : Responses n m c} {t δ : ℝ} {a : ℕ → Fin (m + c) → ℝ}

open Responses

theorem stateIncrement_eq (hm : model.Answers r) (x : Fin n → ℝ) (u : Fin (m + c) → ℝ) (τ : ℝ) :
    model.stateIncrement (.ofFn x) (.ofFn u) τ δ =
      .ok (.ofFn (δ • r.dynamics x (RecedingHorizon.control u) τ)) := by
  rw [stateIncrement, hm.control]
  simp only [ok_bind, hm.dynamics]
  rw [Tensor.scaleBy_real, Tensor.scale_ofFn]

theorem nextState_eq (hm : model.Answers r) {E : ℕ → Fin n → ℝ} {p : Option (Tensor ℝ)}
    (hp : Prescribes N E p) {i : ℕ} (hi : i < N) (x : Fin n → ℝ) :
    model.nextState t δ (Tensor.ofNodes N a).path (p.map Tensor.path) i (Tensor.nodeRow x) =
      .ok (Tensor.nodeRow
        (x + δ • r.dynamics x (RecedingHorizon.control (a i)) (t + i * δ) + E (i + 1))) := by
  simp only [nextState, nodeTime_real, Path.node_path, Tensor.item_ofNodes a hi, bind, Except.bind,
    Tensor.val_nodeRow, stateIncrement_eq hm, Tensor.plus_ofFn, Tensor.spread_ofFn]
  exact addDefect_eq hp hi _

/-- The states at all nodes. -/
theorem shootStates_eq (hm : model.Answers r) (hroom : Room N n) {E : ℕ → Fin n → ℝ}
    {p : Option (Tensor ℝ)} (hp : Prescribes N E p) (x : Fin n → ℝ) :
    model.shootStates t (.ofFn x) (.ofNodes N a) δ p =
      .ok (.ofNodes (N + 1) (r.states t δ x a E)) := by
  have hstep : ∀ j < N, model.nextState t δ (Tensor.ofNodes N a).path (p.map Tensor.path) j
      (Tensor.nodeRow (r.states t δ x a E j)) =
        .ok (Tensor.nodeRow (r.states t δ x a E (j + 1))) :=
    fun j hj => nextState_eq hm hp hj _
  have hrun := Recurrence.run_eq_ok hstep
  rw [states_zero] at hrun
  rw [Room] at hroom
  -- by single rewrites: `simp` would make the kernel evaluate the size of the array
  rw [shootStates, Tensor.count_ofNodes, ok_bind, Tensor.count_ofFn, ok_bind, hroom, ok_bind,
    Tensor.spread_ofFn, ok_bind]
  dsimp only
  rw [hrun]
  rfl

theorem costateIncrement_eq (hm : model.Answers r) (x : Fin n → ℝ) (u : Fin (m + c) → ℝ)
    (l : Fin n → ℝ) (τ : ℝ) :
    model.costateIncrement (.ofFn x) (.ofFn u) (.ofFn l) τ δ =
      .ok (.ofFn (δ • r.stateGradient x u l τ)) := by
  rw [costateIncrement, hm.stateGradient, ok_bind, Tensor.scaleBy_real, Tensor.scale_ofFn]

variable {X L : ℕ → Fin n → ℝ}

theorem terminalCostate_eq (hm : model.Answers r) {E : ℕ → Fin n → ℝ} {p : Option (Tensor ℝ)}
    (hp : Prescribes N E p) :
    model.terminalCostate t δ (Tensor.ofNodes (N + 1) X).path (p.map Tensor.path) [n] N =
      .ok (Tensor.nodeRow (r.terminalGradient (X N) (t + N * δ) + E N)) := by
  simp only [terminalCostate, nodeTime_real, Path.node_path,
    Tensor.item_ofNodes X (Nat.lt_succ_self N), ok_bind, hm.terminalGradient, Tensor.spread_ofFn]
  exact addDefect_eq hp le_rfl _

theorem previousCostate_eq (hm : model.Answers r) {E : ℕ → Fin n → ℝ} {p : Option (Tensor ℝ)}
    (hp : Prescribes N E p) {i : ℕ} (hi : i < N) (next : Fin n → ℝ) :
    model.previousCostate t δ (Tensor.ofNodes (N + 1) X).path (Tensor.ofNodes N a).path
        (p.map Tensor.path) i (Tensor.nodeRow next) =
      .ok (Tensor.nodeRow (r.pulled t δ X a E i next)) := by
  simp only [previousCostate, nodeTime_real, Path.node_path,
    Tensor.item_ofNodes X (Nat.lt_succ_of_lt hi), Tensor.item_ofNodes a hi, ok_bind,
    Tensor.val_nodeRow, costateIncrement_eq hm, Tensor.plus_ofFn, Tensor.spread_ofFn, pulled]
  by_cases h0 : i = 0
  · rw [if_pos h0, if_pos h0, add_zero]
    rfl
  · rw [if_neg h0, if_neg h0]
    exact addDefect_eq hp hi.le _

/-- The costates at all nodes. -/
theorem shootCostates_eq (hm : model.Answers r) {E : ℕ → Fin n → ℝ} {p : Option (Tensor ℝ)}
    (hp : Prescribes N E p) :
    model.shootCostates t (.ofNodes (N + 1) X) (.ofNodes N a) δ p =
      .ok (.ofNodes (N + 1) (r.costates t δ X a E N)) := by
  have hstep : ∀ j < N, model.previousCostate t δ (Tensor.ofNodes (N + 1) X).path
      (Tensor.ofNodes N a).path (p.map Tensor.path) (N - 1 - j)
      (Tensor.nodeRow (r.costateBack t δ X a E N j)) =
        .ok (Tensor.nodeRow (r.costateBack t δ X a E N (j + 1))) :=
    fun j hj => previousCostate_eq hm hp (by omega) _
  have hrun := Recurrence.run_eq_ok hstep
  have hrows : (List.ofFn fun j : Fin (N + 1) =>
      Tensor.nodeRow (r.costateBack t δ X a E N j)).reverse =
        List.ofFn fun i : Fin (N + 1) => Tensor.nodeRow (r.costates t δ X a E N i) := by
    rw [reverse_ofFn fun j => Tensor.nodeRow (r.costateBack t δ X a E N j)]
    rfl
  rw [shootCostates, Tensor.count_ofNodes, ok_bind, Tensor.count_ofNodes]
  -- the shape of a costate is that of a state
  generalize hs : (Tensor.ofNodes (N + 1) X).shape.drop 1 = shape
  obtain rfl : [n] = shape := by rw [← hs, Tensor.shape_ofNodes]; rfl
  dsimp only
  rw [terminalCostate_eq hm hp, ok_bind]
  rw [costateBack] at hrun
  rw [hrun, ok_bind, ok_bind, hrows, Nat.sub_self, zeroRows_zero, List.append_nil]
  rfl

/-- The trajectory with prescribed defects. -/
theorem condense_eq (hm : model.Answers r) (hroom : Room N n) {D : Option (Defects ℝ)}
    {E M : ℕ → Fin n → ℝ} (hE : Prescribes N E (D.map Defects.states))
    (hM : Prescribes N M (D.map Defects.costates)) (x : Fin n → ℝ) :
    model.condense t (.ofFn x) (.ofNodes N a) δ D =
      .ok ⟨.ofNodes (N + 1) (r.states t δ x a E),
        .ofNodes (N + 1) (r.costates t δ (r.states t δ x a E) a M N)⟩ := by
  rw [condense, shootStates_eq hm hroom hE, ok_bind, shootCostates_eq hm hM]
  rfl

/-! ## Defects and stationarity -/

theorem stateAt_eq (x : Fin n → ℝ) {i : ℕ} (hi : i ≤ N) :
    stateAt (.ofFn x) (Tensor.ofNodes (N + 1) X).path i = .ok (.ofFn (seen x X i)) := by
  rw [stateAt, seen]
  by_cases h0 : i = 0
  · rw [if_pos h0, if_pos h0]
  · rw [if_neg h0, if_neg h0, Path.node_path, Tensor.item_ofNodes X (Nat.lt_succ_of_le hi)]

/-- The defects of the states at all nodes. -/
theorem stateDefects_eq (hm : model.Answers r) (hroom : Room N n) (x : Fin n → ℝ) :
    model.stateDefects t (.ofFn x) (.ofNodes N a) (.ofNodes (N + 1) X) δ =
      .ok (.ofNodes (N + 1) (r.stateDefects t δ x a X)) := by
  have hdefect : ∀ i < N, (model.stateDefect t (.ofFn x) (Tensor.ofNodes N a).path
      (Tensor.ofNodes (N + 1) X).path δ i >>= fun e => e.spread [n]) =
        .ok (Tensor.nodeRow (r.stateDefects t δ x a X (i + 1))) := by
    intro i hi
    simp only [stateDefect, nodeTime_real, Path.node_path, Tensor.item_ofNodes a hi,
      Tensor.item_ofNodes X (Nat.succ_lt_succ hi), stateAt_eq x hi.le, ok_bind,
      stateIncrement_eq hm, Tensor.minus_ofFn, Tensor.spread_ofFn]
    rfl
  have hcollect := Recurrence.collect_eq_ok hdefect
  rw [Room] at hroom
  rw [stateDefects, Tensor.count_ofNodes, ok_bind, Tensor.count_ofFn, ok_bind, hroom, ok_bind]
  dsimp only
  rw [hcollect, ok_bind, Tensor.ofNodes_succ, Tensor.row_zeros]
  rfl

theorem terminalDefect_eq (hm : model.Answers r) :
    model.terminalDefect t (Tensor.ofNodes (N + 1) X).path (Tensor.ofNodes (N + 1) L).path δ N =
      .ok (.ofFn (L N - r.terminalGradient (X N) (t + N * δ))) := by
  simp only [terminalDefect, nodeTime_real, Path.node_path,
    Tensor.item_ofNodes X (Nat.lt_succ_self N), Tensor.item_ofNodes L (Nat.lt_succ_self N), ok_bind,
    hm.terminalGradient, Tensor.minus_ofFn]

theorem costateDefect_eq (hm : model.Answers r) {i : ℕ} (hi : i < N) :
    model.costateDefect t (Tensor.ofNodes N a).path (Tensor.ofNodes (N + 1) X).path
        (Tensor.ofNodes (N + 1) L).path δ i =
      .ok (.ofFn (L i - L (i + 1) - δ • r.stateGradient (X i) (a i) (L (i + 1)) (t + i * δ))) := by
  simp only [costateDefect, nodeTime_real, Path.node_path,
    Tensor.item_ofNodes X (Nat.lt_succ_of_lt hi), Tensor.item_ofNodes L (Nat.lt_succ_of_lt hi),
    Tensor.item_ofNodes L (Nat.succ_lt_succ hi), Tensor.item_ofNodes a hi, ok_bind,
    costateIncrement_eq hm, Tensor.minus_ofFn]

/-- The rows of the costate defects, as they are put together: unless there is only one,
the first one is zero. -/
theorem defectRows (M : ℕ → Fin n → ℝ) (N : ℕ) (h0 : 0 < N → M 0 = 0) :
    zeroRows (min N 1) [n] ++
        (List.ofFn fun j : Fin (N - 1) => Tensor.nodeRow (M (N - 1 - j))).reverse ++
        [Tensor.nodeRow (M N)] =
      List.ofFn fun i : Fin (N + 1) => Tensor.nodeRow (M i) := by
  cases N with
  | zero => rfl
  | succ k =>
      have hmiddle : (fun j : Fin k => Tensor.nodeRow (M (k - (k - 1 - j)))) =
          fun j : Fin k => Tensor.nodeRow (M (j + 1)) := by
        funext j
        have hj := j.isLt
        rw [show k - (k - 1 - (j : ℕ)) = j + 1 by omega]
      have hzero : (zeroRows (min (k + 1) 1) [n] : List (Row ℝ [n])) = [Tensor.nodeRow (M 0)] := by
        rw [h0 (Nat.succ_pos k), Nat.min_eq_right (Nat.succ_le_succ (Nat.zero_le k))]
        exact congrArg (fun r => [r]) Tensor.row_zeros
      rw [hzero, Nat.add_sub_cancel, reverse_ofFn (fun j => Tensor.nodeRow (M (k - j))) k, hmiddle,
        List.ofFn_succ, List.ofFn_succ_last]
      rfl

/-- The rows of the costate defects for responses. -/
theorem costateDefects_rows (N : ℕ) :
    zeroRows (min N 1) [n] ++
        (List.ofFn fun j : Fin (N - 1) =>
          Tensor.nodeRow (r.costateDefects t δ a X L N (N - 1 - j))).reverse ++
        [Tensor.nodeRow (L N - r.terminalGradient (X N) (t + N * δ))] =
      List.ofFn fun i : Fin (N + 1) => Tensor.nodeRow (r.costateDefects t δ a X L N i) := by
  have hlast : L N - r.terminalGradient (X N) (t + N * δ) = r.costateDefects t δ a X L N N := by
    rw [Responses.costateDefects, if_pos rfl]
  have hfirst (hN : 0 < N) : r.costateDefects t δ a X L N 0 = 0 := by
    rw [Responses.costateDefects, if_neg hN.ne, if_pos rfl]
  rw [hlast]
  exact defectRows (r.costateDefects t δ a X L N) N hfirst

/-- The defects of the costates at all nodes. -/
theorem costateDefects_eq (hm : model.Answers r) :
    model.costateDefects t (.ofNodes N a) (.ofNodes (N + 1) X) (.ofNodes (N + 1) L) δ =
      .ok (.ofNodes (N + 1) (r.costateDefects t δ a X L N)) := by
  have hdefect : ∀ j < N - 1, (model.costateDefect t (Tensor.ofNodes N a).path
      (Tensor.ofNodes (N + 1) X).path (Tensor.ofNodes (N + 1) L).path δ (N - 1 - j) >>=
        fun e => e.spread [n]) =
        .ok (Tensor.nodeRow (r.costateDefects t δ a X L N (N - 1 - j))) := by
    intro j hj
    rw [costateDefect_eq hm (by omega), ok_bind, Tensor.spread_ofFn, Responses.costateDefects,
      if_neg (by omega), if_neg (by omega)]
  have hcollect := Recurrence.collect_eq_ok hdefect
  rw [costateDefects, Tensor.count_ofNodes, ok_bind, Tensor.count_ofNodes]
  generalize hs : (Tensor.ofNodes (N + 1) L).shape.drop 1 = shape
  obtain rfl : [n] = shape := by rw [← hs, Tensor.shape_ofNodes]; rfl
  dsimp only
  rw [terminalDefect_eq hm, ok_bind, Tensor.spread_ofFn, ok_bind, hcollect, ok_bind, ok_bind,
    Nat.sub_self, zeroRows_zero]
  exact congrArg (fun rows => Except.ok (Tensor.ofRows rows)) (costateDefects_rows N)

/-- The defects of a trajectory. -/
theorem shootingDefects_eq (hm : model.Answers r) (hroom : Room N n) (x : Fin n → ℝ) :
    model.shootingDefects t (.ofFn x) (.ofNodes N a)
        ⟨.ofNodes (N + 1) X, .ofNodes (N + 1) L⟩ δ =
      .ok ⟨.ofNodes (N + 1) (r.stateDefects t δ x a X),
        .ofNodes (N + 1) (r.costateDefects t δ a X L N)⟩ := by
  rw [shootingDefects, stateDefects_eq hm hroom, ok_bind, costateDefects_eq hm]
  rfl

/-- The stationarity of actions with a trajectory. -/
theorem stationarity_eq (hm : model.Answers r) (x : Fin n → ℝ) :
    model.stationarity t (.ofFn x) (.ofNodes N a)
        ⟨.ofNodes (N + 1) X, .ofNodes (N + 1) L⟩ δ =
      .ok (.ofNodes N (r.stationarity t δ x a X L)) := by
  have hgradient : ∀ i < N, (model.stationarityAt t (.ofFn x) (Tensor.ofNodes N a).path
      (Tensor.ofNodes (N + 1) X).path (Tensor.ofNodes (N + 1) L).path δ i >>=
        fun g => g.spread [m + c]) =
        .ok (Tensor.nodeRow (r.stationarity t δ x a X L i)) := by
    intro i hi
    simp only [stationarityAt, stateAt_eq x hi.le, Path.node_path, Tensor.item_ofNodes a hi,
      Tensor.item_ofNodes L (Nat.succ_lt_succ hi), nodeTime_real, ok_bind, hm.controlGradient,
      Tensor.spread_ofFn]
    rfl
  have hcollect := Recurrence.collect_eq_ok hgradient
  rw [Model.stationarity, Tensor.count_ofNodes, ok_bind]
  generalize hs : (Tensor.ofNodes N a).shape.drop 1 = shape
  obtain rfl : [m + c] = shape := by rw [← hs, Tensor.shape_ofNodes]; rfl
  dsimp only
  rw [hcollect]
  rfl

end Model

/-! ## On a horizon -/

namespace Problem

variable {problem : Problem ℝ} {r : Responses n m c} {t δ : ℝ}

/-- The residual of a trajectory. -/
theorem residual_eq (hm : problem.model.Answers r) (hroom : Room N n)
    (hstep : problem.horizon.step t = .ok δ) (x : Fin n → ℝ) (a : ℕ → Fin (m + c) → ℝ)
    (X L : ℕ → Fin n → ℝ) :
    problem.residual t (.ofFn x) (.ofNodes N a) ⟨.ofNodes (N + 1) X, .ofNodes (N + 1) L⟩ =
      .ok ⟨.ofNodes N (r.stationarity t δ x a X L), .ofNodes (N + 1) (r.stateDefects t δ x a X),
        .ofNodes (N + 1) (r.costateDefects t δ a X L N)⟩ := by
  rw [residual, hstep, ok_bind]
  dsimp only
  rw [Model.stationarity_eq hm, ok_bind, Model.shootingDefects_eq hm hroom, ok_bind]
  rfl

/-- The stationarity under prescribed defects, with the trajectory that has these. -/
theorem condensedStationarity_eq (hm : problem.model.Answers r) (hroom : Room N n)
    (hstep : problem.horizon.step t = .ok δ) (x : Fin n → ℝ) (a : ℕ → Fin (m + c) → ℝ)
    (E M : ℕ → Fin n → ℝ) :
    problem.condensedStationarity t (.ofFn x) (.ofNodes N a)
        (some ⟨.ofNodes (N + 1) E, .ofNodes (N + 1) M⟩) =
      .ok (.ofNodes N (r.condensed t δ x a E M N), ⟨.ofNodes (N + 1) (r.states t δ x a E),
        .ofNodes (N + 1) (r.costates t δ (r.states t δ x a E) a M N)⟩) := by
  rw [condensedStationarity, hstep, ok_bind]
  dsimp only
  rw [Model.condense_eq hm hroom (D := some ⟨.ofNodes (N + 1) E, .ofNodes (N + 1) M⟩) rfl rfl,
    ok_bind, Model.stationarity_eq hm, ok_bind]
  rfl

end Problem

/-! ## Norms -/

/-- Two sequences are paired term by term. -/
theorem flatten_dotProduct (s s' : ℕ → Fin n → ℝ) :
    flatten N s ⬝ᵥ flatten N s' = ∑ i ∈ Finset.range N, s i ⬝ᵥ s' i := by
  rw [dotProduct, ← finProdFinEquiv.sum_comp, Fintype.sum_prod_type, Finset.sum_range]
  refine Finset.sum_congr rfl fun i _ => Finset.sum_congr rfl fun j _ => ?_
  rw [flatten_finProdFinEquiv, flatten_finProdFinEquiv]

/-- The sum of the squares of an array. -/
theorem sumSquares_ofNodes (s : ℕ → Fin n → ℝ) :
    Vec.sumSquares (Tensor.ofNodes N s).entries = ∑ i ∈ Finset.range N, s i ⬝ᵥ s i := by
  rw [Tensor.entries_ofNodes, Vec.sumSquares_ofFn, flatten_dotProduct]

theorem sum_dotProduct_self_nonneg (N : ℕ) (s : ℕ → Fin n → ℝ) :
    0 ≤ ∑ i ∈ Finset.range N, s i ⬝ᵥ s i :=
  Finset.sum_nonneg fun i _ => dotProduct_self_nonneg (s i)

theorem sum_dotProduct_self_eq_zero {s : ℕ → Fin n → ℝ} :
    ∑ i ∈ Finset.range N, s i ⬝ᵥ s i = 0 ↔ ∀ i < N, s i = 0 := by
  rw [Finset.sum_eq_zero_iff_of_nonneg fun i _ => dotProduct_self_nonneg (s i)]
  simp only [Finset.mem_range, dotProduct_self_eq_zero]

namespace Residual

theorem norm_ofNodes (F : ℕ → Fin m → ℝ) (E M : ℕ → Fin n → ℝ) :
    norm ⟨.ofNodes N F, .ofNodes (N + 1) E, .ofNodes (N + 1) M⟩ =
      √((∑ i ∈ Finset.range N, F i ⬝ᵥ F i) + ((∑ i ∈ Finset.range (N + 1), E i ⬝ᵥ E i) +
        ∑ i ∈ Finset.range (N + 1), M i ⬝ᵥ M i)) := by
  rw [norm, Defects.squaredNorm, sumSquares_ofNodes, sumSquares_ofNodes, sumSquares_ofNodes,
    sqrt_eq]

/-- A residual has the norm zero if all of it is zero. -/
theorem norm_eq_zero_iff {F : ℕ → Fin m → ℝ} {E M : ℕ → Fin n → ℝ} :
    norm ⟨.ofNodes N F, .ofNodes (N + 1) E, .ofNodes (N + 1) M⟩ = 0 ↔
      (∀ i < N, F i = 0) ∧ (∀ i < N + 1, E i = 0) ∧ ∀ i < N + 1, M i = 0 := by
  have hF := sum_dotProduct_self_nonneg N F
  have hE := sum_dotProduct_self_nonneg (N + 1) E
  have hM := sum_dotProduct_self_nonneg (N + 1) M
  rw [norm_ofNodes, Real.sqrt_eq_zero (add_nonneg hF (add_nonneg hE hM)),
    add_eq_zero_iff_of_nonneg hF (add_nonneg hE hM), add_eq_zero_iff_of_nonneg hE hM,
    sum_dotProduct_self_eq_zero, sum_dotProduct_self_eq_zero, sum_dotProduct_self_eq_zero]

/-- Without defects the norm of a residual is that of the stationarity. -/
theorem norm_flawless (F : ℕ → Fin m → ℝ) :
    norm ⟨.ofNodes N F, .zeros [N + 1, n], .zeros [N + 1, n]⟩ =
      √(flatten N F ⬝ᵥ flatten N F) := by
  have hnone : ∑ i ∈ Finset.range (N + 1), (0 : ℕ → Fin n → ℝ) i ⬝ᵥ (0 : ℕ → Fin n → ℝ) i = 0 :=
    Finset.sum_eq_zero fun i _ => zero_dotProduct _
  have hzeros : (Tensor.zeros [N + 1, n] : Tensor ℝ) = .ofNodes (N + 1) (0 : ℕ → Fin n → ℝ) :=
    Tensor.zeros_eq_ofNodes
  rw [hzeros, norm_ofNodes, hnone, add_zero, add_zero, flatten_dotProduct]

end Residual

end RecedingHorizon
