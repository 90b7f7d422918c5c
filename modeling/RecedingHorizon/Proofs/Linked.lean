import Mathlib
import RecedingHorizon.Proofs.Shooting
import RecedingHorizon.Proofs.Spreading

/-!
# Linked nodes

A model may be any four functions.  They may fail, and what they answer need not be a
vector as long as it can be added to one.  Whatever they are, shooting a trajectory
with prescribed defects and reading the defects of a trajectory ask them the same
questions, and the answers enter the same equations

    X (i+1) = X i + δ f(X i, u i, τ i) + E (i+1),
    Λ N = φ'(X N, τ N) + M N,    Λ i = Λ (i+1) + δ H_x(X i, a i, Λ (i+1), τ i) + M i,

the one solved for the trajectory and the other for the defects.  So both are
described here by one relation between states, costates and defects, in which the
current state stands for `X 0`, and which says nothing about the costate at node
zero of a horizon with a step.

* `Recurrence.run_nodeRow_iff`, `Recurrence.run_nodeRow_back_iff`: rows found one from the other, as
  a sequence of vectors, from the first node on and from the last one back.
* `Model.Steps`, `Model.Ends`, `Model.Pulls`: one equation each.
* `Model.Linked`: all of them.
* `Model.condense_eq_ok_iff`: a trajectory with prescribed defects is linked by them.
* `Model.shootingDefects_eq_ok_iff`: so is a trajectory by the defects it has.
-/

namespace RecedingHorizon

variable {n N : ℕ}

namespace Recurrence

variable {ε β α : Type}

/-- Values found one from the other are the terms of a sequence. -/
theorem run_eq_ok_iff_exists {step : ℕ → β → Except ε β} {b : β} {bs : List β} :
    run step N b = .ok bs ↔
      ∃ g : ℕ → β, g 0 = b ∧ (∀ i < N, step i (g i) = .ok (g (i + 1))) ∧
        bs = List.ofFn fun i : Fin (N + 1) => g i := by
  constructor
  · intro h
    obtain ⟨later, rfl, hlength, hfollow⟩ := (run_eq_ok_iff step N b bs).1 h
    refine ⟨fun i => (b :: later).getD i b, rfl, fun i hi => ?_, ?_⟩
    · have hi : i < later.length := by omega
      have hstep := hfollow.step_getElem hi
      rw [Nat.zero_add] at hstep
      simp only [List.getD_cons_succ, List.getD_eq_getElem _ _ hi]
      rw [List.getD_eq_getElem _ _ (Nat.lt_succ_of_lt hi)]
      exact hstep
    · apply List.ext_getElem
      · simp [hlength]
      · intro i h₁ h₂
        rw [List.getElem_ofFn]
        exact (List.getD_eq_getElem _ _ h₁).symm
  · rintro ⟨g, rfl, hstep, rfl⟩
    exact run_eq_ok hstep

/-- Rows found one from the other are those of a sequence of vectors. -/
theorem run_nodeRow_iff {step : ℕ → Row α [n] → Except ε (Row α [n])} {x : Fin n → α}
    {rows : List (Row α [n])} :
    run step N (Tensor.nodeRow x) = .ok rows ↔
      ∃ X : ℕ → Fin n → α, X 0 = x ∧
        (∀ i < N, step i (Tensor.nodeRow (X i)) = .ok (Tensor.nodeRow (X (i + 1)))) ∧
        rows = List.ofFn fun i : Fin (N + 1) => Tensor.nodeRow (X i) := by
  rw [run_eq_ok_iff_exists]
  constructor
  · rintro ⟨g, h0, hstep, hrows⟩
    obtain ⟨X, rfl⟩ := nodeRow_surjective.comp_left g
    exact ⟨X, nodeRow_injective h0, hstep, hrows⟩
  · rintro ⟨X, rfl, hstep, hrows⟩
    exact ⟨fun i => Tensor.nodeRow (X i), rfl, hstep, hrows⟩

/-- Rows found one from the other, from the last one back, are those of a sequence of vectors, once
they are put in order. -/
theorem run_nodeRow_back_iff {step : ℕ → Row α [n] → Except ε (Row α [n])} {l : Fin n → α}
    {rows : List (Row α [n])} :
    run (fun j => step (N - 1 - j)) N (Tensor.nodeRow l) = .ok rows ↔
      ∃ L : ℕ → Fin n → α, L N = l ∧
        (∀ i < N, step i (Tensor.nodeRow (L (i + 1))) = .ok (Tensor.nodeRow (L i))) ∧
        rows = (List.ofFn fun i : Fin (N + 1) => Tensor.nodeRow (L i)).reverse := by
  rw [run_nodeRow_iff]
  constructor
  · rintro ⟨B, rfl, hstep, rfl⟩
    refine ⟨fun i => B (N - i), congrArg B (Nat.sub_self N), fun i hi => ?_, ?_⟩
    · -- row `i` is reached by step `N - 1 - i`
      have hback := hstep (N - 1 - i) (by omega)
      rwa [show N - 1 - (N - 1 - i) = i by omega, show N - 1 - i = N - (i + 1) by omega,
        show N - (i + 1) + 1 = N - i by omega] at hback
    · exact List.reverse_eq_iff.1 (reverse_ofFn (fun j => Tensor.nodeRow (B j)) (N + 1))
  · rintro ⟨L, rfl, hstep, rfl⟩
    refine ⟨fun j => L (N - j), rfl, fun j hj => ?_, reverse_ofFn (fun i => Tensor.nodeRow (L i)) _⟩
    have hback := hstep (N - 1 - j) (by omega)
    rwa [show N - 1 - j + 1 = N - j by omega, show L (N - 1 - j) = L (N - (j + 1)) by
      rw [Nat.sub_sub, Nat.add_comm 1 j]] at hback

/-- Rows found each on its own are those of a sequence of vectors. -/
theorem collect_nodeRow_iff [Inhabited α] {f : ℕ → Except ε (Row α [n])}
    {rows : List (Row α [n])} :
    collect f N = .ok rows ↔
      ∃ E : ℕ → Fin n → α, (∀ i < N, f i = .ok (Tensor.nodeRow (E i))) ∧
        rows = List.ofFn fun i : Fin N => Tensor.nodeRow (E i) := by
  constructor
  · intro h
    obtain ⟨hlength, hf⟩ := (collect_eq_ok_iff f N rows).1 h
    obtain ⟨E, hE⟩ := nodeRow_surjective.comp_left
      fun i => rows.getD i (Tensor.nodeRow fun _ : Fin n => (default : α))
    have hrow (i : ℕ) (hi : i < rows.length) : rows[i] = Tensor.nodeRow (E i) := by
      rw [← List.getD_eq_getElem rows (Tensor.nodeRow fun _ : Fin n => (default : α)) hi]
      exact (congrFun hE i).symm
    refine ⟨E, fun i hi => ?_, ?_⟩
    · have hi : i < rows.length := by omega
      rw [hf i hi, hrow i hi]
    · apply List.ext_getElem
      · simp [hlength]
      · intro i h₁ h₂
        rw [List.getElem_ofFn, hrow i h₁]
  · rintro ⟨E, hf, rfl⟩
    exact collect_eq_ok hf

/-- Rows between the first and the last one, found each on its own from the last one back, are those
of a sequence of vectors. -/
theorem collect_nodeRow_back_iff [Inhabited α] {f : ℕ → Except ε (Row α [n])}
    {rows : List (Row α [n])} :
    collect (fun j => f (N - 1 - j)) (N - 1) = .ok rows ↔
      ∃ E : ℕ → Fin n → α, (∀ i < N, 0 < i → f i = .ok (Tensor.nodeRow (E i))) ∧
        rows = List.ofFn fun j : Fin (N - 1) => Tensor.nodeRow (E (N - 1 - j)) := by
  rw [collect_nodeRow_iff]
  constructor
  · rintro ⟨e, he, rfl⟩
    refine ⟨fun i => e (N - 1 - i), fun i hi h0 => ?_, ?_⟩
    · have hback := he (N - 1 - i) (by omega)
      rwa [show N - 1 - (N - 1 - i) = i by omega] at hback
    · refine congrArg List.ofFn (funext fun j => ?_)
      have hj := j.isLt
      show Tensor.nodeRow (e j) = Tensor.nodeRow (e (N - 1 - (N - 1 - j)))
      rw [show N - 1 - (N - 1 - (j : ℕ)) = j by omega]
  · rintro ⟨E, hE, rfl⟩
    exact ⟨fun j => E (N - 1 - j), fun j hj => hE _ (by omega) (by omega), rfl⟩

end Recurrence

namespace Model

section Increments

variable {α : Type} [Scalar α]

/-- The Euler increment of the state `x` over step `i`. -/
def driftAt (model : Model α) (t δ : Datum α) (actions : Tensor α) (i : ℕ) (x : Tensor α) :
    Except (Fault α) (Tensor α) := do
  let τ ← nodeTime t δ i
  model.stateIncrement x (← actions.item i) τ δ

/-- The terminal gradient at node `i`. -/
def finalAt (model : Model α) (t δ : Datum α) (i : ℕ) (x : Tensor α) :
    Except (Fault α) (Tensor α) := do
  model.terminalGradient x (← nodeTime t δ i)

/-- The increment of the costate over step `i`, from the costate `next` at its end. -/
def pullAt (model : Model α) (t δ : Datum α) (actions : Tensor α) (i : ℕ) (x next : Tensor α) :
    Except (Fault α) (Tensor α) := do
  let τ ← nodeTime t δ i
  model.costateIncrement x (← actions.item i) next τ δ

end Increments

variable {model : Model ℝ} {t δ : Datum ℝ} {actions : Tensor ℝ} {w : List ℕ}
variable {x y : Fin n → ℝ} {X L E M : ℕ → Fin n → ℝ} {i : ℕ}

/-! ## One equation each -/

/-- A step leads from the state `x` to the state `next`, up to the defect `e`. -/
def Steps (model : Model ℝ) (t δ : Datum ℝ) (actions : Tensor ℝ) (i : ℕ)
    (x next e : Fin n → ℝ) : Prop :=
  ∃ v : Fin n → ℝ, Spreads (model.driftAt t δ actions i (.ofFn x)) v ∧ next = x + v + e

/-- The costate that belongs to the last state `x` is `l`, up to the defect `e`. -/
def Ends (model : Model ℝ) (t δ : Datum ℝ) (i : ℕ) (x l e : Fin n → ℝ) : Prop :=
  ∃ v : Fin n → ℝ, Spreads (model.finalAt t δ i (.ofFn x)) v ∧ l = v + e

/-- A step leads back from the costate `next` to the costate `l`, up to the defect `e`. -/
def Pulls (model : Model ℝ) (t δ : Datum ℝ) (actions : Tensor ℝ) (i : ℕ)
    (x next l e : Fin n → ℝ) : Prop :=
  ∃ v : Fin n → ℝ, Spreads (model.pullAt t δ actions i (.ofFn x) (.ofFn next)) v ∧
    l = next + v + e

/-- Neighbouring nodes are linked by the shooting equations with the defects `E` and `M`,
the current state being `x`. -/
structure Linked (model : Model ℝ) (t δ : Datum ℝ) (actions : Tensor ℝ) (N : ℕ)
    (x : Fin n → ℝ) (X L E M : ℕ → Fin n → ℝ) : Prop where
  steps : ∀ i < N, model.Steps t δ actions i (seen x X i) (X (i + 1)) (E (i + 1))
  ends : model.Ends t δ N (X N) (L N) (M N)
  pulls : ∀ i < N, 0 < i → model.Pulls t δ actions i (X i) (L (i + 1)) (L i) (M i)

/-! ## The equations solved for a node -/

/-- A defect is added to what is found as a vector. -/
theorem spread_addDefect_iff {found : Except (Fault ℝ) (Tensor ℝ)} (hi : i ≤ N) :
    ((found >>= fun b => b.spread [n]) >>= fun r =>
        addDefect (some (Tensor.ofNodes (N + 1) E).path) i r) = .ok (Tensor.nodeRow y) ↔
      ∃ u : Fin n → ℝ, Spreads found u ∧ y = u + E i := by
  have hadd (u : Fin n → ℝ) :
      addDefect (some (Tensor.ofNodes (N + 1) E).path) i (Tensor.nodeRow u) =
        .ok (Tensor.nodeRow (u + E i)) :=
    addDefect_eq (p := some (Tensor.ofNodes (N + 1) E)) rfl hi u
  constructor
  · intro h
    obtain ⟨r, hr, hy⟩ := bind_eq_ok_iff.1 h
    obtain ⟨u, rfl⟩ := nodeRow_surjective r
    rw [hadd] at hy
    exact ⟨u, hr, (nodeRow_injective (Except.ok.inj hy)).symm⟩
  · rintro ⟨u, hu, rfl⟩
    rw [Spreads] at hu
    rw [hu, ok_bind, hadd]

/-- A defect is added to what is found as the sum of a vector and an increment. -/
theorem spread_plus_addDefect_iff {found : Except (Fault ℝ) (Tensor ℝ)} (hi : i ≤ N) :
    (((found >>= fun b => (Tensor.ofFn x).plus b) >>= fun b => b.spread [n]) >>= fun r =>
        addDefect (some (Tensor.ofNodes (N + 1) E).path) i r) = .ok (Tensor.nodeRow y) ↔
      ∃ v : Fin n → ℝ, Spreads found v ∧ y = x + v + E i := by
  rw [spread_addDefect_iff hi]
  constructor
  · rintro ⟨u, hu, rfl⟩
    obtain ⟨v, hv, rfl⟩ := spreads_plus_iff.1 hu
    exact ⟨v, hv, rfl⟩
  · rintro ⟨v, hv, rfl⟩
    exact ⟨x + v, spreads_plus_iff.2 ⟨v, hv, rfl⟩, rfl⟩

theorem nextState_eq_ok_iff (hi : i < N) :
    model.nextState t δ actions.path (some (Tensor.ofNodes (N + 1) E).path) i
        (Tensor.nodeRow x) = .ok (Tensor.nodeRow y) ↔
      model.Steps t δ actions i x y (E (i + 1)) := by
  have hform : model.nextState t δ actions.path (some (Tensor.ofNodes (N + 1) E).path) i
      (Tensor.nodeRow x) =
        (((model.driftAt t δ actions i (.ofFn x) >>= fun b => (Tensor.ofFn x).plus b) >>=
          fun s => s.spread [n]) >>= fun r =>
            addDefect (some (Tensor.ofNodes (N + 1) E).path) (i + 1) r) := by
    simp only [nextState, driftAt, Path.node_path, Tensor.val_nodeRow, bind_assoc]
  rw [hform, spread_plus_addDefect_iff (Nat.succ_le_of_lt hi)]
  rfl

theorem terminalCostate_eq_ok_iff :
    model.terminalCostate t δ (Tensor.ofNodes (N + 1) X).path
        (some (Tensor.ofNodes (N + 1) M).path) [n] N = .ok (Tensor.nodeRow y) ↔
      model.Ends t δ N (X N) y (M N) := by
  have hform : model.terminalCostate t δ (Tensor.ofNodes (N + 1) X).path
      (some (Tensor.ofNodes (N + 1) M).path) [n] N =
        ((model.finalAt t δ N (.ofFn (X N)) >>= fun s => s.spread [n]) >>= fun r =>
          addDefect (some (Tensor.ofNodes (N + 1) M).path) N r) := by
    simp only [terminalCostate, finalAt, Path.node_path, Tensor.item_ofNodes X (Nat.lt_succ_self N),
      ok_bind, bind_assoc]
  rw [hform, spread_addDefect_iff le_rfl]
  rfl

theorem previousCostate_eq_ok_iff (hi : i < N) {l : Fin n → ℝ} :
    model.previousCostate t δ (Tensor.ofNodes (N + 1) X).path actions.path
        (some (Tensor.ofNodes (N + 1) M).path) i (Tensor.nodeRow x) = .ok (Tensor.nodeRow l) ↔
      model.Pulls t δ actions i (X i) x l (if i = 0 then 0 else M i) := by
  by_cases h0 : i = 0
  · subst h0
    have hform : model.previousCostate t δ (Tensor.ofNodes (N + 1) X).path actions.path
        (some (Tensor.ofNodes (N + 1) M).path) 0 (Tensor.nodeRow x) =
          ((model.pullAt t δ actions 0 (.ofFn (X 0)) (.ofFn x) >>= fun b =>
            (Tensor.ofFn x).plus b) >>= fun s => s.spread [n]) := by
      simp only [previousCostate, pullAt, Path.node_path, Tensor.val_nodeRow, bind_assoc,
        Tensor.item_ofNodes X (Nat.lt_succ_of_lt hi), ok_bind, if_true, bind_pure]
    rw [hform, if_pos rfl, ← Spreads, spreads_plus_iff]
    simp only [Pulls, add_zero]
  · have hform : model.previousCostate t δ (Tensor.ofNodes (N + 1) X).path actions.path
        (some (Tensor.ofNodes (N + 1) M).path) i (Tensor.nodeRow x) =
          (((model.pullAt t δ actions i (.ofFn (X i)) (.ofFn x) >>= fun b =>
            (Tensor.ofFn x).plus b) >>= fun s => s.spread [n]) >>= fun r =>
              addDefect (some (Tensor.ofNodes (N + 1) M).path) i r) := by
      simp only [previousCostate, pullAt, Path.node_path, Tensor.val_nodeRow, bind_assoc,
        Tensor.item_ofNodes X (Nat.lt_succ_of_lt hi), ok_bind, if_neg h0]
    rw [hform, if_neg h0, spread_plus_addDefect_iff hi.le]
    rfl

/-! ## The equations solved for a defect -/

/-- A row of defects is what a difference leaves of the increment found. -/
theorem spread_minus_iff {found : Except (Fault ℝ) (Tensor ℝ)} {u e : Fin n → ℝ} :
    ((found >>= fun b => (Tensor.ofFn u).minus b) >>= fun s => s.spread [n]) =
        .ok (Tensor.nodeRow e) ↔
      ∃ v : Fin n → ℝ, Spreads found v ∧ u = v + e := by
  rw [← Spreads, spreads_minus_iff]
  refine exists_congr fun v => and_congr_right fun _ => ?_
  rw [eq_sub_iff_add_eq, eq_comm, add_comm]

theorem stateDefect_eq_ok_iff (hi : i < N) {e : Fin n → ℝ} :
    (model.stateDefect t (.ofFn x) actions.path (Tensor.ofNodes (N + 1) X).path δ i >>= fun s =>
        s.spread [n]) = .ok (Tensor.nodeRow e) ↔
      model.Steps t δ actions i (seen x X i) (X (i + 1)) e := by
  have hform : model.stateDefect t (.ofFn x) actions.path (Tensor.ofNodes (N + 1) X).path δ i =
      (model.driftAt t δ actions i (.ofFn (seen x X i)) >>= fun b =>
        (Tensor.ofFn (X (i + 1) - seen x X i)).minus b) := by
    simp only [stateDefect, driftAt, Path.node_path, bind_assoc, stateAt_eq x hi.le,
      Tensor.item_ofNodes X (Nat.succ_lt_succ hi), Tensor.minus_ofFn, ok_bind]
  rw [hform, spread_minus_iff]
  refine exists_congr fun v => and_congr_right fun _ => ?_
  rw [sub_eq_iff_eq_add', add_assoc]

theorem terminalDefect_eq_ok_iff {e : Fin n → ℝ} :
    (model.terminalDefect t (Tensor.ofNodes (N + 1) X).path (Tensor.ofNodes (N + 1) L).path δ N >>=
        fun s => s.spread [n]) = .ok (Tensor.nodeRow e) ↔
      model.Ends t δ N (X N) (L N) e := by
  have hform : model.terminalDefect t (Tensor.ofNodes (N + 1) X).path
      (Tensor.ofNodes (N + 1) L).path δ N =
        (model.finalAt t δ N (.ofFn (X N)) >>= fun b => (Tensor.ofFn (L N)).minus b) := by
    simp only [terminalDefect, finalAt, Path.node_path, bind_assoc, ok_bind,
      Tensor.item_ofNodes X (Nat.lt_succ_self N), Tensor.item_ofNodes L (Nat.lt_succ_self N)]
  rw [hform, spread_minus_iff]
  rfl

theorem costateDefect_eq_ok_iff (hi : i < N) {e : Fin n → ℝ} :
    (model.costateDefect t actions.path (Tensor.ofNodes (N + 1) X).path
        (Tensor.ofNodes (N + 1) L).path δ i >>= fun s => s.spread [n]) =
        .ok (Tensor.nodeRow e) ↔
      model.Pulls t δ actions i (X i) (L (i + 1)) (L i) e := by
  have hform : model.costateDefect t actions.path (Tensor.ofNodes (N + 1) X).path
      (Tensor.ofNodes (N + 1) L).path δ i =
        (model.pullAt t δ actions i (.ofFn (X i)) (.ofFn (L (i + 1))) >>= fun b =>
          (Tensor.ofFn (L i - L (i + 1))).minus b) := by
    simp only [costateDefect, pullAt, Path.node_path, bind_assoc, Tensor.minus_ofFn, ok_bind,
      Tensor.item_ofNodes X (Nat.lt_succ_of_lt hi), Tensor.item_ofNodes L (Nat.lt_succ_of_lt hi),
      Tensor.item_ofNodes L (Nat.succ_lt_succ hi)]
  rw [hform, spread_minus_iff]
  refine exists_congr fun v => and_congr_right fun _ => ?_
  rw [sub_eq_iff_eq_add', add_assoc]

/-! ## All nodes -/

/-- The states that have prescribed defects are those that a step leads to one from the
other. -/
theorem shootStates_eq_ok_iff (ha : actions.count = .ok N) {states : Tensor ℝ} :
    model.shootStates t (.ofFn x) actions δ (some (.ofNodes (N + 1) E)) = .ok states ↔
      Room N n ∧ ∃ X : ℕ → Fin n → ℝ, X 0 = x ∧
        (∀ i < N, model.Steps t δ actions i (X i) (X (i + 1)) (E (i + 1))) ∧
        states = .ofNodes (N + 1) X := by
  have hform : model.shootStates t (.ofFn x) actions δ (some (.ofNodes (N + 1) E)) =
      (Tensor.checkRoom [(N : ℤ) + 1, (n : ℤ)] >>= fun _ =>
        Recurrence.run (model.nextState t δ actions.path
            (some (Tensor.ofNodes (N + 1) E).path)) N (Tensor.nodeRow x) >>= fun rows =>
          .ok (Tensor.ofRows rows)) := by
    rw [shootStates, ha, ok_bind, Tensor.count_ofFn, ok_bind, Tensor.spread_ofFn, ok_bind]
    rfl
  rw [hform]
  constructor
  · intro h
    obtain ⟨⟨⟩, hroom, h⟩ := bind_eq_ok_iff.1 h
    obtain ⟨rows, hrows, h⟩ := bind_eq_ok_iff.1 h
    obtain ⟨X, h0, hstep, rfl⟩ := Recurrence.run_nodeRow_iff.1 hrows
    exact ⟨hroom, X, h0, fun i hi => (nextState_eq_ok_iff hi).1 (hstep i hi),
      (Except.ok.inj h).symm⟩
  · rintro ⟨hroom, X, h0, hstep, rfl⟩
    have hrows := Recurrence.run_nodeRow_iff.2
      ⟨X, h0, fun i hi => (nextState_eq_ok_iff hi).2 (hstep i hi), rfl⟩
    rw [Room] at hroom
    rw [hroom, ok_bind, hrows, ok_bind]
    rfl

/-- The costates are found from the last node back. -/
theorem shootCostates_ofNodes (ha : actions.count = .ok N) :
    model.shootCostates t (.ofNodes (N + 1) X) actions δ (some (.ofNodes (N + 1) M)) =
      (model.terminalCostate t δ (Tensor.ofNodes (N + 1) X).path
          (some (Tensor.ofNodes (N + 1) M).path) [n] N >>= fun final =>
        Recurrence.run (fun j =>
            model.previousCostate t δ (Tensor.ofNodes (N + 1) X).path actions.path
              (some (Tensor.ofNodes (N + 1) M).path) (N - 1 - j)) N final >>= fun found =>
          .ok (Tensor.ofRows found.reverse)) := by
  rw [shootCostates, ha, ok_bind, Tensor.count_ofNodes]
  generalize hs : (Tensor.ofNodes (N + 1) X).shape.drop 1 = shape
  obtain rfl : [n] = shape := by rw [← hs, Tensor.shape_ofNodes]; rfl
  simp only [ok_bind, Nat.sub_self, zeroRows_zero, List.append_nil, Option.map_some]
  rfl

/-- The costates that have prescribed defects end as they have to and are pulled back one
from the other.  At node zero no defect is added. -/
theorem shootCostates_eq_ok_iff (ha : actions.count = .ok N) {costates : Tensor ℝ} :
    model.shootCostates t (.ofNodes (N + 1) X) actions δ (some (.ofNodes (N + 1) M)) =
        .ok costates ↔
      ∃ L : ℕ → Fin n → ℝ, model.Ends t δ N (X N) (L N) (M N) ∧
        (∀ i < N, model.Pulls t δ actions i (X i) (L (i + 1)) (L i) (if i = 0 then 0 else M i)) ∧
        costates = .ofNodes (N + 1) L := by
  rw [shootCostates_ofNodes ha]
  constructor
  · intro h
    obtain ⟨final, hfinal, h⟩ := bind_eq_ok_iff.1 h
    obtain ⟨found, hfound, h⟩ := bind_eq_ok_iff.1 h
    obtain ⟨l, rfl⟩ := nodeRow_surjective final
    obtain ⟨L, rfl, hstep, rfl⟩ := Recurrence.run_nodeRow_back_iff.1 hfound
    rw [List.reverse_reverse] at h
    exact ⟨L, terminalCostate_eq_ok_iff.1 hfinal,
      fun i hi => (previousCostate_eq_ok_iff hi).1 (hstep i hi), (Except.ok.inj h).symm⟩
  · rintro ⟨L, hend, hpull, rfl⟩
    have hfound := Recurrence.run_nodeRow_back_iff.2
      ⟨L, rfl, fun i hi => (previousCostate_eq_ok_iff hi).2 (hpull i hi), rfl⟩
    rw [terminalCostate_eq_ok_iff.2 hend, ok_bind, hfound, ok_bind, List.reverse_reverse]
    rfl

/-- The defects of states are those up to which a step leads from one to the next. -/
theorem stateDefects_eq_ok_iff (ha : actions.count = .ok N) {defects : Tensor ℝ} :
    model.stateDefects t (.ofFn x) actions (.ofNodes (N + 1) X) δ = .ok defects ↔
      Room N n ∧ ∃ E : ℕ → Fin n → ℝ, E 0 = 0 ∧
        (∀ i < N, model.Steps t δ actions i (seen x X i) (X (i + 1)) (E (i + 1))) ∧
        defects = .ofNodes (N + 1) E := by
  have hform : model.stateDefects t (.ofFn x) actions (.ofNodes (N + 1) X) δ =
      (Tensor.checkRoom [(N : ℤ) + 1, (n : ℤ)] >>= fun _ =>
        Recurrence.collect (fun i => model.stateDefect t (.ofFn x) actions.path
            (Tensor.ofNodes (N + 1) X).path δ i >>= fun s => s.spread [n]) N >>= fun rows =>
          .ok (Tensor.ofRows (Tensor.nodeRow (fun _ => 0) :: rows))) := by
    rw [stateDefects, ha, ok_bind, Tensor.count_ofFn, ok_bind, Tensor.row_zeros]
    rfl
  rw [hform]
  constructor
  · intro h
    obtain ⟨⟨⟩, hroom, h⟩ := bind_eq_ok_iff.1 h
    obtain ⟨rows, hrows, h⟩ := bind_eq_ok_iff.1 h
    obtain ⟨e, he, rfl⟩ := Recurrence.collect_nodeRow_iff.1 hrows
    refine ⟨hroom, fun i => if i = 0 then 0 else e (i - 1), if_pos rfl, fun i hi => ?_, ?_⟩
    · exact (stateDefect_eq_ok_iff hi).1 (he i hi)
    · rw [Tensor.ofNodes_succ]
      exact (Except.ok.inj h).symm
  · rintro ⟨hroom, E, h0, hstep, rfl⟩
    have hrows := Recurrence.collect_eq_ok fun i hi => (stateDefect_eq_ok_iff hi).2 (hstep i hi)
    rw [Room] at hroom
    rw [hroom, ok_bind, hrows, ok_bind, Tensor.ofNodes_succ, h0]
    rfl

/-- The defects of costates are found from the last node back, and that at node zero of a horizon
with a step is zero. -/
theorem costateDefects_ofNodes (ha : actions.count = .ok N) :
    model.costateDefects t actions (.ofNodes (N + 1) X) (.ofNodes (N + 1) L) δ =
      ((model.terminalDefect t (Tensor.ofNodes (N + 1) X).path (Tensor.ofNodes (N + 1) L).path δ
          N >>= fun s => s.spread [n]) >>= fun final =>
        Recurrence.collect (fun j => model.costateDefect t actions.path
            (Tensor.ofNodes (N + 1) X).path (Tensor.ofNodes (N + 1) L).path δ (N - 1 - j) >>=
              fun s => s.spread [n]) (N - 1) >>= fun between =>
          .ok (Tensor.ofRows (zeroRows (min N 1) [n] ++ between.reverse ++ [final]))) := by
  rw [costateDefects, ha, ok_bind, Tensor.count_ofNodes]
  generalize hs : (Tensor.ofNodes (N + 1) L).shape.drop 1 = shape
  obtain rfl : [n] = shape := by rw [← hs, Tensor.shape_ofNodes]; rfl
  simp only [ok_bind, Nat.sub_self, zeroRows_zero, bind_assoc]
  rfl

/-- Rows of costate defects are put together from the last one and those between. -/
theorem exists_costateRows (N : ℕ) (l : Fin n → ℝ) (E : ℕ → Fin n → ℝ) :
    ∃ M : ℕ → Fin n → ℝ, M N = l ∧ (0 < N → M 0 = 0) ∧ ∀ i < N, 0 < i → M i = E i :=
  ⟨fun i => if i = N then l else if i = 0 then 0 else E i, if_pos rfl,
    fun hN => (if_neg hN.ne).trans (if_pos rfl),
    fun _ hi h0 => (if_neg hi.ne).trans (if_neg h0.ne')⟩

/-- The defects of costates are those up to which they end as they have to and are pulled
back one from the other. -/
theorem costateDefects_eq_ok_iff (ha : actions.count = .ok N) {defects : Tensor ℝ} :
    model.costateDefects t actions (.ofNodes (N + 1) X) (.ofNodes (N + 1) L) δ = .ok defects ↔
      ∃ M : ℕ → Fin n → ℝ, (0 < N → M 0 = 0) ∧ model.Ends t δ N (X N) (L N) (M N) ∧
        (∀ i < N, 0 < i → model.Pulls t δ actions i (X i) (L (i + 1)) (L i) (M i)) ∧
        defects = .ofNodes (N + 1) M := by
  rw [costateDefects_ofNodes ha]
  constructor
  · intro h
    obtain ⟨final, hfinal, h⟩ := bind_eq_ok_iff.1 h
    obtain ⟨between, hbetween, h⟩ := bind_eq_ok_iff.1 h
    obtain ⟨l, rfl⟩ := nodeRow_surjective final
    obtain ⟨E, hE, rfl⟩ := Recurrence.collect_nodeRow_back_iff
      (f := fun i => model.costateDefect t actions.path (Tensor.ofNodes (N + 1) X).path
        (Tensor.ofNodes (N + 1) L).path δ i >>= fun s => s.spread [n]).1 hbetween
    obtain ⟨M, hlast, hfirst, hmiddle⟩ := exists_costateRows N l E
    refine ⟨M, hfirst, ?_, fun i hi h0 => ?_, ?_⟩
    · rw [hlast]
      exact terminalDefect_eq_ok_iff.1 hfinal
    · rw [hmiddle i hi h0]
      exact (costateDefect_eq_ok_iff hi).1 (hE i hi h0)
    · have hrows : (List.ofFn fun j : Fin (N - 1) => Tensor.nodeRow (E (N - 1 - j))) =
          List.ofFn fun j : Fin (N - 1) => Tensor.nodeRow (M (N - 1 - j)) := by
        refine congrArg List.ofFn (funext fun j => ?_)
        have hj := j.isLt
        rw [hmiddle _ (by omega) (by omega)]
      rw [hrows, ← hlast, defectRows M N hfirst] at h
      exact (Except.ok.inj h).symm
  · rintro ⟨M, h0, hend, hpull, rfl⟩
    have hbetween := Recurrence.collect_nodeRow_back_iff
      (f := fun i => model.costateDefect t actions.path (Tensor.ofNodes (N + 1) X).path
        (Tensor.ofNodes (N + 1) L).path δ i >>= fun s => s.spread [n]).2
      ⟨M, fun i hi h0 => (costateDefect_eq_ok_iff hi).2 (hpull i hi h0), rfl⟩
    rw [terminalDefect_eq_ok_iff.2 hend, ok_bind, hbetween, ok_bind, defectRows M N h0]
    rfl

/-- A trajectory with prescribed defects is linked by them, and its costate at node zero,
if there is a step, is pulled back without a defect. -/
theorem condense_eq_ok_iff (ha : actions.count = .ok N) {trajectory : Trajectory ℝ} :
    model.condense t (.ofFn x) actions δ
        (some ⟨.ofNodes (N + 1) E, .ofNodes (N + 1) M⟩) = .ok trajectory ↔
      Room N n ∧ ∃ X L : ℕ → Fin n → ℝ, X 0 = x ∧ model.Linked t δ actions N x X L E M ∧
        (0 < N → model.Pulls t δ actions 0 x (L 1) (L 0) 0) ∧
        trajectory = ⟨.ofNodes (N + 1) X, .ofNodes (N + 1) L⟩ := by
  constructor
  · intro h
    obtain ⟨states, hstates, h⟩ := bind_eq_ok_iff.1 h
    obtain ⟨costates, hcostates, h⟩ := bind_eq_ok_iff.1 h
    obtain ⟨hroom, X, h0, hstep, rfl⟩ := (shootStates_eq_ok_iff ha).1 hstates
    obtain ⟨L, hend, hpull, rfl⟩ := (shootCostates_eq_ok_iff ha).1 hcostates
    refine ⟨hroom, X, L, h0, ⟨?_, hend, fun i hi hpos => ?_⟩, fun hN => ?_, ?_⟩
    · rw [← h0, seen_self]
      exact hstep
    · have hback := hpull i hi
      rwa [if_neg hpos.ne'] at hback
    · have hback := hpull 0 hN
      rwa [if_pos rfl, h0] at hback
    · exact (Except.ok.inj h).symm
  · rintro ⟨hroom, X, L, h0, hlinked, hfirst, rfl⟩
    have hsteps := hlinked.steps
    rw [← h0, seen_self] at hsteps
    have hpulls : ∀ i < N,
        model.Pulls t δ actions i (X i) (L (i + 1)) (L i) (if i = 0 then 0 else M i) := by
      intro i hi
      by_cases hi0 : i = 0
      · subst hi0
        rw [if_pos rfl, h0]
        exact hfirst hi
      · rw [if_neg hi0]
        exact hlinked.pulls i hi (Nat.pos_of_ne_zero hi0)
    have hstates := (shootStates_eq_ok_iff ha).2 ⟨hroom, X, h0, hsteps, rfl⟩
    have hcostates := (shootCostates_eq_ok_iff ha).2 ⟨L, hlinked.ends, hpulls, rfl⟩
    rw [condense]
    simp only [Option.map_some, hstates, ok_bind, hcostates]
    rfl

/-- The defects of a trajectory are those by which it is linked, with none at node zero. -/
theorem shootingDefects_eq_ok_iff (ha : actions.count = .ok N) {defects : Defects ℝ} :
    model.shootingDefects t (.ofFn x) actions ⟨.ofNodes (N + 1) X, .ofNodes (N + 1) L⟩ δ =
        .ok defects ↔
      Room N n ∧ ∃ E M : ℕ → Fin n → ℝ, E 0 = 0 ∧ (0 < N → M 0 = 0) ∧
        model.Linked t δ actions N x X L E M ∧
        defects = ⟨.ofNodes (N + 1) E, .ofNodes (N + 1) M⟩ := by
  constructor
  · intro h
    obtain ⟨states, hstates, h⟩ := bind_eq_ok_iff.1 h
    obtain ⟨costates, hcostates, h⟩ := bind_eq_ok_iff.1 h
    obtain ⟨hroom, E, hE, hstep, rfl⟩ := (stateDefects_eq_ok_iff ha).1 hstates
    obtain ⟨M, hM, hend, hpull, rfl⟩ := (costateDefects_eq_ok_iff ha).1 hcostates
    exact ⟨hroom, E, M, hE, hM, ⟨hstep, hend, hpull⟩, (Except.ok.inj h).symm⟩
  · rintro ⟨hroom, E, M, hE, hM, hlinked, rfl⟩
    have hstates := (stateDefects_eq_ok_iff ha).2 ⟨hroom, E, hE, hlinked.steps, rfl⟩
    have hcostates := (costateDefects_eq_ok_iff ha).2 ⟨M, hM, hlinked.ends, hlinked.pulls, rfl⟩
    rw [shootingDefects, hstates, ok_bind, hcostates]
    rfl

end Model

end RecedingHorizon
