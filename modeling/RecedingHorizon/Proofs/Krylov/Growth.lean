import RecedingHorizon.Proofs.Krylov.Solve

/-!
# The growth of the Krylov space

For a linear equation the directions come from the Krylov space of the residual, each from as many
powers as there are directions up to it.  As they are orthonormal, they are all that the space has.

A growth ends in one of four ways, and each leaves a workspace of its own kind: at the limit and at
the tolerance the workspace goes on spanning, at a singular step it is the one the step was taken
in, and at a breakdown it is that one with a column more.  Whichever it is, what is settled is the
projection of the residual on the images of the directions in use, and these directions span the
Krylov space.  So what is true of the outcome of a solve is read off from the way its growth ends.

* `krylov`: the Krylov spaces.
* `Workspace.Generates`: a workspace whose directions come from them; `Generates.grow` is a step.
* `Workspace.Spans.exists_diagonal`: where the diagonal of a step comes from.
* `Ended`: the four ways, and the workspace that each leaves; `Ended.projects`.
* `Solver.iterate_ended`: every growth.
* `Solver.Solved`, `Solver.solve_ended`: what a solve comes to, and that it does.
-/

namespace RecedingHorizon

namespace Krylov

open scoped Matrix

variable {d : ℕ} {g : (Fin d → ℝ) →ₗ[ℝ] Fin d → ℝ} {r₀ : Fin d → ℝ}

/-! ## Krylov spaces -/

/-- What the first `k` powers of a map, from the power zero on, make of a vector, and all
combinations of it. -/
def krylov (g : (Fin d → ℝ) →ₗ[ℝ] Fin d → ℝ) (r : Fin d → ℝ) (k : ℕ) :
    Submodule ℝ (Fin d → ℝ) :=
  Submodule.span ℝ ((fun i => (g ^ i) r) '' (Finset.range k : Set ℕ))

@[simp] theorem krylov_zero : krylov g r₀ 0 = ⊥ := by
  rw [krylov, Finset.range_zero, Finset.coe_empty, Set.image_empty, Submodule.span_empty]

theorem pow_mem_krylov {i k : ℕ} (h : i < k) : (g ^ i) r₀ ∈ krylov g r₀ k :=
  Submodule.subset_span ⟨i, Finset.mem_coe.2 (Finset.mem_range.2 h), rfl⟩

theorem krylov_le_succ (k : ℕ) : krylov g r₀ k ≤ krylov g r₀ (k + 1) := by
  refine Submodule.span_mono (Set.image_mono fun i hi => ?_)
  rw [Finset.mem_coe, Finset.mem_range] at hi ⊢
  exact Nat.lt_succ_of_lt hi

/-- The image of a vector takes one more power. -/
theorem map_mem_krylov {k : ℕ} {v : Fin d → ℝ} (hv : v ∈ krylov g r₀ k) :
    g v ∈ krylov g r₀ (k + 1) := by
  induction hv using Submodule.span_induction with
  | mem v hv =>
      obtain ⟨i, hi, rfl⟩ := hv
      have hpow : g ((g ^ i) r₀) = (g ^ (i + 1)) r₀ := by rw [pow_succ', Module.End.mul_apply]
      dsimp only
      rw [hpow]
      exact pow_mem_krylov (Nat.succ_lt_succ (Finset.mem_range.1 (Finset.mem_coe.1 hi)))
  | zero =>
      rw [map_zero]
      exact Submodule.zero_mem _
  | add u v _ _ hu hv =>
      rw [map_add]
      exact Submodule.add_mem _ hu hv
  | smul a v _ hv =>
      rw [map_smul]
      exact Submodule.smul_mem _ a hv

/-- A Krylov space has no more dimensions than powers. -/
theorem finrank_krylov_le (k : ℕ) : Module.finrank ℝ (krylov g r₀ k) ≤ k := by
  classical
  have hfinite : krylov g r₀ k =
      Submodule.span ℝ (((Finset.range k).image fun i => (g ^ i) r₀ : Finset (Fin d → ℝ)) :
        Set (Fin d → ℝ)) := by
    rw [krylov, Finset.coe_image]
  rw [hfinite]
  exact (finrank_span_finset_le_card _).trans
    (Finset.card_image_le.trans (Finset.card_range k).le)

/-! ## Workspaces of a growth -/

namespace Workspace

/-- The workspace spans, and its directions come from the Krylov spaces of their places. -/
structure Generates (g : (Fin d → ℝ) →ₗ[ℝ] Fin d → ℝ) (r₀ : Fin d → ℝ) (w : Workspace ℝ)
    (us : List (Fin d → ℝ)) (v : Fin d → ℝ) (ws : List (Fin d → ℝ)) (z : Fin d → ℝ) : Prop
    extends Spans g r₀ w us v ws z where
  earlier : ∀ u ∈ us, u ∈ krylov g r₀ us.length
  latest : v ∈ krylov g r₀ (us.length + 1)

variable {w : Workspace ℝ} {us ws : List (Fin d → ℝ)} {v z : Fin d → ℝ}

/-- The latest direction and those before it lie in a Krylov space with a power for each of them. -/
theorem Generates.mem_krylov (h : w.Generates g r₀ us v ws z) :
    ∀ u ∈ us ++ [v], u ∈ krylov g r₀ (us ++ [v]).length := by
  intro u hu
  rw [List.length_append, List.length_singleton]
  rcases List.mem_append.1 hu with hu | hu
  · exact krylov_le_succ _ (h.earlier u hu)
  · rw [List.mem_singleton.1 hu]
    exact h.latest

/-- A step that adds a direction goes on generating: what is left of the image is a combination
of the image and of the directions. -/
theorem Generates.grow (h : w.Generates g r₀ us v ws z)
    (hroom : w.columns.length < w.rotations.length) (p : w.Parts g us v) (hn : ¬p.Negligible) :
    p.grown.Generates g r₀ (us ++ [v]) p.next (ws ++ [p.added z])
      (-p.rotation.s • z + p.rotation.c • p.next) where
  toSpans := h.toSpans.grow hroom p hn
  earlier := h.mem_krylov
  latest := by
    have himage : g v ∈ krylov g r₀ ((us ++ [v]).length + 1) := by
      rw [List.length_append, List.length_singleton]
      exact map_mem_krylov h.latest
    have hrest : p.rest = g v - combination p.components (us ++ [v]) := by
      rw [p.sum, add_sub_cancel_left]
    rw [Parts.next, hrest]
    exact Submodule.smul_mem _ _ (Submodule.sub_mem _ himage
      (combination_mem (fun u hu => krylov_le_succ _ (h.mem_krylov u hu)) _))

/-- The workspace at the start of a growth. -/
theorem generates_seeded {β : ℝ} (hβ : √(r₀ ⬝ᵥ r₀) = β) (h0 : β ≠ 0) :
    (w.cleared.seeded (List.ofFn (β⁻¹ • r₀)) β).Generates g r₀ [] (β⁻¹ • r₀) [] (β⁻¹ • r₀) where
  toSpans := Solver.spans_seeded hβ h0
  earlier _ hu := absurd hu List.not_mem_nil
  latest := Submodule.smul_mem _ _ (pow_mem_krylov Nat.one_pos)

/-- For a linear equation, every vector that the directions span has an image that the projection
leaves no part of. -/
theorem Projects.orthogonal_image (h : w.Projects g r₀ us ws) {x : Fin d → ℝ}
    (hx : x ∈ Submodule.span ℝ {u | u ∈ us}) :
    g x ⬝ᵥ (r₀ - combination w.settled ws) = 0 := by
  induction hx using Submodule.span_induction with
  | mem u hu =>
      obtain ⟨column, himage⟩ := h.reaches.exists_combination (List.mem_reverse.2 hu)
      rw [himage]
      exact combination_dotProduct h.orthogonal column
  | zero => rw [map_zero, zero_dotProduct]
  | add u v _ _ hu hv => rw [map_add, add_dotProduct, hu, hv, add_zero]
  | smul a v _ hv => rw [map_smul, smul_dotProduct, hv, smul_zero]

/-- The diagonal of a step is the length of an image: that of the latest direction without a
combination of the earlier ones, which is not shorter than the direction. -/
theorem Spans.exists_diagonal (h : w.Spans g r₀ us v ws z) (p : w.Parts g us v) :
    ∃ x, 1 ≤ x ⬝ᵥ x ∧ g x ⬝ᵥ g x = p.diagonal ^ 2 := by
  have hlength : w.columns.reverse.length = us.length := by rw [List.length_reverse, h.length_us]
  -- the turned column is reached by the earlier directions
  have hreached := h.reaches.combination_backSubstitute
    (by rw [hlength, h.length_us, h.length_turned])
    (show p.upper.length = w.columns.reverse.length by rw [p.length_upper h, List.length_reverse])
  rw [List.reverse_reverse, ← map_combination ⟨g.map_add, g.map_smul⟩] at hreached
  obtain ⟨u, hu⟩ : ∃ u, u = combination (backSubstitute w.columns.reverse p.upper) us := ⟨_, rfl⟩
  rw [← hu] at hreached
  have huv : u ⬝ᵥ v = 0 := by
    rw [hu]
    exact combination_dotProduct h.frame.concat_orthogonal _
  have hzrest : z ⬝ᵥ p.rest = 0 :=
    h.orthogonal p.orthogonal z (List.mem_append_right ws (List.mem_singleton_self z))
  have himage : g (v - u) = p.pivot • z + p.rest := by
    rw [map_sub, hreached, p.image_eq h, add_assoc, add_sub_cancel_left]
  refine ⟨v - u, ?_, ?_⟩
  · rw [sub_dotProduct, dotProduct_sub, dotProduct_sub, huv, dotProduct_comm v u, huv,
      h.frame.concat_unit, sub_zero, zero_sub, sub_neg_eq_add]
    exact le_add_of_nonneg_right (dotProduct_self_nonneg u)
  · rw [himage, p.diagonal_sq]
    simp only [add_dotProduct, dotProduct_add, smul_dotProduct, dotProduct_smul, smul_eq_mul,
      h.unit, hzrest, dotProduct_comm p.rest z, p.rest_dotProduct_self]
    ring

end Workspace

/-! ## How a growth ends -/

open Workspace in
/-- How a growth has ended, and with which workspace, if `β` is the length of the residual, `τ` the
relative tolerance and `limit` the most directions that may be used. -/
inductive Ended (g : (Fin d → ℝ) →ₗ[ℝ] Fin d → ℝ) (r₀ : Fin d → ℝ) (β τ : ℝ) (limit : ℕ) :
    Ending → Workspace ℝ → Prop
  | limit {w : Workspace ℝ} {us ws : List (Fin d → ℝ)} {v z : Fin d → ℝ}
      (generates : w.Generates g r₀ us v ws z) (columns : w.columns.length = limit) :
      Ended g r₀ β τ limit .limit w
  | tolerance {w : Workspace ℝ} {us ws : List (Fin d → ℝ)} {v z : Fin d → ℝ}
      (generates : w.Generates g r₀ us v ws z) (within : |w.remainder| ≤ τ * β) :
      Ended g r₀ β τ limit .tolerance w
  | singular {w : Workspace ℝ} {us ws : List (Fin d → ℝ)} {v z : Fin d → ℝ}
      (generates : w.Generates g r₀ us v ws z) (p : w.Parts g us v) (diagonal : p.diagonal = 0) :
      Ended g r₀ β τ limit .singular w
  | breakdown {w : Workspace ℝ} {us ws : List (Fin d → ℝ)} {v z : Fin d → ℝ}
      (generates : w.Generates g r₀ us v ws z) (p : w.Parts g us v) (diagonal : p.diagonal ≠ 0)
      (negligible : p.Negligible) : Ended g r₀ β τ limit .breakdown p.closed

/-- However a growth has ended, the directions in use come from the Krylov space, and what is
settled is the projection of the residual on their images. -/
theorem Ended.projects {β τ : ℝ} {limit : ℕ} {ending : Ending} {w : Workspace ℝ}
    (h : Ended g r₀ β τ limit ending w) :
    ∃ us ws, w.Projects g r₀ us ws ∧ ∀ u ∈ us, u ∈ krylov g r₀ us.length := by
  have hspans {w : Workspace ℝ} {us ws : List (Fin d → ℝ)} {v z : Fin d → ℝ}
      (h : w.Generates g r₀ us v ws z) :
      ∃ us ws, w.Projects g r₀ us ws ∧ ∀ u ∈ us, u ∈ krylov g r₀ us.length :=
    ⟨us, ws, by simpa using h.toSpans.projects [], h.earlier⟩
  cases h with
  | limit h _ => exact hspans h
  | tolerance h _ => exact hspans h
  | singular h _ _ => exact hspans h
  | breakdown h p hν _ => exact ⟨_, _, h.toSpans.stop p hν, h.mem_krylov⟩

namespace Solver

variable {σ : Type} {solver : Solver ℝ} {equation : Equation (StateM σ) ℝ} {μ : σ} {β τ : ℝ}
  {w : Workspace ℝ} {us ws : List (Fin d → ℝ)} {v z : Fin d → ℝ}

/-! ## One step -/

/-- A step, given the image of the latest direction, does what its workspace says it does. -/
theorem step_eq (hdim : solver.dim = d) (hτ : solver.relativeTolerance.scalar = .ok τ) (β : ℝ)
    (p : w.Parts g us v) :
    (p.diagonal = 0 → solver.step β (.ofFn (g v)) w = (.ok (some .singular), w)) ∧
    (p.diagonal ≠ 0 → p.Negligible →
      solver.step β (.ofFn (g v)) w = (.ok (some .breakdown), p.closed)) ∧
    (¬p.Negligible → solver.step β (.ofFn (g v)) w =
      (.ok (if |p.grown.remainder| ≤ τ * β then some .tolerance else none), p.grown)) := by
  have hvector := imageVector_ofFn hdim (g v)
  refine ⟨fun hν => ?_, fun hν hn => ?_, fun hn => ?_⟩
  · simp only [step, hvector, p.absorb_of_diagonal_eq_zero hν]
  · simp only [step, hvector, p.absorb_of_negligible hν hn]
  · simp only [step, hvector, p.absorb_of_not_negligible hn, within_eq hτ, Except.map,
      decide_eq_true_eq]

/-- A step ends the growth, or it goes on generating. -/
theorem step_ended (hdim : solver.dim = d) (hτ : solver.relativeTolerance.scalar = .ok τ) (β : ℝ)
    (limit : ℕ) (h : w.Generates g r₀ us v ws z)
    (hroom : w.columns.length < w.rotations.length) :
    (∃ ending w', solver.step β (.ofFn (g v)) w = (.ok (some ending), w') ∧
        Ended g r₀ β τ limit ending w') ∨
      ∃ w', solver.step β (.ofFn (g v)) w = (.ok none, w') ∧
        (∃ us' v' ws' z', w'.Generates g r₀ us' v' ws' z') ∧
        w'.columns.length = w.columns.length + 1 ∧
        w'.rotations.length = w.rotations.length := by
  obtain ⟨p⟩ := h.nonempty_parts
  obtain ⟨hsingular, hbreakdown, hgrown⟩ := step_eq hdim hτ β p
  by_cases hn : p.Negligible
  · left
    by_cases hν : p.diagonal = 0
    · exact ⟨_, _, hsingular hν, .singular h p hν⟩
    · exact ⟨_, _, hbreakdown hν hn, .breakdown h p hν hn⟩
  · by_cases hwithin : |p.grown.remainder| ≤ τ * β
    · left
      refine ⟨.tolerance, p.grown, ?_, .tolerance (h.grow hroom p hn) hwithin⟩
      rw [hgrown hn, if_pos hwithin]
    · right
      refine ⟨p.grown, ?_, ⟨_, _, _, _, h.grow hroom p hn⟩,
        Workspace.length_columns_extended _ _, Workspace.length_rotations_extended _ _⟩
      rw [hgrown hn, if_neg hwithin]

/-! ## Growths -/

/-- Every growth ends in one of the four ways. -/
theorem iterate_ended (hdim : solver.dim = d) (hτ : solver.relativeTolerance.scalar = .ok τ)
    (himage : ∀ v : Fin d → ℝ,
      Stateful.runOn (equation.image (.ofFn v)) μ = (.ok (.ofFn (g v)), μ))
    (β : ℝ) {left limit : ℕ} (h : w.Generates g r₀ us v ws z)
    (hleft : w.columns.length + left = limit) (hroom : limit ≤ w.rotations.length) :
    ∃ ending w', (solver.iterate equation β left w).run μ = ((.ok ending, w'), μ) ∧
      Ended g r₀ β τ limit ending w' := by
  refine iterate_ends (I := fun left u => (∃ us v ws z, u.Generates g r₀ us v ws z) ∧
      u.columns.length + left = limit ∧ limit ≤ u.rotations.length) ?_ ?_ left
    ⟨⟨us, v, ws, z, h⟩, hleft, hroom⟩
  · rintro u ⟨⟨_, _, _, _, hgenerates⟩, hcolumns, -⟩
    exact .limit hgenerates hcolumns
  · rintro left u ⟨⟨_, v, _, _, hgenerates⟩, hcolumns, hroom⟩
    refine ⟨.ofFn (g v), by rw [hgenerates.direction]; exact himage v, ?_⟩
    rcases step_ended hdim hτ β limit hgenerates (by omega) with
      hended | ⟨u', hstep, hgenerates', hgrown, hlength⟩
    · exact .inl hended
    · exact .inr ⟨u', hstep, hgenerates', by omega, by omega⟩

/-! ## Solves -/

/-- What a solve from `x₀` comes to if `r₀` is the residual there: the guess itself, if the
residual counts as zero, or else what the growth has settled. -/
inductive Solved (solver : Solver ℝ) (g : (Fin d → ℝ) →ₗ[ℝ] Fin d → ℝ) (τ : ℝ)
    (r₀ x₀ : Fin d → ℝ) : Outcome ℝ → Prop
  | exact (small : √(r₀ ⬝ᵥ r₀) < Scalar.tiny) :
      Solved solver g τ r₀ x₀ (exact (.ofFn x₀) √(r₀ ⬝ᵥ r₀))
  | grown {ending : Ending} {w : Workspace ℝ} {us ws : List (Fin d → ℝ)} {y : Vec ℝ}
      {success : Bool} (large : Scalar.tiny ≤ √(r₀ ⬝ᵥ r₀))
      (ended : Ended g r₀ √(r₀ ⬝ᵥ r₀) τ solver.limit ending w) (projects : w.Projects g r₀ us ws)
      (generated : ∀ u ∈ us, u ∈ krylov g r₀ us.length)
      (reached : g (combination y us) = combination w.settled ws)
      (succeeded : solver.succeeded √(r₀ ⬝ᵥ r₀) w ending = .ok success) :
      Solved solver g τ r₀ x₀ ⟨.ofFn (x₀ + combination y us), w.columns.length, √(r₀ ⬝ᵥ r₀),
        |w.remainder|, success, ending == .breakdown || ending == .singular⟩

/-- Every solve of a linear equation comes to its guess, or to what its growth has settled. -/
theorem solve_ended (hdim : solver.dim = d) (hτ : solver.relativeTolerance.scalar = .ok τ)
    {μ₀ : σ} {x₀ : Fin d → ℝ}
    (hresidual : Stateful.runOn (equation.residual (.ofFn x₀)) μ₀ = (.ok (.ofFn r₀), μ))
    (himage : ∀ v : Fin d → ℝ,
      Stateful.runOn (equation.image (.ofFn v)) μ = (.ok (.ofFn (g v)), μ))
    (hw : w.rotations.length = solver.limit) :
    ∃ outcome w', (solver.solve equation (some (.ofFn x₀)) w).run μ₀ = ((.ok outcome, w'), μ) ∧
      solver.Solved g τ r₀ x₀ outcome := by
  by_cases htiny : √(r₀ ⬝ᵥ r₀) < Scalar.tiny
  · exact ⟨_, w.cleared, run_solve_of_lt hresidual rfl htiny, .exact htiny⟩
  · have hlarge := not_lt.1 htiny
    have hgenerates := Workspace.generates_seeded (g := g) (w := w) rfl
      (tiny_pos.trans_le hlarge).ne'
    obtain ⟨ending, w', hrun, hended⟩ := iterate_ended hdim hτ himage _ hgenerates
      (Nat.zero_add solver.limit) hw.ge
    obtain ⟨us, ws, hprojects, hgenerated⟩ := hended.projects
    obtain ⟨more, hbasis⟩ := hprojects.basis
    obtain ⟨y, hsolution, hreached⟩ := solution_eq hdim hbasis hprojects.reaches hprojects.length
      hprojects.settled x₀
    obtain ⟨success, hsucceeded⟩ := succeeded_eq_ok hτ √(r₀ ⬝ᵥ r₀) w' ending
    refine ⟨_, w', ?_, .grown hlarge hended hprojects hgenerated
      (hreached ⟨g.map_add, g.map_smul⟩) hsucceeded⟩
    rw [run_solve hdim hresidual rfl htiny hrun, conclude_eq hsolution hsucceeded]

end Solver

end Krylov

end RecedingHorizon
