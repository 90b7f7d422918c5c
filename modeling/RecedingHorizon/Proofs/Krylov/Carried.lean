import RecedingHorizon.Proofs.Krylov.Solve
import RecedingHorizon.Proofs.Reachable
import RecedingHorizon.Proofs.Tally

/-!
# Solves carried over by an isometry

A solve looks at directions by their inner products only.  So if one equation is another one seen
through a linear map `P` that keeps inner products, in other units perhaps, with `A' P = s P A` for
the images and `r' = c P r` for the residuals, then the two solves take the same steps.  What is
measured along the directions is multiplied by `s`, what is measured along the residual by `c`; the
rotations, which are quotients, are the same; and the solutions move from their guesses by `v` and
by `(c / s) P v`.  Nothing asks the images to be linear, and they may fail, in both runs alike.  The
map need not be onto: the space may be larger in which the second equation lives.

* `IsIsometric`, `Workspace.Carried`: such a map, and a workspace beside what it is carried over to.
* `Workspace.Carried.absorb`, `Solver.step_carried`: one step.
* `Solver.iterate_carried`: the growth of the space.
* `Outcome.Carried`, `Solver.solve_carried`: two solves.
-/

namespace RecedingHorizon

theorem Vec.scale_append {α : Type} [Scalar α] (a : α) (u v : Vec α) :
    scale a (u ++ v) = scale a u ++ scale a v := List.map_append

namespace Krylov

open Stateful

open scoped Matrix

variable {n n' : ℕ} {P : (Fin n → ℝ) →ₗ[ℝ] Fin n' → ℝ} {s c : ℝ}

/-- Inner products are kept. -/
def IsIsometric (P : (Fin n → ℝ) →ₗ[ℝ] Fin n' → ℝ) : Prop := ∀ u v, P u ⬝ᵥ P v = u ⬝ᵥ v

/-! ## The arithmetic of a step -/

theorem norm_carried (hP : IsIsometric P) (hs : 0 < s) (v : Fin n → ℝ) :
    √((s • P v) ⬝ᵥ (s • P v)) = s * √(v ⬝ᵥ v) := by
  rw [smul_dotProduct, dotProduct_smul, hP, smul_eq_mul, smul_eq_mul, ← mul_assoc,
    Real.sqrt_mul (mul_self_nonneg s), Real.sqrt_mul_self hs.le]

/-- Components are multiplied, and what is left is carried over. -/
theorem orthogonalize_carried (hP : IsIsometric P) (s : ℝ) (us : List (Fin n → ℝ))
    (w : Fin n → ℝ) :
    ∃ (y : Vec ℝ) (rest : Fin n → ℝ),
      orthogonalize (us.map List.ofFn) (List.ofFn w) = (y, List.ofFn rest) ∧
      orthogonalize (us.map fun u => List.ofFn (P u)) (List.ofFn (s • P w)) =
        (Vec.scale s y, List.ofFn (s • P rest)) := by
  induction us generalizing w with
  | nil => exact ⟨[], w, rfl, rfl⟩
  | cons u us ih =>
      obtain ⟨y, rest, hsplit, hsplit'⟩ := ih (w - (w ⬝ᵥ u) • u)
      have hcomponent : (s • P w) ⬝ᵥ P u = s * (w ⬝ᵥ u) := by
        rw [smul_dotProduct, hP, smul_eq_mul]
      have hleft : s • P w - (s * (w ⬝ᵥ u)) • P u = s • P (w - (w ⬝ᵥ u) • u) := by
        rw [map_sub, map_smul, smul_sub, smul_smul]
      refine ⟨(w ⬝ᵥ u) :: y, rest, ?_, ?_⟩
      · rw [List.map_cons, orthogonalize, Vec.dot_ofFn, Vec.scale_ofFn, Vec.sub_ofFn, hsplit]
      · rw [List.map_cons, orthogonalize, Vec.dot_ofFn, hcomponent, Vec.scale_ofFn, Vec.sub_ofFn,
          hleft, hsplit']
        rfl

/-- A column that is multiplied turns into a multiple. -/
theorem turnColumn_scale (s : ℝ) (rs : List (Rotation ℝ)) (y : Vec ℝ) :
    turnColumn rs (Vec.scale s y) =
      (Vec.scale s (turnColumn rs y).1, s * (turnColumn rs y).2) := by
  induction rs generalizing y with
  | nil =>
      cases y with
      | nil => exact Prod.ext rfl (mul_zero s).symm
      | cons a y => rfl
  | cons r rs ih =>
      rcases y with _ | ⟨a, _ | ⟨b, y⟩⟩
      · exact Prod.ext rfl (mul_zero s).symm
      · rfl
      · have hfirst : r.c * (s * a) + r.s * (s * b) = s * (r.c * a + r.s * b) := by ring
        have hnext : -r.s * (s * a) + r.c * (s * b) = s * (-r.s * a + r.c * b) := by ring
        have hrest : turnColumn rs (s * (-r.s * a + r.c * b) :: Vec.scale s y) = _ :=
          ih ((-r.s * a + r.c * b) :: y)
        show turnColumn (r :: rs) (s * a :: s * b :: Vec.scale s y) = _
        rw [turnColumn_cons, turnColumn_cons, hfirst, hnext, hrest]
        rfl

/-- The solution of a triangular system in other units. -/
theorem backSubstitute_scale (hs : s ≠ 0) (c : ℝ) (columns : List (Vec ℝ)) (target : Vec ℝ) :
    backSubstitute (columns.map (Vec.scale s)) (Vec.scale c target) =
      Vec.scale (c / s) (backSubstitute columns target) := by
  have hgetD (a : ℝ) (v : Vec ℝ) (j : ℕ) : (Vec.scale a v).getD j 0 = a * v.getD j 0 := by
    have hmap := List.getD_map (n := j) (l := v) (d := (0 : ℝ)) (fun x => a * x)
    rwa [mul_zero] at hmap
  induction columns generalizing target with
  | nil => rfl
  | cons column columns ih =>
      obtain ⟨j, hj⟩ : ∃ j, columns.length = j := ⟨_, rfl⟩
      obtain ⟨y, hy⟩ : ∃ y, target.getD j 0 / column.getD j 0 = y := ⟨_, rfl⟩
      have hlast : (Vec.scale c target).getD j 0 / (Vec.scale s column).getD j 0 = c / s * y := by
        rw [hgetD, hgetD, mul_div_mul_comm, hy]
      -- what is left of the target is multiplied as the target is
      have hleft : Vec.sub ((Vec.scale c target).take j)
          (Vec.scale (c / s * y) ((Vec.scale s column).take j)) =
            Vec.scale c (Vec.sub (target.take j) (Vec.scale y (column.take j))) := by
        unfold Vec.sub Vec.scale
        rw [← List.map_take, ← List.map_take, List.map_map, List.zipWith_map_left,
          List.zipWith_map_right, List.zipWith_map_right, List.map_zipWith]
        refine congrArg (fun f => List.zipWith f _ _) (funext fun a => funext fun b => ?_)
        show c * a - c / s * y * (s * b) = c * (a - y * b)
        field_simp
      rw [List.map_cons, backSubstitute, backSubstitute, List.length_map, hj, hlast, hleft, ih, hy]
      rw [Vec.scale_append]
      rfl

/-! ## Workspaces -/

namespace Workspace

/-- The workspace `w'` is that into which `w` is carried over by `P`, with components multiplied by
`s` and what is made of the residual by `c`. -/
structure Carried (P : (Fin n → ℝ) →ₗ[ℝ] Fin n' → ℝ) (s c : ℝ) (w w' : Workspace ℝ) : Prop where
  basis : ∃ us : List (Fin n → ℝ),
    w.basis = us.map List.ofFn ∧ w'.basis = us.map fun u => List.ofFn (P u)
  columns : w'.columns = w.columns.map (Vec.scale s)
  settled : w'.settled = Vec.scale c w.settled
  remainder : w'.remainder = c * w.remainder
  rotations : w'.rotations.take w.columns.length = w.rotations.take w.columns.length

namespace Carried

variable {w w' : Workspace ℝ}

/-- Two workspaces that have just been cleared belong together: nothing is in them. -/
theorem cleared (P : (Fin n → ℝ) →ₗ[ℝ] Fin n' → ℝ) (s c : ℝ) (w w' : Workspace ℝ) :
    w.cleared.Carried P s c w'.cleared :=
  ⟨⟨[], rfl, rfl⟩, rfl, rfl, (mul_zero c).symm, rfl⟩

/-- Two workspaces that have been given their first directions belong together, if the second
direction is the first one carried over. -/
theorem seeded (P : (Fin n → ℝ) →ₗ[ℝ] Fin n' → ℝ) (s c : ℝ) (w w' : Workspace ℝ)
    (u : Fin n → ℝ) (β : ℝ) :
    (w.cleared.seeded (List.ofFn u) β).Carried P s c
      (w'.cleared.seeded (List.ofFn (P u)) (c * β)) :=
  ⟨⟨[u], rfl, rfl⟩, rfl, rfl, rfl, rfl⟩

theorem length_columns (h : w.Carried P s c w') : w'.columns.length = w.columns.length := by
  rw [h.columns, List.length_map]

/-- The latest directions belong together, as long as there are any. -/
theorem exists_direction (h : w.Carried P s c w') (hbasis : w.basis ≠ []) :
    ∃ v : Fin n → ℝ, w.direction = List.ofFn v ∧ w'.direction = List.ofFn (P v) := by
  obtain ⟨us, hus, hus'⟩ := h.basis
  have hne : us ≠ [] := by
    rintro rfl
    exact hbasis hus
  refine ⟨us.getLast hne, ?_, ?_⟩
  · rw [Workspace.direction, hus, List.getLastD_eq_getLast?, List.getLast?_map,
      List.getLast?_eq_some_getLast hne]
    rfl
  · rw [Workspace.direction, hus', List.getLastD_eq_getLast?, List.getLast?_map,
      List.getLast?_eq_some_getLast hne]
    rfl

/-- Two workspaces that belong together still do with other bases of which the second is the first
carried over. -/
theorem with_basis (h : w.Carried P s c w') {basis basis' : List (Vec ℝ)}
    (hbasis : ∃ us : List (Fin n → ℝ),
      basis = us.map List.ofFn ∧ basis' = us.map fun u => List.ofFn (P u)) :
    Carried P s c { w with basis } { w' with basis := basis' } := { h with basis := hbasis }

/-- Two workspaces that belong together still do with one more column, and with the same rotation
for either. -/
theorem extended (h : w.Carried P s c w') (hroom : w.columns.length < w.rotations.length)
    (hroom' : w.columns.length < w'.rotations.length) {basis basis' : List (Vec ℝ)}
    (hbasis : ∃ us : List (Fin n → ℝ),
      basis = us.map List.ofFn ∧ basis' = us.map fun u => List.ofFn (P u)) (upper : Vec ℝ) (ν : ℝ)
    (r : Rotation ℝ) :
    (w.extended basis upper ν r).Carried P s c
      (w'.extended basis' (Vec.scale s upper) (s * ν) r) where
  basis := hbasis
  columns := by
    show w'.columns ++ [Vec.scale s upper ++ [s * ν]] = (w.columns ++ [upper ++ [ν]]).map _
    rw [h.columns, List.map_append, List.map_singleton]
    rw [Vec.scale_append]
    rfl
  settled := by
    show w'.settled ++ [(r.turn w'.remainder 0).1] =
      Vec.scale c (w.settled ++ [(r.turn w.remainder 0).1])
    rw [h.settled, h.remainder, turn_zero, turn_zero, Vec.scale, Vec.scale, List.map_append,
      List.map_singleton, mul_left_comm]
  remainder := by
    show (r.turn w'.remainder 0).2 = c * (r.turn w.remainder 0).2
    rw [h.remainder, turn_zero, turn_zero]
    exact mul_left_comm _ _ _
  rotations := by
    have hlength := h.length_columns
    rw [length_columns_extended, take_rotations_extended basis r hroom, ← hlength,
      take_rotations_extended basis' r (by rw [hlength]; exact hroom'), hlength, h.rotations]

/-- When an image and the one carried over are taken in, the space grows in both workspaces, or
stops growing in both. -/
theorem absorb (hP : IsIsometric P) (hs : 0 < s) (h : w.Carried P s c w')
    (hroom : w.columns.length < w.rotations.length)
    (hroom' : w.columns.length < w'.rotations.length) (v : Fin n → ℝ) :
    (w'.absorb (List.ofFn (s • P v))).2 = (w.absorb (List.ofFn v)).2 ∧
      (w.absorb (List.ofFn v)).1.Carried P s c (w'.absorb (List.ofFn (s • P v))).1 := by
  obtain ⟨us, hus, hus'⟩ := h.basis
  obtain ⟨y, rest, hsplit, hsplit'⟩ := orthogonalize_carried hP s us v
  rw [← hus] at hsplit
  rw [← hus'] at hsplit'
  rcases hturn : turnColumn (w.rotations.take w.columns.length) y with ⟨upper, pivot⟩
  have hturn' : turnColumn (w'.rotations.take w'.columns.length) (Vec.scale s y) =
      (Vec.scale s upper, s * pivot) := by
    rw [h.length_columns, h.rotations, turnColumn_scale, hturn]
  obtain ⟨height, hheight⟩ : ∃ height, √(rest ⬝ᵥ rest) = height := ⟨_, rfl⟩
  have hheight' : √((s • P rest) ⬝ᵥ (s • P rest)) = s * height := by
    rw [norm_carried hP hs, hheight]
  obtain ⟨ν, hν⟩ : ∃ ν, √(pivot ^ 2 + height ^ 2) = ν := ⟨_, rfl⟩
  have hν' : √((s * pivot) ^ 2 + (s * height) ^ 2) = s * ν := by
    rw [mul_pow, mul_pow, ← mul_add, Real.sqrt_mul (sq_nonneg s), Real.sqrt_sq hs.le, hν]
  have hsmall : s * height ≤ negligible * Vec.norm (List.ofFn (s • P v)) ↔
      height ≤ negligible * Vec.norm (List.ofFn v) := by
    rw [Vec.norm_ofFn, Vec.norm_ofFn, norm_carried hP hs, mul_left_comm]
    exact mul_le_mul_iff_right₀ hs
  have hbasis : ∃ us : List (Fin n → ℝ),
      (if height ≤ negligible * Vec.norm (List.ofFn v) then w.basis
        else w.basis ++ [Vec.divide (List.ofFn rest) height]) = us.map List.ofFn ∧
      (if height ≤ negligible * Vec.norm (List.ofFn v) then w'.basis
        else w'.basis ++ [Vec.divide (List.ofFn (s • P rest)) (s * height)]) =
          us.map fun u => List.ofFn (P u) := by
    split
    · exact ⟨us, hus, hus'⟩
    · refine ⟨us ++ [height⁻¹ • rest], ?_, ?_⟩
      · rw [hus, Vec.divide_ofFn, List.map_append, List.map_singleton]
      · rw [hus', Vec.divide_ofFn, List.map_append, List.map_singleton, map_smul, smul_smul,
          mul_inv_rev, mul_assoc, inv_mul_cancel₀ hs.ne', mul_one]
  have hrotation : Rotation.toAxis (s * pivot) (s * height) (s * ν) =
      Rotation.toAxis pivot height ν := by
    rw [Rotation.toAxis, Rotation.toAxis, mul_div_mul_left _ _ hs.ne',
      mul_div_mul_left _ _ hs.ne']
  rw [absorb_eq hsplit hturn hheight hν, absorb_eq hsplit' hturn' hheight' hν', hrotation]
  simp only [hsmall, mul_eq_zero, hs.ne', false_or]
  by_cases hsingular : ν = 0
  · rw [if_pos hsingular, if_pos hsingular]
    exact ⟨rfl, h.with_basis hbasis⟩
  · rw [if_neg hsingular, if_neg hsingular]
    exact ⟨rfl, h.extended hroom hroom' hbasis upper ν _⟩

end Carried

/-- A step that does not end the growth adds a direction and a column. -/
theorem grown_of_absorb {w w₁ : Workspace ℝ} {image : Vec ℝ}
    (h : w.absorb image = (w₁, none)) :
    w₁.columns.length = w.columns.length + 1 ∧ w₁.basis ≠ [] := by
  unfold Workspace.absorb at h
  dsimp only at h
  split at h
  · cases h
  · split at h
    · cases h
    · cases h
      exact ⟨by rw [List.length_append, List.length_singleton], by simp⟩

end Workspace

/-! ## The growth of the space -/

/-- Two images of which the second is the first carried over, in other units; or neither is a
vector of the dimension of its system. -/
def CarriedImage (P : (Fin n → ℝ) →ₗ[ℝ] Fin n' → ℝ) (s : ℝ) (a a' : Tensor ℝ) : Prop :=
  (∃ v : Fin n → ℝ, a = .ofFn v ∧ a' = .ofFn (s • P v)) ∨ a.shape ≠ [n] ∧ a'.shape ≠ [n']

/-- Two runs of a solver, in workspaces of which the second is the first carried over. -/
structure CarriedRun {σ σ' γ γ' : Type} (P : (Fin n → ℝ) →ₗ[ℝ] Fin n' → ℝ) (s c : ℝ)
    (R : σ → σ' → Prop) (E : Fault ℝ → Fault ℝ → Prop) (Q : γ → γ' → Prop)
    (run : (Except (Fault ℝ) γ × Workspace ℝ) × σ)
    (run' : (Except (Fault ℝ) γ' × Workspace ℝ) × σ') : Prop where
  answer : Tally E Q run.1.1 run'.1.1
  workspace : run.1.2.Carried P s c run'.1.2
  memory : R run.2 run'.2

namespace Solver

variable {σ σ' : Type} {R : σ → σ' → Prop} {E : Fault ℝ → Fault ℝ → Prop}
  {solver solver' : Solver ℝ} {equation : Equation (StateM σ) ℝ}
  {equation' : Equation (StateM σ') ℝ} {w w' : Workspace ℝ} {β : ℝ} {a a' : Tensor ℝ}

theorem within_carried (hc : 0 < c) (hτ : solver'.relativeTolerance = solver.relativeTolerance)
    (h : w.Carried P s c w') (β : ℝ) : solver'.within (c * β) w' = solver.within β w := by
  have hreached (τ : ℝ) : |c * w.remainder| ≤ τ * (c * β) ↔ |w.remainder| ≤ τ * β := by
    rw [abs_mul, abs_of_pos hc, mul_left_comm]
    exact mul_le_mul_iff_right₀ hc
  unfold within
  rw [hτ, h.remainder]
  simp only [scalar_abs_eq, hreached]

/-- One step in workspaces that belong together, given images that do. -/
theorem step_carried (hP : IsIsometric P) (hs : 0 < s) (hc : 0 < c) (hdim : solver.dim = n)
    (hdim' : solver'.dim = n') (hτ : solver'.relativeTolerance = solver.relativeTolerance)
    (h : w.Carried P s c w') (hroom : w.columns.length < w.rotations.length)
    (hroom' : w.columns.length < w'.rotations.length) (ha : CarriedImage P s a a') (β : ℝ) :
    (solver'.step (c * β) a' w').1 = (solver.step β a w).1 ∧
      (solver.step β a w).2.Carried P s c (solver'.step (c * β) a' w').2 := by
  rcases ha with ⟨v, rfl, rfl⟩ | ⟨ha, ha'⟩
  · obtain ⟨hending, hcarried⟩ := h.absorb hP hs hroom hroom' v
    rw [step, step, imageVector_ofFn hdim v, imageVector_ofFn hdim' (s • P v)]
    dsimp only
    generalize w.absorb (List.ofFn v) = next at hending hcarried ⊢
    generalize w'.absorb (List.ofFn (s • P v)) = next' at hending hcarried ⊢
    obtain ⟨w₁, ending⟩ := next
    obtain ⟨w₁', ending'⟩ := next'
    dsimp only at hending hcarried
    subst hending
    cases ending' with
    | some ending => exact ⟨rfl, hcarried⟩
    | none =>
        exact ⟨congrArg (Except.map fun reached => if reached then some Ending.tolerance else none)
          (within_carried hc hτ hcarried β), hcarried⟩
  · have hvector : solver.imageVector a = .error .shapeMismatch := by
      rw [imageVector, if_neg (by rwa [hdim])]
    have hvector' : solver'.imageVector a' = .error .shapeMismatch := by
      rw [imageVector, if_neg (by rwa [hdim'])]
    rw [step, step, hvector, hvector']
    exact ⟨rfl, h⟩

/-- A step that goes on has added a direction and a column. -/
theorem grown_of_step {w₁ : Workspace ℝ} (h : solver.step β a w = (.ok none, w₁)) :
    w₁.columns.length = w.columns.length + 1 ∧ w₁.basis ≠ [] := by
  rw [step] at h
  rcases hvector : solver.imageVector a with fault | v
  · rw [hvector] at h
    cases h
  · rw [hvector] at h
    dsimp only at h
    rcases habsorb : w.absorb v with ⟨w₂, _ | ending⟩
    · rw [habsorb] at h
      obtain rfl : w₂ = w₁ := congrArg Prod.snd h
      exact Workspace.grown_of_absorb habsorb
    · rw [habsorb] at h
      cases h

/-- The space grows in the same way in both, as long as there is room for rotations. -/
theorem iterate_carried (hE : ∀ e, E e e) (hP : IsIsometric P) (hs : 0 < s) (hc : 0 < c)
    (hdim : solver.dim = n) (hdim' : solver'.dim = n')
    (hτ : solver'.relativeTolerance = solver.relativeTolerance)
    (himage : ∀ v : Fin n → ℝ, Abreast R E (CarriedImage P s) (equation.image (.ofFn v))
      (equation'.image (.ofFn (P v))))
    (β : ℝ) (left : ℕ) (h : w.Carried P s c w') (hbasis : w.basis ≠ [])
    (hroom : w.columns.length + left ≤ w.rotations.length)
    (hroom' : w.columns.length + left ≤ w'.rotations.length) {μ : σ} {μ' : σ'} (hμ : R μ μ') :
    CarriedRun P s c R E Eq ((solver.iterate equation β left w).run μ)
      ((solver'.iterate equation' (c * β) left w').run μ') := by
  induction left generalizing w w' μ μ' with
  | zero => exact ⟨.ok rfl, h, hμ⟩
  | succ left ih =>
      obtain ⟨v, hv, hv'⟩ := h.exists_direction hbasis
      obtain ⟨hanswer, hmemory⟩ := himage v μ μ' hμ
      have hlength := h.length_columns
      rw [iterate, iterate, run_bind, run_bind, hv, hv']
      change Tally E _ ((equation.image (.ofVec (List.ofFn v))).run.run μ).1
        ((equation'.image (.ofVec (List.ofFn (P v)))).run.run μ').1 at hanswer
      change R ((equation.image (.ofVec (List.ofFn v))).run.run μ).2
        ((equation'.image (.ofVec (List.ofFn (P v)))).run.run μ').2 at hmemory
      generalize (equation.image (.ofVec (List.ofFn v))).run.run μ = run at hanswer hmemory ⊢
      generalize (equation'.image (.ofVec (List.ofFn (P v)))).run.run μ' = run'
        at hanswer hmemory ⊢
      obtain ⟨answer, μ₁⟩ := run
      obtain ⟨answer', μ₁'⟩ := run'
      cases hanswer with
      | error hfault => exact ⟨.error hfault, h, hmemory⟩
      | @ok a a' ha =>
          obtain ⟨hstep, hcarried⟩ := step_carried hP hs hc hdim hdim' hτ h (by omega) (by omega)
            ha β
          have hrotations : (solver.step β a w).2.rotations.length = w.rotations.length :=
            length_rotations_step β a
          have hrotations' : (solver'.step (c * β) a' w').2.rotations.length =
              w'.rotations.length := length_rotations_step (c * β) a'
          dsimp only
          rcases hrun : solver.step β a w with ⟨fault | ending | ending, w₁⟩
          · rw [hrun] at hstep hcarried
            rcases hrun' : solver'.step (c * β) a' w' with ⟨answer, w₁'⟩
            rw [hrun'] at hstep hcarried
            obtain rfl : answer = .error fault := hstep
            exact ⟨.error (hE fault), hcarried, hmemory⟩
          · rw [hrun] at hstep hcarried hrotations
            rcases hrun' : solver'.step (c * β) a' w' with ⟨answer, w₁'⟩
            rw [hrun'] at hstep hcarried hrotations'
            obtain rfl : answer = .ok none := hstep
            obtain ⟨hgrown, hbasis'⟩ := grown_of_step hrun
            dsimp only at hcarried hrotations hrotations'
            exact ih hcarried hbasis' (by omega) (by omega) hmemory
          · rw [hrun] at hstep hcarried
            rcases hrun' : solver'.step (c * β) a' w' with ⟨answer, w₁'⟩
            rw [hrun'] at hstep hcarried
            obtain rfl : answer = .ok (some ending) := hstep
            exact ⟨.ok rfl, hcarried, hmemory⟩

end Solver

/-! ## Two solves -/

/-- Two outcomes with related solutions, the second one found in other units. -/
structure Outcome.Carried (G : Tensor ℝ → Tensor ℝ → Prop) (c : ℝ) (o o' : Outcome ℝ) : Prop where
  solution : G o.solution o'.solution
  iterations : o'.iterations = o.iterations
  initialResidualNorm : o'.initialResidualNorm = c * o.initialResidualNorm
  residualNorm : o'.residualNorm = c * o.residualNorm
  converged : o'.converged = o.converged
  breakdown : o'.breakdown = o.breakdown

/-- Two residuals from which the second solve sets out as the first does, in other units: they
count as zero both or neither, and their directions belong together. -/
structure CarriedResidual (P : (Fin n → ℝ) →ₗ[ℝ] Fin n' → ℝ) (c : ℝ) (a a' : Tensor ℝ) : Prop where
  norm : a'.norm = c * a.norm
  tiny : a'.norm < Scalar.tiny ↔ a.norm < Scalar.tiny
  first : Agree (fun v v' => ∃ u : Fin n → ℝ, v = List.ofFn u ∧ v' = List.ofFn (P u))
    ((a.divide a.norm).vector n) ((a'.divide a'.norm).vector n')

/-- The image of a combination is that of the images. -/
theorem combination_map (P : (Fin n → ℝ) →ₗ[ℝ] Fin n' → ℝ) (a : ℝ) (y : Vec ℝ)
    (us : List (Fin n → ℝ)) :
    combination (Vec.scale a y) (us.map P) = a • P (combination y us) := by
  induction us generalizing y with
  | nil => rw [List.map_nil, combination_nil_right, combination_nil_right, map_zero, smul_zero]
  | cons u us ih =>
      cases y with
      | nil => exact (smul_zero a).symm.trans (congrArg (a • ·) (map_zero P).symm)
      | cons b y =>
          show combination (a * b :: Vec.scale a y) (P u :: us.map P) = _
          rw [combination_cons, combination_cons, ih, map_add, map_smul, smul_add, smul_smul]

namespace Solver

variable {σ σ' : Type} {R : σ → σ' → Prop} {E : Fault ℝ → Fault ℝ → Prop}
  {solver solver' : Solver ℝ} {equation : Equation (StateM σ) ℝ}
  {equation' : Equation (StateM σ') ℝ} {w w' : Workspace ℝ} {G : Tensor ℝ → Tensor ℝ → Prop}
  {guess guess' : Tensor ℝ}

/-- Solutions are related if guesses are, and stay so when what belongs together is added. -/
theorem solution_carried (hs : 0 < s) (hdim : solver.dim = n) (hdim' : solver'.dim = n')
    (h : w.Carried P s c w') (hguess : G guess guess')
    (hincrease : ∀ u : Fin n → ℝ,
      Tally E G (guess.increase (.ofFn u)) (guess'.increase (.ofFn ((c / s) • P u)))) :
    Tally E G (solver.solution guess w) (solver'.solution guess' w') := by
  have hempty : w'.columns.isEmpty = w.columns.isEmpty := by
    rw [h.columns, List.isEmpty_map]
  by_cases hnone : w.columns.isEmpty = true
  · rw [solution, solution, hempty, if_pos hnone, if_pos hnone]
    exact .ok hguess
  · obtain ⟨us, hus, hus'⟩ := h.basis
    obtain ⟨y, hy⟩ : ∃ y, backSubstitute w.columns.reverse w.settled = y := ⟨_, rfl⟩
    have hcoefficients : w.coefficients = .ok y := by rw [w.coefficients_eq, hy]
    have hcoefficients' : w'.coefficients = .ok (Vec.scale (c / s) y) := by
      rw [w'.coefficients_eq, h.columns, h.settled, ← List.map_reverse,
        backSubstitute_scale hs.ne', hy]
    have hcombine : Tensor.ofVec (Vec.combine solver.dim w.basis y) =
        .ofFn (combination y us) := by
      rw [hdim, hus, Vec.combine_map_ofFn]
      rfl
    have hcombine' : Tensor.ofVec (Vec.combine solver'.dim w'.basis (Vec.scale (c / s) y)) =
        .ofFn ((c / s) • P (combination y us)) := by
      have hmap : (us.map fun u => List.ofFn (P u)) = (us.map P).map List.ofFn := by
        rw [List.map_map]
        rfl
      rw [hdim', hus', hmap, Vec.combine_map_ofFn, ← combination_map]
      rfl
    rw [solution, solution, hempty, if_neg hnone, if_neg hnone, hcoefficients, hcoefficients',
      ok_bind, ok_bind, hcombine, hcombine']
    exact hincrease _

theorem succeeded_carried (hc : 0 < c) (hτ : solver'.relativeTolerance = solver.relativeTolerance)
    (h : w.Carried P s c w') (β : ℝ) (ending : Ending) :
    solver'.succeeded (c * β) w' ending = solver.succeeded β w ending := by
  cases ending with
  | limit => exact within_carried hc hτ h β
  | tolerance => exact within_carried hc hτ h β
  | breakdown => rfl
  | singular => rfl

/-- Finished workspaces have outcomes that belong together. -/
theorem conclude_carried (hE : ∀ e, E e e) (hs : 0 < s) (hc : 0 < c) (hdim : solver.dim = n)
    (hdim' : solver'.dim = n') (hτ : solver'.relativeTolerance = solver.relativeTolerance)
    (h : w.Carried P s c w') (hguess : G guess guess')
    (hincrease : ∀ u : Fin n → ℝ,
      Tally E G (guess.increase (.ofFn u)) (guess'.increase (.ofFn ((c / s) • P u))))
    (β : ℝ) (ending : Ending) :
    Tally E (Outcome.Carried G c) (solver.conclude guess β w ending)
      (solver'.conclude guess' (c * β) w' ending) := by
  rw [conclude, conclude, succeeded_carried hc hτ h]
  refine (solution_carried hs hdim hdim' h hguess hincrease).bind fun x x' hx => ?_
  refine .same_bind hE _ fun b _ => .ok ⟨hx, h.length_columns, rfl, ?_, rfl, rfl⟩
  show Scalar.abs w'.remainder = c * Scalar.abs w.remainder
  rw [h.remainder, scalar_abs_eq, scalar_abs_eq, abs_mul, abs_of_pos hc]

/-- From first directions that belong together on, the spaces grow together, and what is concluded
belongs together. -/
theorem conclude_iterate_carried (hE : ∀ e, E e e) (hP : IsIsometric P) (hs : 0 < s) (hc : 0 < c)
    (hdim : solver.dim = n) (hdim' : solver'.dim = n') (hlimit : solver'.limit = solver.limit)
    (hτ : solver'.relativeTolerance = solver.relativeTolerance) (hguess : G guess guess')
    (hincrease : ∀ u : Fin n → ℝ,
      Tally E G (guess.increase (.ofFn u)) (guess'.increase (.ofFn ((c / s) • P u))))
    (himage : ∀ v : Fin n → ℝ, Abreast R E (CarriedImage P s) (equation.image (.ofFn v))
      (equation'.image (.ofFn (P v))))
    (hw : w.rotations.length = solver.limit) (hw' : w'.rotations.length = solver.limit)
    (u : Fin n → ℝ) (β : ℝ) {μ : σ} {μ' : σ'} (hμ : R μ μ') :
    CarriedRun P s c R E (Outcome.Carried G c)
      ((do
        let (ending, w) ← solver.iterate equation β solver.limit
          (w.cleared.seeded (List.ofFn u) β)
        pure (ending.bind (solver.conclude guess β w), w) : StateM σ _).run μ)
      ((do
        let (ending, w) ← solver'.iterate equation' (c * β) solver'.limit
          (w'.cleared.seeded (List.ofFn (P u)) (c * β))
        pure (ending.bind (solver'.conclude guess' (c * β) w), w) : StateM σ' _).run μ') := by
  have hroom : 0 + solver.limit ≤ w.rotations.length := by rw [hw, Nat.zero_add]
  have hroom' : 0 + solver.limit ≤ w'.rotations.length := by rw [hw', Nat.zero_add]
  have hrun := iterate_carried hE hP hs hc hdim hdim' hτ himage β solver.limit
    (Workspace.Carried.seeded P s c w w' u β) (List.cons_ne_nil _ _) hroom hroom' hμ
  rw [run_bind, run_bind, hlimit]
  generalize (solver.iterate equation β solver.limit (w.cleared.seeded (List.ofFn u) β)).run μ =
    run at hrun ⊢
  generalize (solver'.iterate equation' (c * β) solver.limit
    (w'.cleared.seeded (List.ofFn (P u)) (c * β))).run μ' = run' at hrun ⊢
  obtain ⟨⟨answer, w₁⟩, μ₁⟩ := run
  obtain ⟨⟨answer', w₁'⟩, μ₁'⟩ := run'
  obtain ⟨hanswer, hcarried, hmemory⟩ := hrun
  dsimp only at hanswer hcarried
  refine ⟨?_, hcarried, hmemory⟩
  cases hanswer with
  | error hfault => exact .error hfault
  | @ok ending ending' h =>
      subst h
      exact conclude_carried hE hs hc hdim hdim' hτ hcarried hguess hincrease β ending

/-- **Two solves of equations that belong together.**  They answer both or fail both, with outcomes
that belong together, and leave workspaces and memories that do. -/
theorem solve_carried (hE : ∀ e, E e e) (hP : IsIsometric P) (hs : 0 < s) (hc : 0 < c)
    (hdim : solver.dim = n) (hdim' : solver'.dim = n') (hlimit : solver'.limit = solver.limit)
    (hτ : solver'.relativeTolerance = solver.relativeTolerance)
    (guess guess' : Option (Tensor ℝ))
    (hguess : G (guess.getD (.zeros [solver.dim])) (guess'.getD (.zeros [solver'.dim])))
    (hincrease : ∀ u : Fin n → ℝ, Tally E G
      ((guess.getD (.zeros [solver.dim])).increase (.ofFn u))
      ((guess'.getD (.zeros [solver'.dim])).increase (.ofFn ((c / s) • P u))))
    (hresidual : Abreast R E (CarriedResidual P c)
      (equation.residual (guess.getD (.zeros [solver.dim])))
      (equation'.residual (guess'.getD (.zeros [solver'.dim]))))
    (himage : ∀ v : Fin n → ℝ, Abreast R E (CarriedImage P s) (equation.image (.ofFn v))
      (equation'.image (.ofFn (P v))))
    (hw : w.rotations.length = solver.limit) (hw' : w'.rotations.length = solver.limit)
    {μ : σ} {μ' : σ'} (hμ : R μ μ') :
    CarriedRun P s c R E (Outcome.Carried G c) ((solver.solve equation guess w).run μ)
      ((solver'.solve equation' guess' w').run μ') := by
  obtain ⟨g, hg⟩ : ∃ g, guess.getD (.zeros [solver.dim]) = g := ⟨_, rfl⟩
  obtain ⟨g', hg'⟩ : ∃ g', guess'.getD (.zeros [solver'.dim]) = g' := ⟨_, rfl⟩
  rw [hg, hg'] at hguess hincrease hresidual
  obtain ⟨hanswer, hmemory⟩ := hresidual μ μ' hμ
  have hcleared := Workspace.Carried.cleared P s c w w'
  rw [solve, solve, run_bind, run_bind, hg, hg']
  change Tally E _ ((equation.residual g).run.run μ).1 ((equation'.residual g').run.run μ').1
    at hanswer
  change R ((equation.residual g).run.run μ).2 ((equation'.residual g').run.run μ').2 at hmemory
  generalize (equation.residual g).run.run μ = run at hanswer hmemory ⊢
  generalize (equation'.residual g').run.run μ' = run' at hanswer hmemory ⊢
  obtain ⟨answer, μ₁⟩ := run
  obtain ⟨answer', μ₁'⟩ := run'
  cases hanswer with
  | error hfault => exact ⟨.error hfault, hcleared, hmemory⟩
  | @ok a a' ha =>
      obtain ⟨hnorm, htiny, hfirst⟩ := ha
      dsimp only
      rw [hnorm] at htiny hfirst ⊢
      by_cases hzero : a.norm < Scalar.tiny
      · rw [if_pos hzero, if_pos (htiny.2 hzero)]
        exact ⟨.ok ⟨hguess, rfl, rfl, rfl, rfl, rfl⟩, hcleared, hmemory⟩
      · rw [if_neg hzero, if_neg fun h => hzero (htiny.1 h), hdim, hdim']
        generalize (a.divide a.norm).vector n = first at hfirst ⊢
        generalize (a'.divide (c * a.norm)).vector n' = first' at hfirst ⊢
        cases hfirst with
        | error fault => exact ⟨.error (hE fault), hcleared, hmemory⟩
        | @ok v v' hv =>
            obtain ⟨u, rfl, rfl⟩ := hv
            exact conclude_iterate_carried hE hP hs hc hdim hdim' hlimit hτ hguess hincrease himage
              hw hw' u a.norm hmemory

end Solver

end Krylov

end RecedingHorizon
