import Mathlib
import RecedingHorizon.Krylov.Solver
import RecedingHorizon.Proofs.Krylov.Frame
import RecedingHorizon.Proofs.Numbers
import RecedingHorizon.Stateful

/-!
# The residual a solve reports

A solve reports the norm of the residual of its solution without forming either: it
is the entry of the turned right-hand side that is not yet settled.  In exact
arithmetic the report is true, whichever way the solve ends, for a linear equation.

While the space grows, the workspace *spans*: its directions are a frame, the turned
frame explains the columns, and what is left of the residual points along the last
vector of the turned frame.  When it stops, the workspace *explains* the residual:
the directions that have columns do so, and what is left has the length that is
reported.  It is the second that says what is reported; the first is what a step
preserves.

* `Workspace.Spans`, `Workspace.Explains`: the invariant of a solve, and what it ends
  with; `Workspace.Projects` says what the settled entries are.
* `Workspace.Parts`: what a step computes.  `Spans.grow` and `Spans.stop` are the two steps with a
  column, and `Workspace.absorb_spec` is any step.
* `Solver.iterate_ends`: from what every step keeps to what a growth ends with.
* `Solver.run_solve_of_lt`: a solve that is over before it begins.
* `Solver.iterate_spec`, `Solver.solve_spec`: the growth of the space, and the solve.
-/

namespace RecedingHorizon

namespace Krylov

open scoped Matrix

variable {d : ℕ} {g : (Fin d → ℝ) → Fin d → ℝ} {r₀ : Fin d → ℝ}

namespace Workspace

/-- The columns come from the images of the first directions, the settled entries take
away from the residual what these reach, and what is left has the length of the
remainder. -/
def Explains (g : (Fin d → ℝ) → Fin d → ℝ) (r₀ : Fin d → ℝ) (w : Workspace ℝ) : Prop :=
  ∃ us more ws : List (Fin d → ℝ),
    w.basis = (us ++ more).map List.ofFn ∧ Reaches g ws w.columns.reverse us.reverse ∧
    ws.length = w.columns.length ∧ w.settled.length = w.columns.length ∧
    (r₀ - combination w.settled ws) ⬝ᵥ (r₀ - combination w.settled ws) = w.remainder ^ 2

/-- What the settled entries take away from the residual is its projection on the images of the
directions `us`, which are combinations of the frame `ws`. -/
structure Projects (g : (Fin d → ℝ) → Fin d → ℝ) (r₀ : Fin d → ℝ) (w : Workspace ℝ)
    (us ws : List (Fin d → ℝ)) : Prop where
  basis : ∃ more : List (Fin d → ℝ), w.basis = (us ++ more).map List.ofFn
  directions : Frame us
  reaches : Reaches g ws w.columns.reverse us.reverse
  frame : Frame ws
  length : ws.length = w.columns.length
  settled : w.settled.length = w.columns.length
  orthogonal : ∀ f ∈ ws, f ⬝ᵥ (r₀ - combination w.settled ws) = 0
  norm : (r₀ - combination w.settled ws) ⬝ᵥ (r₀ - combination w.settled ws) = w.remainder ^ 2

/-- A workspace that projects the residual explains it. -/
theorem Projects.explains {w : Workspace ℝ} {us ws : List (Fin d → ℝ)}
    (h : w.Projects g r₀ us ws) : w.Explains g r₀ := by
  obtain ⟨more, hbasis⟩ := h.basis
  exact ⟨us, more, ws, hbasis, h.reaches, h.length, h.settled, h.norm⟩

/-- The directions are a frame with one vector more than there are columns.  Turned,
it is `ws` and a last vector `z`, along which what is left of the residual points. -/
structure Spans (g : (Fin d → ℝ) → Fin d → ℝ) (r₀ : Fin d → ℝ) (w : Workspace ℝ)
    (us : List (Fin d → ℝ)) (v : Fin d → ℝ) (ws : List (Fin d → ℝ)) (z : Fin d → ℝ) : Prop where
  basis : w.basis = (us ++ [v]).map List.ofFn
  frame : Frame (us ++ [v])
  rotations : ∀ r ∈ w.rotations.take w.columns.length, IsRotation r
  room : w.columns.length ≤ w.rotations.length
  turned : turnFrame (w.rotations.take w.columns.length) (us ++ [v]) = (ws, z)
  reaches : Reaches g ws w.columns.reverse us.reverse
  settled : w.settled.length = w.columns.length
  residual : r₀ = combination w.settled ws + w.remainder • z

namespace Spans

variable {w : Workspace ℝ} {us ws : List (Fin d → ℝ)} {v z : Fin d → ℝ}

theorem direction (h : w.Spans g r₀ us v ws z) : w.direction = List.ofFn v := by
  rw [Workspace.direction, h.basis, List.map_append, List.map_singleton, List.getLastD_concat]

theorem length_us (h : w.Spans g r₀ us v ws z) : us.length = w.columns.length := by
  have := h.reaches.length_eq
  rwa [List.length_reverse, List.length_reverse] at this

theorem length_rotations (h : w.Spans g r₀ us v ws z) :
    (w.rotations.take w.columns.length).length = w.columns.length := by
  rw [List.length_take, Nat.min_eq_left h.room]

theorem length_frame (h : w.Spans g r₀ us v ws z) :
    (us ++ [v]).length = (w.rotations.take w.columns.length).length + 1 := by
  rw [List.length_append, h.length_us, h.length_rotations, List.length_singleton]

theorem length_turned (h : w.Spans g r₀ us v ws z) : ws.length = w.columns.length := by
  have := length_turnFrame h.length_frame
  rwa [h.turned, h.length_rotations] at this

/-- A workspace that spans has fewer columns than there are dimensions. -/
theorem length_lt (h : w.Spans g r₀ us v ws z) : w.columns.length < d := by
  have hle := h.frame.length_le
  rw [List.length_append, List.length_singleton, h.length_us] at hle
  exact hle

/-- The directions of a workspace that spans are a frame once they are turned, too. -/
theorem frame_turned (h : w.Spans g r₀ us v ws z) : Frame (ws ++ [z]) := by
  have := turnFrame_frame h.rotations h.length_frame h.frame
  rwa [h.turned] at this

theorem unit (h : w.Spans g r₀ us v ws z) : z ⬝ᵥ z = 1 := h.frame_turned.concat_unit

/-- What is orthogonal to the directions is orthogonal to the turned ones. -/
theorem orthogonal (h : w.Spans g r₀ us v ws z) {rest : Fin d → ℝ}
    (hrest : ∀ u ∈ us ++ [v], u ⬝ᵥ rest = 0) : ∀ f ∈ ws ++ [z], f ⬝ᵥ rest = 0 := by
  have hturned := turnFrame_orthogonal (w.rotations.take w.columns.length) hrest
  rw [h.turned] at hturned
  intro f hf
  rcases List.mem_append.1 hf with hf | hf
  · exact hturned.1 f hf
  · rw [List.mem_singleton.1 hf]
    exact hturned.2

/-- A workspace that spans projects the residual, and so it does with more directions. -/
theorem projects (h : w.Spans g r₀ us v ws z) (more : List (Fin d → ℝ)) :
    Projects g r₀ { w with basis := w.basis ++ more.map List.ofFn } us ws := by
  have hleft : r₀ - combination w.settled ws = w.remainder • z := by
    rw [h.residual, add_sub_cancel_left]
  refine ⟨⟨v :: more, ?_⟩, h.frame.of_concat, h.reaches, h.frame_turned.of_concat, h.length_turned,
    h.settled, fun f hf => ?_, ?_⟩
  · show w.basis ++ more.map List.ofFn = _
    rw [h.basis, ← List.map_append, List.append_assoc]
    rfl
  · show f ⬝ᵥ (r₀ - combination w.settled ws) = 0
    rw [hleft, dotProduct_smul, h.frame_turned.concat_orthogonal f hf, smul_zero]
  · show (r₀ - combination w.settled ws) ⬝ᵥ (r₀ - combination w.settled ws) = w.remainder ^ 2
    rw [hleft, smul_dotProduct, dotProduct_smul, h.unit, smul_eq_mul, smul_eq_mul, mul_one, sq]

/-- A workspace that spans explains the residual. -/
theorem explains (h : w.Spans g r₀ us v ws z) : w.Explains g r₀ := by
  simpa using (h.projects []).explains

end Spans

/-! ## One step -/

variable {w : Workspace ℝ} {us ws : List (Fin d → ℝ)} {v z : Fin d → ℝ}

/-- Cosine and sine that a step finds are those of a rotation. -/
theorem isRotation_toAxis {pivot height ν : ℝ} (hν : ν ≠ 0) (hsq : ν ^ 2 = pivot ^ 2 + height ^ 2) :
    IsRotation (Rotation.toAxis pivot height ν) := by
  rw [IsRotation, Rotation.toAxis, div_pow, div_pow, ← add_div, ← hsq,
    div_self (pow_ne_zero 2 hν)]

/-- What a rotation settles of the remainder, and what it leaves. -/
theorem turn_zero (r : Rotation ℝ) (a : ℝ) : r.turn a 0 = (r.c * a, -r.s * a) := by
  simp only [Rotation.turn, mul_zero, add_zero]

/-- The workspace with one more column, its last rotation and the entry this settles. -/
noncomputable def extended (w : Workspace ℝ) (basis : List (Vec ℝ)) (upper : Vec ℝ) (ν : ℝ)
    (r : Rotation ℝ) : Workspace ℝ where
  basis := basis
  columns := w.columns ++ [upper ++ [ν]]
  rotations := w.rotations.set w.columns.length r
  settled := w.settled ++ [(r.turn w.remainder 0).1]
  remainder := (r.turn w.remainder 0).2

section Extended

variable {upper : Vec ℝ} {ν : ℝ} (basis : List (Vec ℝ)) (r : Rotation ℝ)

@[simp] theorem length_columns_extended :
    (w.extended basis upper ν r).columns.length = w.columns.length + 1 := by
  rw [extended, List.length_append, List.length_singleton]

@[simp] theorem length_rotations_extended :
    (w.extended basis upper ν r).rotations.length = w.rotations.length :=
  List.length_set

theorem take_rotations_extended (hroom : w.columns.length < w.rotations.length) :
    (w.extended basis upper ν r).rotations.take (w.columns.length + 1) =
      w.rotations.take w.columns.length ++ [r] := by
  rw [extended, List.take_add_one, List.take_set_of_le le_rfl, List.getElem?_set_self hroom]
  rfl

theorem Spans.settled_extended (h : w.Spans g r₀ us v ws z) :
    (w.extended basis upper ν r).settled.length =
      (w.extended basis upper ν r).columns.length := by
  rw [length_columns_extended, extended, List.length_append, h.settled, List.length_singleton]

/-- The column of a step belongs to the latest direction, whose image reaches as far as `f`. -/
theorem Spans.reaches_extended (h : w.Spans g r₀ us v ws z)
    (hupper : upper.length = w.columns.length) (hν : ν ≠ 0) {f : Fin d → ℝ}
    (himage : g v = combination upper ws + ν • f) :
    Reaches g (ws ++ [f]) (w.extended basis upper ν r).columns.reverse (us ++ [v]).reverse := by
  rw [extended, List.reverse_append, List.reverse_append]
  refine .cons ?_ ?_ ?_ (h.reaches.append (by simp [h.length_turned]) _)
  · simp [hupper]
  · simpa [← hupper] using hν
  · rw [combination_append (hupper.trans h.length_turned.symm), combination_cons,
      combination_nil, add_zero, himage]

/-- What is settled, with the share of the new vector. -/
theorem Spans.combination_extended (h : w.Spans g r₀ us v ws z) (f : Fin d → ℝ) :
    combination (w.extended basis upper ν r).settled (ws ++ [f]) =
      combination w.settled ws + (r.c * w.remainder) • f := by
  rw [extended, turn_zero, combination_append (h.settled.trans h.length_turned.symm),
    combination_cons, combination_nil, add_zero]

end Extended

/-- A step in terms of its parts: components, turned column and the two lengths. -/
theorem absorb_eq {image y upper : Vec ℝ} {rest : Fin d → ℝ} {pivot height ν : ℝ}
    (hsplit : orthogonalize w.basis image = (y, List.ofFn rest))
    (hturn : turnColumn (w.rotations.take w.columns.length) y = (upper, pivot))
    (hheight : √(rest ⬝ᵥ rest) = height) (hν : √(pivot ^ 2 + height ^ 2) = ν) :
    w.absorb image =
      if ν = 0 then
        ({ w with
            basis := if height ≤ negligible * Vec.norm image then w.basis
              else w.basis ++ [Vec.divide (List.ofFn rest) height] },
          some .singular)
      else
        (w.extended (if height ≤ negligible * Vec.norm image then w.basis
            else w.basis ++ [Vec.divide (List.ofFn rest) height]) upper ν
            (Rotation.toAxis pivot height ν),
          if height ≤ negligible * Vec.norm image then some .breakdown else none) := by
  unfold absorb
  simp only [extended, hsplit, hturn, Vec.norm_ofFn, hheight, hypot_eq, hν, isZero_eq,
    decide_eq_true_eq]

/-- The parts of a step: the components of the image and what is left of it, and the turned
column with its pivot. -/
structure Parts (g : (Fin d → ℝ) → Fin d → ℝ) (w : Workspace ℝ) (us : List (Fin d → ℝ))
    (v : Fin d → ℝ) where
  components : Vec ℝ
  rest : Fin d → ℝ
  upper : Vec ℝ
  pivot : ℝ
  split : orthogonalize w.basis (List.ofFn (g v)) = (components, List.ofFn rest)
  length : components.length = (us ++ [v]).length
  sum : g v = combination components (us ++ [v]) + rest
  orthogonal : ∀ u ∈ us ++ [v], u ⬝ᵥ rest = 0
  turn : turnColumn (w.rotations.take w.columns.length) components = (upper, pivot)

/-- A workspace that spans has the parts of its next step. -/
theorem Spans.nonempty_parts (h : w.Spans g r₀ us v ws z) : Nonempty (w.Parts g us v) := by
  obtain ⟨y, rest, hsplit, hy, hsum, hortho⟩ := orthogonalize_spec (us ++ [v]) (g v)
  rw [← h.basis] at hsplit
  exact ⟨⟨y, rest, _, _, hsplit, hy, hsum, hortho h.frame, rfl⟩⟩

namespace Parts

variable (p : w.Parts g us v)

/-- The length of what is left of the image. -/
noncomputable def height : ℝ := √(p.rest ⬝ᵥ p.rest)

/-- The entry with which the new column ends, on the diagonal. -/
noncomputable def diagonal : ℝ := √(p.pivot ^ 2 + p.height ^ 2)

/-- The rotation that belongs to the new column. -/
noncomputable def rotation : Rotation ℝ := Rotation.toAxis p.pivot p.height p.diagonal

/-- What is left counts as nothing against the image. -/
def Negligible : Prop := p.height ≤ negligible * Vec.norm (List.ofFn (g v))

/-- The direction of what is left. -/
noncomputable def next : Fin d → ℝ := p.height⁻¹ • p.rest

/-- The direction of what the image adds to the turned frame before its last vector. -/
noncomputable def added (z : Fin d → ℝ) : Fin d → ℝ := p.diagonal⁻¹ • (p.pivot • z + p.rest)

/-- The workspace with the new column and the directions as they are. -/
noncomputable def closed : Workspace ℝ := w.extended w.basis p.upper p.diagonal p.rotation

/-- The workspace with the new column and the new direction. -/
noncomputable def grown : Workspace ℝ :=
  w.extended (w.basis ++ [Vec.divide (List.ofFn p.rest) p.height]) p.upper p.diagonal p.rotation

/-- What a step leaves of the remainder. -/
theorem remainder_closed : p.closed.remainder = -p.rotation.s * w.remainder :=
  congrArg Prod.snd (turn_zero p.rotation w.remainder)

theorem remainder_grown : p.grown.remainder = -p.rotation.s * w.remainder :=
  congrArg Prod.snd (turn_zero p.rotation w.remainder)

theorem height_nonneg : 0 ≤ p.height := Real.sqrt_nonneg _

theorem diagonal_nonneg : 0 ≤ p.diagonal := Real.sqrt_nonneg _

theorem rest_dotProduct_self : p.rest ⬝ᵥ p.rest = p.height ^ 2 :=
  (Real.sq_sqrt (dotProduct_self_nonneg p.rest)).symm

theorem diagonal_sq : p.diagonal ^ 2 = p.pivot ^ 2 + p.height ^ 2 :=
  Real.sq_sqrt (add_nonneg (sq_nonneg _) (sq_nonneg _))

/-- The diagonal of a step vanishes only where nothing is left of the image and the pivot is zero.
-/
theorem diagonal_eq_zero_iff : p.diagonal = 0 ↔ p.pivot = 0 ∧ p.height = 0 := by
  rw [diagonal, Real.sqrt_eq_zero (add_nonneg (sq_nonneg _) (sq_nonneg _)),
    add_eq_zero_iff_of_nonneg (sq_nonneg _) (sq_nonneg _), sq_eq_zero_iff, sq_eq_zero_iff]

theorem norm_image_nonneg : 0 ≤ negligible * Vec.norm (List.ofFn (g v)) :=
  mul_nonneg negligible_pos.le (by rw [Vec.norm_ofFn]; exact Real.sqrt_nonneg _)

variable {p}

theorem height_ne_zero (hn : ¬p.Negligible) : p.height ≠ 0 :=
  (norm_image_nonneg.trans_lt (not_le.1 hn)).ne'

theorem diagonal_ne_zero (hn : ¬p.Negligible) : p.diagonal ≠ 0 :=
  fun h => height_ne_zero hn (p.diagonal_eq_zero_iff.1 h).2

theorem negligible_of_diagonal_eq_zero (h : p.diagonal = 0) : p.Negligible := by
  rw [Negligible, (p.diagonal_eq_zero_iff.1 h).2]
  exact norm_image_nonneg

variable (p)

/-- What a step does to the workspace, and how it ends the growth if it does, by its parts. -/
theorem absorb_eq : w.absorb (List.ofFn (g v)) =
    if p.diagonal = 0 then
      ({ w with
          basis := if p.height ≤ negligible * Vec.norm (List.ofFn (g v)) then w.basis
            else w.basis ++ [Vec.divide (List.ofFn p.rest) p.height] },
        some .singular)
    else
      (w.extended (if p.height ≤ negligible * Vec.norm (List.ofFn (g v)) then w.basis
          else w.basis ++ [Vec.divide (List.ofFn p.rest) p.height]) p.upper p.diagonal p.rotation,
        if p.height ≤ negligible * Vec.norm (List.ofFn (g v)) then some .breakdown else none) :=
  Workspace.absorb_eq p.split p.turn rfl rfl

/-- A step whose diagonal vanishes ends the growth without a column. -/
theorem absorb_of_diagonal_eq_zero (h : p.diagonal = 0) :
    w.absorb (List.ofFn (g v)) = (w, some .singular) := by
  have hn := negligible_of_diagonal_eq_zero h
  rw [Negligible] at hn
  rw [p.absorb_eq, if_pos h, if_pos hn]

/-- A step that leaves next to nothing ends the growth with a column. -/
theorem absorb_of_negligible (hν : p.diagonal ≠ 0) (h : p.Negligible) :
    w.absorb (List.ofFn (g v)) = (p.closed, some .breakdown) := by
  rw [Negligible] at h
  rw [p.absorb_eq, if_neg hν, if_pos h, if_pos h, closed]

/-- A step that leaves more than next to nothing adds a column and a direction. -/
theorem absorb_of_not_negligible (h : ¬p.Negligible) :
    w.absorb (List.ofFn (g v)) = (p.grown, none) := by
  have hν := diagonal_ne_zero h
  rw [Negligible] at h
  rw [p.absorb_eq, if_neg hν, if_neg h, if_neg h, grown]

theorem isRotation (hν : p.diagonal ≠ 0) : IsRotation p.rotation :=
  isRotation_toAxis hν p.diagonal_sq

theorem diagonal_mul_c (hν : p.diagonal ≠ 0) : p.diagonal * p.rotation.c = p.pivot :=
  mul_div_cancel₀ p.pivot hν

theorem diagonal_mul_s (hν : p.diagonal ≠ 0) : p.diagonal * p.rotation.s = p.height :=
  mul_div_cancel₀ p.height hν

theorem diagonal_smul_added (hν : p.diagonal ≠ 0) (z : Fin d → ℝ) :
    p.diagonal • p.added z = p.pivot • z + p.rest := by
  rw [added, smul_smul, mul_inv_cancel₀ hν, one_smul]

theorem height_smul_next (h0 : p.height ≠ 0) : p.height • p.next = p.rest := by
  rw [next, smul_smul, mul_inv_cancel₀ h0, one_smul]

/-- The added direction lies in the plane of the turned frame's last vector and the next
direction. -/
theorem added_eq (hn : ¬p.Negligible) (z : Fin d → ℝ) :
    p.added z = p.rotation.c • z + p.rotation.s • p.next := by
  have hν := diagonal_ne_zero hn
  refine smul_right_injective _ hν ?_
  dsimp only
  rw [p.diagonal_smul_added hν, smul_add, smul_smul, smul_smul, p.diagonal_mul_c hν,
    p.diagonal_mul_s hν, p.height_smul_next (height_ne_zero hn)]

theorem next_dotProduct_self (h0 : p.height ≠ 0) : p.next ⬝ᵥ p.next = 1 :=
  normalized_dotProduct_self h0

theorem length_upper (h : w.Spans g r₀ us v ws z) : p.upper.length = w.columns.length := by
  have hupper := length_turnColumn (p.length.trans h.length_frame)
  rwa [p.turn, h.length_rotations] at hupper

/-- The image of the latest direction, by its turned column and what is left of it. -/
theorem image_eq (h : w.Spans g r₀ us v ws z) :
    g v = combination p.upper ws + p.pivot • z + p.rest := by
  have himage := combination_turnFrame h.rotations (p.length.trans h.length_frame) h.length_frame
  rw [h.turned, p.turn] at himage
  rw [p.sum, himage]

/-- The image of the latest direction, by its turned column and the added direction. -/
theorem image_eq_added (h : w.Spans g r₀ us v ws z) (hν : p.diagonal ≠ 0) :
    g v = combination p.upper ws + p.diagonal • p.added z := by
  rw [p.diagonal_smul_added hν, ← add_assoc]
  exact p.image_eq h

end Parts

/-- A step that adds a direction goes on spanning. -/
theorem Spans.grow (h : w.Spans g r₀ us v ws z) (hroom : w.columns.length < w.rotations.length)
    (p : w.Parts g us v) (hn : ¬p.Negligible) :
    Spans g r₀ p.grown (us ++ [v]) p.next (ws ++ [p.added z])
      (-p.rotation.s • z + p.rotation.c • p.next) := by
  have h0 := Parts.height_ne_zero hn
  have hν := Parts.diagonal_ne_zero hn
  have hrotation : IsRotation p.rotation := p.isRotation hν
  have hcs : p.rotation.c ^ 2 + p.rotation.s ^ 2 = 1 := hrotation
  have hortho : ∀ u ∈ us ++ [v], u ⬝ᵥ p.next = 0 := by
    intro u hu
    rw [Parts.next, dotProduct_smul, p.orthogonal u hu, smul_zero]
  refine ⟨?_, h.frame.concat (p.next_dotProduct_self h0) hortho, ?_, ?_, ?_,
    h.reaches_extended _ _ (p.length_upper h) hν (p.image_eq_added h hν),
    h.settled_extended _ _, ?_⟩
  · have happend : (us ++ [v] ++ [p.next]).map List.ofFn =
        (us ++ [v]).map List.ofFn ++ [List.ofFn p.next] := List.map_append
    rw [Parts.grown, extended, h.basis, Vec.divide_ofFn, happend]
    rfl
  · intro q hq
    rw [Parts.grown, length_columns_extended, take_rotations_extended _ _ hroom] at hq
    rcases List.mem_append.1 hq with hq | hq
    · exact h.rotations q hq
    · rwa [List.mem_singleton.1 hq]
  · rw [Parts.grown, length_columns_extended, length_rotations_extended]
    exact hroom
  · rw [Parts.grown, length_columns_extended, take_rotations_extended _ _ hroom,
      turnFrame_concat h.length_frame, h.turned, p.added_eq hn]
  · rw [p.remainder_grown, Parts.grown, h.combination_extended, p.added_eq hn, h.residual]
    ext i
    simp only [Pi.add_apply, Pi.smul_apply, smul_eq_mul]
    linear_combination (-(w.remainder * z i)) * hcs

/-- A step that adds no direction projects the residual. -/
theorem Spans.stop (h : w.Spans g r₀ us v ws z) (p : w.Parts g us v) (hν : p.diagonal ≠ 0) :
    Projects g r₀ p.closed (us ++ [v]) (ws ++ [p.added z]) := by
  have hcs : p.rotation.c ^ 2 + p.rotation.s ^ 2 = 1 := p.isRotation hν
  have hrest := h.orthogonal p.orthogonal
  have hzrest : z ⬝ᵥ p.rest = 0 := hrest z (List.mem_append_right ws (List.mem_singleton_self z))
  have hrestz : p.rest ⬝ᵥ z = 0 := by rw [dotProduct_comm, hzrest]
  have hzf : z ⬝ᵥ p.added z = p.rotation.c := by
    rw [Parts.added, dotProduct_smul, dotProduct_add, dotProduct_smul, h.unit, hzrest, smul_eq_mul,
      smul_eq_mul, mul_one, add_zero]
    exact (div_eq_inv_mul p.pivot p.diagonal).symm
  have hfz : p.added z ⬝ᵥ z = p.rotation.c := by rw [dotProduct_comm, hzf]
  have hff : p.added z ⬝ᵥ p.added z = 1 := by
    simp only [Parts.added, smul_dotProduct, dotProduct_smul, add_dotProduct, dotProduct_add,
      h.unit, hzrest, hrestz, p.rest_dotProduct_self, smul_eq_mul]
    field_simp
    rw [p.diagonal_sq]
    ring
  have hwsf : ∀ f ∈ ws, f ⬝ᵥ p.added z = 0 := by
    intro f hf
    rw [Parts.added, dotProduct_smul, dotProduct_add, dotProduct_smul,
      h.frame_turned.concat_orthogonal f hf, hrest f (List.mem_append_left _ hf), smul_zero,
      add_zero, smul_zero]
  have hleft : r₀ - combination p.closed.settled (ws ++ [p.added z]) =
      w.remainder • (z - p.rotation.c • p.added z) := by
    rw [Parts.closed, h.combination_extended, h.residual]
    ext i
    simp only [Pi.add_apply, Pi.sub_apply, Pi.smul_apply, smul_eq_mul]
    ring
  refine ⟨⟨[], ?_⟩, h.frame, h.reaches_extended _ _ (p.length_upper h) hν (p.image_eq_added h hν),
    h.frame_turned.of_concat.concat hff hwsf, ?_, h.settled_extended _ _, ?_, ?_⟩
  · rw [List.append_nil]
    exact h.basis
  · rw [Parts.closed, length_columns_extended, List.length_append, h.length_turned,
      List.length_singleton]
  · intro f hf
    rw [hleft, dotProduct_smul, dotProduct_sub, dotProduct_smul]
    rcases List.mem_append.1 hf with hf | hf
    · rw [h.frame_turned.concat_orthogonal f hf, hwsf f hf, smul_zero, sub_zero, smul_zero]
    · rw [List.mem_singleton.1 hf, hfz, hff, smul_eq_mul, smul_eq_mul, mul_one, sub_self,
        mul_zero]
  · rw [hleft, p.remainder_closed]
    simp only [smul_dotProduct, dotProduct_smul, sub_dotProduct, dotProduct_sub, h.unit, hzf, hfz,
      hff, smul_eq_mul]
    linear_combination (-w.remainder ^ 2) * hcs

/-- What a step leads to: it ends the growth and explains the residual, or it adds a
direction and goes on spanning. -/
theorem absorb_spec (h : w.Spans g r₀ us v ws z) (hroom : w.columns.length < w.rotations.length) :
    (∃ w' ending, w.absorb (List.ofFn (g v)) = (w', some ending) ∧ w'.Explains g r₀ ∧
        w'.rotations.length = w.rotations.length) ∨
      ∃ w', w.absorb (List.ofFn (g v)) = (w', none) ∧
        (∃ us' v' ws' z', w'.Spans g r₀ us' v' ws' z') ∧
        w'.columns.length = w.columns.length + 1 ∧
        w'.rotations.length = w.rotations.length := by
  obtain ⟨p⟩ := h.nonempty_parts
  by_cases hn : p.Negligible
  · left
    by_cases hν : p.diagonal = 0
    · exact ⟨w, .singular, p.absorb_of_diagonal_eq_zero hν, h.explains, rfl⟩
    · exact ⟨p.closed, .breakdown, p.absorb_of_negligible hν hn, (h.stop p hν).explains,
        length_rotations_extended _ _⟩
  · right
    exact ⟨p.grown, p.absorb_of_not_negligible hn, ⟨_, _, _, _, h.grow hroom p hn⟩,
      length_columns_extended _ _, length_rotations_extended _ _⟩

/-- The step from a single direction that is its own image: the space does not grow. -/
theorem absorb_fixed {v : Fin d → ℝ} (hv : v ⬝ᵥ v = 1) (hbasis : w.basis = [List.ofFn v])
    (hcolumns : w.columns = []) :
    w.absorb (List.ofFn v) =
      (w.extended [List.ofFn v] [] 1 (Rotation.toAxis 1 0 1), some .breakdown) := by
  have hsplit : orthogonalize w.basis (List.ofFn v) = ([1], List.ofFn (0 : Fin d → ℝ)) := by
    rw [hbasis, orthogonalize, orthogonalize, Vec.dot_ofFn, hv, Vec.scale_ofFn, Vec.sub_ofFn,
      one_smul, sub_self]
  have hturn : turnColumn (w.rotations.take w.columns.length) [1] = (([] : Vec ℝ), 1) := by
    rw [hcolumns]
    rfl
  have hheight : √((0 : Fin d → ℝ) ⬝ᵥ 0) = 0 := by rw [zero_dotProduct, Real.sqrt_zero]
  have hν : √((1 : ℝ) ^ 2 + 0 ^ 2) = 1 := by norm_num
  have hsmall : (0 : ℝ) ≤ negligible * Vec.norm (List.ofFn v) :=
    mul_nonneg negligible_pos.le (by rw [Vec.norm_ofFn]; exact Real.sqrt_nonneg _)
  rw [absorb_eq hsplit hturn hheight hν, if_neg one_ne_zero, if_pos hsmall, if_pos hsmall, hbasis]

end Workspace

namespace Solver

variable {σ : Type} {solver : Solver ℝ} {equation : Equation (StateM σ) ℝ} {μ : σ} {β τ : ℝ}
  {w : Workspace ℝ} {us ws : List (Fin d → ℝ)} {v z : Fin d → ℝ}

/-! ## The growth of the space -/

theorem within_eq (hτ : solver.relativeTolerance.scalar = .ok τ) (β : ℝ) (w : Workspace ℝ) :
    solver.within β w = .ok (decide (|w.remainder| ≤ τ * β)) := by
  rw [within, hτ, ok_bind, scalar_abs_eq]
  rfl

/-- The image of a direction is taken if it has as many entries as there are dimensions. -/
theorem imageVector_ofFn (hdim : solver.dim = d) (v : Fin d → ℝ) :
    solver.imageVector (.ofFn v) = .ok (List.ofFn v) := by
  rw [imageVector, Tensor.shape_ofFn, hdim, if_pos rfl, Tensor.entries_ofFn]

/-- A step ends the growth and explains the residual, or it goes on spanning. -/
theorem step_spec (hdim : solver.dim = d) (hτ : solver.relativeTolerance.scalar = .ok τ)
    (h : w.Spans g r₀ us v ws z) (hroom : w.columns.length < w.rotations.length) :
    (∃ w' ending, solver.step β (.ofFn (g v)) w = (.ok (some ending), w') ∧ w'.Explains g r₀ ∧
        w'.rotations.length = w.rotations.length) ∨
      ∃ w', solver.step β (.ofFn (g v)) w = (.ok none, w') ∧
        (∃ us' v' ws' z', w'.Spans g r₀ us' v' ws' z') ∧
        w'.columns.length = w.columns.length + 1 ∧
        w'.rotations.length = w.rotations.length := by
  have hvector := imageVector_ofFn hdim (g v)
  rcases Workspace.absorb_spec h hroom with
    ⟨w', ending, habsorb, hexplains, hlength⟩ |
      ⟨w', habsorb, ⟨us', v', ws', z', hspans⟩, hgrown, hlength⟩
  · left
    refine ⟨w', ending, ?_, hexplains, hlength⟩
    simp only [step, hvector, habsorb]
  · have hstep : solver.step β (.ofFn (g v)) w =
        (.ok (if |w'.remainder| ≤ τ * β then some .tolerance else none), w') := by
      simp only [step, hvector, habsorb, within_eq hτ, Except.map, decide_eq_true_eq]
    by_cases hreached : |w'.remainder| ≤ τ * β
    · left
      rw [if_pos hreached] at hstep
      exact ⟨w', .tolerance, hstep, hspans.explains, hlength⟩
    · right
      rw [if_neg hreached] at hstep
      exact ⟨w', hstep, ⟨us', v', ws', z', hspans⟩, hgrown, hlength⟩

/-- A growth by at least one direction, given the image of the first. -/
theorem run_iterate_succ {image : Tensor ℝ} {left : ℕ}
    (h : Stateful.runOn (equation.image (.ofVec w.direction)) μ = (.ok image, μ)) :
    (solver.iterate equation β (left + 1) w).run μ =
      match solver.step β image w with
      | (.error fault, w) => ((.error fault, w), μ)
      | (.ok (some ending), w) => ((.ok ending, w), μ)
      | (.ok none, w) => (solver.iterate equation β left w).run μ := by
  have h : (equation.image (.ofVec w.direction)).run.run μ = (.ok image, μ) := h
  rw [iterate, Stateful.run_bind, h]
  dsimp only
  rcases solver.step β image w with ⟨_ | _ | _, w'⟩ <;> rfl

/-- What every step keeps, or leaves at the end, holds of the growth as a whole.  The property
that is kept may count the directions that are left. -/
theorem iterate_ends {I : ℕ → Workspace ℝ → Prop} {E : Ending → Workspace ℝ → Prop}
    (hlimit : ∀ w, I 0 w → E .limit w)
    (hstep : ∀ left w, I (left + 1) w →
      ∃ image, Stateful.runOn (equation.image (.ofVec w.direction)) μ = (.ok image, μ) ∧
        ((∃ ending w', solver.step β image w = (.ok (some ending), w') ∧ E ending w') ∨
          ∃ w', solver.step β image w = (.ok none, w') ∧ I left w'))
    (left : ℕ) {w : Workspace ℝ} (h : I left w) :
    ∃ ending w', (solver.iterate equation β left w).run μ = ((.ok ending, w'), μ) ∧
      E ending w' := by
  induction left generalizing w with
  | zero => exact ⟨.limit, w, rfl, hlimit w h⟩
  | succ left ih =>
      obtain ⟨image, hanswer, ⟨ending, w', hended, hE⟩ | ⟨w', hgrown, hI⟩⟩ := hstep left w h
      · refine ⟨ending, w', ?_, hE⟩
        rw [run_iterate_succ hanswer, hended]
      · obtain ⟨ending, w'', hrun, hE⟩ := ih hI
        refine ⟨ending, w'', ?_, hE⟩
        rw [run_iterate_succ hanswer, hgrown]
        exact hrun

/-- However the growth ends, the workspace explains the residual. -/
theorem iterate_spec (hdim : solver.dim = d) (hτ : solver.relativeTolerance.scalar = .ok τ)
    (himage : ∀ v : Fin d → ℝ,
      Stateful.runOn (equation.image (.ofFn v)) μ = (.ok (.ofFn (g v)), μ))
    (left : ℕ) (h : w.Spans g r₀ us v ws z)
    (hleft : w.columns.length + left ≤ w.rotations.length) :
    ∃ ending w', (solver.iterate equation β left w).run μ = ((.ok ending, w'), μ) ∧
      w'.Explains g r₀ ∧ w'.rotations.length = w.rotations.length := by
  refine iterate_ends (I := fun left u => (∃ us v ws z, u.Spans g r₀ us v ws z) ∧
      u.columns.length + left ≤ u.rotations.length ∧ u.rotations.length = w.rotations.length)
    (E := fun _ u => u.Explains g r₀ ∧ u.rotations.length = w.rotations.length) ?_ ?_ left
    ⟨⟨us, v, ws, z, h⟩, hleft, rfl⟩
  · rintro u ⟨⟨_, _, _, _, hspans⟩, -, hlength⟩
    exact ⟨hspans.explains, hlength⟩
  · rintro left u ⟨⟨_, v, _, _, hspans⟩, hroom, hlength⟩
    refine ⟨.ofFn (g v), by rw [hspans.direction]; exact himage v, ?_⟩
    rcases step_spec (β := β) hdim hτ hspans (by omega) with
      ⟨u', ending, hstep, hexplains, hlength'⟩ | ⟨u', hstep, hspans', hgrown, hlength'⟩
    · exact .inl ⟨ending, u', hstep, hexplains, hlength'.trans hlength⟩
    · exact .inr ⟨u', hstep, hspans', by omega, hlength'.trans hlength⟩

/-! ## The outcome -/

/-- The solution in a workspace whose columns reach, by its coefficients along the directions.
For a linear equation its image is what the settled entries say. -/
theorem solution_eq (hdim : solver.dim = d) {more : List (Fin d → ℝ)}
    (hbasis : w.basis = (us ++ more).map List.ofFn)
    (hreaches : Reaches g ws w.columns.reverse us.reverse) (hws : ws.length = w.columns.length)
    (hsettled : w.settled.length = w.columns.length) (x₀ : Fin d → ℝ) :
    ∃ y : Vec ℝ, solver.solution (.ofFn x₀) w = .ok (.ofFn (x₀ + combination y us)) ∧
      (IsLinearMap ℝ g → g (combination y us) = combination w.settled ws) := by
  have hlength := hreaches.length_eq
  rw [List.length_reverse, List.length_reverse] at hlength
  have hcolumns : w.columns.reverse.length ≤ ws.length := by rw [List.length_reverse, hws]
  set y := backSubstitute w.columns.reverse w.settled with hy
  have hylength : y.length = us.length := by
    rw [hy, length_backSubstitute, List.length_reverse, hlength]
  refine ⟨y, ?_, fun hg => ?_⟩
  · by_cases hempty : w.columns = []
    · have hyempty : y = [] := by
        rw [hempty, List.length_nil] at hlength
        exact List.eq_nil_of_length_eq_zero (hylength.trans hlength)
      rw [solution, hempty, hyempty, combination_nil, add_zero]
      rfl
    · have hcombine : Vec.combine solver.dim w.basis y = List.ofFn (combination y us) := by
        rw [hdim, hbasis, Vec.combine_map_ofFn, ← combination_append_right hylength.le more]
        rfl
      rw [solution, if_neg (by simpa using hempty), w.coefficients_eq, ← hy, ok_bind, hcombine]
      exact Tensor.increase_ofFn x₀ (combination y us)
  · have := hreaches.combination_backSubstitute hcolumns
      (by rw [hsettled, List.length_reverse])
    rwa [List.reverse_reverse, ← map_combination hg] at this

/-- The solution in a workspace that explains the residual.  For a linear equation it
leaves what the settled entries leave. -/
theorem solution_spec (hdim : solver.dim = d) (h : w.Explains g r₀) (x₀ : Fin d → ℝ) :
    ∃ x : Fin d → ℝ, solver.solution (.ofFn x₀) w = .ok (.ofFn x) ∧
      (IsLinearMap ℝ g →
        (r₀ - g (x - x₀)) ⬝ᵥ (r₀ - g (x - x₀)) = w.remainder ^ 2) := by
  obtain ⟨us, more, ws, hbasis, hreaches, hws, hsettled, hnorm⟩ := h
  obtain ⟨y, hsolution, hreached⟩ := solution_eq hdim hbasis hreaches hws hsettled x₀
  refine ⟨_, hsolution, fun hg => ?_⟩
  rw [add_sub_cancel_left, hreached hg, hnorm]

theorem succeeded_eq_ok (hτ : solver.relativeTolerance.scalar = .ok τ) (β : ℝ)
    (w : Workspace ℝ) (ending : Ending) : ∃ b, solver.succeeded β w ending = .ok b := by
  cases ending with
  | limit => exact ⟨_, within_eq hτ β w⟩
  | tolerance => exact ⟨_, within_eq hτ β w⟩
  | breakdown => exact ⟨true, rfl⟩
  | singular => exact ⟨false, rfl⟩

/-- The outcome, by the solution in the workspace and by whether it is a success. -/
theorem conclude_eq {guess x : Tensor ℝ} {ending : Ending} {success : Bool}
    (hsolution : solver.solution guess w = .ok x)
    (hsucceeded : solver.succeeded β w ending = .ok success) :
    solver.conclude guess β w ending = .ok ⟨x, w.columns.length, β, |w.remainder|, success,
      ending == .breakdown || ending == .singular⟩ := by
  rw [conclude, hsolution, ok_bind, hsucceeded, ok_bind, scalar_abs_eq]
  rfl

/-- A workspace that explains the residual has an outcome, and for a linear equation the
residual of its solution has the norm that is reported. -/
theorem conclude_spec (hdim : solver.dim = d) (hτ : solver.relativeTolerance.scalar = .ok τ)
    (h : w.Explains g r₀) (x₀ : Fin d → ℝ) (β : ℝ) (ending : Ending) :
    ∃ outcome x, solver.conclude (.ofFn x₀) β w ending = .ok outcome ∧
      outcome.solution = .ofFn x ∧
      (IsLinearMap ℝ g →
        outcome.residualNorm = √((r₀ - g (x - x₀)) ⬝ᵥ (r₀ - g (x - x₀)))) := by
  obtain ⟨x, hsolution, hexact⟩ := solution_spec hdim h x₀
  obtain ⟨b, hsucceeded⟩ := succeeded_eq_ok hτ β w ending
  refine ⟨_, x, conclude_eq hsolution hsucceeded, rfl, fun hg => ?_⟩
  rw [hexact hg, Real.sqrt_sq_eq_abs]

/-- The workspace at the start of a growth spans: its one direction is that of the
residual. -/
theorem spans_seeded (hβ : √(r₀ ⬝ᵥ r₀) = β) (h0 : β ≠ 0) :
    (w.cleared.seeded (List.ofFn (β⁻¹ • r₀)) β).Spans g r₀ [] (β⁻¹ • r₀) [] (β⁻¹ • r₀) where
  basis := rfl
  frame := by
    subst hβ
    exact frame_single (normalized_dotProduct_self h0)
  rotations r hr := absurd hr List.not_mem_nil
  room := Nat.zero_le _
  turned := rfl
  reaches := .nil
  settled := rfl
  residual := by
    show r₀ = combination [] [] + β • β⁻¹ • r₀
    rw [combination_nil, zero_add, smul_smul, mul_inv_cancel₀ h0, one_smul]

/-- A solve ends at once at a guess whose residual counts as zero. -/
theorem run_solve_of_lt {μ₀ : σ} {guess : Tensor ℝ}
    (h : Stateful.runOn (equation.residual guess) μ₀ = (.ok (.ofFn r₀), μ))
    (hβ : √(r₀ ⬝ᵥ r₀) = β) (htiny : β < Scalar.tiny) :
    (solver.solve equation (some guess) w).run μ₀ = ((.ok (exact guess β), w.cleared), μ) := by
  have h : (equation.residual guess).run.run μ₀ = (.ok (.ofFn r₀), μ) := h
  have hnorm : (Tensor.ofFn r₀).norm = β := by
    rw [Tensor.norm_ofFn, hβ]
  rw [solve, Stateful.run_bind, Option.getD_some, h]
  dsimp only
  rw [hnorm, if_pos htiny]
  rfl

/-- The direction of the residual. -/
theorem vector_divide_ofFn (hdim : solver.dim = d) (r : Fin d → ℝ) (β : ℝ) :
    ((Tensor.ofFn r).divide β).vector solver.dim = .ok (List.ofFn (β⁻¹ • r)) := by
  rw [Tensor.divide_ofFn, hdim, Tensor.vector_ofFn]
  refine congrArg (fun v => Except.ok (List.ofFn v)) (funext fun i => ?_)
  exact div_eq_inv_mul (r i) β

/-- The growth with which a solve goes on from a residual that does not count as
zero. -/
theorem run_solve (hdim : solver.dim = d) {μ₀ : σ} {guess : Tensor ℝ}
    (h : Stateful.runOn (equation.residual guess) μ₀ = (.ok (.ofFn r₀), μ))
    (hβ : √(r₀ ⬝ᵥ r₀) = β) (htiny : ¬β < Scalar.tiny) {ending : Ending} {w' : Workspace ℝ}
    (hrun : (solver.iterate equation β solver.limit
      (w.cleared.seeded (List.ofFn (β⁻¹ • r₀)) β)).run μ = ((.ok ending, w'), μ)) :
    (solver.solve equation (some guess) w).run μ₀ =
      ((solver.conclude guess β w' ending, w'), μ) := by
  have h : (equation.residual guess).run.run μ₀ = (.ok (.ofFn r₀), μ) := h
  have hnorm : (Tensor.ofFn r₀).norm = β := by
    rw [Tensor.norm_ofFn, hβ]
  rw [solve, Stateful.run_bind, Option.getD_some, h]
  dsimp only
  rw [hnorm, if_neg htiny, vector_divide_ofFn hdim]
  dsimp only
  rw [Stateful.run_bind, hrun]
  rfl

/-- A solve answers, and for a linear equation the residual of its solution has the
norm that is reported. -/
theorem solve_spec (hdim : solver.dim = d) (hτ : solver.relativeTolerance.scalar = .ok τ)
    {μ₀ : σ} {x₀ : Fin d → ℝ}
    (hresidual : Stateful.runOn (equation.residual (.ofFn x₀)) μ₀ = (.ok (.ofFn r₀), μ))
    (himage : ∀ v : Fin d → ℝ,
      Stateful.runOn (equation.image (.ofFn v)) μ = (.ok (.ofFn (g v)), μ))
    (hw : w.rotations.length = solver.limit) :
    ∃ outcome w' x, (solver.solve equation (some (.ofFn x₀)) w).run μ₀ = ((.ok outcome, w'), μ) ∧
      w'.rotations.length = solver.limit ∧ outcome.solution = .ofFn x ∧
      (IsLinearMap ℝ g →
        outcome.residualNorm = √((r₀ - g (x - x₀)) ⬝ᵥ (r₀ - g (x - x₀)))) := by
  obtain ⟨β, hβ⟩ : ∃ β, √(r₀ ⬝ᵥ r₀) = β := ⟨_, rfl⟩
  by_cases htiny : β < Scalar.tiny
  · refine ⟨exact (.ofFn x₀) β, w.cleared, x₀, run_solve_of_lt hresidual hβ htiny, hw, rfl,
      fun hg => ?_⟩
    · rw [sub_self, hg.map_zero, sub_zero, hβ]
      rfl
  · have h0 : β ≠ 0 := (tiny_pos.trans_le (not_lt.1 htiny)).ne'
    obtain ⟨ending, w', hrun, hexplains, hlength⟩ := iterate_spec (β := β) hdim hτ himage
      solver.limit (spans_seeded (w := w) hβ h0) (by
        show 0 + solver.limit ≤ w.rotations.length
        rw [hw, Nat.zero_add])
    obtain ⟨outcome, x, hconclude, hsolution, hexact⟩ :=
      conclude_spec hdim hτ hexplains x₀ β ending
    refine ⟨outcome, w', x, ?_, hlength.trans hw, hsolution, hexact⟩
    rw [run_solve hdim hresidual hβ htiny hrun, hconclude]

/-- Where the direction of the residual is its own image, the residual is the solution, and it
is found in one step. -/
theorem solve_of_fixed (hdim : solver.dim = d) (hlimit : 0 < solver.limit) {μ₀ : σ}
    (hresidual : Stateful.runOn (equation.residual (.ofFn (0 : Fin d → ℝ))) μ₀ =
      (.ok (.ofFn r₀), μ))
    (hβ : √(r₀ ⬝ᵥ r₀) = β) (htiny : ¬β < Scalar.tiny)
    (himage : Stateful.runOn (equation.image (.ofFn (β⁻¹ • r₀))) μ = (.ok (.ofFn (β⁻¹ • r₀)), μ))
    (w : Workspace ℝ) :
    ∃ outcome w', (solver.solve equation (some (.ofFn (0 : Fin d → ℝ))) w).run μ₀ =
      ((.ok outcome, w'), μ) ∧ outcome.solution = .ofFn r₀ := by
  have h0 : β ≠ 0 := fun h => htiny (h ▸ tiny_pos)
  have hunit : (β⁻¹ • r₀) ⬝ᵥ (β⁻¹ • r₀) = 1 := by
    subst hβ
    exact normalized_dotProduct_self h0
  -- the space stops growing at once
  obtain ⟨left, hleft⟩ := Nat.exists_eq_succ_of_ne_zero hlimit.ne'
  obtain ⟨w', hw'⟩ : ∃ w', w' = (w.cleared.seeded (List.ofFn (β⁻¹ • r₀)) β).extended
    [List.ofFn (β⁻¹ • r₀)] [] 1 (Rotation.toAxis 1 0 1) := ⟨_, rfl⟩
  have hrun : (solver.iterate equation β solver.limit
      (w.cleared.seeded (List.ofFn (β⁻¹ • r₀)) β)).run μ = ((.ok .breakdown, w'), μ) := by
    rw [hleft, run_iterate_succ himage, step, imageVector_ofFn hdim]
    dsimp only
    rw [Workspace.absorb_fixed hunit rfl rfl, ← hw']
  -- the triangular system has one entry, which is one
  have hcoefficients : w'.coefficients = .ok [β] := by
    have hsettled : w'.settled = [β] := by
      rw [hw']
      show [((Rotation.toAxis (1 : ℝ) 0 1).turn β 0).1] = [β]
      rw [Workspace.turn_zero, Rotation.toAxis, div_one, one_mul]
    have hcolumns : w'.columns = [[1]] := by
      rw [hw']
      rfl
    rw [w'.coefficients_eq, hcolumns, hsettled]
    exact congrArg (fun y => Except.ok [y]) (div_one β)
  have hsolution : solver.solution (.ofFn (0 : Fin d → ℝ)) w' = .ok (.ofFn r₀) := by
    have hbasis : w'.basis = [β⁻¹ • r₀].map List.ofFn := by
      rw [hw']
      rfl
    have hsum : (List.zipWith (· • ·) [β] [β⁻¹ • r₀]).sum = r₀ := by
      show β • β⁻¹ • r₀ + 0 = r₀
      rw [smul_smul, mul_inv_cancel₀ h0, one_smul, add_zero]
    have hcombine : Vec.combine d ([β⁻¹ • r₀].map List.ofFn) [β] = List.ofFn r₀ := by
      rw [Vec.combine_map_ofFn, hsum]
    rw [solution, if_neg (by simp [hw', Workspace.extended]), hcoefficients, ok_bind, hdim, hbasis,
      hcombine]
    exact (Tensor.increase_ofFn 0 r₀).trans (by rw [zero_add])
  have hconclude : ∃ outcome, solver.conclude (.ofFn (0 : Fin d → ℝ)) β w' .breakdown =
      .ok outcome ∧ outcome.solution = .ofFn r₀ := by
    rw [conclude, hsolution]
    exact ⟨_, rfl, rfl⟩
  obtain ⟨outcome, hconclude, hr₀⟩ := hconclude
  exact ⟨outcome, w', by rw [run_solve hdim hresidual hβ htiny hrun, hconclude], hr₀⟩

end Solver

end Krylov

end RecedingHorizon
