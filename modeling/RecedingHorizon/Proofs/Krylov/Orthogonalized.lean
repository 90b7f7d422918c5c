import RecedingHorizon.Proofs.Krylov.Course
import RecedingHorizon.Proofs.Krylov.Minimal

/-!
# Directions and raw columns

The directions of a solve are orthonormal, and a raw column splits the image of a direction along
the directions up to it and one more vector.  Where the space goes on growing, this vector is the
next direction.  Where it has stopped, it is what the next direction would have been, if anything is
left of the image at all.

None of this needs the images to be linear: all that an image is asked for is its components.  They
are found one after the other, each in what the ones before have left, and are nevertheless those of
the image itself, since the directions are orthogonal.  The invariant is one of the course, and says
of each raw column what it was when it was made.  Later steps change nothing of it, as they only add
directions at the end.

For a linear equation the raw columns can be read the other way, and give each direction by the
image of the one before.  So the directions up to any of them span a Krylov space.

* `Splits`, `Workspace.exists_splits`: a vector split along a frame, and the column of a step.
* `Solver.Orthogonalized`: the directions and raw columns along a course; `Orthogonalized.taken` is
  one step, `Course.orthogonalized` the course.
* `Solver.Orthogonalized.span_eq_krylov`: what the directions span.
* `Solver.orthonormal_course`: all of it.
-/

namespace RecedingHorizon

namespace Krylov

open scoped Matrix

variable {d : ℕ}

/-! ## Splitting a vector -/

theorem Frame.take {vs : List (Fin d → ℝ)} (h : Frame vs) (k : ℕ) : Frame (vs.take k) where
  orthogonal := h.orthogonal.sublist (List.take_sublist k vs)
  unit v hv := h.unit v (List.mem_of_mem_take hv)

/-- A combination of orthonormal vectors has its coefficients along them. -/
theorem Frame.combination_dotProduct_getElem? {vs : List (Fin d → ℝ)} (h : Frame vs) {y : Vec ℝ}
    (hy : y.length = vs.length) {i : ℕ} {v : Fin d → ℝ} (hv : vs[i]? = some v) :
    combination y vs ⬝ᵥ v = y.getD i 0 := by
  induction vs generalizing y i with
  | nil => cases hv
  | cons u vs ih =>
      obtain ⟨a, y, rfl⟩ := List.exists_cons_of_length_eq_add_one hy
      rw [combination_cons, add_dotProduct, smul_dotProduct]
      have horthogonal := (List.pairwise_cons.1 h.orthogonal).1
      cases i with
      | zero =>
          obtain rfl : u = v := Option.some.inj hv
          have hzero : combination y vs ⬝ᵥ u = 0 :=
            combination_dotProduct (fun w hw => by rw [dotProduct_comm, horthogonal w hw]) y
          rw [h.unit u List.mem_cons_self, hzero, smul_eq_mul, mul_one, add_zero]
          rfl
      | succ i =>
          have hv : vs[i]? = some v := hv
          rw [horthogonal v (List.mem_of_getElem? hv), smul_zero, zero_add,
            ih h.tail (Nat.succ.inj hy) hv]
          rfl

/-- The column splits the vector along the frame `us` and one more vector `q` that is orthogonal to
it, a unit vector unless it has no share. -/
structure Splits (us : List (Fin d → ℝ)) (vector : Fin d → ℝ) (column : Vec ℝ)
    (q : Fin d → ℝ) : Prop where
  length : column.length = us.length + 1
  sum : vector = combination column (us ++ [q])
  component : ∀ i u, us[i]? = some u → column.getD i 0 = vector ⬝ᵥ u
  height_nonneg : 0 ≤ column.getD us.length 0
  unit : column.getD us.length 0 ≠ 0 → q ⬝ᵥ q = 1
  orthogonal : ∀ u ∈ us, u ⬝ᵥ q = 0

/-- What the vector has beside its components, divided by its share. -/
theorem Splits.eq_smul {vs : List (Fin d → ℝ)} {j : ℕ} {vector q : Fin d → ℝ} {column : Vec ℝ}
    (h : Splits (vs.take (j + 1)) vector column q) (hj : j < vs.length)
    (hshare : column.getD (j + 1) 0 ≠ 0) :
    q = (column.getD (j + 1) 0)⁻¹ •
      (vector - combination (column.take (j + 1)) (vs.take (j + 1))) := by
  have htake : (vs.take (j + 1)).length = j + 1 := by
    rw [List.length_take, Nat.min_eq_left hj]
  have hsum := h.sum
  rw [combination_eq_take_add h.length (by rw [List.length_append]; exact Nat.lt_succ_self _),
    List.getElem_concat_length rfl, combination_append_right (List.length_take_le _ _),
    htake] at hsum
  rw [hsum, add_sub_cancel_left, smul_smul, inv_mul_cancel₀ hshare, one_smul]

namespace Workspace

variable {w : Workspace ℝ} {vs : List (Fin d → ℝ)}

/-- A raw column splits the image it is made of, and below it stands the length of what is left. -/
theorem exists_splits (hbasis : w.basis = vs.map List.ofFn) (hvs : Frame vs)
    (image : Fin d → ℝ) :
    ∃ rest : Fin d → ℝ, w.rest (List.ofFn image) = List.ofFn rest ∧
      (w.rawColumn (List.ofFn image)).getD vs.length 0 = √(rest ⬝ᵥ rest) ∧
      Splits vs image (w.rawColumn (List.ofFn image)) ((√(rest ⬝ᵥ rest))⁻¹ • rest) := by
  obtain ⟨y, rest, hsplit, hy, hsum, horthogonal⟩ := orthogonalize_spec vs image
  rw [← hbasis] at hsplit
  have horthogonal := horthogonal hvs
  have hrest : w.rest (List.ofFn image) = List.ofFn rest := by rw [Workspace.rest, hsplit]
  have hraw : w.rawColumn (List.ofFn image) = y ++ [√(rest ⬝ᵥ rest)] := by
    rw [rawColumn, hrest, hsplit, Vec.norm_ofFn]
  have hlast := Vec.getD_concat hy (√(rest ⬝ᵥ rest))
  refine ⟨rest, hrest, by rw [hraw, hlast], ?_⟩
  rw [hraw]
  refine ⟨by rw [List.length_append, hy, List.length_singleton], ?_, fun i u hu => ?_, ?_, ?_,
    fun u hu => by rw [dotProduct_smul, horthogonal u hu, smul_zero]⟩
  · have hshare : √(rest ⬝ᵥ rest) • (√(rest ⬝ᵥ rest))⁻¹ • rest = rest := by
      by_cases h0 : √(rest ⬝ᵥ rest) = 0
      · -- nothing is left
        rw [h0, zero_smul]
        rw [Real.sqrt_eq_zero (dotProduct_self_nonneg rest), dotProduct_self_eq_zero] at h0
        exact h0.symm
      · rw [smul_smul, mul_inv_cancel₀ h0, one_smul]
    rw [combination_append hy, combination_cons, combination_nil, add_zero, hshare, hsum]
  · have hi : i < y.length := by
      rw [hy]
      exact (List.getElem?_eq_some_iff.1 hu).1
    rw [List.getD_append _ _ _ _ hi, hsum, add_dotProduct,
      hvs.combination_dotProduct_getElem? hy hu, dotProduct_comm rest u,
      horthogonal u (List.mem_of_getElem? hu), add_zero]
  · rw [hlast]
    exact Real.sqrt_nonneg _
  · rw [hlast]
    exact normalized_dotProduct_self

end Workspace

/-! ## Along a course -/

namespace Solver

/-- The raw column at place `j` splits the image of the direction `v` there along the directions up
to it and the vector `q`, which is the next direction unless what is left of the image counts as
nothing.  This is so exactly if the column is a `final` one. -/
structure StoresImage (equation : Equation Id ℝ) (vs : List (Fin d → ℝ)) (j : ℕ) (raw : Vec ℝ)
    (final : Prop) (v image q : Fin d → ℝ) : Prop where
  direction : vs[j]? = some v
  image_eq : (equation.image (.ofFn v)).run.run = .ok (.ofFn image)
  splits : Splits (vs.take (j + 1)) image raw q
  next : ¬raw.getD (j + 1) 0 ≤ Workspace.negligible * √(image ⬝ᵥ image) → vs[j + 1]? = some q
  final_iff : raw.getD (j + 1) 0 ≤ Workspace.negligible * √(image ⬝ᵥ image) ↔ final

/-- What the directions `vs` and the raw columns are along a course, if `first` is the direction of
the residual.  The directions that have been asked for are the first of them, and every raw column
stores an image.  A final one is the last one, and the course has broken down with it. -/
structure Orthogonalized (equation : Equation Id ℝ) (first : Fin d → ℝ) (vs : List (Fin d → ℝ))
    (asked : List (Tensor ℝ)) (raws : List (Vec ℝ))
    (answer : Except (Fault ℝ) (Option Ending)) (w : Workspace ℝ) : Prop where
  basis : w.basis = vs.map List.ofFn
  first : vs[0]? = some first
  frame : Frame vs
  passed : asked <+: vs.map Tensor.ofFn
  column : ∀ j raw, raws[j]? = some raw →
    ∃ v image q, StoresImage equation vs j raw (j + 1 = raws.length ∧ BrokeDown answer) v image q
  growing : answer = .ok none → asked.length = raws.length
  length : ¬BrokeDown answer → vs.length = raws.length + 1
  length_of_brokeDown : BrokeDown answer → vs.length = raws.length

variable {solver : Solver ℝ} {equation : Equation Id ℝ} {first : Fin d → ℝ}
  {vs : List (Fin d → ℝ)} {asked : List (Tensor ℝ)} {raws : List (Vec ℝ)}
  {answer : Except (Fault ℝ) (Option Ending)} {w w' : Workspace ℝ} {β : ℝ} {r₀ : Fin d → ℝ}

/-- Directions that come after it do not matter to a column, but for the next one. -/
theorem StoresImage.append {j : ℕ} {raw : Vec ℝ} {final : Prop} {v image q : Fin d → ℝ}
    (h : StoresImage equation vs j raw final v image q) (more : List (Fin d → ℝ)) :
    StoresImage equation (vs ++ more) j raw final v image q := by
  have hj := (List.getElem?_eq_some_iff.1 h.direction).1
  refine ⟨?_, h.image_eq, ?_, fun hlarge => ?_, h.final_iff⟩
  · rw [List.getElem?_append_left hj]
    exact h.direction
  · rw [List.take_append_of_le_length hj]
    exact h.splits
  · have hnext := h.next hlarge
    rw [List.getElem?_append_left (List.getElem?_eq_some_iff.1 hnext).1]
    exact hnext

namespace Orthogonalized

/-- At the start there is one direction, and nothing has been asked. -/
theorem seeded (equation : Equation Id ℝ) (hβ : √(r₀ ⬝ᵥ r₀) = β) (h0 : β ≠ 0) (w : Workspace ℝ) :
    Orthogonalized equation (β⁻¹ • r₀) [β⁻¹ • r₀] [] [] (.ok none)
      (w.cleared.seeded (List.ofFn (β⁻¹ • r₀)) β) where
  basis := rfl
  first := rfl
  frame := by
    subst hβ
    exact frame_single (normalized_dotProduct_self h0)
  passed := List.nil_prefix
  column _ _ h := by cases h
  growing _ := rfl
  length _ := rfl
  length_of_brokeDown h := absurd h not_brokeDown_none

/-- While the space is growing, the latest direction is the one after those that have been asked
for. -/
theorem exists_concat (h : Orthogonalized equation first vs asked raws (.ok none) w) :
    ∃ us v, vs = us ++ [v] ∧ w.direction = List.ofFn v ∧ us.length = raws.length ∧
      asked ++ [.ofVec w.direction] = vs.map Tensor.ofFn := by
  have hlength := h.length not_brokeDown_none
  obtain ⟨us, v, rfl⟩ : ∃ us v, vs = us ++ [v] := by
    rcases List.eq_nil_or_concat vs with rfl | ⟨us, v, hconcat⟩
    · cases hlength
    · exact ⟨us, v, hconcat.trans List.concat_eq_append⟩
  have hus : us.length = raws.length := by simpa using hlength
  have hdirection : w.direction = List.ofFn v := by
    rw [Workspace.direction, h.basis, List.map_append, List.map_singleton, List.getLastD_concat]
  have hprevious : asked = us.map Tensor.ofFn := by
    have hpassed := h.passed
    rw [List.prefix_iff_eq_take, List.map_append,
      List.take_left' (by rw [List.length_map, hus, h.growing rfl])] at hpassed
    exact hpassed
  refine ⟨us, v, rfl, hdirection, hus, ?_⟩
  rw [hprevious, hdirection, List.map_append]
  rfl

/-- A column that has been stored is not a final one any more when the course goes on. -/
theorem stored (h : Orthogonalized equation first vs asked raws (.ok none) w) {j : ℕ} {raw : Vec ℝ}
    (hraw : raws[j]? = some raw) {final : Prop} (hfinal : ¬final) :
    ∃ v image q, StoresImage equation vs j raw final v image q := by
  obtain ⟨v, image, q, hstores⟩ := h.column j raw hraw
  have hnot : ¬(j + 1 = raws.length ∧ BrokeDown (.ok none : Except (Fault ℝ) (Option Ending))) :=
    fun h => not_brokeDown_none h.2
  exact ⟨v, image, q, hstores.direction, hstores.image_eq, hstores.splits, hstores.next,
    hstores.final_iff.trans (iff_of_false hnot hfinal)⟩

/-- A question that is not answered leaves everything as it is. -/
theorem refused (h : Orthogonalized equation first vs asked raws (.ok none) w) (fault : Fault ℝ) :
    Orthogonalized equation first vs (asked ++ [.ofVec w.direction]) raws (.error fault) w := by
  obtain ⟨us, v, -, -, -, hasked⟩ := h.exists_concat
  refine ⟨h.basis, h.first, h.frame, by rw [hasked], fun j raw hraw => h.stored hraw
    fun hfinal => not_brokeDown_error fault hfinal.2, fun hgoes => ?_,
    fun _ => h.length not_brokeDown_none, fun hbroke => absurd hbroke (not_brokeDown_error fault)⟩
  cases hgoes

/-- With one more raw column, for the image of the latest direction, every column stores an image.
The new one is the final one if the course has broken down with it. -/
theorem column_concat (h : Orthogonalized equation first vs asked raws (.ok none) w)
    {more : List (Fin d → ℝ)} {column : Vec ℝ} {v image q : Fin d → ℝ}
    (hlast : StoresImage equation (vs ++ more) raws.length column (BrokeDown answer) v image q)
    {j : ℕ} {raw : Vec ℝ} (hraw : (raws ++ [column])[j]? = some raw) :
    ∃ v image q, StoresImage equation (vs ++ more) j raw
      (j + 1 = (raws ++ [column]).length ∧ BrokeDown answer) v image q := by
  rw [List.length_append, List.length_singleton]
  rcases getElem?_concat_eq_some hraw with hraw | ⟨rfl, rfl⟩
  · have hj := (List.getElem?_eq_some_iff.1 hraw).1
    have hfinal : ¬(j + 1 = raws.length + 1 ∧ BrokeDown answer) :=
      fun hfinal => hj.ne (Nat.succ.inj hfinal.1)
    obtain ⟨v, image, q, hstores⟩ := h.stored hraw hfinal
    exact ⟨v, image, q, hstores.append more⟩
  · exact ⟨v, image, q, hlast.direction, hlast.image_eq, hlast.splits, hlast.next,
      hlast.final_iff.trans (and_iff_right rfl).symm⟩

/-- What is along a course still is there when an image ends the growth. -/
theorem ended (h : Orthogonalized equation first vs asked raws (.ok none) w) {column : Vec ℝ}
    {v image q : Fin d → ℝ}
    (hlast : StoresImage equation vs raws.length column (BrokeDown answer) v image q)
    (hbroke : BrokeDown answer) (hbasis : w'.basis = w.basis) :
    Orthogonalized equation first vs (asked ++ [.ofVec w.direction]) (raws ++ [column]) answer
      w' := by
  obtain ⟨us, u, -, -, -, hasked⟩ := h.exists_concat
  have hlength := h.length not_brokeDown_none
  rw [← List.append_nil vs] at hlast
  refine ⟨hbasis.trans h.basis, h.first, h.frame, by rw [hasked], fun j raw hraw => ?_,
    fun hgoes => ?_, fun hgoes => absurd hbroke hgoes, fun _ => ?_⟩
  · have hstored := h.column_concat hlast hraw
    rwa [List.append_nil] at hstored
  · rw [hgoes] at hbroke
    exact absurd hbroke not_brokeDown_none
  · rw [List.length_append, List.length_singleton, hlength]

/-- What is along a course still is there when an image adds a direction. -/
theorem grown (h : Orthogonalized equation first vs asked raws (.ok none) w) {column : Vec ℝ}
    {v image q : Fin d → ℝ}
    (hlast : StoresImage equation (vs ++ [q]) raws.length column (BrokeDown answer) v image q)
    (hgoes : ¬BrokeDown answer) (hframe : Frame (vs ++ [q]))
    (hbasis : w'.basis = w.basis ++ [List.ofFn q]) :
    Orthogonalized equation first (vs ++ [q]) (asked ++ [.ofVec w.direction]) (raws ++ [column])
      answer w' := by
  obtain ⟨us, u, -, -, -, hasked⟩ := h.exists_concat
  have hlength := h.length not_brokeDown_none
  refine ⟨?_, ?_, hframe, ?_, fun j raw hraw => h.column_concat hlast hraw,
    fun _ => ?_, fun _ => ?_,
    fun hbroke => absurd hbroke hgoes⟩
  · rw [hbasis, h.basis, List.map_append, List.map_singleton]
  · rw [List.getElem?_append_left (by omega)]
    exact h.first
  · rw [hasked, List.map_append]
    exact List.prefix_append _ _
  · rw [List.length_append, List.length_append, h.growing rfl, List.length_singleton,
      List.length_singleton]
  · rw [List.length_append, List.length_append, hlength, List.length_singleton,
      List.length_singleton]

/-- An image that is taken in gives a raw column, and a direction unless the space stops growing. -/
theorem taken (h : Orthogonalized equation first vs asked raws (.ok none) w) {image : Fin d → ℝ}
    (himage : (equation.image (.ofVec w.direction)).run.run = .ok (.ofFn image))
    (hw' : w' = (w.absorb (List.ofFn image)).1)
    (hanswer : BrokeDown answer ↔ (w.absorb (List.ofFn image)).2 ≠ none) :
    ∃ vs', Orthogonalized equation first vs' (asked ++ [.ofVec w.direction])
      (raws ++ [w.rawColumn (List.ofFn image)]) answer w' := by
  obtain ⟨us, v, hvs, hdirection, hus, -⟩ := h.exists_concat
  have hlength := h.length not_brokeDown_none
  obtain ⟨rest, hrest, hheight, hsplits⟩ := Workspace.exists_splits h.basis h.frame image
  obtain ⟨q, hq⟩ : ∃ q, q = (√(rest ⬝ᵥ rest))⁻¹ • rest := ⟨_, rfl⟩
  obtain ⟨column, hcolumn⟩ : ∃ column, column = w.rawColumn (List.ofFn image) := ⟨_, rfl⟩
  rw [← hq, ← hcolumn] at hsplits
  rw [← hcolumn, hlength] at hheight
  rw [← hcolumn]
  -- the space stops growing exactly where the last entry of the column counts as nothing
  rw [Workspace.absorb_ne_none_iff, hrest, Vec.norm_ofFn, Vec.norm_ofFn, ← hheight] at hanswer
  have hbasis' := w.basis_absorb (List.ofFn image)
  rw [hrest, Vec.norm_ofFn, Vec.norm_ofFn, ← hheight, ← hw'] at hbasis'
  have hlast (more : List (Fin d → ℝ))
      (hmore : ¬BrokeDown answer → (vs ++ more)[raws.length + 1]? = some q) :
      StoresImage equation (vs ++ more) raws.length column (BrokeDown answer) v image q := by
    refine ⟨?_, by rwa [hdirection] at himage, ?_, fun hlarge => hmore (hlarge ∘ hanswer.1),
      hanswer.symm⟩
    · rw [List.getElem?_append_left (by omega), hvs, ← hus, List.getElem?_concat_length]
    · rwa [List.take_append_of_le_length hlength.ge, ← hlength, List.take_length]
  by_cases hsmall : column.getD (raws.length + 1) 0 ≤ Workspace.negligible * √(image ⬝ᵥ image)
  · have hbroke := hanswer.2 hsmall
    have hlast := hlast [] fun hgoes => absurd hbroke hgoes
    rw [List.append_nil] at hlast
    rw [if_pos hsmall] at hbasis'
    exact ⟨vs, h.ended hlast hbroke hbasis'⟩
  · have h0 : column.getD vs.length 0 ≠ 0 := by
      rw [hlength]
      exact ((mul_nonneg negligible_pos.le (Real.sqrt_nonneg _)).trans_lt (not_le.1 hsmall)).ne'
    rw [if_neg hsmall, Vec.divide_ofFn, hheight, ← hq] at hbasis'
    exact ⟨vs ++ [q], h.grown (hlast [q] fun _ => by rw [← hlength, List.getElem?_concat_length])
      (fun hbroke => hsmall (hanswer.1 hbroke))
      (h.frame.concat (hsplits.unit h0) hsplits.orthogonal) hbasis'⟩

end Orthogonalized

/-- What is along every course of a solve whose residual is a vector. -/
theorem Course.orthogonalized {guess : Tensor ℝ} {w₀ : Workspace ℝ} {r₀ : Fin solver.dim → ℝ}
    (hresidual : (equation.residual guess).run.run = .ok (.ofFn r₀))
    (h : solver.Course equation guess w₀ β asked raws answer w) :
    0 < β ∧ ∃ vs, Orthogonalized equation (β⁻¹ • r₀) vs asked raws answer w := by
  induction h with
  | @seeded r v residual large first =>
      obtain rfl : Tensor.ofFn r₀ = r := Except.ok.inj (hresidual.symm.trans residual)
      have hpos := tiny_pos.trans_le (not_lt.1 large)
      rw [vector_divide_ofFn rfl] at first
      obtain rfl := Except.ok.inj first
      exact ⟨hpos, _, .seeded equation (Tensor.norm_ofFn r₀).symm hpos.ne' w₀⟩
  | refused _ _ _ ih =>
      obtain ⟨hpos, vs, hvs⟩ := ih
      exact ⟨hpos, vs, hvs.refused _⟩
  | @taken β asked raws w w' image v answer _ _ image_eq vector step_eq ih =>
      obtain ⟨hpos, vs, hvs⟩ := ih
      obtain ⟨z, rfl⟩ : ∃ z : Fin solver.dim → ℝ, image = .ofFn z := by
        refine Tensor.exists_eq_ofFn ?_
        by_contra hshape
        rw [imageVector, if_neg hshape] at vector
        cases vector
      rw [imageVector_ofFn rfl] at vector
      obtain rfl := Except.ok.inj vector
      obtain ⟨hw', hanswer⟩ := step_of_vector (imageVector_ofFn rfl z) step_eq
      exact ⟨hpos, hvs.taken image_eq hw' hanswer⟩

namespace Orthogonalized

/-- A direction after the first is the share of the last entry of a column. -/
theorem exists_stores (h : Orthogonalized equation first vs asked raws answer w) {j : ℕ}
    {q : Fin d → ℝ} (hq : vs[j + 1]? = some q) :
    ∃ column final v image, StoresImage equation vs j column final v image q ∧
      column.getD (j + 1) 0 ≠ 0 := by
  have hlt := (List.getElem?_eq_some_iff.1 hq).1
  have hj : j < raws.length := by
    by_cases hbroke : BrokeDown answer
    · have hlength := h.length_of_brokeDown hbroke
      omega
    · have hlength := h.length hbroke
      omega
  obtain ⟨column, hcolumn⟩ : ∃ column, raws[j]? = some column := ⟨_, List.getElem?_eq_getElem hj⟩
  obtain ⟨v, image, q', hstores⟩ := h.column j column hcolumn
  have hlarge : ¬column.getD (j + 1) 0 ≤ Workspace.negligible * √(image ⬝ᵥ image) := by
    intro hsmall
    -- there is no direction after a final column
    obtain ⟨hlast, hbroke⟩ := hstores.final_iff.1 hsmall
    have hlength := h.length_of_brokeDown hbroke
    omega
  obtain rfl := Option.some.inj ((hstores.next hlarge).symm.trans hq)
  exact ⟨column, _, v, image, hstores,
    ((mul_nonneg negligible_pos.le (Real.sqrt_nonneg _)).trans_lt (not_le.1 hlarge)).ne'⟩

/-- For a linear equation each direction comes from the image of the one before, and lies in the
Krylov space of its place. -/
theorem mem_krylov {g : (Fin d → ℝ) →ₗ[ℝ] Fin d → ℝ}
    (h : Orthogonalized equation (β⁻¹ • r₀) vs asked raws answer w)
    (hg : ∀ v, (equation.image (.ofFn v)).run.run = .ok (.ofFn (g v))) {j : ℕ} {v : Fin d → ℝ}
    (hv : vs[j]? = some v) : v ∈ krylov g r₀ (j + 1) := by
  induction j using Nat.strong_induction_on generalizing v with
  | _ j ih =>
      cases j with
      | zero =>
          obtain rfl := Option.some.inj (h.first.symm.trans hv)
          exact Submodule.smul_mem _ _ (pow_mem_krylov Nat.one_pos)
      | succ j =>
          obtain ⟨column, final, u, image, hstores, hshare⟩ := h.exists_stores hv
          have hlt := (List.getElem?_eq_some_iff.1 hstores.direction).1
          have hbefore : ∀ w ∈ vs.take (j + 1), w ∈ krylov g r₀ (j + 1 + 1) := by
            intro w hw
            obtain ⟨i, hi⟩ := List.mem_iff_getElem?.1 hw
            have hij := (List.getElem?_eq_some_iff.1 hi).1
            rw [List.length_take, Nat.min_eq_left hlt] at hij
            rw [List.getElem?_take_of_lt hij] at hi
            exact monotone_nat_of_le_succ krylov_le_succ (Nat.succ_le_succ hij.le) (ih i hij hi)
          have himage : image ∈ krylov g r₀ (j + 1 + 1) := by
            obtain rfl : g u = image :=
              Tensor.ofFn_injective (Except.ok.inj ((hg u).symm.trans hstores.image_eq))
            exact map_mem_krylov (ih j (Nat.lt_succ_self j) hstores.direction)
          rw [hstores.splits.eq_smul hlt hshare]
          exact Submodule.smul_mem _ _ (Submodule.sub_mem _ himage (combination_mem hbefore _))

/-- For a linear equation the directions up to any of them span a Krylov space of the residual. -/
theorem span_eq_krylov {g : (Fin d → ℝ) →ₗ[ℝ] Fin d → ℝ}
    (h : Orthogonalized equation (β⁻¹ • r₀) vs asked raws answer w)
    (hg : ∀ v, (equation.image (.ofFn v)).run.run = .ok (.ofFn (g v))) {k : ℕ}
    (hk : k < vs.length) :
    Submodule.span ℝ {v | v ∈ vs.take (k + 1)} = krylov g r₀ (k + 1) := by
  have htake : (vs.take (k + 1)).length = k + 1 := by
    rw [List.length_take, Nat.min_eq_left hk]
  have hmem : ∀ v ∈ vs.take (k + 1), v ∈ krylov g r₀ (vs.take (k + 1)).length := by
    intro v hv
    obtain ⟨i, hi⟩ := List.mem_iff_getElem?.1 hv
    have hik := (List.getElem?_eq_some_iff.1 hi).1
    rw [htake] at hik
    rw [List.getElem?_take_of_lt hik] at hi
    rw [htake]
    exact monotone_nat_of_le_succ krylov_le_succ hik (h.mem_krylov hg hi)
  rw [← krylov_eq_span (h.frame.take (k + 1)) hmem, htake]

end Orthogonalized

/-- **The directions are orthonormal, and the raw columns split their images.**  A solve from a
guess whose residual is a vector asks for a residual once and then for images, and what it asks for
is found on its course.  Wherever the course has come to, the directions that have been asked for
are the first of an orthonormal family, that of the workspace, and every raw column holds the
components of the image of its direction along the directions up to it and a last entry, which is
not negative: the share of the next direction, or, if the space has stopped growing, of a unit
vector that is orthogonal to all of them, unless there is no share.  For a linear equation the
directions up to any of them span the Krylov space of the residual.  Nothing else is asked of the
equation: it may fail, too. -/
theorem orthonormal_course {solver : Solver ℝ} {equation : Equation Id ℝ}
    {guess : Option (Tensor ℝ)} {r₀ : Fin solver.dim → ℝ}
    (hresidual : (equation.residual (guess.getD (Tensor.zeros [solver.dim]))).run.run =
      .ok (.ofFn r₀)) (w₀ : Workspace ℝ) :
    (∃ asked result,
      (solver.transcript equation guess w₀).run =
        (result, .residual (guess.getD (Tensor.zeros [solver.dim])) :: asked.map .image) ∧
      (asked = [] ∨ ∃ β raws answer w,
        solver.Course equation (guess.getD (Tensor.zeros [solver.dim])) w₀ β asked raws answer w)) ∧
    ∀ β asked raws answer w,
      solver.Course equation (guess.getD (Tensor.zeros [solver.dim])) w₀ β asked raws answer w →
      ∃ vs, Orthogonalized equation (β⁻¹ • r₀) vs asked raws answer w ∧
        ∀ g : (Fin solver.dim → ℝ) →ₗ[ℝ] Fin solver.dim → ℝ,
          (∀ v, (equation.image (.ofFn v)).run.run = .ok (.ofFn (g v))) →
          ∀ k < vs.length, Submodule.span ℝ {v | v ∈ vs.take (k + 1)} = krylov g r₀ (k + 1) := by
  refine ⟨?_, fun β asked raws answer w hcourse => ?_⟩
  · obtain ⟨asked, result, hrun, ⟨hnone, -⟩ | ⟨β, raws, answer, w, -, hcourse, -⟩⟩ :=
      exists_course solver equation guess w₀
    · exact ⟨asked, result, hrun, .inl hnone⟩
    · exact ⟨asked, result, hrun, .inr ⟨β, raws, answer, w, hcourse⟩⟩
  · obtain ⟨-, vs, hvs⟩ := hcourse.orthogonalized hresidual
    exact ⟨vs, hvs, fun g hg k hk => hvs.span_eq_krylov hg hk⟩

/-- A solve whose images are not linear: it asks for two directions, and has two raw columns when it
breaks down. -/
theorem orthonormal_course_parabola :
    ((parabola ![1, 0] ![3, 4]).residual (Tensor.zeros [2])).run.run = .ok (.ofFn ![1, 0]) ∧
      ∃ w vs, Course ⟨2, 2, .number (.real 0)⟩ (parabola ![1, 0] ![3, 4]) (Tensor.zeros [2])
          (Workspace.fresh 2) 1 [.ofFn ![1, 0], .ofFn ![0, 1]] [[3, 4], [0, 0, 0]]
          (.ok (some .singular)) w ∧
        Orthogonalized (parabola ![1, 0] ![3, 4]) ((1 : ℝ)⁻¹ • ![1, 0]) vs
          [.ofFn ![1, 0], .ofFn ![0, 1]] [[3, 4], [0, 0, 0]] (.ok (some .singular)) w := by
  have hresidual : ((parabola ![1, 0] ![3, 4]).residual (Tensor.zeros [2])).run.run =
      .ok (.ofFn ![1, 0]) := rfl
  obtain ⟨w, hcourse, -⟩ := course_parabola (Tensor.zeros [2]) (Workspace.fresh 2)
  obtain ⟨-, halong⟩ := @orthonormal_course ⟨2, 2, .number (.real 0)⟩ (parabola ![1, 0] ![3, 4])
    none ![1, 0] hresidual (Workspace.fresh 2)
  obtain ⟨vs, hvs, -⟩ := halong _ _ _ _ _ hcourse
  exact ⟨hresidual, w, vs, hcourse, hvs⟩

end Solver

end Krylov

end RecedingHorizon
