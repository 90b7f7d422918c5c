import RecedingHorizon.Proofs.Matrices

/-!
# Frames of the Krylov space

The directions of the solver are orthonormal: they are a frame.  Turned by the
rotations found so far, they are another one, whose last vector is where the next
rotation begins.  A column of components belongs to the first frame and its turned
form to the second, so that both combine to the same vector.

* `combination`: the combination of vectors by coefficients.
* `Frame`: orthonormal vectors.  There are at most as many as dimensions (`Frame.length_le`), and
  they span a subspace with no more dimensions (`Frame.le_span`); `orthogonalize_spec` splits a
  vector along them.
* `turnFrame`: a frame turned like a column; `combination_turnFrame` says that
  combinations do not change.
* `Reaches`: columns of a triangular system and the vectors that reach them;
  `Reaches.combination_backSubstitute` is its solution.
-/

namespace RecedingHorizon

namespace Krylov

open scoped Matrix

variable {d : ℕ}

/-! ## Combinations -/

/-- The combination of vectors by coefficients, as far as both go. -/
def combination (y : Vec ℝ) (vs : List (Fin d → ℝ)) : Fin d → ℝ :=
  (List.zipWith (· • ·) y vs).sum

@[simp] theorem combination_nil (vs : List (Fin d → ℝ)) : combination [] vs = 0 := rfl

@[simp] theorem combination_nil_right (y : Vec ℝ) : combination y ([] : List (Fin d → ℝ)) = 0 := by
  rw [combination, List.zipWith_nil_right, List.sum_nil]

@[simp] theorem combination_cons (a : ℝ) (y : Vec ℝ) (v : Fin d → ℝ) (vs : List (Fin d → ℝ)) :
    combination (a :: y) (v :: vs) = a • v + combination y vs := by
  rw [combination, List.zipWith_cons_cons, List.sum_cons, combination]

theorem combination_append {y y' : Vec ℝ} {vs vs' : List (Fin d → ℝ)}
    (h : y.length = vs.length) :
    combination (y ++ y') (vs ++ vs') = combination y vs + combination y' vs' := by
  rw [combination, List.zipWith_append h, List.sum_append, combination, combination]

/-- A combination looks at no vectors past its coefficients. -/
theorem combination_append_right {y : Vec ℝ} {vs : List (Fin d → ℝ)} (h : y.length ≤ vs.length)
    (vs' : List (Fin d → ℝ)) : combination y (vs ++ vs') = combination y vs := by
  induction vs generalizing y with
  | nil =>
      obtain rfl : y = [] := List.eq_nil_of_length_eq_zero (Nat.le_zero.1 h)
      rfl
  | cons v vs ih =>
      cases y with
      | nil => rfl
      | cons a y =>
          rw [List.cons_append, combination_cons, combination_cons,
            ih (Nat.le_of_succ_le_succ h)]

theorem combination_sub {y z : Vec ℝ} (h : y.length = z.length) (a : ℝ)
    (vs : List (Fin d → ℝ)) :
    combination (Vec.sub y (Vec.scale a z)) vs = combination y vs - a • combination z vs := by
  induction vs generalizing y z with
  | nil => simp
  | cons v vs ih =>
      cases y with
      | nil =>
          obtain rfl : z = [] := List.eq_nil_of_length_eq_zero h.symm
          simp [Vec.sub, Vec.scale]
      | cons b y =>
          cases z with
          | nil => cases h
          | cons c z =>
              have hstep : Vec.sub (b :: y) (Vec.scale a (c :: z)) =
                  (b - a * c) :: Vec.sub y (Vec.scale a z) := rfl
              rw [hstep, combination_cons, combination_cons, combination_cons,
                ih (Nat.succ.inj h), sub_smul, mul_smul, smul_add]
              abel

/-- A combination, with its last coefficient apart from the others. -/
theorem combination_eq_take_add {y : Vec ℝ} {j : ℕ} (hy : y.length = j + 1)
    {vs : List (Fin d → ℝ)} (hj : j < vs.length) :
    combination y vs = combination (y.take j) vs + y.getD j 0 • vs[j] := by
  induction j generalizing y vs with
  | zero =>
      obtain ⟨a, rfl⟩ := List.length_eq_one_iff.1 hy
      obtain ⟨v, vs, rfl⟩ := List.exists_cons_of_length_pos hj
      simp
  | succ j ih =>
      obtain ⟨a, y, rfl⟩ := List.exists_cons_of_length_eq_add_one hy
      obtain ⟨v, vs, rfl⟩ := List.exists_cons_of_length_pos (Nat.zero_lt_of_lt hj)
      rw [combination_cons, List.take_succ_cons, combination_cons,
        ih (Nat.succ.inj hy) (Nat.lt_of_succ_lt_succ hj), add_assoc]
      rfl

/-- A linear map takes a combination to that of the images. -/
theorem map_combination {A : (Fin d → ℝ) → Fin d → ℝ} (hA : IsLinearMap ℝ A) (y : Vec ℝ)
    (vs : List (Fin d → ℝ)) : A (combination y vs) = combination y (vs.map A) := by
  induction vs generalizing y with
  | nil => rw [List.map_nil, combination_nil_right, hA.map_zero]
  | cons v vs ih =>
      cases y with
      | nil => exact hA.map_zero
      | cons a y =>
          rw [List.map_cons, combination_cons, combination_cons, hA.map_add, hA.map_smul, ih]

theorem combination_dotProduct {vs : List (Fin d → ℝ)} {z : Fin d → ℝ}
    (h : ∀ v ∈ vs, v ⬝ᵥ z = 0) (y : Vec ℝ) : combination y vs ⬝ᵥ z = 0 := by
  induction vs generalizing y with
  | nil => rw [combination_nil_right, zero_dotProduct]
  | cons v vs ih =>
      cases y with
      | nil => exact zero_dotProduct z
      | cons a y =>
          rw [combination_cons, add_dotProduct, smul_dotProduct, h v List.mem_cons_self,
            ih fun u hu => h u (List.mem_cons_of_mem v hu), smul_zero, add_zero]

/-- A combination of vectors of a subspace lies in it. -/
theorem combination_mem {S : Submodule ℝ (Fin d → ℝ)} {vs : List (Fin d → ℝ)}
    (h : ∀ v ∈ vs, v ∈ S) (y : Vec ℝ) : combination y vs ∈ S := by
  induction vs generalizing y with
  | nil =>
      rw [combination_nil_right]
      exact S.zero_mem
  | cons v vs ih =>
      cases y with
      | nil => exact S.zero_mem
      | cons a y =>
          rw [combination_cons]
          exact S.add_mem (S.smul_mem a (h v List.mem_cons_self))
            (ih (fun u hu => h u (List.mem_cons_of_mem v hu)) y)

/-! ## Frames -/

/-- A vector divided by its length has length one. -/
theorem normalized_dotProduct_self {v : Fin d → ℝ} (h : √(v ⬝ᵥ v) ≠ 0) :
    ((√(v ⬝ᵥ v))⁻¹ • v) ⬝ᵥ ((√(v ⬝ᵥ v))⁻¹ • v) = 1 := by
  have hroot : √(v ⬝ᵥ v) * √(v ⬝ᵥ v) = v ⬝ᵥ v := Real.mul_self_sqrt (dotProduct_self_nonneg v)
  rw [smul_dotProduct, dotProduct_smul, smul_eq_mul, smul_eq_mul, ← mul_assoc, ← mul_inv, hroot]
  exact inv_mul_cancel₀ fun hzero => h (by rw [hzero, Real.sqrt_zero])

/-- Orthonormal vectors. -/
structure Frame (vs : List (Fin d → ℝ)) : Prop where
  orthogonal : vs.Pairwise fun u v => u ⬝ᵥ v = 0
  unit : ∀ v ∈ vs, v ⬝ᵥ v = 1

theorem frame_single {v : Fin d → ℝ} (hv : v ⬝ᵥ v = 1) : Frame [v] where
  orthogonal := List.pairwise_singleton _ v
  unit u hu := by rwa [List.mem_singleton.1 hu]

theorem Frame.tail {v : Fin d → ℝ} {vs : List (Fin d → ℝ)} (h : Frame (v :: vs)) : Frame vs where
  orthogonal := (List.pairwise_cons.1 h.orthogonal).2
  unit u hu := h.unit u (List.mem_cons_of_mem v hu)

theorem Frame.cons {v : Fin d → ℝ} {vs : List (Fin d → ℝ)} (h : Frame vs) (hv : v ⬝ᵥ v = 1)
    (hvs : ∀ u ∈ vs, v ⬝ᵥ u = 0) : Frame (v :: vs) where
  orthogonal := List.pairwise_cons.2 ⟨hvs, h.orthogonal⟩
  unit u hu := by
    rcases List.mem_cons.1 hu with rfl | hu
    · exact hv
    · exact h.unit u hu

theorem Frame.concat {v : Fin d → ℝ} {vs : List (Fin d → ℝ)} (h : Frame vs) (hv : v ⬝ᵥ v = 1)
    (hvs : ∀ u ∈ vs, u ⬝ᵥ v = 0) : Frame (vs ++ [v]) where
  orthogonal := by
    refine List.pairwise_append.2 ⟨h.orthogonal, List.pairwise_singleton _ v, ?_⟩
    intro u hu w hw
    rw [List.mem_singleton.1 hw]
    exact hvs u hu
  unit u hu := by
    rcases List.mem_append.1 hu with hu | hu
    · exact h.unit u hu
    · rwa [List.mem_singleton.1 hu]

/-- A frame without its last vector. -/
theorem Frame.of_concat {v : Fin d → ℝ} {vs : List (Fin d → ℝ)} (h : Frame (vs ++ [v])) :
    Frame vs where
  orthogonal := (List.pairwise_append.1 h.orthogonal).1
  unit u hu := h.unit u (List.mem_append_left _ hu)

/-- The last vector of a frame is orthogonal to those before it. -/
theorem Frame.concat_orthogonal {v : Fin d → ℝ} {vs : List (Fin d → ℝ)} (h : Frame (vs ++ [v])) :
    ∀ u ∈ vs, u ⬝ᵥ v = 0 :=
  fun u hu => (List.pairwise_append.1 h.orthogonal).2.2 u hu v (List.mem_singleton_self v)

theorem Frame.concat_unit {v : Fin d → ℝ} {vs : List (Fin d → ℝ)} (h : Frame (vs ++ [v])) :
    v ⬝ᵥ v = 1 := h.unit v (List.mem_append_right vs (List.mem_singleton_self v))

/-- Orthonormal vectors are independent. -/
theorem Frame.linearIndependent {vs : List (Fin d → ℝ)} (h : Frame vs) :
    LinearIndependent ℝ vs.get := by
  have hpair {i j : Fin vs.length} (hij : i ≠ j) : vs.get i ⬝ᵥ vs.get j = 0 := by
    rcases lt_or_gt_of_ne hij with hij | hij
    · exact List.pairwise_iff_get.1 h.orthogonal i j hij
    · rw [dotProduct_comm]
      exact List.pairwise_iff_get.1 h.orthogonal j i hij
  refine Fintype.linearIndependent_iff.2 fun c hsum j => ?_
  have hj : (∑ i, c i • vs.get i) ⬝ᵥ vs.get j = c j := by
    rw [sum_dotProduct, Finset.sum_eq_single j]
    · rw [smul_dotProduct, h.unit _ (List.get_mem vs j), smul_eq_mul, mul_one]
    · intro i _ hij
      rw [smul_dotProduct, hpair hij, smul_zero]
    · exact fun hmem => absurd (Finset.mem_univ j) hmem
  rw [← hj, hsum, zero_dotProduct]

/-- There are at most as many orthonormal vectors as dimensions. -/
theorem Frame.length_le {vs : List (Fin d → ℝ)} (h : Frame vs) : vs.length ≤ d := by
  have hcard := h.linearIndependent.fintype_card_le_finrank
  rwa [Fintype.card_fin, Module.finrank_fin_fun] at hcard

/-- If there are as many orthonormal vectors as dimensions, nothing is orthogonal to all of them. -/
theorem Frame.eq_zero_of_length {vs : List (Fin d → ℝ)} (h : Frame vs) (hd : vs.length = d)
    {z : Fin d → ℝ} (hz : ∀ v ∈ vs, v ⬝ᵥ z = 0) : z = 0 := by
  by_contra hne
  have hlength : √(z ⬝ᵥ z) ≠ 0 := fun hzero =>
    hne (dotProduct_self_eq_zero.1 ((Real.sqrt_eq_zero (dotProduct_self_nonneg z)).1 hzero))
  -- divided by its length it would be one more vector of the frame
  have hlonger := h.concat (normalized_dotProduct_self hlength) fun v hv => by
    rw [dotProduct_smul, hz v hv, smul_zero]
  have hle := hlonger.length_le
  rw [List.length_append, List.length_singleton, hd] at hle
  omega

/-- Orthonormal vectors of a subspace that has no more dimensions span it. -/
theorem Frame.le_span {vs : List (Fin d → ℝ)} (h : Frame vs) {S : Submodule ℝ (Fin d → ℝ)}
    (hvs : ∀ v ∈ vs, v ∈ S) (hS : Module.finrank ℝ S ≤ vs.length) :
    S ≤ Submodule.span ℝ {v | v ∈ vs} := by
  have hrange : Set.range vs.get = {v | v ∈ vs} := Set.ext fun v => List.mem_iff_get.symm
  have hrank : Module.finrank ℝ (Submodule.span ℝ {v | v ∈ vs}) = vs.length := by
    rw [← hrange, finrank_span_eq_card h.linearIndependent, Fintype.card_fin]
  have hle : Submodule.span ℝ {v | v ∈ vs} ≤ S := Submodule.span_le.2 hvs
  exact (Submodule.eq_of_le_of_finrank_le hle (hS.trans hrank.ge)).ge

/-- Components and rest make up the vector, and the rest of a vector split along a
frame is orthogonal to it. -/
theorem orthogonalize_spec (vs : List (Fin d → ℝ)) (w : Fin d → ℝ) :
    ∃ (y : Vec ℝ) (rest : Fin d → ℝ),
      orthogonalize (vs.map List.ofFn) (List.ofFn w) = (y, List.ofFn rest) ∧
      y.length = vs.length ∧ w = combination y vs + rest ∧
      (Frame vs → ∀ v ∈ vs, v ⬝ᵥ rest = 0) := by
  induction vs generalizing w with
  | nil => exact ⟨[], w, rfl, rfl, (zero_add w).symm, fun _ v hv => absurd hv List.not_mem_nil⟩
  | cons v vs ih =>
      obtain ⟨y, rest, hsplit, hlength, hsum, hortho⟩ := ih (w - (w ⬝ᵥ v) • v)
      refine ⟨(w ⬝ᵥ v) :: y, rest, ?_, ?_, ?_, ?_⟩
      · rw [List.map_cons, orthogonalize, Vec.dot_ofFn, Vec.scale_ofFn, Vec.sub_ofFn, hsplit]
      · rw [List.length_cons, List.length_cons, hlength]
      · rw [combination_cons, add_assoc, ← hsum, add_sub_cancel]
      · intro hframe u hu
        have hrest := hortho hframe.tail
        rcases List.mem_cons.1 hu with rfl | hu
        · have horthogonal := (List.pairwise_cons.1 hframe.orthogonal).1
          have hzero : combination y vs ⬝ᵥ u = 0 := by
            refine combination_dotProduct (fun z hz => ?_) y
            rw [dotProduct_comm]
            exact horthogonal z hz
          have hrest : rest = w - (w ⬝ᵥ u) • u - combination y vs := by
            rw [hsum, add_sub_cancel_left]
          rw [dotProduct_comm, hrest, sub_dotProduct, sub_dotProduct, smul_dotProduct,
            hframe.unit u List.mem_cons_self, hzero, smul_eq_mul, mul_one, sub_self, sub_zero]
        · exact hrest u hu

/-! ## Turned frames -/

/-- Cosine and sine are those of a rotation. -/
def IsRotation (r : Rotation ℝ) : Prop := r.c ^ 2 + r.s ^ 2 = 1

/-- Vectors turned by as many rotations as there are vectors but one: those before the
last, and the last one. -/
def turnFrame : List (Rotation ℝ) → List (Fin d → ℝ) → List (Fin d → ℝ) × (Fin d → ℝ)
  | r :: rs, u :: v :: vs =>
      let turned := turnFrame rs ((-r.s • u + r.c • v) :: vs)
      ((r.c • u + r.s • v) :: turned.1, turned.2)
  | _, v :: _ => ([], v)
  | _, [] => ([], 0)

theorem turnFrame_cons (r : Rotation ℝ) (rs : List (Rotation ℝ)) (u v : Fin d → ℝ)
    (vs : List (Fin d → ℝ)) :
    turnFrame (r :: rs) (u :: v :: vs) =
      ((r.c • u + r.s • v) :: (turnFrame rs ((-r.s • u + r.c • v) :: vs)).1,
        (turnFrame rs ((-r.s • u + r.c • v) :: vs)).2) := rfl

theorem turnColumn_cons (r : Rotation ℝ) (rs : List (Rotation ℝ)) (a b : ℝ) (y : Vec ℝ) :
    turnColumn (r :: rs) (a :: b :: y) =
      ((r.c * a + r.s * b) :: (turnColumn rs ((-r.s * a + r.c * b) :: y)).1,
        (turnColumn rs ((-r.s * a + r.c * b) :: y)).2) := rfl

/-- A list of more than one item begins with two. -/
theorem exists_cons_cons {β : Type} {l : List β} {k : ℕ} (h : l.length = k + 1 + 1) :
    ∃ a b t, l = a :: b :: t ∧ (b :: t).length = k + 1 := by
  obtain ⟨a, l, rfl⟩ := List.exists_cons_of_length_eq_add_one h
  have hl : l.length = k + 1 := Nat.succ.inj h
  obtain ⟨b, t, rfl⟩ := List.exists_cons_of_length_eq_add_one hl
  exact ⟨a, b, t, rfl, hl⟩

theorem length_turnFrame {rs : List (Rotation ℝ)} {vs : List (Fin d → ℝ)}
    (h : vs.length = rs.length + 1) : (turnFrame rs vs).1.length = rs.length := by
  induction rs generalizing vs with
  | nil =>
      obtain ⟨v, vs, rfl⟩ := List.exists_cons_of_length_eq_add_one h
      rfl
  | cons r rs ih =>
      obtain ⟨u, v, vs, rfl, hvs⟩ := exists_cons_cons h
      rw [turnFrame_cons, List.length_cons, List.length_cons, ih (by simpa using hvs)]

theorem length_turnColumn {rs : List (Rotation ℝ)} {y : Vec ℝ} (h : y.length = rs.length + 1) :
    (turnColumn rs y).1.length = rs.length := by
  induction rs generalizing y with
  | nil =>
      obtain ⟨a, y, rfl⟩ := List.exists_cons_of_length_eq_add_one h
      rfl
  | cons r rs ih =>
      obtain ⟨a, b, y, rfl, hy⟩ := exists_cons_cons h
      rw [turnColumn_cons, List.length_cons, List.length_cons, ih (by simpa using hy)]

/-- A column and its turned form combine to the same vector. -/
theorem combination_turnFrame {rs : List (Rotation ℝ)} (hrs : ∀ r ∈ rs, IsRotation r) {y : Vec ℝ}
    {vs : List (Fin d → ℝ)} (hy : y.length = rs.length + 1) (hvs : vs.length = rs.length + 1) :
    combination y vs =
      combination (turnColumn rs y).1 (turnFrame rs vs).1 +
        (turnColumn rs y).2 • (turnFrame rs vs).2 := by
  induction rs generalizing y vs with
  | nil =>
      obtain ⟨a, rfl⟩ := List.length_eq_one_iff.1 hy
      obtain ⟨v, rfl⟩ := List.length_eq_one_iff.1 hvs
      rw [combination_cons, combination_nil, add_comm]
      rfl
  | cons r rs ih =>
      obtain ⟨a, b, y, rfl, hy⟩ := exists_cons_cons hy
      obtain ⟨u, v, vs, rfl, hvs⟩ := exists_cons_cons hvs
      have hr : r.c ^ 2 + r.s ^ 2 = 1 := hrs r List.mem_cons_self
      have hy' : ((-r.s * a + r.c * b) :: y).length = rs.length + 1 := by simpa using hy
      have hvs' : ((-r.s • u + r.c • v) :: vs).length = rs.length + 1 := by simpa using hvs
      have hrest := ih (fun q hq => hrs q (List.mem_cons_of_mem r hq)) hy' hvs'
      -- the pair is turned in the same plane on either side
      have hplane : a • u + b • v = (r.c * a + r.s * b) • (r.c • u + r.s • v) +
          (-r.s * a + r.c * b) • (-r.s • u + r.c • v) := by
        ext i
        simp only [Pi.add_apply, Pi.smul_apply, smul_eq_mul]
        linear_combination (-(a * u i) - b * v i) * hr
      rw [combination_cons] at hrest
      rw [combination_cons, combination_cons, ← add_assoc, hplane, turnFrame_cons, turnColumn_cons,
        combination_cons, add_assoc, add_assoc, hrest]

/-- What is orthogonal to a frame is orthogonal to the turned one. -/
theorem turnFrame_orthogonal {z : Fin d → ℝ} (rs : List (Rotation ℝ)) {vs : List (Fin d → ℝ)}
    (h : ∀ v ∈ vs, v ⬝ᵥ z = 0) :
    (∀ w ∈ (turnFrame rs vs).1, w ⬝ᵥ z = 0) ∧ (turnFrame rs vs).2 ⬝ᵥ z = 0 := by
  induction rs generalizing vs with
  | nil =>
      cases vs with
      | nil => exact ⟨fun w hw => absurd hw List.not_mem_nil, zero_dotProduct z⟩
      | cons v vs =>
          exact ⟨fun w hw => absurd hw List.not_mem_nil, h v List.mem_cons_self⟩
  | cons r rs ih =>
      rcases vs with _ | ⟨u, _ | ⟨v, vs⟩⟩
      · exact ⟨fun w hw => absurd hw List.not_mem_nil, zero_dotProduct z⟩
      · exact ⟨fun w hw => absurd hw List.not_mem_nil, h u List.mem_cons_self⟩
      · have hu : u ⬝ᵥ z = 0 := h u List.mem_cons_self
        have hv : v ⬝ᵥ z = 0 := h v (List.mem_cons_of_mem u List.mem_cons_self)
        have hcombined : ∀ a b : ℝ, (a • u + b • v) ⬝ᵥ z = 0 := by
          intro a b
          rw [add_dotProduct, smul_dotProduct, smul_dotProduct, hu, hv, smul_zero, smul_zero,
            add_zero]
        have hcons : ∀ w ∈ (-r.s • u + r.c • v) :: vs, w ⬝ᵥ z = 0 := by
          intro w hw
          rcases List.mem_cons.1 hw with rfl | hw
          · exact hcombined _ _
          · exact h w (List.mem_cons_of_mem u (List.mem_cons_of_mem v hw))
        have hrest := ih hcons
        rw [turnFrame_cons]
        refine ⟨fun w hw => ?_, hrest.2⟩
        rcases List.mem_cons.1 hw with rfl | hw
        · exact hcombined _ _
        · exact hrest.1 w hw

/-- Orthonormal vectors of a plane are paired as their coordinates are. -/
theorem plane_dotProduct {u v : Fin d → ℝ} (hu : u ⬝ᵥ u = 1) (hv : v ⬝ᵥ v = 1)
    (huv : u ⬝ᵥ v = 0) (a b a' b' : ℝ) :
    (a • u + b • v) ⬝ᵥ (a' • u + b' • v) = a * a' + b * b' := by
  have hvu : v ⬝ᵥ u = 0 := by rw [dotProduct_comm, huv]
  simp only [add_dotProduct, dotProduct_add, smul_dotProduct, dotProduct_smul, smul_eq_mul, hu, hv,
    huv, hvu]
  ring

/-- A turned frame is a frame. -/
theorem turnFrame_frame {rs : List (Rotation ℝ)} (hrs : ∀ r ∈ rs, IsRotation r)
    {vs : List (Fin d → ℝ)} (hvs : vs.length = rs.length + 1) (h : Frame vs) :
    Frame ((turnFrame rs vs).1 ++ [(turnFrame rs vs).2]) := by
  induction rs generalizing vs with
  | nil =>
      obtain ⟨v, rfl⟩ := List.length_eq_one_iff.1 hvs
      exact h
  | cons r rs ih =>
      obtain ⟨u, v, vs, rfl, hvs⟩ := exists_cons_cons hvs
      have hr : r.c ^ 2 + r.s ^ 2 = 1 := hrs r List.mem_cons_self
      have hu := (List.pairwise_cons.1 h.orthogonal).1
      have hv := (List.pairwise_cons.1 h.tail.orthogonal).1
      have hplane := plane_dotProduct (h.unit u List.mem_cons_self)
        (h.tail.unit v List.mem_cons_self) (hu v List.mem_cons_self)
      have hrest (a b : ℝ) : ∀ w ∈ vs, (a • u + b • v) ⬝ᵥ w = 0 := by
        intro w hw
        rw [add_dotProduct, smul_dotProduct, smul_dotProduct, hu w (List.mem_cons_of_mem v hw),
          hv w hw, smul_zero, smul_zero, add_zero]
      have hunit : (-r.s • u + r.c • v) ⬝ᵥ (-r.s • u + r.c • v) = 1 := by
        rw [hplane]
        linear_combination hr
      have hturned := ih (fun q hq => hrs q (List.mem_cons_of_mem r hq)) (by simpa using hvs)
        (h.tail.tail.cons hunit (hrest _ _))
      -- the first of the turned pair is orthogonal to what the others are turned from
      have hfirst : ∀ w ∈ (-r.s • u + r.c • v) :: vs, w ⬝ᵥ (r.c • u + r.s • v) = 0 := by
        intro w hw
        rcases List.mem_cons.1 hw with rfl | hw
        · rw [hplane]
          ring
        · rw [dotProduct_comm]
          exact hrest _ _ w hw
      obtain ⟨hupper, hlast⟩ := turnFrame_orthogonal rs hfirst
      rw [turnFrame_cons, List.cons_append]
      refine hturned.cons ?_ fun w hw => ?_
      · rw [hplane]
        linear_combination hr
      · rw [dotProduct_comm]
        rcases List.mem_append.1 hw with hw | hw
        · exact hupper w hw
        · rw [List.mem_singleton.1 hw]
          exact hlast

/-- One more vector and one more rotation turn the last vector against the new one. -/
theorem turnFrame_concat {rs : List (Rotation ℝ)} {vs : List (Fin d → ℝ)}
    (h : vs.length = rs.length + 1) (r : Rotation ℝ) (v : Fin d → ℝ) :
    turnFrame (rs ++ [r]) (vs ++ [v]) =
      ((turnFrame rs vs).1 ++ [r.c • (turnFrame rs vs).2 + r.s • v],
        -r.s • (turnFrame rs vs).2 + r.c • v) := by
  induction rs generalizing vs with
  | nil =>
      obtain ⟨u, rfl⟩ := List.length_eq_one_iff.1 h
      rfl
  | cons q rs ih =>
      obtain ⟨u, w, vs, rfl, hvs⟩ := exists_cons_cons h
      have hlength : ((-q.s • u + q.c • w) :: vs).length = rs.length + 1 := by simpa using hvs
      have hrest := ih hlength
      rw [List.cons_append] at hrest
      rw [List.cons_append, List.cons_append, List.cons_append, turnFrame_cons, hrest,
        turnFrame_cons]
      rfl

/-! ## The triangular system -/

/-- The columns, the latest one first, are those of a triangular system, and combine
vectors of `ws` to the images of the vectors they stand beside. -/
inductive Reaches (g : (Fin d → ℝ) → Fin d → ℝ) (ws : List (Fin d → ℝ)) :
    List (Vec ℝ) → List (Fin d → ℝ) → Prop
  | nil : Reaches g ws [] []
  | cons {columns : List (Vec ℝ)} {us : List (Fin d → ℝ)} {column : Vec ℝ} {u : Fin d → ℝ}
      (length : column.length = columns.length + 1) (diagonal : column.getD columns.length 0 ≠ 0)
      (image : g u = combination column ws) (earlier : Reaches g ws columns us) :
      Reaches g ws (column :: columns) (u :: us)

namespace Reaches

variable {g : (Fin d → ℝ) → Fin d → ℝ} {ws : List (Fin d → ℝ)} {columns : List (Vec ℝ)}
  {us : List (Fin d → ℝ)}

theorem length_eq (h : Reaches g ws columns us) : us.length = columns.length := by
  induction h with
  | nil => rfl
  | cons _ _ _ _ ih => rw [List.length_cons, List.length_cons, ih]

/-- What triangular columns reach is combinations: those of the images of the vectors they stand
beside. -/
theorem exists_combination (h : Reaches g ws columns us) {u : Fin d → ℝ} (hu : u ∈ us) :
    ∃ column : Vec ℝ, g u = combination column ws := by
  induction h with
  | nil => exact absurd hu List.not_mem_nil
  | cons length diagonal image earlier ih =>
      rcases List.mem_cons.1 hu with rfl | hu
      · exact ⟨_, image⟩
      · exact ih hu

/-- The columns do not look at more vectors than there are columns. -/
theorem append (h : Reaches g ws columns us) (hws : columns.length ≤ ws.length)
    (ws' : List (Fin d → ℝ)) : Reaches g (ws ++ ws') columns us := by
  induction h with
  | nil => exact .nil
  | cons length diagonal image earlier ih =>
      rw [List.length_cons] at hws
      refine .cons length diagonal ?_ (ih (Nat.le_of_succ_le hws))
      rw [image, combination_append_right (by rw [length]; exact hws)]

/-- The solution of the triangular system combines the images to the target. -/
theorem combination_backSubstitute (h : Reaches g ws columns us)
    (hws : columns.length ≤ ws.length) {target : Vec ℝ} (ht : target.length = columns.length) :
    combination (backSubstitute columns target) (us.reverse.map g) = combination target ws := by
  induction h generalizing target with
  | nil =>
      obtain rfl : target = [] := List.eq_nil_of_length_eq_zero ht
      rfl
  | @cons columns us column u length diagonal image earlier ih =>
      have hlt : columns.length < ws.length := hws
      have htake : ∀ z : Vec ℝ, z.length = columns.length + 1 →
          (z.take columns.length).length = columns.length := by
        intro z hz
        rw [List.length_take, hz, Nat.min_eq_left (Nat.le_succ _)]
      have hlower : (target.take columns.length).length = (column.take columns.length).length := by
        rw [htake target ht, htake column length]
      have hy : (backSubstitute columns (Vec.sub (target.take columns.length)
          (Vec.scale (target.getD columns.length 0 / column.getD columns.length 0)
            (column.take columns.length)))).length = (us.reverse.map g).length := by
        rw [length_backSubstitute, List.length_map, List.length_reverse, earlier.length_eq]
      rw [backSubstitute, List.reverse_cons, List.map_append, combination_append hy,
        ih hlt.le (by rw [Vec.length_sub, Vec.length_scale, ← hlower, min_self, htake target ht]),
        combination_sub hlower, List.map_singleton, combination_cons, combination_nil, add_zero,
        image, combination_eq_take_add length hlt, combination_eq_take_add ht hlt, smul_add,
        smul_smul, div_mul_cancel₀ _ diagonal]
      abel

end Reaches

end Krylov

end RecedingHorizon
