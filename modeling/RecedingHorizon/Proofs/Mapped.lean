import RecedingHorizon.Proofs.Matrices
import RecedingHorizon.Proofs.Numbers
import RecedingHorizon.Tensor

/-!
# Arrays with every entry changed in the same way

What is done to the shape of an array does not look at its entries, so it may be done before or
after a function is applied to each of them.  An operation that meets two arrays entry by entry
may look at them, and commutes with functions on the entries only as the operation on the entries
does; where shapes are repeated, a place past the end is read as zero, and zero has to stay zero.

Of the functions that do so the multiples by a number are linear, and so products of arrays and the
sums and differences of two arrays commute with them.  For a number whose square is one, `1` or
`-1`, nothing that is measured of an array changes: neither its norm, nor whether it is zero.

* `Tensor.item_map`, `Tensor.front_map`, `Tensor.reshape_map` and so on: taken apart and put
  together.
* `Tensor.spread_map`, `Tensor.pointwise_map`: repeated to fit.
* `Tensor.plus_scale`, `Tensor.scaleBy_scale`, `Tensor.product_scale` and so on: multiples.
* `IsSign`, `IsSign.norm_scale`, `IsSign.isZero_scale`: numbers of square one.
-/

namespace RecedingHorizon

/-- A row with `φ` applied to every entry. -/
def Row.map {α : Type} {shape : List ℕ} (φ : α → α) (r : Row α shape) : Row α shape :=
  ⟨r.1.map φ, r.2⟩

@[simp] theorem Row.val_map {α : Type} {shape : List ℕ} (φ : α → α) (r : Row α shape) :
    (r.map φ).1 = r.1.map φ := rfl

namespace Tensor

/-! ## Shapes -/

section Shapes

variable {α : Type} (φ : α → α)

theorem flat_map (a : Tensor α) : (a.map φ).flat = a.flat.map φ :=
  ext_of_entries (by simp [flat]) rfl

theorem item_map (a : Tensor α) (i : ℕ) :
    (a.map φ).item i = (a.item i).map (Tensor.map φ) := by
  obtain ⟨shape, entries, h⟩ := a
  cases shape with
  | nil => rfl
  | cons n shape =>
      simp only [item, map]
      split
      · refine congrArg Except.ok (ext_of_entries rfl ?_)
        show ((entries.map φ).drop _).take _ = ((entries.drop _).take _).map φ
        rw [List.map_take, List.map_drop]
      · rfl

theorem front_map (k : ℤ) (a : Tensor α) :
    (a.map φ).front k = (a.front k).map (Tensor.map φ) := by
  obtain ⟨shape, entries, h⟩ := a
  cases shape with
  | nil => rfl
  | cons n shape => exact congrArg Except.ok (ext_of_entries rfl List.map_take.symm)

theorem back_map (k : ℤ) (a : Tensor α) :
    (a.map φ).back k = (a.back k).map (Tensor.map φ) := by
  obtain ⟨shape, entries, h⟩ := a
  cases shape with
  | nil => rfl
  | cons n shape => exact congrArg Except.ok (ext_of_entries rfl List.map_drop.symm)

theorem replicate_map (count : ℕ) (a : Tensor α) :
    (a.map φ).replicate count = (a.replicate count).map φ := by
  refine ext_of_entries rfl ?_
  show (List.replicate count (a.entries.map φ)).flatten = _
  rw [← List.map_replicate, ← List.map_flatten]
  rfl

theorem ofRows_map {shape : List ℕ} {rows rows' : List (Row α shape)}
    (h : List.Forall₂ (fun r r' => r' = r.map φ) rows rows') :
    ofRows rows' = (ofRows rows).map φ := by
  refine ext_of_entries ?_ ?_
  · rw [shape_ofRows, shape_map, shape_ofRows, h.length_eq]
  · rw [entries_ofRows, entries_map, entries_ofRows]
    induction h with
    | nil => rfl
    | cons hr _ ih =>
        rw [List.flatMap_cons, List.flatMap_cons, List.map_append, ih, hr]
        rfl

theorem reshape_map (height : Datum α) (width : ℤ) (a : Tensor α) :
    (a.map φ).reshape height width = (a.reshape height width).map (Tensor.map φ) := by
  have hlength : (a.map φ).entries.length = a.entries.length := List.length_map _
  unfold reshape
  rcases height.extent with fault | h
  · rfl
  · simp only [ok_bind, hlength]
    split
    · rfl
    · rcases resolve? a.entries.length h width with _ | ⟨m, n⟩
      · rfl
      · dsimp only
        split
        · rcases (checkExtents [m, n] : Except (Fault α) Unit) with fault | _
          · rfl
          · rfl
        · rfl

end Shapes

/-! ## Arrays repeated to fit -/

section Repeated

variable {φ f g : ℝ → ℝ}

theorem zeros_map (h0 : φ 0 = 0) (shape : List ℕ) :
    (zeros shape : Tensor ℝ).map φ = zeros shape := by
  refine ext_of_entries rfl ?_
  show (Vec.zeros _).map φ = Vec.zeros _
  rw [Vec.zeros, List.map_replicate, h0]

theorem entry_map (h0 : φ 0 = 0) (a : Tensor ℝ) (i : ℕ) : (a.map φ).entry i = φ (a.entry i) := by
  have hgetD := List.getD_map (n := i) (l := a.entries) (d := (0 : ℝ)) φ
  rw [h0] at hgetD
  exact hgetD

theorem tabulate_map {α : Type} (φ : α → α) (shape : List ℕ) (f : ℕ → α) :
    (tabulate shape f).map φ = tabulate shape fun i => φ (f i) :=
  ext_of_entries rfl List.map_map

theorem repeated_map (h0 : φ 0 = 0) (a : Tensor ℝ) (shape : List ℕ) :
    (a.map φ).repeated shape = (a.repeated shape).map φ := by
  simp only [repeated, tabulate_map, entry_map h0, shape_map]

theorem spread_map (h0 : φ 0 = 0) (shape : List ℕ) (a : Tensor ℝ) :
    (a.map φ).spread shape = (a.spread shape).map (Row.map φ) := by
  unfold spread
  by_cases h : a.shape = shape
  · have h' : (a.map φ).shape = shape := h
    rw [dif_pos h, dif_pos h']
    rfl
  · have h' : ¬(a.map φ).shape = shape := h
    rw [dif_neg h, dif_neg h']
    dsimp only [shape_map]
    split
    · refine congrArg Except.ok (Subtype.ext ?_)
      simp only [entry_map h0, Row.val_map, tabulate_map]
    · rfl

/-- Two arrays that meet entry by entry, with functions on either that go through the
operation. -/
theorem pointwise_map {op : ℝ → ℝ → ℝ} (hf : f 0 = 0) (hg : g 0 = 0)
    (h : ∀ x y, op (f x) (g y) = φ (op x y)) (a b : Tensor ℝ) :
    pointwise op (a.map f) (b.map g) = (pointwise op a b).map (Tensor.map φ) := by
  unfold pointwise
  by_cases hs : a.shape = b.shape
  · have hs' : (a.map f).shape = (b.map g).shape := hs
    rw [dif_pos hs, dif_pos hs']
    refine congrArg Except.ok (ext_of_entries rfl ?_)
    show List.zipWith op (a.entries.map f) (b.entries.map g) = (List.zipWith op _ _).map φ
    rw [List.zipWith_map, List.map_zipWith]
    simp only [h]
  · have hs' : ¬(a.map f).shape = (b.map g).shape := hs
    rw [dif_neg hs, dif_neg hs', shape_map, shape_map]
    rcases broadcast? a.shape b.shape with _ | shape
    · rfl
    · refine congrArg Except.ok ?_
      simp only [repeated_map hf, repeated_map hg, entry_map hf, entry_map hg, h, tabulate_map]

end Repeated

/-! ## Multiples -/

section Multiples

variable (σ : ℝ) (a b : Tensor ℝ)

theorem entries_scale : (a.scale σ).entries = Vec.scale σ a.entries := rfl

theorem plus_scale : (a.scale σ).plus (b.scale σ) = (a.plus b).map (scale σ) :=
  pointwise_map (mul_zero σ) (mul_zero σ) (fun x y => (mul_add σ x y).symm) a b

theorem minus_scale : (a.scale σ).minus (b.scale σ) = (a.minus b).map (scale σ) :=
  pointwise_map (mul_zero σ) (mul_zero σ) (fun x y => (mul_sub σ x y).symm) a b

theorem increase_row_scale {shape : List ℕ} (r : Row ℝ shape) :
    Row.increase (r.map (σ * ·)) (b.scale σ) = (Row.increase r b).map (Row.map (σ * ·)) := by
  have hsum : (r.map (σ * ·)).1.plus (b.scale σ) = (r.1.plus b).map (scale σ) :=
    plus_scale σ r.1 b
  unfold Row.increase
  rw [hsum]
  rcases r.1.plus b with fault | sum
  · rfl
  · by_cases h : sum.shape = shape
    · show (if h : sum.shape = shape then _ else _) = Except.map _ (if h : sum.shape = shape
        then _ else _)
      rw [dif_pos h, dif_pos h]
      rfl
    · show (if h : sum.shape = shape then _ else _) = Except.map _ (if h : sum.shape = shape
        then _ else _)
      rw [dif_neg h, dif_neg h]
      rfl

theorem increase_scale : (a.scale σ).increase (b.scale σ) = (a.increase b).map (scale σ) := by
  show Except.map Subtype.val ((a.row.map (σ * ·)).increase (b.scale σ)) =
    Except.map (scale σ) (Except.map Subtype.val (a.row.increase b))
  rw [increase_row_scale]
  rcases a.row.increase b with fault | r
  · rfl
  · rfl

/-- A value meets every entry of an array. -/
theorem meet_scale {op : ℝ → ℝ → ℝ} (h : ∀ x y, op (σ * x) y = σ * op x y) (d : Datum ℝ) :
    (a.scale σ).meet op d = (a.meet op d).map (scale σ) := by
  have hscalar (d : Datum ℝ) : (do
      let c ← d.scalar
      return (a.scale σ).map fun x => op x c) =
        Except.map (scale σ) (do
          let c ← d.scalar
          return a.map fun x => op x c : Except (Fault ℝ) (Tensor ℝ)) := by
    rcases d.scalar with fault | c
    · rfl
    · refine congrArg Except.ok (ext_of_entries rfl ?_)
      show (a.entries.map _).map _ = (a.entries.map _).map _
      rw [List.map_map, List.map_map]
      exact List.map_congr_left fun x _ => h x c
  have hempty : (a.scale σ).entries.isEmpty = a.entries.isEmpty := List.isEmpty_map
  cases d with
  | number k => exact hscalar _
  | flag b => exact hscalar _
  | text s => exact hscalar _
  | list items =>
      unfold meet
      dsimp only
      rcases (Datum.list items).operands with fault | c
      · rfl
      · have hpointwise := pointwise_map (g := id) (mul_zero σ) rfl h a c
        have hid : c.map id = c := ext_of_entries rfl (List.map_id _)
        rw [hid] at hpointwise
        exact hpointwise
  | nothing =>
      unfold meet
      dsimp only
      rw [hempty]
      split
      · rfl
      · rfl
  | record names values =>
      unfold meet
      dsimp only
      rw [hempty]
      split
      · rfl
      · rfl

theorem scaleBy_scale (d : Datum ℝ) : (a.scale σ).scaleBy d = (a.scaleBy d).map (scale σ) :=
  meet_scale σ a (fun x c => mul_left_comm c σ x) d

theorem divideBy_scale (d : Datum ℝ) : (a.scale σ).divideBy d = (a.divideBy d).map (scale σ) :=
  meet_scale σ a (fun x c => mul_div_assoc σ x c) d

/-! ### Products -/

theorem dot_scale (u v : Vec ℝ) : Vec.dot u (Vec.scale σ v) = σ * Vec.dot u v := by
  unfold Vec.dot Vec.mul Vec.scale
  rw [Vec.sum_eq, Vec.sum_eq, List.zipWith_map_right, ← smul_eq_mul, List.smul_sum,
    List.map_zipWith]
  simp only [smul_eq_mul, mul_left_comm]

theorem stackedProduct_scale (m k n : ℕ) (outer outer' common shape : List ℕ) :
    stackedProduct a (b.scale σ) m k n outer outer' common shape =
      (stackedProduct a b m k n outer outer' common shape).scale σ := by
  unfold stackedProduct scale
  rw [tabulate_map]
  refine congrArg (tabulate shape) (funext fun i => ?_)
  rw [Vec.sum_eq, Vec.sum_eq, ← List.sum_map_mul_left]
  refine congrArg List.sum (List.map_congr_left fun l _ => ?_)
  rw [entry_map (mul_zero σ)]
  exact mul_left_comm _ _ _

theorem matrixProduct_scale (left right : List ℕ) (shape : List ℕ → List ℕ) :
    matrixProduct a (b.scale σ) left right shape =
      (matrixProduct a b left right shape).map (scale σ) := by
  unfold matrixProduct
  split
  · split
    · split
      · exact congrArg Except.ok (stackedProduct_scale σ a b _ _ _ _ _ _ _)
      · rfl
    · rfl
  · rfl

theorem product_scale : a.product (b.scale σ) = (a.product b).map (scale σ) := by
  have hshape : (b.scale σ).shape = b.shape := rfl
  unfold product
  rw [hshape]
  split
  · rfl
  · rfl
  · split
    · exact congrArg Except.ok (ext_of_entries rfl (congrArg (fun x => [x]) (dot_scale σ _ _)))
    · rfl
  · split
    · refine congrArg Except.ok (ext_of_entries (by simp) ?_)
      show (a.rows _ _).map _ = ((a.rows _ _).map _).map _
      rw [List.map_map]
      exact List.map_congr_left fun r _ => dot_scale σ r b.entries
    · rfl
  · exact matrixProduct_scale σ a b _ _ _
  · exact matrixProduct_scale σ a b _ _ _
  · exact matrixProduct_scale σ a b _ _ _

theorem foldl_add_scale (vs : List (Vec ℝ)) (z : Vec ℝ) :
    (vs.map (Vec.scale σ)).foldl Vec.add (Vec.scale σ z) =
      Vec.scale σ (vs.foldl Vec.add z) := by
  induction vs generalizing z with
  | nil => rfl
  | cons v vs ih =>
      have hadd : Vec.add (Vec.scale σ z) (Vec.scale σ v) = Vec.scale σ (Vec.add z v) := by
        unfold Vec.add Vec.scale
        rw [List.zipWith_map, List.map_zipWith]
        simp only [mul_add]
      rw [List.map_cons, List.foldl_cons, List.foldl_cons, hadd, ih]

theorem combine_scale (n : ℕ) (vs : List (Vec ℝ)) (y : Vec ℝ) :
    Vec.combine n vs (Vec.scale σ y) = Vec.scale σ (Vec.combine n vs y) := by
  have hzeros : (Vec.zeros n : Vec ℝ) = Vec.scale σ (Vec.zeros n) := by
    rw [Vec.scale, Vec.zeros, List.map_replicate, mul_zero]
  have hterms : List.zipWith Vec.scale (Vec.scale σ y) vs =
      (List.zipWith Vec.scale y vs).map (Vec.scale σ) := by
    rw [Vec.scale, List.zipWith_map_left, List.map_zipWith]
    refine congrArg (fun f => List.zipWith f y vs) (funext fun c => funext fun v => ?_)
    unfold Vec.scale
    rw [List.map_map]
    exact List.map_congr_left fun x _ => mul_assoc σ c x
  unfold Vec.combine
  rw [hterms, ← foldl_add_scale, ← hzeros]

theorem pullback_scale : a.pullback (b.scale σ) = (a.pullback b).map (scale σ) := by
  have hshape : (b.scale σ).shape = b.shape := rfl
  unfold pullback
  rw [hshape]
  split
  · split
    · refine congrArg Except.ok (ext_of_entries ?_ (combine_scale σ _ _ _))
      show [_] = [_]
      rw [entries_scale, combine_scale, Vec.length_scale]
    · rfl
  · exact product_scale σ a.transpose b

/-! ### One array -/

theorem neg_scale : (a.scale σ).neg = a.neg.scale σ := by
  refine ext_of_entries rfl ?_
  show (a.entries.map _).map _ = (a.entries.map _).map _
  rw [List.map_map, List.map_map]
  exact List.map_congr_left fun x _ => (mul_neg σ x).symm

theorem divide_scale (β : ℝ) : (a.scale σ).divide β = (a.divide β).scale σ := by
  refine ext_of_entries rfl ?_
  show (a.entries.map _).map _ = (a.entries.map _).map _
  rw [List.map_map, List.map_map]
  exact List.map_congr_left fun x _ => mul_div_assoc σ x β

theorem vector_scale (n : ℕ) : (a.scale σ).vector n = (a.vector n).map (Vec.scale σ) := by
  show Except.map _ ((a.scale σ).spread [n]) = Except.map _ (Except.map _ (a.spread [n]))
  rw [scale, spread_map (mul_zero σ)]
  rcases a.spread [n] with fault | r
  · rfl
  · rfl

theorem scale_one : a.scale 1 = a :=
  ext_of_entries rfl (by simp [scale])

end Multiples

end Tensor

/-! ## Signs -/

/-- A number whose square is one. -/
def IsSign (σ : ℝ) : Prop := σ * σ = 1

namespace IsSign

variable {σ : ℝ} (hσ : IsSign σ)

theorem one : IsSign 1 := mul_one 1

theorem neg_one : IsSign (-1) := by rw [IsSign, neg_mul_neg, mul_one]

include hσ

theorem ne_zero : σ ≠ 0 := by
  rintro rfl
  rw [IsSign, mul_zero] at hσ
  exact zero_ne_one hσ

theorem sumSquares_scale (v : Vec ℝ) : Vec.sumSquares (Vec.scale σ v) = Vec.sumSquares v := by
  unfold Vec.sumSquares Vec.dot Vec.mul Vec.scale
  rw [List.zipWith_map]
  refine congrArg (fun f => Vec.sum (List.zipWith f v v)) (funext fun x => funext fun y => ?_)
  rw [mul_mul_mul_comm, hσ, one_mul]

theorem norm_scale (a : Tensor ℝ) : (a.scale σ).norm = a.norm :=
  congrArg Real.sqrt (hσ.sumSquares_scale a.entries)

theorem isZero_scale (a : Tensor ℝ) : (a.scale σ).isZero = a.isZero := by
  show Vec.isZero (a.entries.map _) = Vec.isZero a.entries
  unfold Vec.isZero
  rw [List.all_map]
  refine congrArg a.entries.all (funext fun x => ?_)
  rw [Function.comp_apply, isZero_eq, isZero_eq, decide_eq_decide]
  exact mul_eq_zero_iff_left hσ.ne_zero

end IsSign

end RecedingHorizon
