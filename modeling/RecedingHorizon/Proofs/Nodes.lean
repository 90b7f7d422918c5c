import Mathlib
import RecedingHorizon.Tensor
import RecedingHorizon.Tensor.Given
import RecedingHorizon.Tensor.Vector

/-!
# Arrays read as vectors and as sequences of vectors

An array with one index is a vector, a function on its places, and an array with
two is a sequence of vectors of one length, of which it holds a number of terms.
Sequences go on for ever here, and an array says nothing of what comes after the
terms it holds: two arrays of the same height are equal exactly when the sequences
agree up to there (`ofNodes_inj`).

* `Tensor.ofFn`, `Tensor.ofNodes`: the arrays of a vector and of a sequence.
* `exists_eq_ofFn`, `exists_eq_ofNodes`: every array of such a shape is one.
* `plus_ofFn`, `plus_ofNodes` and so on: the operations on arrays are those on
  vectors, and none of them fails.
* `flatten`, `unflatten`: a sequence as one long vector, and back.
-/

namespace RecedingHorizon

namespace Tensor

variable {α : Type} {n m N : ℕ}

/-! ## Vectors -/

/-- The array of a vector. -/
def ofFn (v : Fin n → α) : Tensor α := ofVec (List.ofFn v)

@[simp] theorem shape_ofFn (v : Fin n → α) : (ofFn v).shape = [n] := by
  simp [ofFn]

@[simp] theorem entries_ofFn (v : Fin n → α) : (ofFn v).entries = List.ofFn v := rfl

/-- The array of a vector, as a row. -/
def nodeRow (v : Fin n → α) : Row α [n] := ⟨ofFn v, shape_ofFn v⟩

@[simp] theorem val_nodeRow (v : Fin n → α) : (nodeRow v).1 = ofFn v := rfl

/-- An array with one index is the array of a vector. -/
theorem exists_eq_ofFn {a : Tensor α} (h : a.shape = [n]) : ∃ v : Fin n → α, a = ofFn v := by
  have hl : a.entries.length = n := length_entries_of_shape h
  subst hl
  refine ⟨a.entries.get, ext_of_entries ?_ ?_⟩
  · rw [shape_ofFn, h]
  · exact (List.ofFn_get a.entries).symm

theorem ofFn_injective : Function.Injective (ofFn : (Fin n → α) → Tensor α) := by
  intro u v h
  exact List.ofFn_injective (congrArg entries h)

@[simp] theorem ofFn_inj {u v : Fin n → α} : ofFn u = ofFn v ↔ u = v :=
  ofFn_injective.eq_iff

@[simp] theorem count_ofFn (v : Fin n → α) : (ofFn v).count = .ok n := by
  rw [count, shape_ofFn]

/-- An entry of the array of a vector, as a bare number. -/
theorem item_ofFn (v : Fin n → α) (i : Fin n) : (ofFn v).item i = .ok (single (v i)) := by
  rw [ofFn, item_ofVec (by simp)]
  simp

/-- A vector put together from its entries. -/
theorem ofItems_ofFn (v : Fin (n + 1) → α) : ofItems ((List.ofFn v).map single) = .ok (ofFn v) :=
  ofItems_single (List.ofFn v) (by simp)

/-- The leading part of a vector in two parts. -/
theorem front_ofFn (v : Fin (m + n) → α) :
    (ofFn v).front m = .ok (ofFn fun i => v (Fin.castAdd n i)) := by
  rw [ofFn, front_ofVec, ofFn, List.ofFn_add, List.take_left' (by simp)]
  rfl

/-- The trailing part of a vector in two parts. -/
theorem back_ofFn (v : Fin (m + n) → α) :
    (ofFn v).back m = .ok (ofFn fun i => v (Fin.natAdd m i)) := by
  rw [ofFn, back_ofVec, ofFn, List.ofFn_add, List.drop_left' (by simp)]

theorem append_ofFn (u : Fin m → α) (v : Fin n → α) :
    (ofFn u).append (ofFn v) = .ok (ofFn (Fin.append u v)) := by
  rw [ofFn, ofFn, append_ofVec, ofFn, List.ofFn_fin_append]

/-- The array of a vector, with a function applied to every entry. -/
@[simp] theorem map_ofFn {β : Type} (f : α → β) (v : Fin n → α) :
    (ofFn v).map f = ofFn fun i => f (v i) :=
  ext_of_entries (by simp) (by simp [List.map_ofFn, Function.comp_def])

variable [Scalar α]

@[simp] theorem plus_ofFn (u v : Fin n → α) : (ofFn u).plus (ofFn v) = .ok (ofFn (u + v)) := by
  rw [ofFn, ofFn, plus_ofVec (by simp), ofFn]
  refine congrArg (fun l => Except.ok (ofVec l)) (List.ext_getElem ?_ ?_)
  · simp
  · simp [Vec.add]

@[simp] theorem minus_ofFn (u v : Fin n → α) : (ofFn u).minus (ofFn v) = .ok (ofFn (u - v)) := by
  rw [ofFn, ofFn, minus_ofVec (by simp), ofFn]
  refine congrArg (fun l => Except.ok (ofVec l)) (List.ext_getElem ?_ ?_)
  · simp
  · simp [Vec.sub]

theorem times_ofFn (u v : Fin n → α) :
    (ofFn u).times (ofFn v) = .ok (ofFn fun i => u i * v i) := by
  have hs : (ofFn u).shape = (ofFn v).shape := by simp
  rw [times, pointwise, dif_pos hs]
  refine congrArg Except.ok (ext_of_entries (by simp) ?_)
  apply List.ext_getElem
  · simp
  · simp

@[simp] theorem scale_ofFn (c : α) (v : Fin n → α) : (ofFn v).scale c = ofFn (c • v) :=
  map_ofFn _ v

@[simp] theorem divide_ofFn (c : α) (v : Fin n → α) :
    (ofFn v).divide c = ofFn fun i => v i / c := map_ofFn _ v

@[simp] theorem neg_ofFn (v : Fin n → α) : (ofFn v).neg = ofFn (-v) := map_ofFn _ v

@[simp] theorem zeros_eq_ofFn : (zeros [n] : Tensor α) = ofFn fun _ : Fin n => (0 : α) := by
  refine ext_of_entries (by simp [zeros]) ?_
  simp [zeros, Vec.zeros, List.ofFn_const]

/-- The row of zeros. -/
theorem row_zeros : ((zeros [n] : Tensor α).row : Row α [n]) = nodeRow fun _ => 0 :=
  Subtype.ext zeros_eq_ofFn

@[simp] theorem increase_ofFn (u v : Fin n → α) :
    (ofFn u).increase (ofFn v) = .ok (ofFn (u + v)) := by
  have h := plus_ofFn u v
  rw [ofFn, ofFn, plus_ofVec (by simp)] at h
  rw [ofFn, ofFn, increase_ofVec (by simp), h]

@[simp] theorem spread_ofFn (v : Fin n → α) :
    (ofFn v).spread [n] = .ok (nodeRow v) := dif_pos (shape_ofFn v)

@[simp] theorem vector_ofFn (v : Fin n → α) : (ofFn v).vector n = .ok (List.ofFn v) := by
  rw [vector, spread_ofFn]
  rfl

end Tensor

/-! ## Sequences of vectors -/

/-- The first `N` terms of a sequence as one vector. -/
def flatten (N : ℕ) (s : ℕ → Fin n → α) : Fin (N * n) → α := fun p => s p.divNat p.modNat

/-- A vector as the first `N` terms of a sequence, which goes on with zeros. -/
def unflatten [Scalar α] (N : ℕ) (v : Fin (N * n) → α) (i : ℕ) : Fin n → α :=
  fun j => if h : i < N then v (finProdFinEquiv (⟨i, h⟩, j)) else 0

theorem flatten_finProdFinEquiv (s : ℕ → Fin n → α) (i : Fin N) (j : Fin n) :
    flatten N s (finProdFinEquiv (i, j)) = s i j := by
  have h := finProdFinEquiv.symm_apply_apply (i, j)
  rw [finProdFinEquiv_symm_apply] at h
  obtain ⟨hi, hj⟩ := Prod.mk.inj h
  rw [flatten, hi, hj]

section Unflatten

variable [Scalar α]

@[simp] theorem flatten_unflatten (v : Fin (N * n) → α) : flatten N (unflatten N v) = v := by
  funext p
  obtain ⟨⟨i, j⟩, rfl⟩ := finProdFinEquiv.surjective p
  rw [flatten_finProdFinEquiv, unflatten, dif_pos i.isLt]

theorem unflatten_flatten (s : ℕ → Fin n → α) {i : ℕ} (hi : i < N) :
    unflatten N (flatten N s) i = s i := by
  funext j
  rw [unflatten, dif_pos hi, flatten_finProdFinEquiv]

end Unflatten

namespace Tensor

/-- The array of the first `N` terms of a sequence. -/
def ofNodes (N : ℕ) (s : ℕ → Fin n → α) : Tensor α :=
  ofRows (List.ofFn fun i : Fin N => nodeRow (s i))

@[simp] theorem shape_ofNodes (s : ℕ → Fin n → α) : (ofNodes N s).shape = [N, n] := by
  simp [ofNodes]

@[simp] theorem count_ofNodes (s : ℕ → Fin n → α) : (ofNodes N s).count = .ok N := by
  rw [count, shape_ofNodes]

/-- The array of a sequence is its first term, followed by the sequence from the second one on. -/
theorem ofNodes_succ (s : ℕ → Fin n → α) :
    ofNodes (N + 1) s =
      ofRows (nodeRow (s 0) :: List.ofFn fun i : Fin N => nodeRow (s (i + 1))) := by
  rw [ofNodes, List.ofFn_succ]
  rfl

/-- The entries of the array of a sequence are those of the one long vector. -/
theorem entries_ofNodes (s : ℕ → Fin n → α) :
    (ofNodes N s).entries = List.ofFn (flatten N s) := by
  rw [ofNodes, entries_ofRows, List.ofFn_mul, List.flatMap_def, List.map_ofFn]
  refine congrArg List.flatten (congrArg List.ofFn (funext fun i => ?_))
  refine congrArg List.ofFn (funext fun j => ?_)
  rw [← flatten_finProdFinEquiv (N := N) s i j]
  refine congrArg (flatten N s) (Fin.ext ?_)
  rw [finProdFinEquiv_apply_val]
  ring

theorem item_ofNodes (s : ℕ → Fin n → α) {i : ℕ} (hi : i < N) :
    (ofNodes N s).item i = .ok (ofFn (s i)) := by
  rw [ofNodes, item_ofRows _ (by simpa using hi)]
  simp [nodeRow]

/-- The array of a sequence has no item past the last term. -/
theorem item_ofNodes_of_le (s : ℕ → Fin n → α) {i : ℕ} (hi : N ≤ i) :
    (ofNodes N s).item i = .error .missingEntry := by
  rw [ofNodes, item_ofRows_of_le _ (by simpa using hi)]

/-- Terms past the height of an array do not enter it. -/
theorem ofNodes_congr {s s' : ℕ → Fin n → α} (h : ∀ i < N, s i = s' i) :
    ofNodes N s = ofNodes N s' := by
  rw [ofNodes, ofNodes]
  refine congrArg ofRows (congrArg List.ofFn (funext fun i => ?_))
  rw [h i i.isLt]

theorem ofNodes_inj {s s' : ℕ → Fin n → α} :
    ofNodes N s = ofNodes N s' ↔ ∀ i < N, s i = s' i := by
  refine ⟨fun h i hi => ?_, ofNodes_congr⟩
  have := item_ofNodes s hi
  rw [h, item_ofNodes s' hi] at this
  exact ofFn_injective (Except.ok.inj this).symm

variable [Scalar α]

/-- An array with two indices is the array of a sequence. -/
theorem exists_eq_ofNodes {a : Tensor α} (h : a.shape = [N, n]) :
    ∃ s : ℕ → Fin n → α, a = ofNodes N s := by
  have hf : a.flat.shape = [N * n] := by simp [flat, a.length_entries, h]
  obtain ⟨v, hv⟩ := exists_eq_ofFn hf
  refine ⟨unflatten N v, ext_of_entries ?_ ?_⟩
  · rw [h, shape_ofNodes]
  · rw [entries_ofNodes, flatten_unflatten]
    exact congrArg entries hv

omit [Scalar α] in
@[simp] theorem flat_ofNodes (s : ℕ → Fin n → α) : (ofNodes N s).flat = ofFn (flatten N s) := by
  rw [flat, entries_ofNodes, ofFn]

/-- Two arrays of sequences meet term by term. -/
theorem pointwise_ofNodes (op : α → α → α) (s s' : ℕ → Fin n → α) :
    (ofNodes N s).pointwise op (ofNodes N s') =
      .ok (ofNodes N fun i j => op (s i j) (s' i j)) := by
  have hs : (ofNodes N s).shape = (ofNodes N s').shape := by simp
  rw [pointwise, dif_pos hs]
  refine congrArg _ (ext_of_entries (by simp) ?_)
  show List.zipWith op (ofNodes N s).entries (ofNodes N s').entries = _
  rw [entries_ofNodes, entries_ofNodes, entries_ofNodes]
  apply List.ext_getElem
  · simp
  · simp [flatten]

@[simp] theorem plus_ofNodes (s s' : ℕ → Fin n → α) :
    (ofNodes N s).plus (ofNodes N s') = .ok (ofNodes N (s + s')) := pointwise_ofNodes _ s s'

@[simp] theorem minus_ofNodes (s s' : ℕ → Fin n → α) :
    (ofNodes N s).minus (ofNodes N s') = .ok (ofNodes N (s - s')) := pointwise_ofNodes _ s s'

omit [Scalar α] in
@[simp] theorem map_ofNodes {β : Type} (f : α → β) (s : ℕ → Fin n → α) :
    (ofNodes N s).map f = ofNodes N fun i j => f (s i j) := by
  refine ext_of_entries (by simp) ?_
  rw [entries_map, entries_ofNodes, entries_ofNodes, List.map_ofFn]
  rfl

@[simp] theorem scale_ofNodes (c : α) (s : ℕ → Fin n → α) :
    (ofNodes N s).scale c = ofNodes N (c • s) := map_ofNodes _ s

@[simp] theorem divide_ofNodes (c : α) (s : ℕ → Fin n → α) :
    (ofNodes N s).divide c = ofNodes N fun i j => s i j / c := map_ofNodes _ s

@[simp] theorem zeros_eq_ofNodes :
    (zeros [N, n] : Tensor α) = ofNodes N fun _ (_ : Fin n) => (0 : α) := by
  refine ext_of_entries (by simp [zeros]) ?_
  rw [entries_ofNodes]
  show Vec.zeros (volume [N, n]) = List.ofFn fun _ : Fin (N * n) => (0 : α)
  rw [List.ofFn_const]
  simp [Vec.zeros]

omit [Scalar α] in
@[simp] theorem replicate_ofFn (v : Fin n → α) :
    (ofFn v).replicate N = ofNodes N fun _ => v := by
  refine ext_of_entries (by simp [replicate]) ?_
  simp [replicate, ofNodes, nodeRow, List.flatMap_def, List.ofFn_const]

@[simp] theorem increase_ofNodes (s s' : ℕ → Fin n → α) :
    (ofNodes N s).increase (ofNodes N s') = .ok (ofNodes N (s + s')) := by
  have hs : (ofNodes N (s + s')).shape = (ofNodes N s).shape := by simp
  rw [increase, Row.increase, row, plus_ofNodes]
  simp only [bind, Except.bind, dif_pos hs]
  rfl

omit [Scalar α] in
/-- Extents that can be had are indices. -/
theorem all_isIndex_of_checkExtents {extents : List ℤ}
    (h : checkExtents extents = (.ok () : Except (Fault α) Unit)) :
    ∀ k ∈ extents, isIndex k = true := by
  intro k hk
  by_contra hc
  have hany : (extents.any fun k => !isIndex k) = true :=
    List.any_eq_true.2 ⟨k, hk, by simpa using hc⟩
  rw [checkExtents, if_pos hany] at h
  cases h

omit [Scalar α] in
/-- No extent that can be had is below zero. -/
theorem nonneg_of_checkExtents {extents : List ℤ}
    (h : checkExtents extents = (.ok () : Except (Fault α) Unit)) : ∀ k ∈ extents, 0 ≤ k := by
  intro k hk
  by_contra hneg
  have hindex : ¬ (extents.any fun k => !isIndex k) = true := by
    simpa using all_isIndex_of_checkExtents h
  have hany : extents.any (· < 0) = true := List.any_eq_true.2 ⟨k, hk, by simpa using hneg⟩
  rw [checkExtents, if_neg hindex, if_pos hany] at h
  cases h

omit [Scalar α] in
/-- Entries in a matrix of extents that can be had. -/
theorem reshape_eq_ok {a : Tensor α} {height width : ℤ} (hh : 0 ≤ height) (hw : 0 ≤ width)
    (hl : a.entries.length = volume [height.toNat, width.toNat])
    (h : checkExtents [height, width] = (.ok () : Except (Fault α) Unit)) :
    a.reshape (.number (.whole height)) width = .ok ⟨_, a.entries, hl⟩ := by
  have hih : isIndex height = true := all_isIndex_of_checkExtents h _ (by simp)
  have hiw : isIndex width = true := all_isIndex_of_checkExtents h _ (by simp)
  have hr : resolve? a.entries.length height width = some (height, width) := by
    rw [resolve?, if_neg (not_lt.2 hh), if_neg (not_lt.2 hw)]
  unfold reshape
  simp only [Datum.extent, bind, Except.bind, hih, hiw, hr, Bool.and_true, Bool.not_true,
    Bool.false_eq_true, if_false, pure, Except.pure, dif_pos hl, h]

/-- One long vector laid out as a sequence, if its extents can be had. -/
theorem reshape_ofFn (v : Fin (N * n) → α)
    (h : checkExtents [(N : ℤ), (n : ℤ)] = (.ok () : Except (Fault α) Unit)) :
    (ofFn v).reshape (.number (.whole N)) n = .ok (ofNodes N (unflatten N v)) := by
  have hl : (ofFn v).entries.length = volume [(N : ℤ).toNat, (n : ℤ).toNat] := by simp
  rw [reshape_eq_ok (Int.natCast_nonneg N) (Int.natCast_nonneg n) hl h]
  refine congrArg _ (ext_of_entries ?_ ?_)
  · simp
  · rw [entries_ofNodes, flatten_unflatten, entries_ofFn]

end Tensor

/-- A vector that is written down is read as itself. -/
theorem Datum.tensor_ofTensor_ofFn {α : Type} [Scalar α] {n : ℕ} (v : Fin n → α) :
    (Datum.ofTensor (.ofFn v)).tensor = .ok (.ofFn v) :=
  tensor_ofTensor_ofVec (List.ofFn v)

end RecedingHorizon
