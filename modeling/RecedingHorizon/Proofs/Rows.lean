import Mathlib
import RecedingHorizon.Proofs.Agreement
import RecedingHorizon.Proofs.Spreading
import RecedingHorizon.Proofs.TwoRuns

/-!
# Arrays that meet row by row

Two arrays with as many rows each meet row by row, if they fit at all, whether or not
the rows are of one length: entries may be repeated within a row, but never from one row
to another (`Tensor.pointwise_rows`).  So what is computed from arrays that agree past
their first rows agrees past its first row.

* `Tensor.repeated_ofNodes`, `Tensor.pointwise_rows`: rows that are repeated, and that
  meet.
* `Tensor.AgreeRows`: arrays of so many rows that agree past the first.
* `AgreeRows.pointwise`, `AgreeRows.meet`, `AgreeRows.increase`: what is computed from
  such arrays.
-/

namespace RecedingHorizon

variable {α : Type} {n k l K : ℕ}

namespace Tensor

/-! ## Places -/

/-- The places of all rows are places of the array. -/
theorem place_lt {i : ℕ} (hi : i < K) (j : Fin l) : i * l + j < K * l := by
  have hle : (i + 1) * l ≤ K * l := Nat.mul_le_mul_right l hi
  rw [Nat.succ_mul] at hle
  have hj := j.isLt
  omega

/-- The entry at a place of the array of a sequence. -/
theorem entry_ofNodes [Scalar α] (s : ℕ → Fin n → α) {i : ℕ} (hi : i < K) (j : Fin n) :
    (ofNodes K s).entry (i * n + j) = s i j := by
  have hlt : i * n + (j : ℕ) < (List.ofFn (flatten K s)).length := by
    rw [List.length_ofFn]
    exact place_lt hi j
  have hplace : (⟨i * n + j, place_lt hi j⟩ : Fin (K * n)) = finProdFinEquiv (⟨i, hi⟩, j) := by
    refine Fin.ext ?_
    rw [finProdFinEquiv_apply_val]
    ring
  rw [entry, entries_ofNodes, List.getD_eq_getElem _ _ hlt, List.getElem_ofFn, hplace,
    flatten_finProdFinEquiv]

/-- An array filled place by place. -/
theorem tabulate_eq_ofNodes [Scalar α] (f : ℕ → α) :
    tabulate [K, l] f = ofNodes K fun i (j : Fin l) => f (i * l + j) := by
  obtain ⟨s, hs⟩ := exists_eq_ofNodes (a := tabulate [K, l] f) rfl
  rw [hs]
  refine ofNodes_congr fun i hi => funext fun j => ?_
  have hlt : i * l + (j : ℕ) < volume [K, l] := by
    rw [volume_cons, volume_cons, volume_nil, mul_one]
    exact place_lt hi j
  rw [← entry_ofNodes s hi j, ← hs, entry_tabulate f hlt]

/-- The place in a row of length `k` that is read for a place in a row of length `l`. -/
def within (h : Repeats k l) (j : Fin l) : Fin k :=
  ⟨if k = 1 then 0 else j, by
    have hj := j.isLt
    obtain rfl | rfl := h
    · split_ifs <;> omega
    · simp⟩

/-- The row that is read is the row that is asked for. -/
theorem source_rows (h : Repeats k l) {i : ℕ} (hi : i < K) (j : Fin l) :
    source [K, l] [K, k] (i * l + j) = i * k + within h j := by
  have hl : 0 < l := j.pos
  have hdiv : (i * l + (j : ℕ)) / l = i := by
    rw [mul_comm, Nat.mul_add_div hl, Nat.div_eq_of_lt j.isLt, add_zero]
  have hmod : (i * l + (j : ℕ)) % l = j := by
    rw [mul_comm, Nat.mul_add_mod, Nat.mod_eq_of_lt j.isLt]
  have hrow : (if K = 1 then 0 else i % K) = i := by
    split_ifs with h1
    · omega
    · exact Nat.mod_eq_of_lt hi
  show sourceReversed [l, K] [k, K] (i * l + j) = _
  rw [sourceReversed, sourceReversed, hdiv, hmod, hrow]
  show (if k = 1 then 0 else (j : ℕ)) + k * (i + K * 0) = i * k + if k = 1 then 0 else (j : ℕ)
  ring

/-- An array with its rows repeated. -/
theorem repeated_ofNodes [Scalar α] (h : Repeats k l) (s : ℕ → Fin k → α) :
    (ofNodes K s).repeated [K, l] = ofNodes K fun i j => s i (within h j) := by
  rw [repeated, shape_ofNodes, tabulate_eq_ofNodes]
  refine ofNodes_congr fun i hi => funext fun j => ?_
  rw [source_rows h hi, entry_ofNodes s hi]

/-! ## Rows that meet -/

theorem broadcast?_rows :
    broadcast? [K, n] [K, k] =
      if n = k then some [K, n] else if n = 1 then some [K, k] else if k = 1 then some [K, n]
      else none := by
  show (broadcastReversed? [n, K] [k, K]).map List.reverse = _
  simp only [broadcastReversed?, if_true, Option.bind_some]
  split_ifs <;> rfl

/-- Arrays with rows of different lengths that meet in rows of length `l`. -/
theorem pointwise_of_repeats [Scalar α] (op : α → α → α) (hne : n ≠ k) (hn : Repeats n l)
    (hk : Repeats k l) (s : ℕ → Fin n → α) (u : ℕ → Fin k → α) :
    (ofNodes K s).pointwise op (ofNodes K u) =
      .ok (ofNodes K fun i j => op (s i (within hn j)) (u i (within hk j))) := by
  have hshape : ¬ (ofNodes K s).shape = (ofNodes K u).shape := by
    rw [shape_ofNodes, shape_ofNodes]
    exact fun h => hne (List.cons.inj (List.cons.inj h).2).1
  have hmeet : broadcast? (ofNodes K s).shape (ofNodes K u).shape = some [K, l] := by
    rw [shape_ofNodes, shape_ofNodes, broadcast?_rows, if_neg hne]
    obtain rfl | rfl := hn
    · obtain rfl | rfl := hk
      · exact absurd rfl hne
      · rw [if_neg hne, if_pos rfl]
    · obtain rfl | rfl := hk
      · rw [if_pos rfl]
      · exact absurd rfl hne
  rw [pointwise, dif_neg hshape]
  simp only [hmeet]
  refine congrArg Except.ok ?_
  rw [repeated_ofNodes hn, repeated_ofNodes hk, tabulate_eq_ofNodes]
  refine ofNodes_congr fun i hi => funext fun j => ?_
  rw [entry_ofNodes _ hi, entry_ofNodes _ hi]

/-- Arrays of so many rows each do not meet, or they meet row by row. -/
theorem pointwise_rows [Scalar α] (K n k : ℕ) :
    (∀ (op : α → α → α) (s : ℕ → Fin n → α) (u : ℕ → Fin k → α),
      (ofNodes K s).pointwise op (ofNodes K u) = .error .shapeMismatch) ∨
    ∃ (l : ℕ) (f : Fin l → Fin n) (g : Fin l → Fin k),
      ∀ (op : α → α → α) (s : ℕ → Fin n → α) (u : ℕ → Fin k → α),
        (ofNodes K s).pointwise op (ofNodes K u) =
          .ok (ofNodes K fun i j => op (s i (f j)) (u i (g j))) := by
  by_cases hnk : n = k
  · subst hnk
    exact .inr ⟨n, id, id, fun op s u => pointwise_ofNodes op s u⟩
  · by_cases hn : n = 1
    · exact .inr ⟨k, within (.inr hn), within (.inl rfl), fun op s u =>
        pointwise_of_repeats op hnk (.inr hn) (.inl rfl) s u⟩
    · by_cases hk : k = 1
      · exact .inr ⟨n, within (.inl rfl), within (.inr hk), fun op s u =>
          pointwise_of_repeats op hnk (.inl rfl) (.inr hk) s u⟩
      · left
        intro op s u
        have hshape : ¬ (ofNodes K s).shape = (ofNodes K u).shape := by
          rw [shape_ofNodes, shape_ofNodes]
          exact fun h => hnk (List.cons.inj (List.cons.inj h).2).1
        have hmeet : broadcast? (ofNodes K s).shape (ofNodes K u).shape = none := by
          rw [shape_ofNodes, shape_ofNodes, broadcast?_rows, if_neg hnk, if_neg hn, if_neg hk]
        rw [pointwise, dif_neg hshape]
        simp only [hmeet]

/-- A number meets every entry, once it is a scalar. -/
theorem meet_of_number [Scalar α] (op : α → α → α) (a : Tensor α) {c : Datum α} {x : Number α}
    (hc : c.number? = some x) :
    a.meet op c = c.scalar >>= fun y => .ok (a.map fun z => op z y) := by
  cases c with
  | list items => cases hc
  | nothing => cases hc
  | record names values => cases hc
  | _ => rfl

/-! ## Rows that agree -/

/-- The arrays have `K` rows of one length, and they agree past the first row. -/
def AgreeRows (K : ℕ) (a a' : Tensor α) : Prop :=
  ∃ (l : ℕ) (s s' : ℕ → Fin l → α), a = .ofNodes K s ∧ a' = .ofNodes K s' ∧
    ∀ i < K, 0 < i → s i = s' i

variable {a a' b b' : Tensor α}

theorem AgreePast.agreeRows [Scalar α] (h : a.AgreePast a') (hs : a.shape = [K, l]) :
    AgreeRows K a a' := by
  obtain ⟨s, rfl⟩ := exists_eq_ofNodes hs
  obtain ⟨s', rfl⟩ := exists_eq_ofNodes (h.shape.symm.trans hs)
  refine ⟨l, s, s', rfl, rfl, fun i hi h0 => ?_⟩
  have hitem := h.item i h0
  rw [item_ofNodes s hi, item_ofNodes s' hi] at hitem
  exact ofFn_injective (Except.ok.inj hitem)

namespace AgreeRows

theorem shape (h : AgreeRows K a a') : a.shape = a'.shape := by
  obtain ⟨l, s, s', rfl, rfl, -⟩ := h
  rw [shape_ofNodes, shape_ofNodes]

theorem agreePast (h : AgreeRows K a a') : a.AgreePast a' := by
  refine ⟨h.shape, fun i h0 => ?_⟩
  obtain ⟨l, s, s', rfl, rfl, hs⟩ := h
  by_cases hi : i < K
  · rw [item_ofNodes s hi, item_ofNodes s' hi, hs i hi h0]
  · rw [item_ofNodes_of_le s (not_lt.1 hi), item_ofNodes_of_le s' (not_lt.1 hi)]

theorem refl [Scalar α] (hs : a.shape = [K, l]) : AgreeRows K a a :=
  AgreePast.agreeRows (AgreePast.refl a) hs

theorem map (h : AgreeRows K a a') (f : α → α) : AgreeRows K (a.map f) (a'.map f) := by
  obtain ⟨l, s, s', rfl, rfl, hs⟩ := h
  rw [map_ofNodes, map_ofNodes]
  exact ⟨l, _, _, rfl, rfl, fun i hi h0 => by rw [hs i hi h0]⟩

variable [Scalar α]

theorem pointwise (op : α → α → α) (ha : AgreeRows K a a') (hb : AgreeRows K b b') :
    Agree (AgreeRows K) (a.pointwise op b) (a'.pointwise op b') := by
  obtain ⟨n, s, s', rfl, rfl, hs⟩ := ha
  obtain ⟨k, u, u', rfl, rfl, hu⟩ := hb
  rcases pointwise_rows (α := α) K n k with hmismatch | ⟨l, f, g, hmeet⟩
  · rw [hmismatch, hmismatch]
    exact .error _
  · rw [hmeet, hmeet]
    exact .ok ⟨l, _, _, rfl, rfl, fun i hi h0 => by rw [hs i hi h0, hu i hi h0]⟩

/-- Met by a number, arrays that agree agree. -/
theorem meet (op : α → α → α) {c : Datum α} {x : Number α} (hc : c.number? = some x)
    (h : AgreeRows K a a') : Agree (AgreeRows K) (a.meet op c) (a'.meet op c) := by
  rw [meet_of_number op a hc, meet_of_number op a' hc]
  refine (Agree.refl c.scalar).bind ?_
  rintro y _ rfl
  exact .ok (h.map fun z => op z y)

/-- Increased in place, arrays that agree agree. -/
theorem increase (ha : AgreeRows K a a') (hb : AgreeRows K b b') :
    Agree (AgreeRows K) (a.increase b) (a'.increase b') := by
  have hincrease (a b : Tensor α) : a.increase b =
      a.plus b >>= fun c => if c.shape = a.shape then .ok c else .error .shapeMismatch := by
    rw [Tensor.increase, Row.increase, row]
    rcases a.plus b with e | c
    · rfl
    · simp only [ok_bind]
      split_ifs <;> rfl
  rw [hincrease, hincrease]
  refine (ha.pointwise _ hb).bind fun c c' hc => ?_
  rw [hc.shape, ha.shape]
  split_ifs
  · exact .ok hc
  · exact .error _

end AgreeRows

end Tensor

end RecedingHorizon
