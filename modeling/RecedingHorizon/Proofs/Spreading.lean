import Mathlib
import RecedingHorizon.Proofs.Nodes

/-!
# Arrays that act as vectors

A function that is asked for the rate of change of a state may answer with a bare
number, with a vector of one entry, or with a vector behind indices of extent one:
whatever meets the state so that the sum can be written to a row of states.  Such an
answer does on every vector what one vector does, the one that it is itself when it
is written to such a row (`Tensor.exists_spread`), and an answer that cannot be
written to a row cannot be added to one either (`Tensor.stretches_of_pointwise`).
So it makes no difference whether an array is added to a vector, or taken away from
the sum again, or spread first.

* `padded`: the shape of a vector behind indices of extent one.
* `Repeats`, `Stretches`: the lengths that can be repeated to a length, and the shapes
  that stretch to a vector; `broadcast?_trimmed` says that these are the shapes that
  spread.
* `source_padded`, `source_padded_vector`: which entry is read.
* `Spreads`, `spreads_pointwise_iff`: an array found on the way, met with a vector.
-/

namespace RecedingHorizon

variable {α : Type} {n k j : ℕ} {s t r : List ℕ}

/-! ## Shapes -/

theorem length_le_of_broadcastReversed? (h : broadcastReversed? s t = some r) :
    s.length ≤ r.length := by
  induction s generalizing t r with
  | nil => exact Nat.zero_le _
  | cons m s ih =>
      cases t with
      | nil =>
          cases h
          exact le_rfl
      | cons k t =>
          obtain ⟨rest, hrest, h⟩ := Option.bind_eq_some_iff.1 h
          have hlength := ih hrest
          split_ifs at h <;> cases h <;> simpa using hlength

/-- The shape of a vector behind some indices of extent one. -/
def padded (j k : ℕ) : List ℕ := List.replicate j 1 ++ [k]

theorem volume_padded : volume (padded j k) = k := by
  induction j with
  | zero => simp [padded]
  | succ j ih =>
      rw [padded, List.replicate_succ, List.cons_append, volume_cons, one_mul]
      exact ih

theorem reverse_padded : (padded j k).reverse = k :: List.replicate j 1 := by
  simp [padded]

namespace Tensor

theorem trimmed_padded : trimmed 1 (padded j k) = [k] := by
  induction j with
  | zero =>
      show trimmed 1 [k] = [k]
      unfold trimmed
      split
      · next shape heq =>
          obtain ⟨rfl, rfl⟩ := List.cons.inj heq
          rfl
      · rfl
  | succ j ih =>
      have hle : 1 ≤ (padded j k).length := by simp [padded]
      show trimmed 1 (1 :: padded j k) = [k]
      rw [trimmed, if_pos hle, ih]

/-- A shape of which no more than one extent is left has only ones before it. -/
theorem eq_padded_of_length_trimmed (h : (trimmed 1 s).length ≤ 1) :
    s = [] ∨ ∃ j k, s = padded j k := by
  induction s with
  | nil => exact .inl rfl
  | cons m s ih =>
      right
      rcases s with _ | ⟨l, s⟩
      · exact ⟨0, m, rfl⟩
      · by_cases hm : m = 1
        · subst hm
          rw [trimmed, if_pos (by simp)] at h
          obtain h | ⟨j, k, h⟩ := ih h
          · cases h
          · exact ⟨j + 1, k, by rw [h]; rfl⟩
        · rw [trimmed] at h
          · simp at h
          · intro shape heq
            exact hm (List.cons.inj heq).1

end Tensor

/-! ## Places -/

theorem sourceReversed_nil (s : List ℕ) (i : ℕ) : sourceReversed s [] i = 0 := by
  cases s <;> rfl

theorem sourceReversed_ones (i : ℕ) :
    sourceReversed (List.replicate j 1) (List.replicate j 1) i = 0 := by
  induction j generalizing i with
  | zero => rfl
  | succ j ih => rw [List.replicate_succ, sourceReversed, if_pos rfl, ih]

/-- Behind indices of extent one the entries of a vector stand where they stood. -/
theorem source_padded {i : ℕ} (hi : i < n) :
    source (padded j n) (padded j k) i = if k = 1 then 0 else i := by
  rw [source, reverse_padded, reverse_padded, sourceReversed, sourceReversed_ones, mul_zero,
    add_zero, Nat.mod_eq_of_lt hi]

theorem source_padded_vector {i : ℕ} (hi : i < n) :
    source (padded j n) [k] i = if k = 1 then 0 else i := by
  rw [source, reverse_padded, List.reverse_singleton, sourceReversed, sourceReversed_nil, mul_zero,
    add_zero, Nat.mod_eq_of_lt hi]

/-! ## Stretching to a vector -/

/-- A vector of length `k` can be repeated to one of length `n`. -/
def Repeats (k n : ℕ) : Prop := k = n ∨ k = 1

/-- An array of this shape can be stretched to a vector of length `n`: a bare number, or a
vector of length `n` or one behind some indices of extent one. -/
def Stretches (s : List ℕ) (n : ℕ) : Prop :=
  s = [] ∨ ∃ j k, s = padded j k ∧ Repeats k n

theorem broadcast?_padded (hk : Repeats k n) :
    broadcast? [n] (padded j k) = some (padded j n) := by
  rw [broadcast?, reverse_padded, List.reverse_singleton, broadcastReversed?, broadcastReversed?,
    Option.bind_some]
  obtain rfl | rfl := hk
  · rw [if_pos rfl, Option.map_some, ← reverse_padded, List.reverse_reverse]
  · by_cases hn : n = 1
    · rw [if_pos hn, Option.map_some, ← reverse_padded, List.reverse_reverse]
    · rw [if_neg hn, if_neg hn, if_pos rfl, Option.map_some, ← reverse_padded,
        List.reverse_reverse]

theorem broadcast?_vector : broadcast? [k] [n] = some [n] ↔ Repeats k n := by
  rw [Repeats, broadcast?, List.reverse_singleton, List.reverse_singleton, broadcastReversed?,
    broadcastReversed?, Option.bind_some]
  split_ifs with h1 h2 h3
  · simp [h1]
  · simp [h2]
  · simp [h2]
  · simp [h1, h2]

/-- What a vector can meet so that the result stretches to the vector does so itself. -/
theorem stretches_of_broadcast? (h : broadcast? [n] s = some r) (hr : Stretches r n) :
    Stretches s n := by
  obtain ⟨r', hr', rfl⟩ := Option.map_eq_some_iff.1 h
  rw [List.reverse_singleton] at hr'
  rcases hs : s.reverse with _ | ⟨m, rest⟩
  · exact .inl (List.reverse_eq_nil_iff.1 hs)
  · rw [hs, broadcastReversed?, broadcastReversed?, Option.bind_some] at hr'
    have hlast : ∃ l, r' = l :: rest ∧ (n = 1 → l = m) ∧ (m = n ∨ m = 1 ∨ n = 1) := by
      split_ifs at hr' with h1 h2 h3
      · exact ⟨n, (Option.some.inj hr').symm, fun _ => h1, .inl h1.symm⟩
      · exact ⟨m, (Option.some.inj hr').symm, fun _ => rfl, .inr (.inr h2)⟩
      · exact ⟨n, (Option.some.inj hr').symm, fun hn => absurd hn h2, .inr (.inl h3)⟩
    obtain ⟨l, rfl, hl, hm⟩ := hlast
    obtain hr | ⟨j, k, hr, hk⟩ := hr
    · simp at hr
    · have hr := congrArg List.reverse hr
      rw [List.reverse_reverse, reverse_padded] at hr
      obtain ⟨rfl, rfl⟩ := List.cons.inj hr
      have hm : Repeats m n := by
        unfold Repeats at hk ⊢
        omega
      refine .inr ⟨j, m, ?_, hm⟩
      rw [← List.reverse_reverse s, hs, ← reverse_padded, List.reverse_reverse]

/-- The shapes that stretch are those that spread. -/
theorem broadcast?_trimmed :
    broadcast? (Tensor.trimmed 1 s) [n] = some [n] ↔ Stretches s n := by
  constructor
  · intro h
    obtain ⟨r', hr', hr⟩ := Option.map_eq_some_iff.1 h
    have hlength := length_le_of_broadcastReversed? hr'
    have hone : r'.length = 1 := by rw [← List.length_reverse, hr, List.length_singleton]
    rw [hone, List.length_reverse] at hlength
    obtain hnil | ⟨j, k, rfl⟩ := Tensor.eq_padded_of_length_trimmed hlength
    · exact .inl hnil
    · rw [Tensor.trimmed_padded, broadcast?_vector] at h
      exact .inr ⟨j, k, rfl, h⟩
  · rintro (rfl | ⟨j, k, rfl, hk⟩)
    · rfl
    · rw [Tensor.trimmed_padded, broadcast?_vector]
      exact hk

namespace Tensor

variable [Scalar α] {b : Tensor α}

theorem stretches_of_spread {r : Row α [n]} (h : b.spread [n] = .ok r) :
    Stretches b.shape n := by
  by_cases hs : b.shape = [n]
  · exact .inr ⟨0, n, hs, .inl rfl⟩
  · by_contra hb
    have hne : ¬ ([n] ≠ [] ∧ broadcast? (trimmed [n].length b.shape) [n] = some [n]) :=
      fun hc => hb (broadcast?_trimmed.1 hc.2)
    unfold spread at h
    simp only [dif_neg hs, if_neg hne] at h
    cases h

/-- The entry at a place of the array of a vector. -/
theorem entry_ofFn (v : Fin n → α) (i : Fin n) : (ofFn v).entry i = v i := by
  rw [entry, entries_ofFn, List.getD_eq_getElem _ _ (by simp), List.getElem_ofFn]

theorem entry_tabulate (f : ℕ → α) {i : ℕ} (hi : i < volume s) : (tabulate s f).entry i = f i := by
  rw [entry, tabulate, List.getD_eq_getElem _ _ (by simpa using hi)]
  simp

/-- Of a vector with one entry every place is the first. -/
theorem place_eq (i : Fin n) : (i : ℕ) = if n = 1 then 0 else (i : ℕ) := by
  split_ifs with h1
  · omega
  · rfl

/-- An array with one index, entry by entry. -/
theorem eq_ofFn_entry (hs : b.shape = [n]) : b = ofFn fun i : Fin n => b.entry i := by
  obtain ⟨v, rfl⟩ := exists_eq_ofFn hs
  exact congrArg ofFn (funext fun i => (entry_ofFn v i).symm)

theorem pointwise_ofFn (op : α → α → α) (u v : Fin n → α) :
    (ofFn u).pointwise op (ofFn v) = .ok (ofFn fun i => op (u i) (v i)) := by
  rw [pointwise, dif_pos (by simp)]
  refine congrArg Except.ok (ext_of_entries (by simp) ?_)
  apply List.ext_getElem
  · simp
  · simp

theorem tabulate_vector (f : ℕ → α) : tabulate [n] f = ofFn fun i : Fin n => f i := by
  have h := eq_ofFn_entry (b := tabulate [n] f) rfl
  rw [h]
  exact congrArg ofFn (funext fun i => entry_tabulate f (by simp))

/-- An array that is spread and is no vector of the right length already. -/
theorem spread_of_ne (hs : b.shape ≠ [n]) (hb : Stretches b.shape n) :
    b.spread [n] =
      .ok (nodeRow fun i : Fin n => b.entry (source [n] (trimmed 1 b.shape) i)) := by
  have hcond : [n] ≠ [] ∧ broadcast? (trimmed [n].length b.shape) [n] = some [n] :=
    ⟨List.cons_ne_nil _ _, broadcast?_trimmed.2 hb⟩
  unfold spread
  simp only [dif_neg hs, if_pos hcond]
  refine congrArg Except.ok (Subtype.ext ?_)
  exact tabulate_vector fun i => b.entry (source [n] (trimmed 1 b.shape) i)

theorem spread_bare (hs : b.shape = []) :
    b.spread [n] = .ok (nodeRow fun _ : Fin n => b.entry 0) := by
  rw [spread_of_ne (by simp [hs]) (.inl hs), hs]
  rfl

/-- An array behind indices of extent one, as a vector. -/
theorem spread_of_padded (hs : b.shape = padded j k) (hk : Repeats k n) :
    b.spread [n] = .ok (nodeRow fun i : Fin n => b.entry (if k = 1 then 0 else i)) := by
  by_cases hv : b.shape = [n]
  · have hkn : k = n := by
      have hvolume := congrArg volume (hs.symm.trans hv)
      rwa [volume_padded, volume_cons, volume_nil, mul_one] at hvolume
    subst hkn
    obtain ⟨v, rfl⟩ := exists_eq_ofFn hv
    rw [spread_ofFn]
    refine congrArg (fun v => Except.ok (nodeRow v)) (funext fun i => ?_)
    rw [← place_eq i, entry_ofFn]
  · rw [spread_of_ne hv (.inr ⟨j, k, hs, hk⟩), hs, trimmed_padded]
    refine congrArg (fun v => Except.ok (nodeRow v)) (funext fun i => congrArg b.entry ?_)
    exact source_padded_vector (j := 0) i.isLt

/-- A vector that meets an array of another shape. -/
theorem pointwise_of_broadcast? (op : α → α → α) (u : Fin n → α) {j : ℕ} (hv : b.shape ≠ [n])
    (h : broadcast? [n] b.shape = some (padded j n)) :
    ∃ c, (ofFn u).pointwise op b = .ok c ∧ c.shape = padded j n ∧
      ∀ i : Fin n, c.entry i = op (u i) (b.entry (source (padded j n) b.shape i)) := by
  have hne : (ofFn u).shape ≠ b.shape := by rw [shape_ofFn]; exact hv.symm
  rw [pointwise, dif_neg hne]
  simp only [shape_ofFn, h]
  refine ⟨_, rfl, rfl, fun i => ?_⟩
  have hi : (i : ℕ) < volume (padded j n) := by rw [volume_padded]; exact i.isLt
  rw [entry_tabulate _ hi, repeated, entry_tabulate _ hi, repeated, entry_tabulate _ hi,
    shape_ofFn, source_padded_vector i.isLt, ← place_eq, entry_ofFn]

/-- An array that stretches to a vector acts as that vector on vectors. -/
theorem exists_spread (hb : Stretches b.shape n) :
    ∃ v : Fin n → α, b.spread [n] = .ok (nodeRow v) ∧
      ∀ (op : α → α → α) (u : Fin n → α),
        ((ofFn u).pointwise op b >>= fun s => s.spread [n]) =
          .ok (nodeRow fun i => op (u i) (v i)) := by
  by_cases hv : b.shape = [n]
  · obtain ⟨v, rfl⟩ := exists_eq_ofFn hv
    refine ⟨v, spread_ofFn v, fun op u => ?_⟩
    rw [pointwise_ofFn, ok_bind, spread_ofFn]
  · obtain hs | ⟨j, k, hs, hk⟩ := hb
    · refine ⟨fun _ => b.entry 0, spread_bare hs, fun op u => ?_⟩
      have hmeet : broadcast? [n] b.shape = some (padded 0 n) := by rw [hs]; rfl
      obtain ⟨c, hc, hshape, hentry⟩ := pointwise_of_broadcast? op u hv hmeet
      rw [hc, ok_bind, spread_of_padded hshape (.inl rfl)]
      refine congrArg (fun v => Except.ok (nodeRow v)) (funext fun i => ?_)
      rw [← place_eq, hentry, hs]
      rfl
    · refine ⟨fun i => b.entry (if k = 1 then 0 else i), spread_of_padded hs hk, fun op u => ?_⟩
      have hmeet : broadcast? [n] b.shape = some (padded j n) := by rw [hs, broadcast?_padded hk]
      obtain ⟨c, hc, hshape, hentry⟩ := pointwise_of_broadcast? op u hv hmeet
      rw [hc, ok_bind, spread_of_padded hshape (.inl rfl)]
      refine congrArg (fun v => Except.ok (nodeRow v)) (funext fun i => ?_)
      rw [← place_eq, hentry, hs, source_padded i.isLt]

/-- What acts on a vector and answers with one stretches to a vector itself. -/
theorem stretches_of_pointwise {op : α → α → α} {u : Fin n → α} {r : Row α [n]}
    (h : ((ofFn u).pointwise op b >>= fun s => s.spread [n]) = .ok r) : Stretches b.shape n := by
  by_cases hv : b.shape = [n]
  · exact .inr ⟨0, n, hv, .inl rfl⟩
  · obtain ⟨c, hc, hr⟩ := bind_eq_ok_iff.1 h
    have hne : ¬ (ofFn u).shape = b.shape := by rw [shape_ofFn]; exact fun hc => hv hc.symm
    rw [pointwise, dif_neg hne, shape_ofFn] at hc
    rcases hmeet : broadcast? [n] b.shape with _ | shape
    · simp only [hmeet] at hc
      cases hc
    · simp only [hmeet] at hc
      cases hc
      exact stretches_of_broadcast? hmeet (stretches_of_spread hr)

end Tensor

/-! ## Arrays found on the way -/

/-- What is found is an array, and as a vector of length `n` it is `v`. -/
def Spreads [Scalar α] (found : Except (Fault α) (Tensor α)) (v : Fin n → α) : Prop :=
  (found >>= fun b => b.spread [n]) = .ok (Tensor.nodeRow v)

section Spreads

variable [Scalar α]

omit [Scalar α] in
theorem nodeRow_injective : Function.Injective (Tensor.nodeRow : (Fin n → α) → Row α [n]) := by
  intro u v h
  exact Tensor.ofFn_injective (congrArg Subtype.val h)

omit [Scalar α] in
/-- Every row of the shape of a vector is that of a vector. -/
theorem nodeRow_surjective : Function.Surjective (Tensor.nodeRow : (Fin n → α) → Row α [n]) := by
  rintro ⟨a, ha⟩
  obtain ⟨v, rfl⟩ := Tensor.exists_eq_ofFn ha
  exact ⟨v, rfl⟩

/-- What is found meets a vector: the result is that of the vectors. -/
theorem spreads_pointwise_iff {found : Except (Fault α) (Tensor α)} {op : α → α → α}
    {u w : Fin n → α} :
    Spreads (found >>= fun b => (Tensor.ofFn u).pointwise op b) w ↔
      ∃ v : Fin n → α, Spreads found v ∧ w = fun i => op (u i) (v i) := by
  simp only [Spreads, bind_assoc]
  constructor
  · intro h
    obtain ⟨b, hb, hw⟩ := bind_eq_ok_iff.1 h
    obtain ⟨v, hv, hop⟩ := Tensor.exists_spread (Tensor.stretches_of_pointwise hw)
    rw [hop op u] at hw
    refine ⟨v, ?_, ?_⟩
    · rw [hb, ok_bind, hv]
    · exact (nodeRow_injective (Except.ok.inj hw)).symm
  · rintro ⟨v, hv, rfl⟩
    obtain ⟨b, hb, hv⟩ := bind_eq_ok_iff.1 hv
    obtain ⟨v', hv', hop⟩ := Tensor.exists_spread (Tensor.stretches_of_spread hv)
    obtain rfl : v' = v := by
      rw [hv'] at hv
      exact nodeRow_injective (Except.ok.inj hv)
    rw [hb, ok_bind, hop op u]

theorem spreads_plus_iff {found : Except (Fault α) (Tensor α)} {u w : Fin n → α} :
    Spreads (found >>= fun b => (Tensor.ofFn u).plus b) w ↔
      ∃ v : Fin n → α, Spreads found v ∧ w = u + v := spreads_pointwise_iff

theorem spreads_minus_iff {found : Except (Fault α) (Tensor α)} {u w : Fin n → α} :
    Spreads (found >>= fun b => (Tensor.ofFn u).minus b) w ↔
      ∃ v : Fin n → α, Spreads found v ∧ w = u - v := spreads_pointwise_iff

end Spreads

end RecedingHorizon
