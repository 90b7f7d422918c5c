import RecedingHorizon.Proofs.RoundTrip

/-!
# The tail of a horizon

A horizon may be entered at one of its nodes: from the state there, at its time, with the actions
that are left and the defects prescribed from there on.  Nothing else is read by the equations past
that node, so that the states and the costates are those of the whole horizon, and so is the
stationarity.  There is one difference.  At node zero of a horizon with a step no defect of the
costate is added, and so the costate at the node where the tail begins is without the one that is
prescribed there.

The time of a node is found from the start in one step, `t + i δ`.  In exact arithmetic it does not
matter whether it is found in two, and this is where it is used that the arithmetic is exact.

* `nodeTime_add`: the times along a tail.
* `Tensor.item_back`, `Tensor.back_ofNodes`: what is left of an array from one item on.
* `Room.mono`: memory has room for a tail.
* `Model.Linked.tail`: links along a tail.
* `Defects.back`, `Defects.Prescribes`: what is prescribed at the nodes, and at those of a tail.
* `Model.condense_tail`: the trajectory and the stationarity of a tail.
-/

namespace RecedingHorizon

variable {n N j : ℕ}

/-! ## Times -/

/-- The time of a node is a sum of two given numbers. -/
theorem nodeTime_eq_ok_iff {t δ t' : Datum ℝ} {i : ℕ} : nodeTime t δ i = .ok t' ↔
    ∃ s d c, t.asNumber = .ok s ∧ δ.asNumber = .ok d ∧ s.plus (d.multiple i) = .ok c ∧
      t' = .number c := by
  constructor
  · intro h
    obtain ⟨m, hm, h⟩ := bind_eq_ok_iff.1 h
    obtain ⟨c, hc, hsum⟩ := bind_eq_ok_iff.1 h
    obtain ⟨d, hd, hmultiple⟩ := bind_eq_ok_iff.1 hm
    obtain ⟨s, hs, hplus⟩ := bind_eq_ok_iff.1 hc
    obtain rfl : d.multiple i = m := Except.ok.inj hmultiple
    exact ⟨s, d, c, hs, hd, hplus, (Except.ok.inj hsum).symm⟩
  · rintro ⟨s, d, c, hs, hd, hc, rfl⟩
    simp only [nodeTime, Datum.multiple, Datum.plus, Datum.asNumber_number, hs, hd, hc, ok_bind,
      pure_eq_ok]

/-- All nodes have a time if one of them has. -/
theorem exists_nodeTime {t δ t' : Datum ℝ} {i : ℕ} (h : nodeTime t δ i = .ok t') (j : ℕ) :
    ∃ t'', nodeTime t δ j = .ok t'' := by
  obtain ⟨s, d, -, hs, hd, -, -⟩ := nodeTime_eq_ok_iff.1 h
  obtain ⟨c, hc, -⟩ := Number.combine_eq Int.cast_add s (d.multiple j)
  exact ⟨_, nodeTime_eq_ok_iff.2 ⟨s, d, c, hs, hd, hc, rfl⟩⟩

/-- A sum found in two steps is whole if it is when found in one, and it is the same number. -/
theorem Number.plus_multiple {s d c : Number ℝ} (h : s.plus (d.multiple j) = .ok c) (i : ℕ) :
    c.plus (d.multiple i) = s.plus (d.multiple (j + i)) := by
  cases s with
  | whole a =>
      cases d with
      | whole b =>
          cases h
          refine congrArg (fun k : ℤ => Except.ok (Number.whole k)) ?_
          push_cast
          ring
      | real y =>
          cases h
          refine congrArg (fun x : ℝ => Except.ok (Number.real x)) ?_
          push_cast
          ring
  | real x =>
      cases d with
      | whole b =>
          cases h
          refine congrArg (fun x : ℝ => Except.ok (Number.real x)) ?_
          push_cast
          ring
      | real y =>
          cases h
          refine congrArg (fun x : ℝ => Except.ok (Number.real x)) ?_
          push_cast
          ring

/-- The nodes of a tail have the times of the whole horizon. -/
theorem nodeTime_add {t δ t' : Datum ℝ} (h : nodeTime t δ j = .ok t') (i : ℕ) :
    nodeTime t' δ i = nodeTime t δ (j + i) := by
  obtain ⟨s, d, c, hs, hd, hc, rfl⟩ := nodeTime_eq_ok_iff.1 h
  obtain ⟨c', hc', -⟩ := Number.combine_eq Int.cast_add s (d.multiple (j + i))
  have hc' : s.plus (d.multiple (j + i)) = .ok c' := hc'
  rw [nodeTime_eq_ok_iff.2 ⟨s, d, c', hs, hd, hc', rfl⟩]
  exact nodeTime_eq_ok_iff.2
    ⟨c, d, c', Datum.asNumber_number c, hd, (Number.plus_multiple hc i).trans hc', rfl⟩

/-! ## What is left of an array -/

namespace Tensor

variable {α : Type} {a b : Tensor α}

/-- The items that are left from a place on are those of the whole array further on. -/
theorem item_back (h : a.back j = .ok b) (i : ℕ) : b.item i = a.item (j + i) := by
  obtain ⟨shape, entries, hlength⟩ := a
  cases shape with
  | nil => cases h
  | cons N shape =>
      cases h
      simp only [item, place_natCast]
      by_cases hi : j + i < N
      · rw [dif_pos hi, dif_pos (by omega)]
        refine congrArg Except.ok (ext_of_entries rfl ?_)
        show ((entries.drop (min N j * volume shape)).drop (i * volume shape)).take _ =
          (entries.drop ((j + i) * volume shape)).take _
        rw [List.drop_drop, ← Nat.add_mul, Nat.min_eq_right (by omega)]
      · rw [dif_neg hi, dif_neg (by omega)]

/-- Of `N` items, `N - j` are left from place `j` on. -/
theorem exists_back (ha : a.count = (.ok N : Except (Fault α) ℕ)) (j : ℕ) :
    ∃ b, a.back j = .ok b ∧ b.count = (.ok (N - j) : Except (Fault α) ℕ) ∧
      b.shape.drop 1 = a.shape.drop 1 := by
  obtain ⟨shape, entries, hlength⟩ := a
  cases shape with
  | nil => cases ha
  | cons k shape =>
      cases ha
      refine ⟨_, rfl, ?_, rfl⟩
      refine congrArg Except.ok ?_
      rw [place_natCast]
      omega

theorem back_ofNodes [Scalar α] {m : ℕ} (s : ℕ → Fin n → α) (h : j ≤ m) :
    (ofNodes m s).back j = .ok (ofNodes (m - j) fun i => s (j + i)) := by
  obtain ⟨b, hb, hcount, hrest⟩ := exists_back (count_ofNodes s) j
  have hshape : b.shape = [m - j, n] := by
    obtain ⟨shape, entries, hlength⟩ := b
    cases shape with
    | nil => cases hcount
    | cons k shape =>
        cases hcount
        rw [shape_ofNodes] at hrest
        exact congrArg (List.cons _) hrest
  obtain ⟨s', rfl⟩ := exists_eq_ofNodes hshape
  rw [hb]
  refine congrArg Except.ok (ofNodes_congr fun i hi => ?_)
  have hitem := item_back hb i
  rw [item_ofNodes s' hi, item_ofNodes s (by omega)] at hitem
  exact ofFn_injective (Except.ok.inj hitem)

/-- The rows that are left of an array of rows. -/
theorem back_ofRows {shape : List ℕ} (rows : List (Row α shape)) (j : ℕ) :
    (ofRows rows).back j = .ok (ofRows (rows.drop j)) := by
  have hflat (rows : List (Row α shape)) (k : ℕ) :
      (rows.flatMap fun r => r.1.entries).drop (min rows.length k * volume shape) =
        (rows.drop k).flatMap fun r => r.1.entries := by
    induction rows generalizing k with
    | nil => simp
    | cons r rows ih =>
        cases k with
        | zero => simp
        | succ k =>
            rw [List.length_cons, Nat.succ_min_succ, Nat.succ_mul, Nat.add_comm, ← List.drop_drop,
              List.flatMap_cons, List.drop_left' (length_entries_row r), ih, List.drop_succ_cons]
  refine congrArg Except.ok (ext_of_entries ?_ ?_)
  · show (rows.length - place rows.length j) :: shape = (rows.drop j).length :: shape
    rw [place_natCast, List.length_drop]
    congr 1
    omega
  · show (rows.flatMap fun r => r.1.entries).drop (place rows.length j * volume shape) = _
    rw [place_natCast, hflat]
    rfl

/-- Memory has room for extents that are indices and not below zero, if there are not too many
entries. -/
theorem checkRoom_eq_ok_iff [Scalar α] {extents : List ℤ} :
    checkRoom extents = (.ok () : Except (Fault α) Unit) ↔
      (∀ k ∈ extents, isIndex k = true) ∧ (∀ k ∈ extents, 0 ≤ k) ∧
      entryBytes * (extents.filter (· ≠ 0)).foldl (· * ·) 1 < indexBound ∧
      entryBytes * volume (extents.map Int.toNat) < Scalar.memory α := by
  constructor
  · intro h
    obtain ⟨⟨⟩, hextents, hroom⟩ := bind_eq_ok_iff.1 h
    have hindex := all_isIndex_of_checkExtents hextents
    have hnonneg := nonneg_of_checkExtents hextents
    refine ⟨hindex, hnonneg, not_le.1 fun hle => ?_, not_le.1 fun hle => ?_⟩
    · rw [checkExtents, if_neg (by simpa using hindex), if_neg (by simpa using hnonneg),
        if_pos hle] at hextents
      cases hextents
    · rw [if_pos hle] at hroom
      cases hroom
  · rintro ⟨hindex, hnonneg, hsize, hmemory⟩
    rw [checkRoom, checkExtents, if_neg (by simpa using hindex), if_neg (by simpa using hnonneg),
      if_neg (not_le.2 hsize), ok_bind, if_neg (not_le.2 hmemory)]
    rfl

end Tensor

/-- For fewer nodes there is room where there is room for more. -/
theorem Room.mono {M : ℕ} (h : Room N n) (hle : M ≤ N) : Room M n := by
  have hsize (k : ℕ) : ([(k : ℤ) + 1, (n : ℤ)].filter (· ≠ 0)).foldl (· * ·) 1 =
      ((k : ℤ) + 1) * (if n = 0 then 1 else n : ℕ) := by
    have hne : (k : ℤ) + 1 ≠ 0 := by omega
    by_cases hn : n = 0
    · simp [hne, hn]
    · simp [hne, hn]
  have hvolume (k : ℕ) : volume ([(k : ℤ) + 1, (n : ℤ)].map Int.toNat) = (k + 1) * n := by
    have htoNat : ((k : ℤ) + 1).toNat = k + 1 := by omega
    simp [htoNat]
  rw [Room, Tensor.checkRoom_eq_ok_iff, hsize, hvolume] at h ⊢
  obtain ⟨hindex, hnonneg, hbytes, hmemory⟩ := h
  simp only [List.forall_mem_cons, List.not_mem_nil, false_imp_iff, implies_true, and_true]
    at hindex hnonneg ⊢
  have hfirst : Tensor.isIndex ((M : ℤ) + 1) = true := by
    have hlast := hindex.1
    rw [Tensor.isIndex, Bool.and_eq_true, decide_eq_true_eq, decide_eq_true_eq] at hlast ⊢
    omega
  refine ⟨⟨hfirst, hindex.2⟩, ⟨by omega, hnonneg.2⟩, ?_, ?_⟩
  · have hfew : ((M : ℤ) + 1) * (if n = 0 then 1 else n : ℕ) ≤
        ((N : ℤ) + 1) * (if n = 0 then 1 else n : ℕ) :=
      mul_le_mul_of_nonneg_right (by omega) (Int.natCast_nonneg _)
    have hless := mul_le_mul_of_nonneg_left hfew (Int.natCast_nonneg Tensor.entryBytes)
    exact lt_of_le_of_lt hless hbytes
  · have hless : Tensor.entryBytes * ((M + 1) * n) ≤ Tensor.entryBytes * ((N + 1) * n) :=
      Nat.mul_le_mul_left _ (Nat.mul_le_mul_right _ (Nat.succ_le_succ hle))
    exact lt_of_le_of_lt hless hmemory

/-! ## Links -/

namespace Model

variable {model : Model ℝ} {t δ t' : Datum ℝ} {actions actions' : Tensor ℝ}
variable {x next l e : Fin n → ℝ} {X L E M : ℕ → Fin n → ℝ} {i : ℕ}

section Links

variable (htime : nodeTime t δ j = .ok t')

include htime

theorem ends_tail_iff : model.Ends t' δ i x l e ↔ model.Ends t δ (j + i) x l e := by
  simp only [Ends, finalAt, nodeTime_add htime]

variable (hactions : actions.back j = .ok actions')

include hactions

theorem steps_tail_iff :
    model.Steps t' δ actions' i x next e ↔ model.Steps t δ actions (j + i) x next e := by
  simp only [Steps, driftAt, nodeTime_add htime, Tensor.item_back hactions]

theorem pulls_tail_iff :
    model.Pulls t' δ actions' i x next l e ↔ model.Pulls t δ actions (j + i) x next l e := by
  simp only [Pulls, pullAt, nodeTime_add htime, Tensor.item_back hactions]

end Links

/-- The costates of a tail: at the node where it begins the one of the whole horizon, without the
defect that is prescribed there if this is not the first node, and past it those of the whole
horizon. -/
def tailCostates (j : ℕ) (L M : ℕ → Fin n → ℝ) : ℕ → Fin n → ℝ :=
  Function.update (fun i => L (j + i)) 0 (L j - if j = 0 then 0 else M j)

theorem tailCostates_zero (j : ℕ) (L M : ℕ → Fin n → ℝ) :
    tailCostates j L M 0 = L j - if j = 0 then 0 else M j :=
  Function.update_self 0 _ _

theorem tailCostates_of_pos (j : ℕ) (L M : ℕ → Fin n → ℝ) (hi : 0 < i) :
    tailCostates j L M i = L (j + i) :=
  Function.update_of_ne hi.ne' _ _

/-- A costate without its defect is pulled back without one. -/
theorem Pulls.sub (h : model.Pulls t δ actions i x next l e) :
    model.Pulls t δ actions i x next (l - e) 0 := by
  obtain ⟨v, hv, rfl⟩ := h
  exact ⟨v, hv, by rw [add_sub_cancel_right, add_zero]⟩

/-- A tail is linked by the defects from its first node on, and its first costate is pulled back
without one. -/
theorem Linked.tail (h : model.Linked t δ actions N x X L E M) (hx : X 0 = x)
    (hfirst : model.Pulls t δ actions 0 x (L 1) (L 0) 0) (hj : j < N)
    (htime : nodeTime t δ j = .ok t') (hactions : actions.back j = .ok actions') :
    model.Linked t' δ actions' (N - j) (X j) (fun i => X (j + i)) (tailCostates j L M)
        (fun i => E (j + i)) (fun i => M (j + i)) ∧
      model.Pulls t' δ actions' 0 (X j) (tailCostates j L M 1) (tailCostates j L M 0) 0 := by
  have hseen : seen (X j) (fun i => X (j + i)) = fun i => X (j + i) := seen_self _
  have hsteps := h.steps
  rw [← hx, seen_self] at hsteps
  refine ⟨⟨fun i hi => ?_, ?_, fun i hi hpos => ?_⟩, ?_⟩
  · rw [hseen, steps_tail_iff htime hactions]
    exact hsteps (j + i) (by omega)
  · rw [ends_tail_iff htime, tailCostates_of_pos j L M (Nat.sub_pos_of_lt hj),
      Nat.add_sub_cancel' hj.le]
    exact h.ends
  · rw [pulls_tail_iff htime hactions, tailCostates_of_pos j L M hpos,
      tailCostates_of_pos j L M (Nat.succ_pos i)]
    exact h.pulls (j + i) (by omega) (by omega)
  · rw [pulls_tail_iff htime hactions, tailCostates_of_pos j L M Nat.one_pos, tailCostates_zero]
    by_cases h0 : j = 0
    · subst h0
      rw [if_pos rfl, sub_zero, hx]
      exact hfirst
    · rw [if_neg h0]
      exact (h.pulls j hj (Nat.pos_of_ne_zero h0)).sub

/-! ## Trajectories -/

/-- A trajectory with prescribed defects, and the one of a tail. -/
theorem condense_tail_of_nodes (ha : actions.count = .ok N) (hj : j < N)
    {trajectory : Trajectory ℝ}
    (h : model.condense t (.ofFn x) actions δ
      (some ⟨.ofNodes (N + 1) E, .ofNodes (N + 1) M⟩) = .ok trajectory) :
    ∃ t' actions' X L, nodeTime t δ j = .ok t' ∧ actions.back j = .ok actions' ∧ X 0 = x ∧
      trajectory = ⟨.ofNodes (N + 1) X, .ofNodes (N + 1) L⟩ ∧
      model.condense t' (.ofFn (X j)) actions' δ
          (some ⟨.ofNodes (N - j + 1) fun i => E (j + i),
            .ofNodes (N - j + 1) fun i => M (j + i)⟩) =
        .ok ⟨.ofNodes (N - j + 1) fun i => X (j + i),
          .ofNodes (N - j + 1) (tailCostates j L M)⟩ := by
  obtain ⟨hroom, X, L, hx, hlinked, hfirst, rfl⟩ := (condense_eq_ok_iff ha).1 h
  obtain ⟨actions', hactions, hcount, -⟩ := Tensor.exists_back ha j
  -- the first step has a time, and so have all nodes
  obtain ⟨v, hv, -⟩ := hlinked.steps 0 (Nat.zero_lt_of_lt hj)
  obtain ⟨b, hb, -⟩ := bind_eq_ok_iff.1 hv
  obtain ⟨τ, hτ, -⟩ := bind_eq_ok_iff.1 hb
  obtain ⟨t', htime⟩ := exists_nodeTime hτ j
  obtain ⟨htail, htailFirst⟩ :=
    hlinked.tail hx (hfirst (Nat.zero_lt_of_lt hj)) hj htime hactions
  exact ⟨t', actions', X, L, htime, hactions, hx, rfl, (condense_eq_ok_iff hcount).2
    ⟨hroom.mono (Nat.sub_le N j), _, _, rfl, htail, fun _ => htailFirst, rfl⟩⟩

/-! ## Stationarity -/

/-- The rows of the stationarity have the shape of the actions. -/
theorem stationarity_eq_collect {shape : List ℕ} (hshape : actions.shape.drop 1 = shape)
    (ha : actions.count = .ok N) (x : Tensor ℝ) (trajectory : Trajectory ℝ) :
    model.stationarity t x actions trajectory δ =
      Recurrence.collect (fun i => model.stationarityAt t x actions.path trajectory.states.path
        trajectory.costates.path δ i >>= fun g => g.spread shape) N >>= fun rows =>
          .ok (Tensor.ofRows rows) := by
  subst hshape
  rw [stationarity, ha]
  rfl

/-- The stationarity of a tail is what is left of the stationarity of the whole horizon. -/
theorem stationarity_tail (ha : actions.count = .ok N) (htime : nodeTime t δ j = .ok t')
    (hactions : actions.back j = .ok actions') (hx : X 0 = x) {F : Tensor ℝ}
    (h : model.stationarity t (.ofFn x) actions
      ⟨.ofNodes (N + 1) X, .ofNodes (N + 1) L⟩ δ = .ok F) :
    ∃ F', F.back j = .ok F' ∧ model.stationarity t' (.ofFn (X j)) actions'
      ⟨.ofNodes (N - j + 1) fun i => X (j + i), .ofNodes (N - j + 1) (tailCostates j L M)⟩ δ =
        .ok F' := by
  obtain ⟨rest, hrest, hcount, hshape⟩ := Tensor.exists_back ha j
  obtain rfl := Except.ok.inj (hactions.symm.trans hrest)
  have hrow (i : ℕ) (hi : i < N - j) :
      model.stationarityAt t' (.ofFn (X j)) actions'.path
          (Tensor.ofNodes (N - j + 1) fun i => X (j + i)).path
          (Tensor.ofNodes (N - j + 1) (tailCostates j L M)).path δ i =
        model.stationarityAt t (.ofFn x) actions.path (Tensor.ofNodes (N + 1) X).path
          (Tensor.ofNodes (N + 1) L).path δ (j + i) := by
    have hseen : seen (X j) (fun i => X (j + i)) = fun i => X (j + i) := seen_self _
    rw [stationarityAt, stationarityAt, stateAt_eq _ hi.le, stateAt_eq _ (by omega), ← hx,
      seen_self, hseen, Path.node_path, Path.node_path, Path.node_path, Path.node_path,
      Tensor.item_back hactions, Tensor.item_ofNodes _ (Nat.succ_lt_succ hi),
      Tensor.item_ofNodes _ (by omega : j + i + 1 < N + 1),
      tailCostates_of_pos j L M (Nat.succ_pos i), nodeTime_add htime]
    rfl
  rw [stationarity_eq_collect rfl ha] at h
  obtain ⟨rows, hrows, h⟩ := bind_eq_ok_iff.1 h
  obtain ⟨hlength, hrows⟩ := (Recurrence.collect_eq_ok_iff _ _ _).1 hrows
  obtain rfl := Except.ok.inj h
  refine ⟨_, Tensor.back_ofRows rows j, ?_⟩
  rw [stationarity_eq_collect hshape hcount,
    (Recurrence.collect_eq_ok_iff _ _ (rows.drop j)).2, ok_bind]
  refine ⟨by rw [List.length_drop, hlength], fun i hi => ?_⟩
  rw [List.length_drop, hlength] at hi
  rw [List.getElem_drop, ← hrows]
  dsimp only
  rw [hrow i hi]

end Model

/-! ## Tails -/

/-- The defects from node `j` on. -/
def Defects.back {α : Type} (j : ℕ) (defects : Defects α) : Except (Fault α) (Defects α) := do
  return { states := ← defects.states.back j, costates := ← defects.costates.back j }

/-- Of a trajectory with `N` steps, states of length `n` and the defects `D` prescribed, another one
is the tail from node `j` on: it has the states there, and the costates past its first node.  At its
first node the costate is without the defect prescribed, if there is one and the node is not the
first one of the whole. -/
structure Trajectory.TailOf (tail whole : Trajectory ℝ) (D : Option (Defects ℝ)) (N n j : ℕ) :
    Prop where
  shape_states : tail.states.shape = [N - j + 1, n]
  shape_costates : tail.costates.shape = [N - j + 1, n]
  states : ∀ i ≤ N - j, tail.states.item i = whole.states.item (j + i)
  costates : ∀ i ≤ N - j, 0 < i → tail.costates.item i = whole.costates.item (j + i)
  disturbed : ∀ defects, D = some defects → 0 < j → tail.costates.item 0 = do
    (← whole.costates.item j).minus (← defects.costates.item j)
  undisturbed : D = none ∨ j = 0 → tail.costates.item 0 = whole.costates.item j

namespace Defects

variable {D : Option (Defects ℝ)} {X L E M : ℕ → Fin n → ℝ}

/-- What is prescribed at the nodes of `N` steps: zero, if there are no defects. -/
inductive Prescribes (N : ℕ) : Option (Defects ℝ) → (ℕ → Fin n → ℝ) → (ℕ → Fin n → ℝ) → Prop
  | given (E M : ℕ → Fin n → ℝ) :
      Prescribes N (some ⟨.ofNodes (N + 1) E, .ofNodes (N + 1) M⟩) E M
  | none : Prescribes N none 0 0

theorem exists_prescribes (hD : ∀ defects, D = some defects →
    defects.states.shape = [N + 1, n] ∧ defects.costates.shape = [N + 1, n]) :
    ∃ E M : ℕ → Fin n → ℝ, Prescribes N D E M := by
  cases D with
  | none => exact ⟨0, 0, .none⟩
  | some defects =>
      obtain ⟨states, costates⟩ := defects
      obtain ⟨hstates, hcostates⟩ := hD _ rfl
      obtain ⟨E, rfl⟩ := Tensor.exists_eq_ofNodes hstates
      obtain ⟨M, rfl⟩ := Tensor.exists_eq_ofNodes hcostates
      exact ⟨E, M, .given E M⟩

/-- A trajectory depends on the defects only by what is prescribed at the nodes. -/
theorem Prescribes.condense {model : Model ℝ} {t δ : Datum ℝ} {actions : Tensor ℝ}
    (h : Prescribes N D E M) (ha : actions.count = .ok N) (x : Fin n → ℝ) :
    model.condense t (.ofFn x) actions δ D = model.condense t (.ofFn x) actions δ
      (some ⟨.ofNodes (N + 1) E, .ofNodes (N + 1) M⟩) := by
  cases h with
  | given => rfl
  | none => exact Model.condense_none_ofNodes ha x

/-- From the defects from node `j` on, the defects at these nodes are prescribed for the tail. -/
theorem Prescribes.back (h : Prescribes N D E M) (hj : j < N) :
    ∃ D', D.mapM (Defects.back j) = .ok D' ∧
      Prescribes (N - j) D' (fun i => E (j + i)) fun i => M (j + i) := by
  have hrest (E : ℕ → Fin n → ℝ) : (Tensor.ofNodes (N + 1) E).back j =
      .ok (.ofNodes (N - j + 1) fun i => E (j + i)) := by
    rw [Tensor.back_ofNodes E (show j ≤ N + 1 by omega), show N + 1 - j = N - j + 1 by omega]
  cases h with
  | given =>
      refine ⟨_, ?_, .given _ _⟩
      rw [Option.mapM_some, Defects.back, hrest, hrest]
      rfl
  | none => exact ⟨_, rfl, .none⟩

/-- The sequences of a trajectory from node `j` on, with the costate there without its prescribed
defect, are a tail of the trajectory. -/
theorem Prescribes.tailOf (h : Prescribes N D E M) (hj : j < N) :
    Trajectory.TailOf ⟨.ofNodes (N - j + 1) fun i => X (j + i),
      .ofNodes (N - j + 1) (Model.tailCostates j L M)⟩
      ⟨.ofNodes (N + 1) X, .ofNodes (N + 1) L⟩ D N n j where
  shape_states := Tensor.shape_ofNodes _
  shape_costates := Tensor.shape_ofNodes _
  states i hi := by
    rw [Tensor.item_ofNodes _ (Nat.lt_succ_of_le hi),
      Tensor.item_ofNodes X (show j + i < N + 1 by omega)]
  costates i hi hpos := by
    rw [Tensor.item_ofNodes _ (Nat.lt_succ_of_le hi), Model.tailCostates_of_pos j L M hpos,
      Tensor.item_ofNodes L (show j + i < N + 1 by omega)]
  disturbed defects hdefects hpos := by
    cases h with
    | none => cases hdefects
    | given =>
        cases hdefects
        rw [Tensor.item_ofNodes _ (Nat.succ_pos _), Model.tailCostates_zero, if_neg hpos.ne',
          Tensor.item_ofNodes L (Nat.lt_succ_of_lt hj),
          Tensor.item_ofNodes M (Nat.lt_succ_of_lt hj), ok_bind, ok_bind, Tensor.minus_ofFn]
  undisturbed hnothing := by
    have hzero : (if j = 0 then 0 else M j : Fin n → ℝ) = 0 := by
      cases h with
      | none => exact ite_self 0
      | given =>
          rcases hnothing with hnone | hfirst
          · cases hnone
          · rw [if_pos hfirst]
    rw [Tensor.item_ofNodes _ (Nat.succ_pos _), Model.tailCostates_zero, hzero, sub_zero,
      Tensor.item_ofNodes L (Nat.lt_succ_of_lt hj)]

end Defects

namespace Model

/-- **Condensing is consistent with tails.**  Let a trajectory have defects prescribed, or none, on
a horizon of `N` steps, and let `j` be less than `N`.  Then the horizon can be entered at node `j`:
at the time of the node, from the state there, with the actions and the defects that are left, there
is a trajectory, which is the tail of the whole one; and if the whole has a stationarity, its rows
from `j` on are the stationarity of the tail.  A model that answers on vectors has a trajectory for
all actions and all defects. -/
theorem condense_tail (model : Model ℝ) (t δ : Datum ℝ) {x actions : Tensor ℝ} {n N j : ℕ}
    (hx : x.shape = [n]) (ha : actions.count = .ok N) (hj : j < N) (D : Option (Defects ℝ))
    (hD : ∀ defects, D = some defects →
      defects.states.shape = [N + 1, n] ∧ defects.costates.shape = [N + 1, n]) :
    (∀ whole, model.condense t x actions δ D = .ok whole →
      ∃ t' x' actions' D' tail, nodeTime t δ j = .ok t' ∧ whole.states.item j = .ok x' ∧
        actions.back j = .ok actions' ∧ D.mapM (Defects.back j) = .ok D' ∧
        model.condense t' x' actions' δ D' = .ok tail ∧ tail.TailOf whole D N n j ∧
        ∀ F, model.stationarity t x actions whole δ = .ok F →
          ∃ F', F.back j = .ok F' ∧ model.stationarity t' x' actions' tail δ = .ok F') ∧
    (∀ {m c : ℕ} (r : Responses n m c) (s d : ℝ), model.Answers r → t = s → δ = d →
      actions.shape = [N, m + c] → Room N n →
      ∃ whole, model.condense t x actions δ D = .ok whole) := by
  obtain ⟨x, rfl⟩ := Tensor.exists_eq_ofFn hx
  obtain ⟨E, M, hprescribes⟩ := Defects.exists_prescribes hD
  rw [hprescribes.condense ha]
  refine ⟨fun whole h => ?_, fun {m c} r s d hm ht hδ hshape hroom => ?_⟩
  · obtain ⟨t', actions', X, L, htime, hactions, h0, rfl, htail⟩ := condense_tail_of_nodes ha hj h
    obtain ⟨_, hrest, hcount, -⟩ := Tensor.exists_back ha j
    obtain rfl := Except.ok.inj (hactions.symm.trans hrest)
    obtain ⟨D', hback, hprescribes'⟩ := hprescribes.back hj
    refine ⟨t', .ofFn (X j), actions', D', _, htime,
      Tensor.item_ofNodes X (Nat.lt_succ_of_lt hj), hactions, hback, ?_, hprescribes.tailOf hj,
      fun F hF => stationarity_tail ha htime hactions h0 hF⟩
    rw [hprescribes'.condense hcount]
    exact htail
  · subst ht hδ
    obtain ⟨a, rfl⟩ := Tensor.exists_eq_ofNodes hshape
    exact ⟨_, condense_eq hm hroom (D := some ⟨.ofNodes (N + 1) E, .ofNodes (N + 1) M⟩) rfl rfl x⟩

end Model

/-- The integrator on two steps, with defects at both of them, entered at the second. -/
theorem integrator_condense_tail : ∃ whole tail t' x' actions' D',
    Regulator.integrator.model.condense (0 : ℝ) (.ofFn ![1]) (.ofNodes 2 fun _ => ![1]) (1 : ℝ)
        (some ⟨.ofNodes 3 fun i (_ : Fin 1) => (i : ℝ),
          .ofNodes 3 fun i (_ : Fin 1) => -(i : ℝ)⟩) = .ok whole ∧
      nodeTime (0 : ℝ) (1 : ℝ) 1 = .ok t' ∧ whole.states.item 1 = .ok x' ∧
      Regulator.integrator.model.condense t' x' actions' (1 : ℝ) D' = .ok tail ∧
      tail.TailOf whole (some ⟨.ofNodes 3 fun i (_ : Fin 1) => (i : ℝ),
        .ofNodes 3 fun i (_ : Fin 1) => -(i : ℝ)⟩) 2 1 1 := by
  have hdefects : ∀ defects : Defects ℝ, some (⟨.ofNodes 3 fun i (_ : Fin 1) => (i : ℝ),
      .ofNodes 3 fun i (_ : Fin 1) => -(i : ℝ)⟩ : Defects ℝ) = some defects →
        defects.states.shape = [3, 1] ∧ defects.costates.shape = [3, 1] := by
    intro defects h
    cases h
    exact ⟨Tensor.shape_ofNodes _, Tensor.shape_ofNodes _⟩
  obtain ⟨htails, hanswers⟩ := Model.condense_tail Regulator.integrator.model
    (0 : ℝ) (1 : ℝ) (Tensor.shape_ofFn (![1] : Fin 1 → ℝ))
    (Tensor.count_ofNodes (N := 2) fun _ => (![1] : Fin 1 → ℝ)) Nat.one_lt_two _ hdefects
  have hroom : Room 2 1 := .of_le_two le_rfl
  obtain ⟨whole, hwhole⟩ := hanswers Regulator.integrator.responses 0 1
    Regulator.integrator.answers rfl rfl (Tensor.shape_ofNodes _) hroom
  obtain ⟨t', x', actions', D', tail, htime, hx', -, -, hcondense, htail, -⟩ := htails whole hwhole
  exact ⟨whole, tail, t', x', actions', D', hwhole, htime, hx', hcondense, htail⟩

end RecedingHorizon
