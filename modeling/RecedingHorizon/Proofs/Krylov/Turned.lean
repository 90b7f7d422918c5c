import RecedingHorizon.Proofs.Krylov.Course
import RecedingHorizon.Proofs.Krylov.Rotations

/-!
# Turned columns

A step turns its raw column by all the rotations found before and then by one of its own, which
takes away the last entry, and it turns the right-hand side by this one only.  Nothing is turned
twice: a column is left as it is when there are more rotations, and so the columns and the
right-hand side could as well be turned by the product of all rotations at once.  They stay what
they are under it since a later rotation is in a plane below them.

That is the invariant of a course, and it survives each of its endings.  A step that is refused
changes nothing.  A singular step has turned a column that it then throws away: there is one more
raw column, but neither a column nor a rotation.  And whatever a step divides by is positive.

* `Workspace.turns`: the product of the rotations of a workspace; `turns_extended` is one step.
* `Workspace.Turned`, `Workspace.Divided`: a column with its rotation, and a direction.
* `Workspace.Tracked`: the invariant; `Tracked.absorb` is one step, `Solver.Course.tracked` the
  course.
-/

namespace RecedingHorizon

namespace Krylov

open scoped Matrix

namespace Rotation

/-- The rotation onto an axis takes away the other entry. -/
theorem turn_toAxis {pivot height ν : ℝ} (hν : ν ≠ 0) (hsq : pivot ^ 2 + height ^ 2 = ν ^ 2) :
    (toAxis pivot height ν).turn pivot height = (ν, 0) := by
  rw [toAxis, turn]
  refine Prod.ext ?_ ?_
  · show pivot / ν * pivot + height / ν * height = ν
    field_simp
    exact hsq
  · show -(height / ν) * pivot + pivot / ν * height = 0
    ring

end Rotation

namespace Workspace

variable {w : Workspace ℝ} {β : ℝ} {raws : List (Vec ℝ)} {raw column : Vec ℝ} {n j : ℕ}

/-- The product of the rotations that belong to the columns. -/
noncomputable def turns (w : Workspace ℝ) (n : ℕ) : Matrix (Fin (n + 1)) (Fin (n + 1)) ℝ :=
  turning n 0 (w.rotations.take w.columns.length)

/-- A step puts one more rotation before the product. -/
theorem turns_extended (hroom : w.columns.length < w.rotations.length) (basis : List (Vec ℝ))
    (upper : Vec ℝ) (ν : ℝ) (r : Rotation ℝ) (n : ℕ) :
    (w.extended basis upper ν r).turns n =
      r.plane (Fin.ofNat (n + 1) w.columns.length) (Fin.ofNat (n + 1) (w.columns.length + 1)) *
        w.turns n := by
  have htake : (w.rotations.take w.columns.length).length = w.columns.length := by
    rw [List.length_take, Nat.min_eq_left hroom.le]
  rw [turns, length_columns_extended, take_rotations_extended basis r hroom, turning_concat, htake,
    Nat.zero_add, turns]

/-- The column at place `j` has a positive pivot, which is the length of the two entries that its
rotation has been made from, the lower one of them that of the raw column.  Columns of any height
that is enough are turned into it by all rotations. -/
structure Turned (w : Workspace ℝ) (j : ℕ) (raw column : Vec ℝ) : Prop where
  length : column.length = j + 1
  diagonal_pos : 0 < column.getD j 0
  rotation : ∃ pivot, pivot ^ 2 + raw.getD (j + 1) 0 ^ 2 = column.getD j 0 ^ 2 ∧
    w.rotations[j]? = some (Rotation.toAxis pivot (raw.getD (j + 1) 0) (column.getD j 0))
  turned : ∀ n, w.columns.length ≤ n →
    w.turns n *ᵥ Vec.upTo (n + 1) raw = Vec.upTo (n + 1) column

/-- The direction is a rest divided by its length, which is positive and the entry of the raw column
at place `j + 1`. -/
def Divided (j : ℕ) (raw direction : Vec ℝ) : Prop :=
  ∃ rest, Vec.norm rest = raw.getD (j + 1) 0 ∧ 0 < raw.getD (j + 1) 0 ∧
    direction = Vec.divide rest (raw.getD (j + 1) 0)

/-- What is left of an image is divided by its length only if this is positive. -/
theorem divided_rest {image : Vec ℝ} (hbasis : w.basis.length = j + 1)
    (hlarge : ¬Vec.norm (w.rest image) ≤ negligible * Vec.norm image) :
    Divided j (w.rawColumn image) (Vec.divide (w.rest image) (Vec.norm (w.rest image))) := by
  have hlast := w.getD_rawColumn image
  rw [hbasis] at hlast
  have hnonneg : 0 ≤ negligible * Vec.norm image :=
    mul_nonneg negligible_pos.le (Real.sqrt_nonneg _)
  refine ⟨w.rest image, hlast.symm, ?_, ?_⟩
  · rw [hlast]
    exact hnonneg.trans_lt (not_le.1 hlarge)
  · rw [hlast]

/-- What the columns, the rotations, the right-hand side and the directions are, by the raw columns
and the norm of the residual. -/
structure Tracked (β : ℝ) (raws : List (Vec ℝ)) (w : Workspace ℝ) : Prop where
  room : w.columns.length ≤ w.rotations.length
  settled : w.settled.length = w.columns.length
  hessenberg : ∀ j raw, raws[j]? = some raw → raw.length = j + 2
  column : ∀ j column, w.columns[j]? = some column →
    ∃ raw, raws[j]? = some raw ∧ w.Turned j raw column
  target : ∀ n, w.columns.length ≤ n →
    w.turns n *ᵥ Vec.upTo (n + 1) [β] = Vec.upTo (n + 1) (w.settled ++ [w.remainder])
  direction : ∀ j v, w.basis[j + 1]? = some v → ∃ raw, raws[j]? = some raw ∧ Divided j raw v

/-- At the start of a growth there is nothing to keep track of but the norm of the residual. -/
theorem tracked_seeded (w : Workspace ℝ) (first : Vec ℝ) (β : ℝ) :
    (w.cleared.seeded first β).Tracked β [] where
  room := Nat.zero_le _
  settled := rfl
  hessenberg _ _ h := by cases h
  column _ _ h := by cases h
  target n _ := Matrix.one_mulVec _
  direction _ _ h := by cases h

/-- A column and the rotations before it are left alone by one more rotation. -/
theorem Turned.extended (h : w.Turned j raw column) (hj : j < w.columns.length)
    (hroom : w.columns.length < w.rotations.length) (basis : List (Vec ℝ)) (upper : Vec ℝ) (ν : ℝ)
    (r : Rotation ℝ) : (w.extended basis upper ν r).Turned j raw column := by
  obtain ⟨pivot, hsq, hrotation⟩ := h.rotation
  refine ⟨h.length, h.diagonal_pos, ⟨pivot, hsq, ?_⟩, fun n hn => ?_⟩
  · show (w.rotations.set w.columns.length r)[j]? = _
    rw [List.getElem?_set_ne hj.ne', hrotation]
  · rw [length_columns_extended] at hn
    have hlength := h.length
    rw [turns_extended hroom, ← Matrix.mulVec_mulVec, h.turned n (by omega),
      Rotation.plane_mulVec_upTo_of_length_le r (by omega) (by omega)]

/-- A raw column that is turned by the rotations before and then by one of its own, which is made
for it. -/
theorem turned_extended (hroom : w.columns.length < w.rotations.length) {y upper : Vec ℝ}
    {pivot height ν : ℝ} (hy : y.length = w.columns.length + 1)
    (hturn : turnColumn (w.rotations.take w.columns.length) y = (upper, pivot))
    (hν : 0 < ν) (hsq : pivot ^ 2 + height ^ 2 = ν ^ 2) (basis : List (Vec ℝ)) :
    (w.extended basis upper ν (Rotation.toAxis pivot height ν)).Turned w.columns.length
      (y ++ [height]) (upper ++ [ν]) := by
  have htake : (w.rotations.take w.columns.length).length = w.columns.length := by
    rw [List.length_take, Nat.min_eq_left hroom.le]
  have hupper : upper.length = w.columns.length := by
    have hlength : (turnColumn (w.rotations.take w.columns.length) y).1.length =
        (w.rotations.take w.columns.length).length := length_turnColumn (by rw [hy, htake])
    rwa [hturn, htake] at hlength
  refine ⟨by rw [List.length_append, hupper, List.length_singleton],
    by rwa [Vec.getD_concat hupper],
    ⟨pivot, ?_, ?_⟩, fun n hn => ?_⟩
  · rw [Vec.getD_concat hy, Vec.getD_concat hupper, hsq]
  · rw [Vec.getD_concat hy, Vec.getD_concat hupper]
    exact List.getElem?_set_self hroom
  · rw [length_columns_extended] at hn
    have hbefore : turning n 0 (w.rotations.take w.columns.length) *ᵥ
        Vec.upTo (n + 1) ([] ++ (y ++ [height])) = _ :=
      turning_mulVec_upTo List.length_nil (hy.trans (by rw [htake])) (by rw [htake]; omega) [height]
    rw [hturn, List.nil_append, List.nil_append] at hbefore
    rw [turns_extended hroom, ← Matrix.mulVec_mulVec, turns, hbefore,
      Rotation.plane_mulVec_upTo _ hupper (by omega), Rotation.turn_toAxis hν.ne' hsq]
    exact (congrArg _ (List.append_assoc upper [ν] [0]).symm).trans (Vec.upTo_append_zero _)

namespace Tracked

/-- Track is kept with one more raw column, of which nothing has been made. -/
theorem concat (h : w.Tracked β raws) (hraw : raw.length = raws.length + 2) :
    w.Tracked β (raws ++ [raw]) where
  room := h.room
  settled := h.settled
  hessenberg j raw' hj := by
    rcases getElem?_concat_eq_some hj with hj | ⟨rfl, rfl⟩
    · exact h.hessenberg j raw' hj
    · exact hraw
  column j column hj := by
    obtain ⟨raw', hraw', hturned⟩ := h.column j column hj
    have hlt := (List.getElem?_eq_some_iff.1 hraw').1
    exact ⟨raw', (List.getElem?_append_left hlt).trans hraw', hturned⟩
  target := h.target
  direction j v hj := by
    obtain ⟨raw', hraw', hdivided⟩ := h.direction j v hj
    have hlt := (List.getElem?_eq_some_iff.1 hraw').1
    exact ⟨raw', (List.getElem?_append_left hlt).trans hraw', hdivided⟩

/-- Track is kept with one more direction, which is the rest of an image divided by its length. -/
theorem addDirection (h : w.Tracked β raws) {v : Vec ℝ} (hbasis : w.basis.length = j + 1)
    (hraw : raws[j]? = some raw) (hdivided : Divided j raw v) :
    Tracked β raws { w with basis := w.basis ++ [v] } where
  room := h.room
  settled := h.settled
  hessenberg := h.hessenberg
  column i column hi := by
    obtain ⟨raw', hraw', hturned⟩ := h.column i column hi
    exact ⟨raw', hraw', hturned.length, hturned.diagonal_pos, hturned.rotation, hturned.turned⟩
  target := h.target
  direction i u hi := by
    rcases getElem?_concat_eq_some hi with hi | ⟨hlast, rfl⟩
    · exact h.direction i u hi
    · obtain rfl : i = j := by omega
      exact ⟨raw, hraw, hdivided⟩

/-- Track is kept with one more column and the rotation that belongs to it. -/
theorem addColumn (h : w.Tracked β raws) (hroom : w.columns.length < w.rotations.length)
    {y upper : Vec ℝ} {pivot height ν : ℝ} (hraw : raws[w.columns.length]? = some (y ++ [height]))
    (hturn : turnColumn (w.rotations.take w.columns.length) y = (upper, pivot))
    (hν : 0 < ν) (hsq : pivot ^ 2 + height ^ 2 = ν ^ 2) :
    Tracked β raws (w.extended w.basis upper ν (Rotation.toAxis pivot height ν)) := by
  have hy : y.length = w.columns.length + 1 := by
    have hlength := h.hessenberg _ _ hraw
    rw [List.length_append, List.length_singleton] at hlength
    omega
  refine ⟨?_, ?_, h.hessenberg, fun j column hj => ?_, fun n hn => ?_, h.direction⟩
  · rw [length_columns_extended, length_rotations_extended]
    exact hroom
  · rw [length_columns_extended, extended, List.length_append, h.settled, List.length_singleton]
  · rcases getElem?_concat_eq_some hj with hj | ⟨rfl, rfl⟩
    · have hlt := (List.getElem?_eq_some_iff.1 hj).1
      obtain ⟨raw, hraw, hturned⟩ := h.column j column hj
      exact ⟨raw, hraw, hturned.extended hlt hroom _ _ _ _⟩
    · exact ⟨_, hraw, turned_extended hroom hy hturn hν hsq _⟩
  · -- below the remainder there is a zero, with which it is turned
    rw [length_columns_extended] at hn
    have htarget := h.target n (by omega)
    rw [← Vec.upTo_append_zero (w.settled ++ [w.remainder]), List.append_assoc] at htarget
    rw [turns_extended hroom, ← Matrix.mulVec_mulVec, htarget, extended, List.append_assoc]
    exact Rotation.plane_mulVec_upTo _ h.settled (by omega) _ _ _

/-- A step keeps track.  If it does not end the growth, there are one more column and one more
direction. -/
theorem absorb (h : w.Tracked β raws) (hcolumns : w.columns.length = raws.length)
    (hbasis : w.basis.length = raws.length + 1) (hroom : w.columns.length < w.rotations.length)
    (image : Vec ℝ) :
    (w.absorb image).1.Tracked β (raws ++ [w.rawColumn image]) ∧
      ((w.absorb image).2 = none →
        (w.absorb image).1.columns.length = raws.length + 1 ∧
          (w.absorb image).1.basis.length = raws.length + 2) := by
  obtain ⟨y, d, rest, hsplit⟩ : ∃ (y : Vec ℝ) (d : ℕ) (rest : Fin d → ℝ),
      orthogonalize w.basis image = (y, List.ofFn rest) :=
    ⟨_, _, (orthogonalize w.basis image).2.get, by rw [List.ofFn_get]⟩
  rcases hturn : turnColumn (w.rotations.take w.columns.length) y with ⟨upper, pivot⟩
  obtain ⟨height, hheight⟩ : ∃ height, √(rest ⬝ᵥ rest) = height := ⟨_, rfl⟩
  obtain ⟨ν, hν⟩ : ∃ ν, √(pivot ^ 2 + height ^ 2) = ν := ⟨_, rfl⟩
  have hrest : w.rest image = List.ofFn rest := by rw [Workspace.rest, hsplit]
  have hnorm : Vec.norm (List.ofFn rest) = height := by rw [Vec.norm_ofFn, hheight]
  have htracked : w.Tracked β (raws ++ [w.rawColumn image]) :=
    h.concat (by rw [length_rawColumn, hbasis])
  have hlast : (raws ++ [w.rawColumn image])[raws.length]? = some (w.rawColumn image) :=
    List.getElem?_concat_length
  have hdivided := @divided_rest w raws.length image hbasis
  rw [hrest, hnorm] at hdivided
  rw [absorb_eq hsplit hturn hheight hν]
  by_cases hsingular : ν = 0
  · rw [if_pos hsingular]
    refine ⟨?_, fun hnone => by cases hnone⟩
    by_cases hsmall : height ≤ negligible * Vec.norm image
    · rw [if_pos hsmall]
      exact htracked
    · rw [if_neg hsmall]
      exact htracked.addDirection hbasis hlast (hdivided hsmall)
  · rw [if_neg hsingular]
    have hpos : 0 < ν := lt_of_le_of_ne (hν ▸ Real.sqrt_nonneg _) (Ne.symm hsingular)
    have hsq : pivot ^ 2 + height ^ 2 = ν ^ 2 := by
      rw [← hν, Real.sq_sqrt (add_nonneg (sq_nonneg pivot) (sq_nonneg height))]
    have hraw : w.rawColumn image = y ++ [height] := by rw [rawColumn, hrest, hsplit, hnorm]
    have hextended := htracked.addColumn hroom (by rw [hcolumns, hlast, hraw]) hturn hpos hsq
    by_cases hsmall : height ≤ negligible * Vec.norm image
    · rw [if_pos hsmall, if_pos hsmall]
      exact ⟨hextended, fun hnone => by cases hnone⟩
    · rw [if_neg hsmall, if_neg hsmall]
      refine ⟨hextended.addDirection hbasis hlast (hdivided hsmall), fun _ => ⟨?_, ?_⟩⟩
      · rw [length_columns_extended, hcolumns]
      · show (w.basis ++ [_]).length = _
        rw [List.length_append, hbasis, List.length_singleton]

end Tracked

end Workspace

namespace Solver

variable {solver : Solver ℝ} {equation : Equation Id ℝ} {guess : Tensor ℝ} {w₀ w : Workspace ℝ}
  {β : ℝ} {asked : List (Tensor ℝ)} {raws : List (Vec ℝ)}
  {answer : Except (Fault ℝ) (Option Ending)}

/-- What is along every course of a solver in a workspace of its own: nothing is lost track of, and
while nothing has gone wrong there are as many columns as raw columns, and a direction more. -/
theorem Course.tracked (hw₀ : w₀.rotations.length = solver.limit)
    (h : solver.Course equation guess w₀ β asked raws answer w) :
    0 < β ∧ w.Tracked β raws ∧ w.rotations.length = solver.limit ∧
      (answer = .ok none →
        w.columns.length = raws.length ∧ w.basis.length = raws.length + 1) := by
  induction h with
  | seeded residual large first =>
      exact ⟨tiny_pos.trans_le (not_lt.1 large), Workspace.tracked_seeded _ _ _, hw₀,
        fun _ => ⟨rfl, rfl⟩⟩
  | refused _ _ _ ih =>
      obtain ⟨hpos, htracked, hrotations, -⟩ := ih
      exact ⟨hpos, htracked, hrotations, fun hgoes => by cases hgoes⟩
  | @taken β asked raws w w' image v answer _ room _ vector step_eq ih =>
      obtain ⟨hpos, htracked, hrotations, hgrowing⟩ := ih
      obtain ⟨hcolumns, hbasis⟩ := hgrowing rfl
      obtain ⟨rfl, hanswer⟩ := step_of_vector vector step_eq
      obtain ⟨hstep, hnone⟩ := htracked.absorb hcolumns hbasis (by omega) v
      refine ⟨hpos, hstep, (length_rotations_absorb w v).trans hrotations, fun hgoes => ?_⟩
      rw [List.length_append, List.length_singleton]
      refine hnone (of_not_not fun hends => ?_)
      have hbroke := hanswer.2 hends
      rw [hgoes] at hbroke
      exact not_brokeDown_none hbroke

end Solver

end Krylov

end RecedingHorizon
