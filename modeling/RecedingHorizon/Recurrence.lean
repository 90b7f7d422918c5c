/-!
# Values found one from the other

Along a horizon one value is found from the one before it, and finding it may
fail.  The steps are taken in their order and the first failure ends them, so
that nothing is asked of a step that is never reached.

* `Recurrence.run`: a first value with those that follow it; `run_eq_ok_iff` says
  that they `Follow` it.
* `Recurrence.collect`: values found in order, each on its own;
  `collect_eq_ok_iff` says which they are.
-/

namespace RecedingHorizon

namespace Recurrence

variable {ε β : Type}

/-- The values found so far, the latest of these first, with as many more as are
left, the first of them from the value `b` at place `i`. -/
def continued (step : Nat → β → Except ε β) : Nat → Nat → β → List β → Except ε (List β)
  | 0, _, _, found => .ok found.reverse
  | left + 1, i, b, found =>
      match step i b with
      | .ok next => continued step left (i + 1) next (next :: found)
      | .error e => .error e

/-- The value `b` and the `n` values that follow it. -/
def run (step : Nat → β → Except ε β) (n : Nat) (b : β) : Except ε (List β) :=
  continued step n 0 b [b]

/-- Each value comes from the one before it, the first one from the value `b` at
place `i`. -/
def Follow (step : Nat → β → Except ε β) : Nat → β → List β → Prop
  | _, _, [] => True
  | i, b, next :: later => step i b = .ok next ∧ Follow step (i + 1) next later

theorem continued_eq_ok_iff (step : Nat → β → Except ε β) (left i : Nat) (b : β)
    (found bs : List β) :
    continued step left i b found = .ok bs ↔
      ∃ later, bs = found.reverse ++ later ∧ later.length = left ∧ Follow step i b later := by
  induction left generalizing i b found with
  | zero =>
      rw [continued]
      constructor
      · intro h
        exact ⟨[], by simpa using (Except.ok.inj h).symm, rfl, trivial⟩
      · rintro ⟨later, rfl, hl, -⟩
        rw [List.eq_nil_of_length_eq_zero hl, List.append_nil]
  | succ left ih =>
      rw [continued]
      rcases hs : step i b with e | next
      · constructor
        · intro h
          cases h
        · rintro ⟨_ | ⟨next, later⟩, -, hl, hf⟩
          · cases hl
          · have := hf.1
            rw [hs] at this
            cases this
      · simp only [ih]
        constructor
        · rintro ⟨later, rfl, hl, hf⟩
          exact ⟨next :: later, by simp, by simp [hl], hs, hf⟩
        · rintro ⟨_ | ⟨other, later⟩, rfl, hl, hf⟩
          · cases hl
          · obtain rfl : next = other := by
              have := hf.1
              rw [hs] at this
              exact Except.ok.inj this
            exact ⟨later, by simp, by simpa using hl, hf.2⟩

/-- A run begins with its first value, and the others follow it. -/
theorem run_eq_ok_iff (step : Nat → β → Except ε β) (n : Nat) (b : β) (bs : List β) :
    run step n b = .ok bs ↔
      ∃ later, bs = b :: later ∧ later.length = n ∧ Follow step 0 b later := by
  rw [run, continued_eq_ok_iff]
  simp

/-- What follows stands one place further on than what it follows. -/
theorem Follow.step_getElem {step : Nat → β → Except ε β} {i : Nat} {b : β} {later : List β}
    (h : Follow step i b later) {j : Nat} (hj : j < later.length) :
    step (i + j) ((b :: later).get ⟨j, Nat.lt_succ_of_lt hj⟩) = .ok later[j] := by
  induction later generalizing i b j with
  | nil => simp at hj
  | cons next later ih =>
      cases j with
      | zero => exact h.1
      | succ j =>
          have := ih h.2 (j := j) (by simpa using hj)
          rw [Nat.add_right_comm, Nat.add_assoc] at this
          exact this

/-- The values found so far, the latest of these first, with those of `f` at as many
more places as are left, from place `i` on. -/
def collectFrom (f : Nat → Except ε β) : Nat → Nat → List β → Except ε (List β)
  | 0, _, found => .ok found.reverse
  | left + 1, i, found =>
      match f i with
      | .ok b => collectFrom f left (i + 1) (b :: found)
      | .error e => .error e

/-- The first `n` values of `f`, found from the first one on. -/
def collect (f : Nat → Except ε β) (n : Nat) : Except ε (List β) := collectFrom f n 0 []

theorem collectFrom_eq_ok_iff (f : Nat → Except ε β) (left i : Nat) (found bs : List β) :
    collectFrom f left i found = .ok bs ↔
      ∃ later, bs = found.reverse ++ later ∧ later.length = left ∧
        ∀ j (hj : j < later.length), f (i + j) = .ok later[j] := by
  induction left generalizing i found with
  | zero =>
      rw [collectFrom]
      constructor
      · intro h
        exact ⟨[], by simpa using (Except.ok.inj h).symm, rfl, by simp⟩
      · rintro ⟨later, rfl, hl, -⟩
        rw [List.eq_nil_of_length_eq_zero hl, List.append_nil]
  | succ left ih =>
      rw [collectFrom]
      rcases hs : f i with e | b
      · constructor
        · intro h
          cases h
        · rintro ⟨_ | ⟨b, later⟩, -, hl, hf⟩
          · cases hl
          · have := hf 0 (Nat.succ_pos _)
            rw [Nat.add_zero, hs] at this
            cases this
      · simp only [ih]
        constructor
        · rintro ⟨later, rfl, hl, hf⟩
          refine ⟨b :: later, by simp, by simp [hl], ?_⟩
          rintro (_ | j) hj
          · exact hs
          · have := hf j (by simpa using hj)
            rw [Nat.add_right_comm, Nat.add_assoc] at this
            exact this
        · rintro ⟨_ | ⟨other, later⟩, rfl, hl, hf⟩
          · cases hl
          · obtain rfl : b = other := by
              have := hf 0 (Nat.succ_pos _)
              rw [Nat.add_zero, hs] at this
              exact Except.ok.inj this
            refine ⟨later, by simp, by simpa using hl, fun j hj => ?_⟩
            have := hf (j + 1) (by simpa using hj)
            rw [← Nat.add_assoc, Nat.add_right_comm] at this
            exact this

/-- The values are collected if all of them are found, and stand in their places. -/
theorem collect_eq_ok_iff (f : Nat → Except ε β) (n : Nat) (bs : List β) :
    collect f n = .ok bs ↔
      bs.length = n ∧ ∀ i (hi : i < bs.length), f i = .ok bs[i] := by
  rw [collect, collectFrom_eq_ok_iff]
  simp

end Recurrence

end RecedingHorizon
