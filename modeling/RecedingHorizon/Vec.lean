import RecedingHorizon.Scalar

/-!
# Vectors

A vector is the list of its entries, so that the length is a property of the
value and not of the type.  The operations here are entrywise and are meant for
vectors of one length; where lengths come from a caller they are looked at
before, on arrays.
-/

namespace RecedingHorizon

/-- A vector. -/
abbrev Vec (α : Type) := List α

namespace Vec

variable {α : Type} [Scalar α]

/-- The zero vector. -/
def zeros (n : Nat) : Vec α := List.replicate n 0

def add (u v : Vec α) : Vec α := List.zipWith (· + ·) u v

def sub (u v : Vec α) : Vec α := List.zipWith (· - ·) u v

/-- The entrywise product. -/
def mul (u v : Vec α) : Vec α := List.zipWith (· * ·) u v

def scale (a : α) (v : Vec α) : Vec α := v.map fun x => a * x

/-- The vector with every entry divided by `a`. -/
def divide (v : Vec α) (a : α) : Vec α := v.map fun x => x / a

/-- The sum of the entries, from left to right. -/
def sum (v : Vec α) : α := v.foldl (· + ·) 0

/-- The inner product. -/
def dot (u v : Vec α) : α := sum (mul u v)

/-- The sum of the squares of the entries. -/
def sumSquares (v : Vec α) : α := dot v v

/-- The euclidean norm. -/
def norm (v : Vec α) : α := Scalar.sqrt (sumSquares v)

/-- Whether every entry equals zero. -/
def isZero (v : Vec α) : Bool := v.all Scalar.isZero

/-- Whether every entry is a number and no infinity. -/
def isFinite (v : Vec α) : Bool := v.all Scalar.isFinite

/-- The combination `∑ y i • v i` of vectors of length `n`. -/
def combine (n : Nat) (vs : List (Vec α)) (y : Vec α) : Vec α :=
  (List.zipWith scale y vs).foldl add (zeros n)

/-- The pieces of length `n` that are still to be cut off a list, after those that
have been, the latest of these first. -/
def cut {β : Type} (n : Nat) : Nat → List β → List (List β) → List (List β)
  | 0, _, done => done.reverse
  | count + 1, v, done => cut n count (v.drop n) (v.take n :: done)

/-- A list cut into `count` pieces of length `n`. -/
def pieces {β : Type} (n count : Nat) (v : List β) : List (List β) := cut n count v []

@[simp] theorem length_zeros (n : Nat) : (zeros n : Vec α).length = n := by
  simp [zeros]

@[simp] theorem length_add (u v : Vec α) : (add u v).length = min u.length v.length := by
  simp [add]

@[simp] theorem length_sub (u v : Vec α) : (sub u v).length = min u.length v.length := by
  simp [sub]

@[simp] theorem length_scale (a : α) (v : Vec α) : (scale a v).length = v.length := by
  simp [scale]

@[simp] theorem length_divide (v : Vec α) (a : α) : (divide v a).length = v.length := by
  simp [divide]

/-- Vectors of one length add up to one of that length. -/
theorem length_foldl_add {n : Nat} {vs : List (Vec α)} {s : Vec α} (hvs : ∀ v ∈ vs, v.length = n)
    (hs : s.length = n) : (vs.foldl add s).length = n := by
  induction vs generalizing s with
  | nil => exact hs
  | cons v vs ih =>
      refine ih (fun u hu => hvs u (List.mem_cons_of_mem v hu)) ?_
      rw [length_add, hs, hvs v List.mem_cons_self, Nat.min_self]

theorem length_combine {n : Nat} {vs : List (Vec α)} (hvs : ∀ v ∈ vs, v.length = n) (y : Vec α) :
    (combine n vs y).length = n := by
  refine length_foldl_add (fun u hu => ?_) (length_zeros n)
  obtain ⟨c, v, hv, rfl⟩ : ∃ c, ∃ v ∈ vs, scale c v = u := by
    obtain ⟨i, hi, rfl⟩ := List.mem_iff_getElem.1 hu
    rw [List.length_zipWith] at hi
    rw [List.getElem_zipWith]
    exact ⟨_, _, List.getElem_mem (by omega), rfl⟩
  rw [length_scale, hvs v hv]

theorem cut_eq {β : Type} (n count : Nat) (v : List β) (done : List (List β)) :
    cut n count v done = done.reverse ++ pieces n count v := by
  induction count generalizing v done with
  | zero => simp [cut, pieces]
  | succ count ih =>
      rw [cut, ih]
      show _ = done.reverse ++ cut n count (v.drop n) [v.take n]
      rw [ih]
      simp

@[simp] theorem pieces_zero {β : Type} (n : Nat) (v : List β) : pieces n 0 v = [] := rfl

@[simp] theorem pieces_succ {β : Type} (n count : Nat) (v : List β) :
    pieces n (count + 1) v = v.take n :: pieces n count (v.drop n) := by
  rw [pieces, cut, cut_eq]
  rfl

@[simp] theorem length_pieces {β : Type} (n count : Nat) (v : List β) :
    (pieces n count v).length = count := by
  induction count generalizing v with
  | zero => rfl
  | succ count ih => simp [ih]

/-- Pieces put together again are cut as they were. -/
theorem pieces_flatten {β : Type} {n : Nat} {ps : List (List β)}
    (hp : ∀ p ∈ ps, p.length = n) : pieces n ps.length ps.flatten = ps := by
  induction ps with
  | nil => rfl
  | cons p ps ih =>
      have h := hp p List.mem_cons_self
      rw [List.length_cons, pieces_succ, List.flatten_cons, List.take_left' h,
        List.drop_left' h, ih fun q hq => hp q (List.mem_cons_of_mem p hq)]

/-- Of pieces put together each is found at its place. -/
theorem take_drop_flatten {β : Type} {n : Nat} {ps : List (List β)}
    (hp : ∀ p ∈ ps, p.length = n) {i : Nat} (hi : i < ps.length) :
    (ps.flatten.drop (i * n)).take n = ps[i] := by
  induction ps generalizing i with
  | nil => simp at hi
  | cons p ps ih =>
      have h := hp p List.mem_cons_self
      cases i with
      | zero => simp [← h]
      | succ i =>
          have hl : (i + 1) * n = p.length + i * n := by rw [h, Nat.succ_mul, Nat.add_comm]
          rw [List.flatten_cons, hl, List.drop_append,
            List.drop_eq_nil_of_le (Nat.le_add_right _ _), List.nil_append,
            Nat.add_sub_cancel_left, List.getElem_cons_succ]
          exact ih (fun q hq => hp q (List.mem_cons_of_mem p hq)) _

end Vec

end RecedingHorizon
