import RecedingHorizon.Datum.Arithmetic
import RecedingHorizon.Vec

/-!
# Arrays

States, controls, matrices, and what is computed from them, come from callers,
and so do their shapes.  An array is a shape with as many entries as the shape
has places, the last index running fastest.  A bare number is an array of the
empty shape.  What fits together is decided when arrays meet, and that they do
not is an answer to be given, not a program that cannot be written.

* `Tensor`, `Tensor.ofVec`, `Tensor.single`, `Tensor.zeros`, `Tensor.tabulate`.
* `Tensor.map`, `Tensor.scale`, `Tensor.divide`: entry by entry.
* `Tensor.item`, `Tensor.front`, `Tensor.back`: the first index taken apart.
* `Row`, `Tensor.ofRows`: put together along the first index, from arrays known to
  have one shape; `Tensor.item_ofRows` finds them again.
* `Tensor.stack`, `Tensor.append`: the same for arrays that may not fit.
* `Tensor.checkExtents`, `Tensor.checkRoom`: what can be asked for.
* `Tensor.blank`: the array of zeros of given extents.
* `Tensor.reshape`: the entries of an array as a matrix, one of whose extents may
  be left open by giving one below zero.
* `Path`, `Path.node_path`: arrays read node by node.
-/

namespace RecedingHorizon

/-- The number of places of a shape. -/
def volume (shape : List Nat) : Nat := shape.foldr (· * ·) 1

@[simp] theorem volume_nil : volume [] = 1 := rfl

@[simp] theorem volume_cons (n : Nat) (shape : List Nat) :
    volume (n :: shape) = n * volume shape := rfl

/-- The most indices an array can have. -/
def rankLimit : Nat := 64

/-- An array. -/
structure Tensor (α : Type) where
  shape : List Nat
  entries : Vec α
  length_entries : entries.length = volume shape

namespace Tensor

variable {α : Type}

theorem ext_of_entries {a b : Tensor α} (hs : a.shape = b.shape)
    (he : a.entries = b.entries) : a = b := by
  cases a; cases b; cases hs; cases he; rfl

/-- The array of a vector. -/
def ofVec (v : Vec α) : Tensor α := ⟨[v.length], v, by simp⟩

/-- The array of a bare number. -/
def single (x : α) : Tensor α := ⟨[], [x], rfl⟩

/-- The array of a shape whose entry at place `i` is `f i`. -/
def tabulate (shape : List Nat) (f : Nat → α) : Tensor α :=
  ⟨shape, (List.range (volume shape)).map f, by simp⟩

/-- The number of indices. -/
def rank (a : Tensor α) : Nat := a.shape.length

/-- The array with `f` applied to every entry. -/
def map {β : Type} (f : α → β) (a : Tensor α) : Tensor β :=
  ⟨a.shape, a.entries.map f, by rw [List.length_map, a.length_entries]⟩

/-- The array with its entries in one row. -/
def flat (a : Tensor α) : Tensor α := ofVec a.entries

@[simp] theorem shape_ofVec (v : Vec α) : (ofVec v).shape = [v.length] := rfl

@[simp] theorem entries_ofVec (v : Vec α) : (ofVec v).entries = v := rfl

@[simp] theorem shape_map {β : Type} (f : α → β) (a : Tensor α) :
    (a.map f).shape = a.shape := rfl

@[simp] theorem entries_map {β : Type} (f : α → β) (a : Tensor α) :
    (a.map f).entries = a.entries.map f := rfl

/-- An array with a single index has so many entries. -/
theorem length_entries_of_shape {a : Tensor α} {n : Nat} (h : a.shape = [n]) :
    a.entries.length = n := by
  rw [a.length_entries, h, volume_cons, volume_nil, Nat.mul_one]

/-! ## The first index -/

/-- The item at `i` of an array whose items are taken apart.  A bare number has
none. -/
def item (a : Tensor α) (i : Nat) : Except (Fault α) (Tensor α) :=
  match h : a.shape with
  | [] => .error .missingEntry
  | n :: shape =>
      if hi : i < n then
        .ok ⟨shape, (a.entries.drop (i * volume shape)).take (volume shape), by
          have hle : (i + 1) * volume shape ≤ a.entries.length := by
            rw [a.length_entries, h, volume_cons]
            exact Nat.mul_le_mul_right _ hi
          rw [Nat.succ_mul] at hle
          rw [List.length_take, List.length_drop]
          omega⟩
      else .error .missingEntry

/-- The number of items. -/
def count (a : Tensor α) : Except (Fault α) Nat :=
  match a.shape with
  | [] => .error .missingEntry
  | n :: _ => .ok n

/-- The place among `n` that an index stands for.  An index below zero counts from
the end, and one past either end stands for that end. -/
def place (n : Nat) (k : Int) : Nat := min n (if k < 0 then k + n else k).toNat

@[simp] theorem place_natCast (n k : Nat) : place n k = min n k := by
  have : ¬ (k : Int) < 0 := Int.not_lt.2 (Int.natCast_nonneg k)
  simp [place, this]

theorem place_le (n : Nat) (k : Int) : place n k ≤ n := Nat.min_le_left _ _

/-- The items before place `k`. -/
def front (k : Int) (a : Tensor α) : Except (Fault α) (Tensor α) :=
  match h : a.shape with
  | [] => .error .missingEntry
  | n :: shape =>
      .ok ⟨place n k :: shape, a.entries.take (place n k * volume shape), by
        rw [List.length_take, a.length_entries, h, volume_cons, volume_cons]
        exact Nat.min_eq_left (Nat.mul_le_mul_right _ (place_le n k))⟩

/-- The items from place `k` on. -/
def back (k : Int) (a : Tensor α) : Except (Fault α) (Tensor α) :=
  match h : a.shape with
  | [] => .error .missingEntry
  | n :: shape =>
      .ok ⟨(n - place n k) :: shape, a.entries.drop (place n k * volume shape), by
        rw [List.length_drop, a.length_entries, h, volume_cons, volume_cons,
          Nat.mul_sub_right_distrib]⟩

/-- Arrays of one shape as the items of one array, if there may be one more index. -/
def stack (shape : List Nat) (as : List (Tensor α)) : Except (Fault α) (Tensor α) :=
  if rankLimit ≤ shape.length then .error .ragged
  else if h : ∀ a ∈ as, a.shape = shape then
    .ok ⟨as.length :: shape, as.flatMap entries, by
      induction as with
      | nil => simp
      | cons a as ih =>
          rw [List.flatMap_cons, List.length_append, a.length_entries,
            h a List.mem_cons_self, ih fun b hb => h b (List.mem_cons_of_mem a hb)]
          simp only [volume_cons, List.length_cons, Nat.succ_mul]
          omega⟩
  else .error .ragged

/-- Arrays as the items of one array, whose shape is that of the first. -/
def ofItems (as : List (Tensor α)) : Except (Fault α) (Tensor α) :=
  stack (as.head?.elim [] shape) as

/-- The items of two arrays one after the other. -/
def append (a b : Tensor α) : Except (Fault α) (Tensor α) :=
  match ha : a.shape, hb : b.shape with
  | m :: shape, n :: shape' =>
      if h : shape = shape' then
        .ok ⟨(m + n) :: shape, a.entries ++ b.entries, by
          rw [List.length_append, a.length_entries, b.length_entries, ha, hb, ← h]
          simp only [volume_cons, Nat.add_mul]⟩
      else .error .shapeMismatch
  | _, _ => .error .shapeMismatch

/-! ## Rows -/

/-- The array of so many times the same item. -/
def replicate (count : Nat) (a : Tensor α) : Tensor α :=
  ⟨count :: a.shape, (List.replicate count a.entries).flatten, by
    simp [List.length_flatten, a.length_entries]⟩

end Tensor

/-- An array of a given shape. -/
abbrev Row (α : Type) (shape : List Nat) := { a : Tensor α // a.shape = shape }

namespace Tensor

variable {α : Type}

/-- The array as a row of its own shape. -/
def row (a : Tensor α) : Row α a.shape := ⟨a, rfl⟩

theorem length_entries_row {shape : List Nat} (r : Row α shape) :
    r.1.entries.length = volume shape := by
  rw [r.1.length_entries, r.2]

/-- Arrays of one shape as the items of one array. -/
def ofRows {shape : List Nat} (rows : List (Row α shape)) : Tensor α :=
  ⟨rows.length :: shape, rows.flatMap fun r => r.1.entries, by
    induction rows with
    | nil => simp
    | cons r rows ih =>
        rw [List.flatMap_cons, List.length_append, length_entries_row, ih]
        simp only [volume_cons, List.length_cons, Nat.succ_mul]
        omega⟩

@[simp] theorem shape_ofRows {shape : List Nat} (rows : List (Row α shape)) :
    (ofRows rows).shape = rows.length :: shape := rfl

@[simp] theorem entries_ofRows {shape : List Nat} (rows : List (Row α shape)) :
    (ofRows rows).entries = rows.flatMap fun r => r.1.entries := rfl

/-- The items are the rows. -/
theorem item_ofRows {shape : List Nat} (rows : List (Row α shape)) {i : Nat}
    (hi : i < rows.length) : (ofRows rows).item i = .ok rows[i].1 := by
  simp only [item, ofRows, dif_pos hi]
  refine congrArg _ (ext_of_entries rows[i].2.symm ?_)
  have hp : ∀ p ∈ rows.map (fun r => r.1.entries), p.length = volume shape := by
    intro p hp
    obtain ⟨r, -, rfl⟩ := List.mem_map.1 hp
    exact length_entries_row r
  have := Vec.take_drop_flatten hp (i := i) (by simpa using hi)
  rw [List.getElem_map, ← List.flatMap_def] at this
  exact this

/-- An array that is made of rows has no items past them. -/
theorem item_ofRows_of_le {shape : List Nat} (rows : List (Row α shape)) {i : Nat}
    (hi : rows.length ≤ i) : (ofRows rows).item i = .error .missingEntry := by
  simp only [item, ofRows, dif_neg (Nat.not_lt.2 hi)]

/-! ## Entries -/

variable [Scalar α]

/-- The array of zeros. -/
def zeros (shape : List Nat) : Tensor α :=
  ⟨shape, Vec.zeros (volume shape), Vec.length_zeros _⟩

/-- The entry at place `i`, read as zero past the end. -/
def entry (a : Tensor α) (i : Nat) : α := a.entries.getD i 0

def neg (a : Tensor α) : Tensor α := a.map fun x => -x

def scale (c : α) (a : Tensor α) : Tensor α := a.map fun x => c * x

def divide (a : Tensor α) (c : α) : Tensor α := a.map fun x => x / c

/-- Whether every entry equals zero. -/
def isZero (a : Tensor α) : Bool := Vec.isZero a.entries

/-- The euclidean norm of all entries. -/
def norm (a : Tensor α) : α := Vec.norm a.entries

@[simp] theorem scale_ofVec (c : α) (v : Vec α) : (ofVec v).scale c = ofVec (Vec.scale c v) :=
  ext_of_entries (by simp [scale, Vec.scale]) rfl

end Tensor

/-! ## Extents

An array may be asked for by extents that come from a caller.  These are whole
numbers of any sign and size, and not every list of them is a shape: an extent
below zero is none, the size of an array has to fit a machine word, and the array
has to fit into memory.  An extent of zero does not make up for the others, but an
array without entries fits anywhere. -/

namespace Tensor

variable {α : Type}

/-- The bound of the indices of an array, and of the size of an array in bytes. -/
def indexBound : Int := Nat.pow 2 63

/-- The bytes of an entry. -/
def entryBytes : Nat := 8

/-- Whether a whole number can be an index. -/
def isIndex (n : Int) : Bool := -indexBound ≤ n && n < indexBound

/-- Refuse the extents of an array that cannot be. -/
def checkExtents (extents : List Int) : Except (Fault α) Unit :=
  if extents.any fun n => !isIndex n then .error .oversized
  else if extents.any (· < 0) then .error .negativeExtent
  else if indexBound ≤ entryBytes * (extents.filter (· ≠ 0)).foldl (· * ·) 1 then
    .error .oversized
  else .ok ()

/-- Refuse the extents of an array that cannot be, or that memory has no room for. -/
def checkRoom [Scalar α] (extents : List Int) : Except (Fault α) Unit := do
  checkExtents extents
  if Scalar.memory α ≤ entryBytes * volume (extents.map Int.toNat) then throw .exhausted

/-- The array of zeros of given extents. -/
def blank [Scalar α] (extents : List Int) : Except (Fault α) (Tensor α) := do
  checkRoom extents
  return zeros (extents.map Int.toNat)

/-- The extents of a matrix with so many entries, one of which may be left open. -/
def resolve? (size : Nat) (height width : Int) : Option (Int × Int) :=
  if height < 0 then
    if 0 < width ∧ (size : Int) % width = 0 then some (size / width, width) else none
  else if width < 0 then
    if 0 < height ∧ (size : Int) % height = 0 then some (height, size / height) else none
  else some (height, width)

/-- The entries as a matrix.  The height is taken as it was given. -/
def reshape (height : Datum α) (width : Int) (a : Tensor α) : Except (Fault α) (Tensor α) := do
  let height ← height.extent
  if !(isIndex height && isIndex width) then throw .oversized
  match resolve? a.entries.length height width with
  | none => throw .shapeMismatch
  | some (m, n) =>
      if h : a.entries.length = volume [m.toNat, n.toNat] then
        checkExtents [m, n]
        return ⟨[m.toNat, n.toNat], a.entries, h⟩
      else throw .shapeMismatch

end Tensor

/-! ## Nodes

A horizon is walked along node by node, and an array of nodes is read at one
place after another.  A path is an array laid out for that: an item is found
without passing those before it.  It is the item all the same (`node_path`). -/

/-- An array laid out for being read item by item. -/
structure Path (α : Type) where
  shape : List Nat
  entries : Array α
  size_entries : entries.size = volume shape

variable {α : Type}

/-- The array laid out for being read item by item. -/
def Tensor.path (a : Tensor α) : Path α :=
  ⟨a.shape, a.entries.toArray, by rw [List.size_toArray, a.length_entries]⟩

/-- There are as many entries from node `i` to the next as an item has. -/
theorem Path.length_extract (p : Path α) {n i : Nat} {shape : List Nat} (h : p.shape = n :: shape)
    (hi : i < n) :
    (p.entries.extract (i * volume shape) (i * volume shape + volume shape)).toList.length =
      volume shape := by
  have hle : (i + 1) * volume shape ≤ p.entries.size := by
    rw [p.size_entries, h, volume_cons]
    exact Nat.mul_le_mul_right _ hi
  rw [Nat.succ_mul] at hle
  rw [Array.length_toList, Array.size_extract]
  omega

/-- The item at node `i`. -/
def Path.node (p : Path α) (i : Nat) : Except (Fault α) (Tensor α) :=
  match h : p.shape with
  | [] => .error .missingEntry
  | n :: shape =>
      if hi : i < n then
        let start := i * volume shape
        .ok ⟨shape, (p.entries.extract start (start + volume shape)).toList,
          p.length_extract h hi⟩
      else .error .missingEntry

/-- A node is an item. -/
@[simp] theorem Path.node_path (a : Tensor α) (i : Nat) : a.path.node i = a.item i := by
  obtain ⟨shape, entries, h⟩ := a
  cases shape with
  | nil => rfl
  | cons n shape =>
      simp only [Tensor.path, Path.node, Tensor.item]
      split
      · refine congrArg _ (Tensor.ext_of_entries rfl ?_)
        simp [List.extract]
      · rfl

end RecedingHorizon
