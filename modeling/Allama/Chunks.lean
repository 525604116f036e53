import Mathlib.Data.List.Basic
import Mathlib.Data.Int.Notation
import Mathlib.Tactic.SplitIfs

/-! Lists cut into chunks of one size, and windows of a list read from its chunks. -/
namespace Chunks
variable {α : Type} {xs : List α} {size i o e lo mid hi : ℕ}

/-- The elements at the positions from `lo` on and before `hi`. -/
def slice (lo hi : ℕ) (xs : List α) : List α := (xs.take hi).drop lo

theorem slice_eq_nil (h : hi ≤ lo) : slice lo hi xs = [] := by
  apply List.drop_eq_nil_of_le
  rw [List.length_take]
  omega

theorem slice_append (h : lo ≤ mid) (h' : mid ≤ hi) :
    slice lo mid xs ++ slice mid hi xs = slice lo hi xs := by
  have hmid : xs.take mid = (xs.take hi).take mid := by
    rw [List.take_take, Nat.min_eq_left h']
  calc
    slice lo mid xs ++ slice mid hi xs =
        ((xs.take hi).take mid).drop lo ++ ((xs.take hi).drop mid) := by rw [slice, slice, hmid]
    _ = slice lo hi xs := by
      rw [slice, List.drop_take]
      have hsplit : (xs.take hi).drop mid = ((xs.take hi).drop lo).drop (mid-lo) := by
        rw [List.drop_drop, Nat.add_sub_cancel' h]
      rw [hsplit, List.take_append_drop]

theorem slice_drop (n : ℕ) : slice lo hi (xs.drop n) = slice (n+lo) (n+hi) xs := by
  rw [slice, slice, List.take_drop, List.drop_drop]

theorem slice_take (n : ℕ) : slice lo hi (xs.take n) = slice lo (min hi n) xs := by
  rw [slice, slice, List.take_take]

def clamp (n : ℕ) (i : ℤ) : ℕ := if i < 0 then (i+n).toNat else min i.toNat n

/-- `xs[start:stop]`. -/
def pySlice (xs : List α) (start stop : ℤ) : List α :=
  slice (clamp xs.length start) (clamp xs.length stop) xs

theorem slice_min_length : slice lo (min hi xs.length) xs = slice lo hi xs := by
  rw [← slice_take, List.take_length]

theorem slice_min_length_left : slice (min lo xs.length) hi xs = slice lo hi xs := by
  rcases Nat.le_total lo xs.length with h | h
  · rw [Nat.min_eq_left h]
  · have hnil (k : ℕ) (hk : xs.length ≤ k) : slice k hi xs = [] := by
      apply List.drop_eq_nil_of_le
      rw [List.length_take]
      omega
    rw [Nat.min_eq_right h, hnil _ (Nat.le_refl _), hnil _ h]

theorem pySlice_natCast (lo hi : ℕ) : pySlice xs lo hi = slice lo hi xs := by
  have hclamp (k : ℕ) : clamp xs.length k = min k xs.length := by
    rw [clamp, if_neg (by omega), Int.toNat_natCast]
  rw [pySlice, hclamp, hclamp, slice_min_length, slice_min_length_left]

/-- `xs[i]`, which counts from the end when `i` is negative. -/
def pyGet? (xs : List α) (i : ℤ) : Option α :=
  if i < 0 then if i+xs.length < 0 then none else xs[(i+xs.length).toNat]? else xs[i.toNat]?

theorem pyGet?_natCast (i : ℕ) : pyGet? xs i = xs[i]? := by
  rw [pyGet?, if_neg (by omega), Int.toNat_natCast]

/-- `range(start, stop)`. -/
def pyRange (start stop : ℤ) : List ℤ := (List.range (stop-start).toNat).map fun k : ℕ => start+(k : ℤ)

theorem pyRange_natCast (a b : ℕ) : pyRange a b = (List.range' a (b-a)).map fun k : ℕ => (k : ℤ) := by
  have hlength : ((b : ℤ)-a).toNat = b-a := by omega
  rw [pyRange, hlength, List.range'_eq_map_range, List.map_map]
  apply List.map_congr_left
  intro k _
  exact (Int.natCast_add a k).symm

theorem pyRange_eq_nil {start stop : ℤ} (h : stop ≤ start) : pyRange start stop = [] := by
  have hlength : (stop-start).toNat = 0 := by omega
  rw [pyRange, hlength, List.range_zero, List.map_nil]

def chunk (size i : ℕ) (xs : List α) : List α := (xs.drop (i*size)).take size

theorem pySlice_chunk (size i : ℕ) :
    pySlice xs (i*size : ℕ) (min (i*size+size) xs.length : ℕ) = chunk size i xs := by
  rw [pySlice_natCast, slice_min_length, chunk, slice, List.take_drop]

theorem getElem?_chunk (h : 0 < size) (k : ℕ) : (chunk size (k/size) xs)[k%size]? = xs[k]? := by
  rw [chunk, List.getElem?_take_of_lt (Nat.mod_lt k h), List.getElem?_drop, Nat.div_add_mod']

theorem slice_chunk :
    slice (o-i*size) (e-i*size) (chunk size i xs) = slice (max o (i*size)) (min e (i*size+size)) xs := by
  rw [chunk, slice_take, slice_drop]
  rcases Nat.le_total e (i*size) with h | h
  · rw [slice_eq_nil (by omega), slice_eq_nil (by omega)]
  · congr 1 <;> omega

/-- Read from `n` chunks in a row, a window gives what it has between their ends. -/
theorem flatMap_chunks (a n : ℕ) :
    (List.range' a n).flatMap (fun i => slice (o-i*size) (e-i*size) (chunk size i xs)) =
      slice (max o (a*size)) (min e ((a+n)*size)) xs := by
  induction n with
  | zero =>
    rw [List.range'_zero, List.flatMap_nil, slice_eq_nil]
    rw [Nat.add_zero]
    omega
  | succ n ih =>
    have hb : a*size ≤ (a+n)*size := Nat.mul_le_mul_right size (by omega)
    have hnext : (a+(n+1))*size = (a+n)*size+size := by rw [← Nat.add_assoc, Nat.succ_mul]
    rw [List.range'_concat, Nat.one_mul, List.flatMap_append, ih, List.flatMap_singleton, slice_chunk, hnext]
    generalize (a+n)*size = b at hb
    -- the window ends in the chunks before, starts in the last one, or goes through both
    rcases Nat.le_total e b with he | he
    · rw [slice_eq_nil (by omega : min e (b+size) ≤ max o b), List.append_nil]
      congr 1
      omega
    rcases Nat.le_total o b with ho | ho
    · rw [Nat.max_eq_right ho, Nat.min_eq_right he]
      exact slice_append (by omega) (by omega)
    · rw [slice_eq_nil (by omega), List.nil_append]
      congr 1
      omega

theorem page_of_chunks (hsize : 0 < size) (o e : ℕ) :
    (List.range' (o/size) ((e-1)/size+1-o/size)).flatMap
      (fun i => slice (o-i*size) (e-i*size) (chunk size i xs)) = slice o e xs := by
  have hfirst : o/size*size ≤ o := Nat.div_mul_le_self o size
  rw [flatMap_chunks, Nat.max_eq_left hfirst]
  rcases Nat.lt_or_ge o e with h | h
  · have hlast : e ≤ ((e-1)/size+1)*size := by
      have := Nat.lt_div_mul_add (a := e-1) hsize
      rw [Nat.add_mul, Nat.one_mul]
      omega
    have horder : o/size ≤ (e-1)/size := Nat.div_le_div_right (by omega)
    rw [Nat.add_sub_cancel' (by omega), Nat.min_eq_left hlast]
  · -- nothing is in the window, whatever the chunks
    rw [slice_eq_nil h, slice_eq_nil (by omega)]

def numChunks (size count : ℕ) : ℕ := (count+size-1)/size

theorem lt_numChunks (hsize : 0 < size) {count : ℕ} : i < numChunks size count ↔ i*size < count := by
  rw [numChunks, Nat.lt_iff_add_one_le, Nat.le_div_iff_mul_le hsize, Nat.add_mul, Nat.one_mul]
  omega

end Chunks
