import Mathlib.Data.List.Basic
import Mathlib.Logic.Function.Basic
import Mathlib.Tactic.SplitIfs

/-! A cache that holds values up to a total size. The least recently used ones make room for a new one. -/
namespace SizedCaches
variable {κ ν : Type}

def total (sizes : List (κ × ℕ)) : ℕ := sizes.foldr (fun e n => e.2+n) 0

theorem total_cons (e : κ × ℕ) (sizes : List (κ × ℕ)) :
    total (e :: sizes) = e.2+total sizes := rfl

@[simp] theorem total_singleton (e : κ × ℕ) : total [e] = e.2 := rfl

theorem total_append (sizes sizes' : List (κ × ℕ)) : total (sizes ++ sizes') = total sizes+total sizes' := by
  induction sizes with
  | nil => exact (Nat.zero_add _).symm
  | cons e sizes ih =>
    rw [List.cons_append, total_cons, total_cons, ih]
    omega

variable [DecidableEq κ]

def forget (k : κ) (sizes : List (κ × ℕ)) : List (κ × ℕ) := sizes.filter fun e => e.1 ≠ k

def touch (k : κ) (sizes : List (κ × ℕ)) : List (κ × ℕ) :=
  match sizes.find? fun e => e.1 = k with
  | none => sizes
  | some e => forget k sizes ++ [e]

/-- Entries are dropped from the front until `size` more fits. -/
def evict (maxBytes size : ℕ) : List (κ × ℕ) → (κ → Option ν) → List (κ × ℕ) × (κ → Option ν)
  | [], values => ([],values)
  | e :: sizes, values =>
    if maxBytes < total (e :: sizes)+size then evict maxBytes size sizes (Function.update values e.1 none)
    else (e :: sizes,values)

theorem total_forget_le (k : κ) (sizes : List (κ × ℕ)) : total (forget k sizes) ≤ total sizes := by
  induction sizes with
  | nil => exact Nat.le_refl _
  | cons e sizes ih =>
    rw [forget, List.filter_cons]
    split_ifs
    · exact Nat.add_le_add_left ih e.2
    · exact Nat.le_trans ih (Nat.le_add_left _ _)

theorem total_touch_le (k : κ) (sizes : List (κ × ℕ)) : total (touch k sizes) ≤ total sizes := by
  unfold touch
  cases hfind : sizes.find? (fun e => e.1 = k) with
  | none => exact Nat.le_refl _
  | some e =>
    rw [total_append]
    induction sizes with
    | nil => simp at hfind
    | cons e' sizes ih =>
      rw [List.find?_cons] at hfind
      rw [forget, List.filter_cons]
      by_cases he : e'.1 = k
      · -- the entry that is found is the one dropped here
        obtain rfl : e' = e := by simpa [he] using hfind
        have hrest := total_forget_le k sizes
        rw [if_neg (by simpa using he), total_cons e' sizes, total_singleton]
        change total (forget k sizes)+e'.2 ≤ _
        omega
      · have hrest := ih (by simpa [he] using hfind)
        rw [if_pos (by simpa using he), total_cons e' sizes, total_cons e']
        change e'.2+total (forget k sizes)+total [e] ≤ _
        omega

theorem total_evict_le {maxBytes size : ℕ} (h : size ≤ maxBytes) (sizes : List (κ × ℕ))
    (values : κ → Option ν) : total (evict maxBytes size sizes values).1+size ≤ maxBytes := by
  induction sizes generalizing values with
  | nil => simpa [evict, total] using h
  | cons e sizes ih =>
    unfold evict
    split_ifs with hroom
    · exact ih _
    · exact Nat.le_of_not_lt hroom

theorem evict_values {maxBytes size : ℕ} {sizes : List (κ × ℕ)} {values : κ → Option ν} {k : κ} {v : ν}
    (h : (evict maxBytes size sizes values).2 k = some v) : values k = some v := by
  induction sizes generalizing values with
  | nil => exact h
  | cons e sizes ih =>
    unfold evict at h
    split_ifs at h
    · have hupdated := ih h
      by_cases hk : k = e.1
      · rw [hk, Function.update_self] at hupdated
        cases hupdated
      · rwa [Function.update_of_ne hk] at hupdated
    · exact h

end SizedCaches

open SizedCaches

/-- The values, and the sizes that are counted, the least recently used first. -/
structure SizedCache (κ ν : Type) (maxBytes : ℕ) where
  values : κ → Option ν
  sizes : List (κ × ℕ)
  fits : total sizes ≤ maxBytes

namespace SizedCache
variable {κ ν : Type} {maxBytes : ℕ}

def empty : SizedCache κ ν maxBytes := ⟨fun _ => none,[],Nat.zero_le _⟩

variable [DecidableEq κ]

def expire (c : SizedCache κ ν maxBytes) (k : κ) : SizedCache κ ν maxBytes :=
  ⟨Function.update c.values k none,c.sizes,c.fits⟩

def get (c : SizedCache κ ν maxBytes) (k : κ) : Option ν × SizedCache κ ν maxBytes :=
  match c.values k with
  | none => (none,⟨c.values,forget k c.sizes,Nat.le_trans (total_forget_le k c.sizes) c.fits⟩)
  | some v => (some v,⟨c.values,touch k c.sizes,Nat.le_trans (total_touch_le k c.sizes) c.fits⟩)

def set (size : ν → ℕ) (c : SizedCache κ ν maxBytes) (k : κ) (v : ν) : SizedCache κ ν maxBytes :=
  if h : maxBytes < size v then c
  else
    let kept := evict maxBytes (size v) (forget k c.sizes) c.values
    have hfits : total (kept.1 ++ [(k,size v)]) ≤ maxBytes := by
      rw [total_append]
      exact total_evict_le (Nat.le_of_not_lt h) _ _
    ⟨Function.update kept.2 k (some v),kept.1 ++ [(k,size v)],hfits⟩

@[simp] theorem get_fst (c : SizedCache κ ν maxBytes) (k : κ) : (c.get k).1 = c.values k := by
  unfold get
  cases h : c.values k <;> rfl

@[simp] theorem get_values (c : SizedCache κ ν maxBytes) (k : κ) : (c.get k).2.values = c.values := by
  unfold get
  cases h : c.values k <;> rfl

theorem set_values {size : ν → ℕ} {c : SizedCache κ ν maxBytes} {k j : κ} {v w : ν}
    (h : (c.set size k v).values j = some w) : (j = k ∧ w = v) ∨ c.values j = some w := by
  unfold set at h
  split_ifs at h with hsize
  · exact .inr h
  · by_cases hj : j = k
    · subst hj
      exact .inl ⟨rfl,(Option.some.inj ((Function.update_self j _ _).symm.trans h)).symm⟩
    · have hkept := (Function.update_of_ne hj _ _).symm.trans h
      exact .inr (evict_values hkept)

theorem expire_values {c : SizedCache κ ν maxBytes} {k j : κ} {w : ν}
    (h : (c.expire k).values j = some w) : c.values j = some w := by
  by_cases hj : j = k
  · subst hj
    cases (Function.update_self j _ _).symm.trans h
  · exact (Function.update_of_ne hj _ _).symm.trans h

end SizedCache
