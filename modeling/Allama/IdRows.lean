import Mathlib.Data.List.Nodup
import Mathlib.Algebra.BigOperators.Group.List.Basic
import Mathlib.Algebra.Ring.Nat

/-! Rows of a table that are found by their id and changed in place, and totals over the rows that others refer to. -/
namespace IdRows
variable {A K : Type} [DecidableEq K]

def rowAt (id : A → K) (k : K) (rows : List A) : Option A := rows.find? fun row => id row = k

def changeAt (id : A → K) (k : K) (f : A → A) (rows : List A) : List A :=
  rows.map fun row => if id row = k then f row else row

section Rows
variable {id : A → K} {rows : List A}

theorem rowAt_eq_some (h : (rows.map id).Nodup) {k : K} {row : A} :
    rowAt id k rows = some row ↔ row ∈ rows ∧ id row = k := by
  constructor
  · intro hfind
    exact ⟨List.mem_of_find?_eq_some hfind,by simpa using List.find?_some hfind⟩
  · rintro ⟨hmem,hid⟩
    have hsome : (rowAt id k rows).isSome := List.find?_isSome.mpr ⟨row,hmem,decide_eq_true hid⟩
    obtain ⟨found,hfound⟩ := Option.isSome_iff_exists.mp hsome
    have hsame : id found = id row := by
      rw [hid]
      simpa using List.find?_some hfound
    rw [hfound, List.inj_on_of_nodup_map h (List.mem_of_find?_eq_some hfound) hmem hsame]

theorem rowAt_mem {k : K} {row : A} (h : rowAt id k rows = some row) : row ∈ rows ∧ id row = k :=
  ⟨List.mem_of_find?_eq_some h,by simpa using List.find?_some h⟩

theorem rowAt_eq_none {k : K} : rowAt id k rows = none ↔ k ∉ rows.map id := by
  rw [rowAt, List.find?_eq_none, List.mem_map]
  constructor
  · rintro h ⟨row,hmem,hid⟩
    exact h row hmem (decide_eq_true hid)
  · intro h row hmem hid
    exact h ⟨row,hmem,of_decide_eq_true hid⟩

theorem ids_changeAt (k : K) {f : A → A} (hf : ∀ a, id (f a) = id a) (rows : List A) :
    (changeAt id k f rows).map id = rows.map id := by
  rw [changeAt, List.map_map]
  apply List.map_congr_left
  intro row _
  change id (if id row = k then f row else row) = id row
  split
  · exact hf row
  · rfl

theorem rowAt_changeAt (k : K) {f : A → A} (hf : ∀ a, id (f a) = id a) (rows : List A) (j : K) :
    rowAt id j (changeAt id k f rows) = if j = k then (rowAt id j rows).map f else rowAt id j rows := by
  induction rows with
  | nil => simp [rowAt, changeAt]
  | cons row rows ih =>
    have hid : id (if id row = k then f row else row) = id row := by
      split
      · exact hf row
      · rfl
    change ((if id row = k then f row else row) :: changeAt id k f rows).find? _ = _
    rw [List.find?_cons, rowAt, List.find?_cons, hid]
    by_cases hj : id row = j
    · simp only [hj, decide_true]
      split <;> rfl
    · simp only [hj, decide_false]
      exact ih

theorem rowAt_append (row : A) (hfresh : id row ∉ rows.map id) (j : K) :
    rowAt id j (rows ++ [row]) = if j = id row then some row else rowAt id j rows := by
  rw [rowAt, List.find?_append, List.find?_cons]
  change (rowAt id j rows).or _ = _
  by_cases hj : j = id row
  · subst hj
    rw [rowAt_eq_none.mpr hfresh]
    simp
  · simp [Ne.symm hj, hj]

omit [DecidableEq K] in
theorem nodup_append {row : A} (h : (rows.map id).Nodup) (hfresh : id row ∉ rows.map id) :
    ((rows ++ [row]).map id).Nodup := by
  rw [List.map_append, List.map_singleton]
  exact List.nodup_append.mpr ⟨h,List.nodup_singleton _,fun a ha b hb => by
    rw [List.mem_singleton] at hb
    rintro rfl
    exact hfresh (hb ▸ ha)⟩

end Rows

theorem sum_map_change {references : List K} (hnodup : references.Nodup) {w w' : K → Nat} {k : K} (hk : k ∈ references)
    (hother : ∀ j, j ≠ k → w' j = w j) : (references.map w').sum + w k = (references.map w).sum + w' k := by
  induction references with
  | nil => cases hk
  | cons j js ih =>
    obtain ⟨hj,hjs⟩ := List.nodup_cons.mp hnodup
    rw [List.map_cons, List.map_cons, List.sum_cons, List.sum_cons]
    by_cases heq : j = k
    · -- the row that changes is not referred to again
      have hrest : js.map w' = js.map w := by
        apply List.map_congr_left
        intro i hi
        apply hother
        rintro rfl
        exact hj (heq ▸ hi)
      rw [hrest, heq]
      omega
    · have hsame := hother j heq
      have hsum := ih hjs ((List.mem_cons.mp hk).resolve_left (Ne.symm heq))
      omega

omit [DecidableEq K] in
theorem map_same {references : List K} {w w' : K → Nat} {k : K} (hk : k ∉ references) (hother : ∀ j, j ≠ k → w' j = w j) :
    references.map w' = references.map w := by
  apply List.map_congr_left
  intro j hj
  apply hother
  rintro rfl
  exact hk hj

omit [DecidableEq K] in
theorem sum_map_le {references : List K} {w w' : K → Nat} (h : ∀ j ∈ references, w' j ≤ w j) :
    (references.map w').sum ≤ (references.map w).sum := by
  induction references with
  | nil => exact Nat.le_refl _
  | cons j js ih =>
    rw [List.map_cons, List.map_cons, List.sum_cons, List.sum_cons]
    exact Nat.add_le_add (h j List.mem_cons_self) (ih fun i hi => h i (List.mem_cons_of_mem _ hi))

end IdRows
