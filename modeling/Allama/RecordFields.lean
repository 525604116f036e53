import Mathlib.Data.List.Nodup

/-! Records as fields by name, and dicts in the order of their keys. -/
namespace RecordFields
variable {K V : Type} [BEq K] [LawfulBEq K]

theorem lookup_of_mem {k : K} {v : V} {fields : List (K × V)} (hnodup : (fields.map Prod.fst).Nodup)
    (h : (k,v) ∈ fields) : fields.lookup k = some v := by
  induction fields with
  | nil => cases h
  | cons f fields ih =>
    rw [List.map_cons, List.nodup_cons] at hnodup
    rw [List.lookup_cons]
    rcases List.mem_cons.mp h with rfl | h
    · rw [beq_self_eq_true]
    · have hne : k ≠ f.1 := fun heq => hnodup.1 (heq ▸ List.mem_map_of_mem h)
      rw [beq_false_of_ne hne]
      exact ih hnodup.2 h

theorem mem_of_lookup {k : K} {v : V} {fields : List (K × V)} (h : fields.lookup k = some v) : (k,v) ∈ fields := by
  obtain ⟨before,after,rfl,-⟩ := List.lookup_eq_some_iff.mp h
  simp

theorem lookup_eq_none_of_notMem {k : K} {fields : List (K × V)} (h : k ∉ fields.map Prod.fst) :
    fields.lookup k = none := by
  apply List.lookup_eq_none_iff.mpr
  intro f hf
  apply bne_iff_ne.mpr
  rintro rfl
  exact h (List.mem_map_of_mem hf)

theorem notMem_of_lookup {k : K} {fields : List (K × V)} (h : fields.lookup k = none) : k ∉ fields.map Prod.fst := by
  intro hk
  obtain ⟨f,hf,rfl⟩ := List.mem_map.mp hk
  exact bne_iff_ne.mp (List.lookup_eq_none_iff.mp h f hf) rfl

theorem lookup_append_key {k : K} {v : V} {fields : List (K × V)} (hfree : fields.lookup k = none) (j : K) :
    (fields ++ [(k,v)]).lookup j = if j == k then some v else fields.lookup j := by
  rw [List.lookup_append, List.lookup_cons]
  by_cases hj : j = k
  · rw [hj, hfree, beq_self_eq_true]
    rfl
  · rw [beq_false_of_ne hj]
    exact Option.or_none ..

theorem lookup_filter_key (p : K → Bool) (fields : List (K × V)) (k : K) :
    (fields.filter fun f => p f.1).lookup k = if p k then fields.lookup k else none := by
  induction fields with
  | nil => cases p k <;> rfl
  | cons f fields ih =>
    by_cases hk : k = f.1
    · subst hk
      cases hp : p f.1 with
      | false =>
        rw [List.filter_cons_of_neg (by rw [hp]; decide), ih, hp]
        rfl
      | true =>
        rw [List.filter_cons_of_pos (p := fun f : K × V => p f.1) hp, List.lookup_cons, List.lookup_cons, beq_self_eq_true]
        rfl
    · cases hp : p f.1 with
      | false =>
        rw [List.filter_cons_of_neg (by rw [hp]; decide), ih, List.lookup_cons, beq_false_of_ne hk]
      | true => rw [List.filter_cons_of_pos (p := fun f : K × V => p f.1) hp, List.lookup_cons, List.lookup_cons, beq_false_of_ne hk, ih]

/-- `fields[k] = v`: a key that is there keeps its place. -/
def put {K V : Type} [BEq K] (k : K) (v : V) (fields : List (K × V)) : List (K × V) :=
  if (fields.lookup k).isSome then fields.map fun f => if f.1 == k then (k,v) else f else fields ++ [(k,v)]

theorem lookup_replaced (k : K) (v : V) (fields : List (K × V)) (j : K) :
    (fields.map fun f => if f.1 == k then (k,v) else f).lookup j =
      if j == k then (fields.lookup k).map (fun _ => v) else fields.lookup j := by
  induction fields with
  | nil => cases j == k <;> rfl
  | cons f fields ih =>
    obtain ⟨i,w⟩ := f
    rw [List.map_cons]
    by_cases hi : i = k
    · subst hi
      rw [if_pos (beq_self_eq_true i), List.lookup_cons, ih]
      by_cases hj : j = i
      · simp [hj]
      · simp [beq_false_of_ne hj, List.lookup_cons]
    · rw [if_neg (by simpa using hi), List.lookup_cons, ih]
      by_cases hj : j = k
      · simp [hj, List.lookup_cons, beq_false_of_ne (Ne.symm hi)]
      · simp [beq_false_of_ne hj, List.lookup_cons]

theorem lookup_put (k : K) (v : V) (fields : List (K × V)) (j : K) :
    (put k v fields).lookup j = if j == k then some v else fields.lookup j := by
  rw [put]
  cases hk : fields.lookup k with
  | none => exact lookup_append_key hk j
  | some w =>
    rw [if_pos Option.isSome_some, lookup_replaced, hk]
    rfl

theorem keys_put (k : K) (v : V) {fields : List (K × V)} (h : (fields.map Prod.fst).Nodup) :
    ((put k v fields).map Prod.fst).Nodup := by
  rw [put]
  cases hk : fields.lookup k with
  | none =>
    rw [if_neg (by simp), List.map_append]
    exact h.append (List.nodup_singleton k) (List.disjoint_singleton.mpr (notMem_of_lookup hk))
  | some w =>
    have hkeys : (fields.map fun f => if f.1 == k then (k,v) else f).map Prod.fst = fields.map Prod.fst := by
      rw [List.map_map]
      apply List.map_congr_left
      intro f _
      change (if f.1 == k then (k,v) else f).1 = f.1
      split
      · rename_i hf
        exact (beq_iff_eq.mp hf).symm
      · rfl
    rw [if_pos Option.isSome_some, hkeys]
    exact h

theorem lookup_putAll (rows fields : List (K × V)) (k : K) :
    (rows.foldl (fun fields row => put row.1 row.2 fields) fields).lookup k = (rows.reverse.lookup k).or (fields.lookup k) := by
  induction rows generalizing fields with
  | nil => rfl
  | cons row rows ih =>
    rw [List.foldl_cons, ih, lookup_put, List.reverse_cons, List.lookup_append, List.lookup_cons]
    by_cases hk : k = row.1
    · rw [hk, beq_self_eq_true, Option.or_assoc]
      rfl
    · rw [beq_false_of_ne hk, Option.or_assoc]
      rfl

theorem lookup_reverse {fields : List (K × V)} (hnodup : (fields.map Prod.fst).Nodup) (k : K) :
    fields.reverse.lookup k = fields.lookup k := by
  cases h : fields.lookup k with
  | none =>
    apply lookup_eq_none_of_notMem
    rw [List.map_reverse, List.mem_reverse]
    exact notMem_of_lookup h
  | some v =>
    apply lookup_of_mem
    · rw [List.map_reverse]
      exact List.nodup_reverse.mpr hnodup
    · exact List.mem_reverse.mpr (mem_of_lookup h)

theorem keys_putAll (rows : List (K × V)) {fields : List (K × V)} (h : (fields.map Prod.fst).Nodup) :
    ((rows.foldl (fun fields row => put row.1 row.2 fields) fields).map Prod.fst).Nodup := by
  induction rows generalizing fields with
  | nil => exact h
  | cons row rows ih => exact ih (keys_put row.1 row.2 h)

omit [LawfulBEq K] in
theorem lookup_mapValues {W : Type} (g : V → W) (fields : List (K × V)) (k : K) :
    (fields.map fun f => (f.1,g f.2)).lookup k = (fields.lookup k).map g := by
  induction fields with
  | nil => rfl
  | cons f fields ih =>
    obtain ⟨i,v⟩ := f
    rw [List.map_cons, List.lookup_cons, List.lookup_cons, ih]
    cases k == i <;> rfl

theorem filter_eq_singleton {A : Type} {p : A → Bool} {a : A} {xs : List A} (hnodup : xs.Nodup) (ha : a ∈ xs) (hp : p a = true)
    (honly : ∀ x ∈ xs, p x = true → x = a) : xs.filter p = [a] := by
  induction xs with
  | nil => cases ha
  | cons x xs ih =>
    rw [List.nodup_cons] at hnodup
    have htail := fun y hy => honly y (List.mem_cons_of_mem x hy)
    by_cases hx : p x = true
    · obtain rfl := honly x List.mem_cons_self hx
      have hnone : xs.filter p = [] := by
        apply List.filter_eq_nil_iff.mpr
        intro y hy hpy
        exact hnodup.1 (htail y hy hpy ▸ hy)
      rw [List.filter_cons_of_pos hx, hnone]
    · have hmem : a ∈ xs := by
        rcases List.mem_cons.mp ha with rfl | hmem
        · exact absurd hp hx
        · exact hmem
      rw [List.filter_cons_of_neg hx]
      exact ih hnodup.2 hmem htail

end RecordFields
