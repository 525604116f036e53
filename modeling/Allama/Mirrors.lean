import Mathlib.Data.List.Forall2
import Mathlib.Data.List.Nodup

/-! Two lists that mirror each other: one is written by the ids of its entries, the other by their names. -/
namespace Mirrors
variable {A B K I : Type} [DecidableEq K] [DecidableEq I]

def replaceAt {A K : Type} [DecidableEq K] (key : A → K) (k : K) (a : A) (xs : List A) : List A :=
  xs.map fun x => if key x = k then a else x

def removeAt {A K : Type} [DecidableEq K] (key : A → K) (k : K) (xs : List A) : List A := xs.filter fun x => key x ≠ k

/-- Related entries in the same order, of which no two share an id or a name. -/
structure Mirrored (R : A → B → Prop) (id : A → I) (name : A → K) (xs : List A) (ys : List B) : Prop where
  related : List.Forall₂ R xs ys
  ids : (xs.map id).Nodup
  names : (xs.map name).Nodup

section Lists
variable {R : A → B → Prop} {id : A → I} {name : A → K} {name' : B → K} {xs : List A} {ys : List B}

omit [DecidableEq K] [DecidableEq I] in
theorem Mirrored.nil : Mirrored R id name [] [] := ⟨.nil,List.nodup_nil,List.nodup_nil⟩

omit [DecidableEq K] [DecidableEq I] in
theorem names_eq (hname : ∀ x y, R x y → name' y = name x) (h : List.Forall₂ R xs ys) : ys.map name' = xs.map name := by
  induction h with
  | nil => rfl
  | cons hxy _ ih => rw [List.map_cons, List.map_cons, hname _ _ hxy, ih]

omit [DecidableEq I] in
theorem Mirrored.find (h : Mirrored R id name xs ys) (hname : ∀ x y, R x y → name' y = name x) {a : A} (ha : a ∈ xs) :
    ∃ b, ys.find? (name' · = name a) = some b ∧ R a b := by
  obtain ⟨hrelated,-,hnames⟩ := h
  induction hrelated with
  | nil => cases ha
  | @cons x y xs ys hxy _ ih =>
    rw [List.map_cons, List.nodup_cons] at hnames
    rcases List.mem_cons.mp ha with rfl | hmem
    · exact ⟨y,List.find?_cons_of_pos (decide_eq_true (hname _ _ hxy)),hxy⟩
    · have hne : name' y ≠ name a := by
        intro heq
        apply hnames.1
        rw [← hname _ _ hxy, heq]
        exact List.mem_map_of_mem hmem
      rw [List.find?_cons_of_neg (by simpa using hne)]
      exact ih hmem hnames.2

theorem map_replaceAt {L : Type} (key : A → I) (f : A → L) (i : I) (a : A) (xs : List A) :
    (replaceAt key i a xs).map f = xs.map fun x => if key x = i then f a else f x := by
  rw [replaceAt, List.map_map]
  apply List.map_congr_left
  intro x _
  change f (if key x = i then a else x) = _
  split <;> rfl

omit [DecidableEq K] in
theorem ids_replaceAt {a b : A} (hid : id b = id a) (xs : List A) : (replaceAt id (id a) b xs).map id = xs.map id := by
  rw [map_replaceAt]
  apply List.map_congr_left
  intro x _
  split
  · rename_i hx
    rw [hid, hx]
  · rfl

omit [DecidableEq K] in
theorem names_replaceAt {a b : A} (hids : (xs.map id).Nodup) (hnames : (xs.map name).Nodup)
    (hfree : ∀ x ∈ xs, id x ≠ id a → name x ≠ name b) : ((replaceAt id (id a) b xs).map name).Nodup := by
  rw [map_replaceAt]
  apply List.Nodup.map_on _ (List.Nodup.of_map _ hids)
  intro x hx y hy heq
  by_cases hxa : id x = id a
  · by_cases hya : id y = id a
    · exact List.inj_on_of_nodup_map hids hx hy (hxa.trans hya.symm)
    · rw [if_pos hxa, if_neg hya] at heq
      exact absurd heq.symm (hfree y hy hya)
  · by_cases hya : id y = id a
    · rw [if_neg hxa, if_pos hya] at heq
      exact absurd heq (hfree x hx hxa)
    · rw [if_neg hxa, if_neg hya] at heq
      exact List.inj_on_of_nodup_map hnames hx hy heq

omit [DecidableEq K] [DecidableEq I] in
theorem Mirrored.same (h : Mirrored R id name xs ys) (hname : ∀ x y, R x y → name' y = name x) {a x : A} {y : B} (ha : a ∈ xs)
    (hx : x ∈ xs) (hxy : R x y) : id x = id a ↔ name' y = name a := by
  rw [hname x y hxy]
  constructor
  · intro hid
    rw [List.inj_on_of_nodup_map h.ids hx ha hid]
  · intro heq
    rw [List.inj_on_of_nodup_map h.names hx ha heq]

omit [DecidableEq I] in
theorem find_replaceAt (name : A → K) {k : K} {a : A} (hk : k ∈ xs.map name) (hnew : name a = k ∨ name a ∉ xs.map name) :
    (replaceAt name k a xs).find? (name · = name a) = some a := by
  have hother : ∀ x ∈ xs, name x ≠ k → name x ≠ name a := by
    intro x hx hne heq
    rcases hnew with hsame | hfree
    · exact hne (heq.trans hsame)
    · exact hfree (heq ▸ List.mem_map_of_mem hx)
  clear hnew
  induction xs with
  | nil => cases hk
  | cons x xs ih =>
    rw [replaceAt, List.map_cons]
    by_cases hx : name x = k
    · rw [if_pos hx]
      exact List.find?_cons_of_pos (decide_eq_true rfl)
    · rw [if_neg hx, List.find?_cons_of_neg (by simpa using hother x List.mem_cons_self hx)]
      apply ih
      · exact (List.mem_cons.mp hk).resolve_left fun heq => hx heq.symm
      · exact fun y hy => hother y (List.mem_cons_of_mem _ hy)

omit [DecidableEq I] in
theorem replaceAt_replaceAt (name : A → K) {k : K} {a : A} (hnew : name a = k ∨ name a ∉ xs.map name) (b : A) :
    replaceAt name (name a) b (replaceAt name k a xs) = replaceAt name k b xs := by
  rw [replaceAt, replaceAt, List.map_map]
  apply List.map_congr_left
  intro x hx
  change (if name (if name x = k then a else x) = name a then b else if name x = k then a else x) = _
  by_cases hk : name x = k
  · rw [if_pos hk, if_pos hk, if_pos rfl]
  · have hne : name x ≠ name a := by
      intro heq
      rcases hnew with hsame | hfree
      · exact hk (heq.trans hsame)
      · exact hfree (heq ▸ List.mem_map_of_mem hx)
    rw [if_neg hk, if_neg hk, if_neg hne]

omit [DecidableEq I] in
theorem replaceAt_self {a : A} (hnames : (xs.map name).Nodup) (ha : a ∈ xs) : replaceAt name (name a) a xs = xs := by
  apply Eq.trans (List.map_congr_left _) (List.map_id xs)
  intro x hx
  split
  · rename_i heq
    exact (List.inj_on_of_nodup_map hnames hx ha heq).symm
  · rfl

theorem Mirrored.replace (h : Mirrored R id name xs ys) (hname : ∀ x y, R x y → name' y = name x) {a a' : A} {b' : B}
    (ha : a ∈ xs) (hR : R a' b') (hid : id a' = id a) (hfree : name a' = name a ∨ name a' ∉ ys.map name') :
    Mirrored R id name (replaceAt id (id a) a' xs) (replaceAt name' (name a) b' ys) where
  related := by
    apply List.forall₂_map_left_iff.mpr
    apply List.forall₂_map_right_iff.mpr
    have hsame : List.Forall₂ (fun x y => R x y ∧ x ∈ xs) xs ys := by
      have hrelated := h.related
      clear hfree
      rw [List.forall₂_iff_get] at hrelated ⊢
      exact ⟨hrelated.1,fun i hi hi' => ⟨hrelated.2 i hi hi',List.get_mem ..⟩⟩
    refine hsame.imp fun x y hxy => ?_
    by_cases hx : id x = id a
    · rw [if_pos hx, if_pos ((h.same hname ha hxy.2 hxy.1).mp hx)]
      exact hR
    · rw [if_neg hx, if_neg (fun heq => hx ((h.same hname ha hxy.2 hxy.1).mpr heq))]
      exact hxy.1
  ids := by
    rw [ids_replaceAt hid]
    exact h.ids
  names := by
    apply names_replaceAt h.ids h.names
    intro x hx hne heq
    rcases hfree with hsame | hfree
    · rw [hsame] at heq
      exact hne (congrArg id (List.inj_on_of_nodup_map h.names hx ha heq))
    · rw [names_eq hname h.related] at hfree
      exact hfree (heq ▸ List.mem_map_of_mem hx)

theorem Mirrored.remove (h : Mirrored R id name xs ys) (hname : ∀ x y, R x y → name' y = name x) {a : A} (ha : a ∈ xs) :
    Mirrored R id name (removeAt id (id a) xs) (removeAt name' (name a) ys) where
  related := by
    have hsame : ∀ x ∈ xs, ∀ y, R x y → (id x = id a ↔ name' y = name a) := fun x hx y hxy => h.same hname ha hx hxy
    have hrelated := h.related
    clear h ha
    induction hrelated with
    | nil => exact .nil
    | @cons x y xs ys hxy _ ih =>
      have htail := ih fun z hz => hsame z (List.mem_cons_of_mem _ hz)
      have hhead := hsame x List.mem_cons_self y hxy
      by_cases hx : id x = id a
      · rw [removeAt, removeAt, List.filter_cons_of_neg (by simpa using hx), List.filter_cons_of_neg (by simpa using hhead.mp hx)]
        exact htail
      · rw [removeAt, removeAt, List.filter_cons_of_pos (by simpa using hx),
          List.filter_cons_of_pos (by simpa using fun heq => hx (hhead.mpr heq))]
        exact .cons hxy htail
  ids := h.ids.sublist (List.filter_sublist.map _)
  names := h.names.sublist (List.filter_sublist.map _)

omit [DecidableEq K] [DecidableEq I] in
theorem Mirrored.append (h : Mirrored R id name xs ys) (hname : ∀ x y, R x y → name' y = name x) {a : A} {b : B} (hR : R a b)
    (hid : id a ∉ xs.map id) (hfree : name a ∉ ys.map name') : Mirrored R id name (xs ++ [a]) (ys ++ [b]) where
  related := List.rel_append h.related (.cons hR .nil)
  ids := by
    rw [List.map_append]
    exact h.ids.append (List.nodup_singleton _) (List.disjoint_singleton.mpr hid)
  names := by
    rw [names_eq hname h.related] at hfree
    rw [List.map_append]
    exact h.names.append (List.nodup_singleton _) (List.disjoint_singleton.mpr hfree)

end Lists
end Mirrors
