import Mathlib.Data.List.Nodup

/-! Tables whose rows have a primary key. -/
namespace KeyedTables
variable {A K : Type} {key : A → K}

/-- Rows of which no two have the same key. -/
structure Table (key : A → K) where
  rows : List A
  nodup : (rows.map key).Nodup

/-- The table without the rows that meet `p`. -/
def Table.erase (t : Table key) (p : A → Bool) : Table key where
  rows := t.rows.filter fun a => !p a
  nodup := t.nodup.sublist (List.filter_sublist.map key)

/-- The table with every row changed, but for its key. -/
def Table.modify (t : Table key) (f : A → A) (hf : ∀ a, key (f a) = key a) : Table key where
  rows := t.rows.map f
  nodup := by
    have hkeys : (t.rows.map f).map key = t.rows.map key := by
      rw [List.map_map]
      exact List.map_congr_left fun a _ => hf a
    rw [hkeys]
    exact t.nodup

def Table.insert [DecidableEq K] (t : Table key) (row : A) : Option (Table key) :=
  if h : key row ∈ t.rows.map key then none
  else some ⟨row :: t.rows,List.nodup_cons.mpr ⟨h,t.nodup⟩⟩

theorem Table.eq_of_key (t : Table key) {a b : A} (ha : a ∈ t.rows) (hb : b ∈ t.rows) (h : key a = key b) : a = b :=
  List.inj_on_of_nodup_map t.nodup ha hb h

@[simp] theorem Table.mem_erase (t : Table key) {p : A → Bool} {a : A} : a ∈ (t.erase p).rows ↔ a ∈ t.rows ∧ p a = false := by
  simp [Table.erase]

theorem mem_map_of_fixed {f : A → A} {rows : List A} {a : A} (hfixed : ∀ b ∈ rows, f b = a ∨ b = a → f b = b) :
    a ∈ rows.map f ↔ a ∈ rows := by
  rw [List.mem_map]
  constructor
  · rintro ⟨b,hb,rfl⟩
    rw [hfixed b hb (.inl rfl)]
    exact hb
  · intro ha
    exact ⟨a,ha,hfixed a ha (.inr rfl)⟩

theorem Table.insert_eq_some [DecidableEq K] {t t' : Table key} {row : A} (h : t.insert row = some t') :
    row ∉ t.rows ∧ ∀ a, a ∈ t'.rows ↔ a = row ∨ a ∈ t.rows := by
  unfold Table.insert at h
  split at h
  · cases h
  · rename_i hfresh
    cases h
    exact ⟨fun hmem => hfresh (List.mem_map_of_mem hmem),fun a => List.mem_cons⟩

end KeyedTables
