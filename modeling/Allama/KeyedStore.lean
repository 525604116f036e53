import Mathlib.Data.Multiset.AddSub
import Mathlib.Logic.Function.Basic

/-! Stores with one record for each key, written entry by entry. -/
namespace KeyedStore

/-- Records by their key, and the records that have none. -/
@[ext] structure Store (K R : Type) where
  rows : K → Option R
  unkeyed : Multiset R

/-- How an entry is written: as a new record, or over the record of its key. -/
structure Writer (K R A : Type) where
  key : A → Option K
  make : A → R
  merge : A → R → R

section Writing
variable {K R A : Type} (w : Writer K R A)

def Writer.over (entry : A) : Option R → R
  | none => w.make entry
  | some record => w.merge entry record

def Writer.settled (record : Option R) (entries : List A) : Option R :=
  entries.foldl (fun record entry => some (w.over entry record)) record

theorem settled_some (record : R) (entries : List A) :
    w.settled (some record) entries = some (entries.foldl (fun record entry => w.merge entry record) record) := by
  induction entries generalizing record with
  | nil => rfl
  | cons entry entries ih => exact ih _

theorem settled_none_cons (entry : A) (entries : List A) :
    w.settled none (entry :: entries) = w.settled (some (w.make entry)) entries := rfl

variable [DecidableEq K]

def Writer.put (entry : A) (store : Store K R) : Store K R :=
  match w.key entry with
  | none => { store with unkeyed := w.make entry ::ₘ store.unkeyed }
  | some k => { store with rows := Function.update store.rows k (some (w.over entry (store.rows k))) }

def Writer.putAll (entries : List A) (store : Store K R) : Store K R :=
  entries.foldl (fun store entry => w.put entry store) store

/-- The entries of a key. -/
def Writer.keyed (k : Option K) (entries : List A) : List A := entries.filter fun entry => w.key entry = k

theorem putAll_append (entries entries' : List A) (store : Store K R) :
    w.putAll (entries ++ entries') store = w.putAll entries' (w.putAll entries store) :=
  List.foldl_append

theorem keyed_cons_self {k : Option K} {entry : A} (h : w.key entry = k) (entries : List A) :
    w.keyed k (entry :: entries) = entry :: w.keyed k entries :=
  List.filter_cons_of_pos (decide_eq_true h)

theorem keyed_cons_of_ne {k : Option K} {entry : A} (h : w.key entry ≠ k) (entries : List A) :
    w.keyed k (entry :: entries) = w.keyed k entries :=
  List.filter_cons_of_neg (by simpa using h)

theorem rows_putAll (entries : List A) (store : Store K R) (k : K) :
    (w.putAll entries store).rows k = w.settled (store.rows k) (w.keyed (some k) entries) := by
  induction entries generalizing store with
  | nil => rfl
  | cons entry entries ih =>
    have hput : (w.putAll (entry :: entries) store).rows k =
        w.settled ((w.put entry store).rows k) (w.keyed (some k) entries) := ih _
    rw [hput]
    by_cases hkey : w.key entry = some k
    · rw [keyed_cons_self w hkey]
      have hrow : (w.put entry store).rows k = some (w.over entry (store.rows k)) := by
        rw [Writer.put, hkey]
        exact Function.update_self ..
      rw [hrow]
      rfl
    · rw [keyed_cons_of_ne w hkey]
      have hrow : (w.put entry store).rows k = store.rows k := by
        rw [Writer.put]
        cases hother : w.key entry with
        | none => rfl
        | some other =>
          apply Function.update_of_ne
          rintro rfl
          exact hkey hother
      rw [hrow]

theorem unkeyed_putAll (entries : List A) (store : Store K R) :
    (w.putAll entries store).unkeyed = ((w.keyed none entries).map w.make : Multiset R) + store.unkeyed := by
  induction entries generalizing store with
  | nil => exact (Multiset.zero_add _).symm
  | cons entry entries ih =>
    have hput : (w.putAll (entry :: entries) store).unkeyed =
        ((w.keyed none entries).map w.make : Multiset R) + (w.put entry store).unkeyed := ih _
    rw [hput]
    by_cases hkey : w.key entry = none
    · have hunkeyed : (w.put entry store).unkeyed = w.make entry ::ₘ store.unkeyed := by
        rw [Writer.put, hkey]
      rw [keyed_cons_self w hkey, hunkeyed, Multiset.add_cons, List.map_cons, ← Multiset.cons_coe,
        Multiset.cons_add]
    · have hunkeyed : (w.put entry store).unkeyed = store.unkeyed := by
        rw [Writer.put]
        cases hother : w.key entry with
        | none => exact absurd hother hkey
        | some other => rfl
      rw [keyed_cons_of_ne w hkey, hunkeyed]

theorem putAll_eq_iff {entries entries' : List A} (h : entries.Perm entries') (store : Store K R) :
    w.putAll entries store = w.putAll entries' store ↔
      ∀ k, w.settled (store.rows k) (w.keyed (some k) entries) =
        w.settled (store.rows k) (w.keyed (some k) entries') := by
  constructor
  · intro heq k
    rw [← rows_putAll, ← rows_putAll, heq]
  · intro heq
    apply Store.ext
    · funext k
      rw [rows_putAll, rows_putAll, heq k]
    · rw [unkeyed_putAll, unkeyed_putAll]
      have hperm : ((w.keyed none entries).map w.make).Perm ((w.keyed none entries').map w.make) :=
        (h.filter _).map _
      rw [Multiset.coe_eq_coe.mpr hperm]

end Writing
end KeyedStore
