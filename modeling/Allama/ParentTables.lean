import Mathlib.Data.Set.Finite.Basic
import Mathlib.Logic.Function.Basic
import Mathlib.Logic.Relation
import Mathlib.Tactic.ByContra

/-! Tables that give every key its parent, and the search that climbs them to the first key with an entry. -/
namespace ParentTables
open Function Relation
variable {κ β : Type*}

/-- The parent of each key: `none` for a key that is not in the table, `some none` for one without a parent. -/
abbrev Table (κ : Type*) := κ → Option (Option κ)

section
variable (parent : Table κ)

def IsParent (k p : κ) : Prop := parent k = some (some p)

/-- `p` is `k` or one of the keys above it. -/
def Encloses (p k : κ) : Prop := ReflTransGen (IsParent parent) k p

/-- A finite tree: every key has one parent but the root, and the parents lead to the root. -/
structure IsTree (root : κ) : Prop where
  finite : {k | (parent k).isSome}.Finite
  top : parent root = some none
  reaches : ∀ k, (parent k).isSome → Encloses parent root k

/-- The search upwards, for so many rounds: none while it goes on, `some none` when it has passed the last key. -/
def climb (entry : κ → Option β) : ℕ → Option κ → Option (Option β)
  | _, none => some none
  | 0, some _ => none
  | n+1, some k =>
    match entry k with
    | some b => some (some b)
    | none => climb entry n (parent k).join

/-- `b` is the entry of `p`, which encloses `k`, and no key from `k` to below `p` has an entry. -/
structure Nearest (entry : κ → Option β) (k p : κ) (b : β) : Prop where
  encloses : Encloses parent p k
  found : entry p = some b
  first : ∀ q, Encloses parent q k → TransGen (IsParent parent) q p → entry q = none

/-- What the search finds from `k`. -/
def Finds (entry : κ → Option β) (k : κ) : Option β → Prop
  | some b => ∃ p, Nearest parent entry k p b
  | none => ∀ p, Encloses parent p k → entry p = none

end

variable {parent : Table κ} {entry : κ → Option β} {root k p q : κ} {b : β}

theorem IsParent.unique (hp : IsParent parent k p) (hq : IsParent parent k q) : p = q := by
  have heq : some (some p) = some (some q) := hp.symm.trans hq
  exact Option.some.inj (Option.some.inj heq)

theorem encloses_cases (hp : IsParent parent k p) (hq : Encloses parent q k) : q = k ∨ Encloses parent q p := by
  rcases ReflTransGen.cases_head hq with heq | ⟨p',hp',hup⟩
  · exact .inl heq.symm
  · rw [IsParent.unique hp hp']
    exact .inr hup

theorem encloses_top (htop : parent k = some none) (hq : Encloses parent q k) : q = k := by
  rcases ReflTransGen.cases_head hq with heq | ⟨p,hp,-⟩
  · exact heq.symm
  · have habsurd : some none = some (some p) := htop.symm.trans hp
    cases habsurd

theorem Nearest.self (h : entry k = some b) (hloop : ¬ TransGen (IsParent parent) k k) :
    Nearest parent entry k k b := by
  refine ⟨.refl,h,?_⟩
  intro q hq hqk
  exact absurd (TransGen.trans_right hq hqk) hloop

theorem Nearest.up (hp : IsParent parent k p) (hnone : entry k = none) (h : Nearest parent entry p q b) :
    Nearest parent entry k q b := by
  refine ⟨.head hp h.encloses,h.found,?_⟩
  intro q' hq' hbelow
  rcases encloses_cases hp hq' with rfl | hup
  · exact hnone
  · exact h.first q' hup hbelow

theorem Finds.up (hp : IsParent parent k p) (hnone : entry k = none) {r : Option β} (h : Finds parent entry p r) :
    Finds parent entry k r := by
  cases r with
  | some b =>
    obtain ⟨q,hq⟩ := h
    exact ⟨q,hq.up hp hnone⟩
  | none =>
    intro q hq
    rcases encloses_cases hp hq with rfl | hup
    · exact hnone
    · exact h q hup

theorem not_below_self (hroot : parent root = some none) (hk : Encloses parent root k) :
    ¬ TransGen (IsParent parent) k k := by
  induction hk using ReflTransGen.head_induction_on with
  | refl =>
    intro hloop
    obtain ⟨p,hp,-⟩ := TransGen.head'_iff.mp hloop
    have habsurd : some none = some (some p) := hroot.symm.trans hp
    cases habsurd
  | @head k p hp _ ih =>
    intro hloop
    -- the loop leaves `k` through its one parent, so it goes through that parent again
    obtain ⟨p',hp',hback⟩ := TransGen.head'_iff.mp hloop
    rw [← IsParent.unique hp hp'] at hback
    exact ih (TransGen.tail' hback hp)

theorem climb_finds (hroot : parent root = some none) (hk : Encloses parent root k) :
    ∃ n r, Finds parent entry k r ∧ ∀ m, n ≤ m → climb parent entry m (some k) = some r := by
  have hloop := not_below_self hroot hk
  induction hk using ReflTransGen.head_induction_on with
  | refl =>
    refine ⟨1,entry root,?_,?_⟩
    · cases hentry : entry root with
      | some b => exact ⟨root,.self hentry hloop⟩
      | none =>
        intro p hp
        rw [encloses_top hroot hp]
        exact hentry
    · intro m hm
      obtain ⟨m,rfl⟩ := Nat.exists_eq_add_of_le' hm
      rw [climb, hroot]
      cases entry root with
      | some b => rfl
      | none => cases m <;> rfl
  | @head k p hp hup ih =>
    cases hentry : entry k with
    | some b =>
      refine ⟨1,some b,⟨k,.self hentry hloop⟩,?_⟩
      intro m hm
      obtain ⟨m,rfl⟩ := Nat.exists_eq_add_of_le' hm
      rw [climb, hentry]
    | none =>
      obtain ⟨n,r,hr,hclimb⟩ := ih (not_below_self hroot hup)
      refine ⟨n+1,r,hr.up hp hentry,?_⟩
      intro m hm
      obtain ⟨m,rfl⟩ : ∃ m', m = m'+1 := ⟨m-1,by omega⟩
      have hjoin : (parent k).join = some p := by
        rw [show parent k = some (some p) from hp]
        rfl
      rw [climb, hentry, hjoin]
      exact hclimb m (by omega)

theorem climb_absent (hparent : parent k = none) (hentry : entry k = none) :
    Finds parent entry k none ∧ ∀ m, 1 ≤ m → climb parent entry m (some k) = some none := by
  refine ⟨?_,?_⟩
  · intro p hp
    rcases ReflTransGen.cases_head hp with rfl | ⟨q,hq,-⟩
    · exact hentry
    · have habsurd : none = some (some q) := hparent.symm.trans hq
      cases habsurd
  · intro m hm
    obtain ⟨m,rfl⟩ := Nat.exists_eq_add_of_le' hm
    rw [climb, hentry, hparent]
    cases m <;> rfl

section
variable [DecidableEq κ]

theorem IsTree.put (h : IsTree parent root) (hp : (parent p).isSome) (hne : k ≠ root)
    (hk : ∀ v, parent k = some v → v = some p) :
    IsTree (update parent k (some (some p))) root := by
  have hkept : ∀ a b, IsParent parent a b → IsParent (update parent k (some (some p))) a b := by
    intro a b hab
    by_cases hak : a = k
    · subst hak
      have hb : some b = some p := hk _ hab
      rw [IsParent, update_self, hb]
    · rw [IsParent, update_of_ne hak]
      exact hab
  have hreaches : ∀ a, (parent a).isSome → Encloses (update parent k (some (some p))) root a := by
    intro a ha
    exact ReflTransGen.mono hkept _ _ (h.reaches a ha)
  refine ⟨?_,?_,?_⟩
  · refine (h.finite.insert k).subset ?_
    intro a ha
    by_cases hak : a = k
    · exact .inl hak
    · rw [Set.mem_ofPred_eq, update_of_ne hak] at ha
      exact .inr ha
  · rw [update_of_ne hne.symm]
    exact h.top
  · intro a ha
    by_cases hak : a = k
    · subst hak
      exact .head (update_self ..) (hreaches p hp)
    · rw [update_of_ne hak] at ha
      exact hreaches a ha

theorem isTree_single (root : κ) : IsTree (update (fun _ => none) root (some none)) root := by
  have honly : ∀ k, (update (fun _ : κ => (none : Option (Option κ))) root (some none) k).isSome → k = root := by
    intro k hk
    by_contra hne
    rw [update_of_ne hne] at hk
    cases hk
  refine ⟨(Set.finite_singleton root).subset honly,update_self ..,?_⟩
  intro k hk
  rw [honly k hk]
  exact .refl

end
end ParentTables
