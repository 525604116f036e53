import Mathlib.Data.List.TakeWhile
import Mathlib.Data.List.DropRight
import Mathlib.Data.List.Infix

/-! Cutting a list at the first occurrence of a word, and trimming its ends. -/
namespace WordCuts
variable {α : Type} [DecidableEq α]

def before (word : List α) : List α → List α
  | [] => []
  | a :: s => if word.isPrefixOf (a :: s) then [] else a :: before word s

def occurs (word : List α) : List α → Bool
  | [] => false
  | a :: s => word.isPrefixOf (a :: s) || occurs word s

omit [DecidableEq α] in
def trim (p : α → Bool) (s : List α) : List α := (s.dropWhile p).rdropWhile p

variable {word s u v : List α} {p : α → Bool}

theorem before_eq_self (h : occurs word s = false) : before word s = s := by
  induction s with
  | nil => rfl
  | cons a s ih =>
    rw [occurs, Bool.or_eq_false_iff] at h
    rw [before, h.1, if_neg Bool.false_ne_true, ih h.2]

theorem isPrefixOf_of_head {a : α} (hne : word ≠ []) (h : word.head? ≠ some a) (s : List α) :
    word.isPrefixOf (a :: s) = false := by
  cases word with
  | nil => exact absurd rfl hne
  | cons b word =>
    have hb : (b == a) = false := by
      apply beq_false_of_ne
      rintro rfl
      exact h rfl
    rw [List.isPrefixOf_cons_cons, hb, Bool.false_and]

theorem before_append (hne : word ≠ []) (h : ∀ a ∈ u, word.head? ≠ some a) (s : List α) :
    before word (u ++ s) = u ++ before word s := by
  induction u with
  | nil => rfl
  | cons a u ih =>
    have hstart := isPrefixOf_of_head hne (h a List.mem_cons_self) (u ++ s)
    rw [List.cons_append, before, hstart, if_neg Bool.false_ne_true, ih fun b hb => h b (List.mem_cons_of_mem _ hb),
      List.cons_append]

theorem occurs_append (hne : word ≠ []) (h : ∀ a ∈ u, word.head? ≠ some a) (s : List α) :
    occurs word (u ++ s) = occurs word s := by
  induction u with
  | nil => rfl
  | cons a u ih =>
    have hstart := isPrefixOf_of_head hne (h a List.mem_cons_self) (u ++ s)
    rw [List.cons_append, occurs, hstart, Bool.false_or, ih fun b hb => h b (List.mem_cons_of_mem _ hb)]

theorem isPrefixOf_split {a : α} (h : ∀ b ∈ word.tail, v.head? ≠ some b) (s : List α) :
    word.isPrefixOf (a :: s ++ v) = word.isPrefixOf (a :: s) := by
  apply Bool.eq_iff_iff.mpr
  rw [List.isPrefixOf_iff_prefix, List.isPrefixOf_iff_prefix]
  constructor
  · intro hpre
    rcases List.prefix_or_prefix_of_prefix hpre (List.prefix_append (a :: s) v) with hs | ⟨t,rfl⟩
    · exact hs
    · have hv := (List.prefix_append_right_inj (a :: s)).mp hpre
      cases t with
      | nil => rw [List.append_nil]
      | cons b t =>
        obtain ⟨r,rfl⟩ := hv
        exact absurd rfl (h b (List.mem_append_right s List.mem_cons_self))
  · intro hpre
    exact hpre.trans (List.prefix_append (a :: s) v)

theorem occurs_split (h : ∀ b ∈ word.tail, v.head? ≠ some b) (s : List α) :
    occurs word (s ++ v) = (occurs word s || occurs word v) := by
  induction s with
  | nil => rfl
  | cons a s ih =>
    have hpre := @isPrefixOf_split _ _ word v a h s
    rw [List.cons_append] at hpre
    rw [List.cons_append, occurs, occurs, hpre, ih, Bool.or_assoc]

theorem before_split (h : ∀ b ∈ word.tail, v.head? ≠ some b) (s : List α) :
    before word (s ++ v) = if occurs word s then before word s else s ++ before word v := by
  induction s with
  | nil => rfl
  | cons a s ih =>
    have hpre := @isPrefixOf_split _ _ word v a h s
    rw [List.cons_append] at hpre
    rw [List.cons_append, before, before, occurs, hpre, ih]
    cases word.isPrefixOf (a :: s) <;> cases occurs word s <;> rfl

theorem occurs_of_missing {a : α} (ha : a ∈ word) (h : a ∉ s) : occurs word s = false := by
  induction s with
  | nil => rfl
  | cons b s ih =>
    have hpre : word.isPrefixOf (b :: s) = false := by
      apply Bool.eq_false_iff.mpr
      intro hp
      exact h ((List.isPrefixOf_iff_prefix.mp hp).subset ha)
    rw [occurs, hpre, Bool.false_or, ih fun hb => h (List.mem_cons_of_mem b hb)]

theorem before_self (hne : word ≠ []) (s : List α) : before word (word ++ s) = [] := by
  have hpre : word.isPrefixOf (word ++ s) = true := List.isPrefixOf_iff_prefix.mpr (List.prefix_append word s)
  cases word with
  | nil => exact absurd rfl hne
  | cons a word =>
    rw [List.cons_append] at hpre
    rw [List.cons_append, before, if_pos hpre]

omit [DecidableEq α] in
theorem idxOf_find?_le [BEq α] [LawfulBEq α] {q : α → Bool} {l : List α} {a b : α} (h : l.find? q = some a) (hq : q b = true) :
    l.idxOf a ≤ l.idxOf b := by
  induction l with
  | nil => cases h
  | cons c l ih =>
    rw [List.find?_cons] at h
    cases hc : q c with
    | true =>
      rw [hc] at h
      cases h
      rw [List.idxOf_cons_self]
      exact Nat.zero_le _
    | false =>
      rw [hc] at h
      have hca : c ≠ a := by
        rintro rfl
        rw [List.find?_some h] at hc
        cases hc
      have hcb : c ≠ b := by
        rintro rfl
        rw [hq] at hc
        cases hc
      rw [List.idxOf_cons_ne _ hca, List.idxOf_cons_ne _ hcb]
      exact Nat.succ_le_succ (ih h)

section Trim

omit [DecidableEq α]

theorem trim_append_left (h : ∀ a ∈ u, p a = true) (s : List α) : trim p (u ++ s) = trim p s := by
  rw [trim, List.dropWhile_append_of_pos h, trim]

theorem rdropWhile_append_right (h : ∀ a ∈ v, p a = true) (s : List α) : (s ++ v).rdropWhile p = s.rdropWhile p := by
  have hrev : ∀ a ∈ v.reverse, p a = true := fun a ha => h a (List.mem_reverse.mp ha)
  rw [List.rdropWhile, List.reverse_append, List.dropWhile_append_of_pos hrev, List.rdropWhile]

theorem trim_append_right (h : ∀ a ∈ v, p a = true) (s : List α) : trim p (s ++ v) = trim p s := by
  induction s with
  | nil =>
    rw [List.nil_append, trim, List.dropWhile_eq_nil_iff.mpr h]
    rfl
  | cons a s ih =>
    cases ha : p a with
    | true =>
      have hall : ∀ b ∈ [a], p b = true := fun b hb => by rwa [List.mem_singleton.mp hb]
      have hleft : ∀ t, trim p (a :: t) = trim p t := fun t => trim_append_left hall t
      rw [List.cons_append, hleft, hleft, ih]
    | false =>
      have hstop : ¬ p a = true := by
        rw [ha]
        exact Bool.false_ne_true
      rw [trim, trim, List.cons_append, List.dropWhile_cons_of_neg hstop, List.dropWhile_cons_of_neg hstop,
        ← List.cons_append, rdropWhile_append_right h]

theorem exists_trim (p : α → Bool) (s : List α) :
    ∃ u v, s = u ++ (trim p s ++ v) ∧ (∀ a ∈ u, p a = true) ∧ ∀ a ∈ v, p a = true := by
  refine ⟨s.takeWhile p,(s.dropWhile p).rtakeWhile p,?_,?_,?_⟩
  · rw [trim, List.rdropWhile_append_rtakeWhile, List.takeWhile_append_dropWhile]
  · exact fun a ha => List.mem_takeWhile_imp ha
  · intro a ha
    exact List.mem_rtakeWhile_imp ha

theorem trim_trim (p : α → Bool) (s : List α) : trim p (trim p s) = trim p s := by
  obtain ⟨u,v,hs,hu,hv⟩ := exists_trim p s
  calc trim p (trim p s) = trim p (trim p s ++ v) := (trim_append_right hv _).symm
    _ = trim p (u ++ (trim p s ++ v)) := (trim_append_left hu _).symm
    _ = trim p s := by rw [← hs]

theorem mem_trim {a : α} (ha : a ∈ s) (hp : p a = false) : a ∈ trim p s := by
  obtain ⟨u,v,hs,hu,hv⟩ := exists_trim p s
  rw [hs, List.mem_append, List.mem_append] at ha
  rcases ha with ha | ha | ha
  · rw [hu a ha] at hp
    cases hp
  · exact ha
  · rw [hv a ha] at hp
    cases hp

end Trim

omit [DecidableEq α] in
theorem head_ne_of_trimmed (h : ∀ a ∈ word, p a = false) (hu : ∀ a ∈ u, p a = true) : ∀ a ∈ u, word.head? ≠ some a := by
  intro a ha he
  have hp := h a (List.mem_of_mem_head? he)
  rw [hu a ha] at hp
  cases hp

omit [DecidableEq α] in
theorem tail_ne_of_trimmed (h : ∀ a ∈ word, p a = false) (hv : ∀ a ∈ v, p a = true) : ∀ b ∈ word.tail, v.head? ≠ some b := by
  intro b hb he
  have hp := h b (List.mem_of_mem_tail hb)
  rw [hv b (List.mem_of_mem_head? he)] at hp
  cases hp

theorem occurs_of_trimmed (hne : word ≠ []) (h : ∀ a ∈ word, p a = false) (hv : ∀ a ∈ v, p a = true) : occurs word v = false := by
  have hocc := occurs_append hne (head_ne_of_trimmed h hv) []
  rwa [List.append_nil] at hocc

theorem occurs_trim (hne : word ≠ []) (h : ∀ a ∈ word, p a = false) (s : List α) : occurs word (trim p s) = occurs word s := by
  obtain ⟨u,v,hs,hu,hv⟩ := exists_trim p s
  calc occurs word (trim p s) = (occurs word (trim p s) || occurs word v) := by
        rw [occurs_of_trimmed hne h hv, Bool.or_false]
    _ = occurs word (trim p s ++ v) := (occurs_split (tail_ne_of_trimmed h hv) _).symm
    _ = occurs word (u ++ (trim p s ++ v)) := (occurs_append hne (head_ne_of_trimmed h hu) _).symm
    _ = occurs word s := by rw [← hs]

theorem trim_before_trim (hne : word ≠ []) (h : ∀ a ∈ word, p a = false) (s : List α) :
    trim p (before word (trim p s)) = trim p (before word s) := by
  obtain ⟨u,v,hs,hu,hv⟩ := exists_trim p s
  have hleft : trim p (before word s) = trim p (before word (trim p s ++ v)) := by
    rw [hs, before_append hne (head_ne_of_trimmed h hu), trim_append_left hu, ← hs]
  rw [hleft, before_split (tail_ne_of_trimmed h hv)]
  cases hoccurs : occurs word (trim p s) with
  | true => rw [if_pos rfl]
  | false =>
    rw [if_neg Bool.false_ne_true, before_eq_self hoccurs, before_eq_self (occurs_of_trimmed hne h hv),
      trim_append_right hv]

end WordCuts
