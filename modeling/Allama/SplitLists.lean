import Mathlib.Data.List.Infix

/-! A list that is split at a separator: what its parts are, and where one of them is empty. -/
namespace SplitLists
variable {α : Type} [DecidableEq α] {a : α} {cs part : List α} {parts : List (List α)}

theorem notMem_of_mem_splitOn (h : part ∈ cs.splitOn a) : a ∉ part := by
  induction cs generalizing part with
  | nil =>
    rw [List.splitOn_nil, List.mem_singleton] at h
    rw [h]
    exact List.not_mem_nil
  | cons c cs ih =>
    rw [List.splitOn_cons_eq_if_modifyHead] at h
    split at h
    · rcases List.mem_cons.mp h with rfl | h
      · exact List.not_mem_nil
      · exact ih h
    · rename_i hc
      obtain ⟨first,rest,hparts⟩ := List.exists_cons_of_ne_nil (List.splitOn_ne_nil a cs)
      rw [hparts] at h ih
      rw [List.modifyHead_cons, List.mem_cons] at h
      rcases h with rfl | h
      · have hfirst := ih List.mem_cons_self
        rw [List.mem_cons, not_or]
        exact ⟨fun heq => hc (by simp [heq]),hfirst⟩
      · exact ih (List.mem_cons_of_mem _ h)

theorem first_splitOn (h : cs.splitOn a = part :: parts) : part = [] ↔ cs = [] ∨ cs.head? = some a := by
  cases cs with
  | nil =>
    rw [List.splitOn_nil] at h
    simp [(List.cons.inj h).1.symm]
  | cons c cs =>
    obtain ⟨first,rest,hparts⟩ := List.exists_cons_of_ne_nil (List.splitOn_ne_nil a cs)
    rw [List.splitOn_cons_eq_if_modifyHead, hparts] at h
    by_cases hc : c = a
    · subst hc
      simp only [BEq.rfl, if_true] at h
      simp [(List.cons.inj h).1.symm]
    · simp only [beq_iff_eq, hc, if_false, List.modifyHead_cons] at h
      simp [(List.cons.inj h).1.symm, hc]

theorem nil_mem_tail_splitOn : [] ∈ (cs.splitOn a).tail ↔ cs.getLast? = some a ∨ [a,a] <:+: cs := by
  induction cs with
  | nil => simp
  | cons c cs ih =>
    obtain ⟨first,rest,hparts⟩ := List.exists_cons_of_ne_nil (List.splitOn_ne_nil a cs)
    rw [hparts, List.tail_cons] at ih
    rw [List.splitOn_cons_eq_if_modifyHead, hparts]
    have hdouble : [a,a] <:+: c :: cs ↔ (c = a ∧ cs.head? = some a) ∨ [a,a] <:+: cs := by
      rw [List.infix_cons_iff, List.cons_prefix_cons]
      apply or_congr_left
      rw [eq_comm]
      apply and_congr_right
      intro _
      cases cs with
      | nil => simp
      | cons d cs => simp [eq_comm]
    have hlast : (c :: cs).getLast? = some a ↔ (c = a ∧ cs = []) ∨ cs.getLast? = some a := by
      cases cs with
      | nil => simp
      | cons d cs => simp
    rw [hdouble, hlast]
    by_cases hc : c = a
    · subst hc
      simp only [BEq.rfl, if_true, List.tail_cons, List.mem_cons, ih, true_and, eq_comm (a := []), first_splitOn hparts]
      tauto
    · simp only [beq_iff_eq, hc, if_false, List.modifyHead_cons, List.tail_cons, ih, false_and, false_or]

theorem nil_mem_splitOn : [] ∈ cs.splitOn a ↔
    cs = [] ∨ cs.head? = some a ∨ cs.getLast? = some a ∨ [a,a] <:+: cs := by
  obtain ⟨first,rest,hparts⟩ := List.exists_cons_of_ne_nil (List.splitOn_ne_nil a cs)
  have htail : [] ∈ rest ↔ cs.getLast? = some a ∨ [a,a] <:+: cs := by
    rw [← nil_mem_tail_splitOn, hparts, List.tail_cons]
  have hfirst : [] = first ↔ cs = [] ∨ cs.head? = some a := by
    rw [eq_comm, first_splitOn hparts]
  rw [hparts, List.mem_cons, hfirst, htail, or_assoc]

theorem splitOn_injective (a : α) : Function.Injective (List.splitOn a) := by
  intro cs ds h
  calc
    cs = [a].intercalate (cs.splitOn a) := (List.intercalate_splitOn a).symm
    _ = [a].intercalate (ds.splitOn a) := by rw [h]
    _ = ds := List.intercalate_splitOn a

end SplitLists
