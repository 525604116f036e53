import Mathlib.Data.List.Basic

/-! Texts between quotes, in which a quote is written twice. -/
namespace QuotedTexts
variable {α : Type} [DecidableEq α]

def doubled (q : α) (s : List α) : List α := s.flatMap fun c => if c = q then [c,c] else [c]

/-- What a text after an opening quote reads as, and what follows the closing one. -/
def readQuoted (q : α) : List α → Option (List α × List α)
  | [] => none
  | [c] => if c = q then some ([],[]) else none
  | c :: d :: rest =>
    if c = q then
      if d = q then (readQuoted q rest).map fun r => (q :: r.1,r.2) else some ([],d :: rest)
    else (readQuoted q (d :: rest)).map fun r => (c :: r.1,r.2)

theorem doubled_cons (q c : α) (s : List α) :
    doubled q (c :: s) = (if c = q then [c,c] else [c]) ++ doubled q s := List.flatMap_cons

theorem readQuoted_cons {q c : α} (hc : c ≠ q) (text : List α) :
    readQuoted q (c :: text) = (readQuoted q text).map fun r => (c :: r.1,r.2) := by
  cases text with
  | nil =>
    change (if c = q then some ([],[]) else none) = _
    rw [if_neg hc]
    rfl
  | cons d rest => rw [readQuoted,if_neg hc]

theorem readQuoted_doubled {q : α} {rest : List α} (hrest : rest.head? ≠ some q) (s : List α) :
    readQuoted q (doubled q s ++ q :: rest) = some (s,rest) := by
  induction s with
  | nil =>
    cases rest with
    | nil =>
      change readQuoted q [q] = _
      rw [readQuoted,if_pos rfl]
    | cons d rest =>
      have hd : d ≠ q := fun heq => hrest (heq ▸ rfl)
      change readQuoted q (q :: d :: rest) = _
      rw [readQuoted,if_pos rfl,if_neg hd]
  | cons c s ih =>
    rw [doubled_cons]
    by_cases hc : c = q
    · subst hc
      rw [if_pos rfl]
      change readQuoted c (c :: c :: (doubled c s ++ c :: rest)) = _
      rw [readQuoted,if_pos rfl,if_pos rfl,ih]
      rfl
    · rw [if_neg hc]
      change readQuoted q (c :: (doubled q s ++ q :: rest)) = _
      rw [readQuoted_cons hc,ih]
      rfl

theorem eq_of_readQuoted {q : α} {text s rest : List α} (h : readQuoted q text = some (s,rest)) :
    text = doubled q s ++ q :: rest := by
  fun_induction readQuoted q text generalizing s rest with
  | case1 => cases h
  | case2 =>
    cases h
    rfl
  | case3 => cases h
  | case4 rest' ih =>
    obtain ⟨⟨s',r⟩,hread,heq⟩ := Option.map_eq_some_iff.mp h
    cases heq
    rw [ih hread,doubled_cons,if_pos rfl]
    rfl
  | case5 d rest' hd =>
    cases h
    rfl
  | case6 c d rest' hc ih =>
    obtain ⟨⟨s',r⟩,hread,heq⟩ := Option.map_eq_some_iff.mp h
    cases heq
    rw [ih hread,doubled_cons,if_neg hc]
    rfl

theorem length_le_doubled (q : α) (s : List α) : s.length ≤ (doubled q s).length := by
  induction s with
  | nil => exact Nat.le_refl _
  | cons c s ih =>
    rw [doubled_cons,List.length_append,List.length_cons]
    split_ifs
    · simp only [List.length_cons,List.length_nil]
      omega
    · simp only [List.length_cons,List.length_nil]
      omega

theorem doubled_eq_self_iff {q : α} {s : List α} : doubled q s = s ↔ q ∉ s := by
  induction s with
  | nil => exact ⟨fun _ => List.not_mem_nil,fun _ => rfl⟩
  | cons c s ih =>
    rw [doubled_cons,List.mem_cons,not_or]
    by_cases hc : c = q
    · rw [if_pos hc]
      constructor
      · intro heq
        have hlength := congrArg List.length heq
        have hle := length_le_doubled q s
        simp only [List.length_append,List.length_cons,List.length_nil] at hlength
        omega
      · intro h
        exact absurd hc.symm h.1
    · rw [if_neg hc]
      change c :: doubled q s = c :: s ↔ _
      rw [List.cons_inj_right,ih]
      exact ⟨fun h => ⟨fun heq => hc heq.symm,h⟩,fun h => h.2⟩

end QuotedTexts
