import Mathlib.Data.List.Basic

/-! Replacing the words of an alternation in a text, from left to right, by its first word that matches. -/
namespace Alternations
variable {A : Type} [DecidableEq A]

/-- The text with every match replaced. After a match as many characters are left out as it has left. -/
def replace (words : List (List A)) (mask : List A) : ℕ → List A → List A
  | _, [] => []
  | n + 1, _ :: s => replace words mask n s
  | 0, c :: s =>
    match words.find? fun w => w.isPrefixOf (c :: s) with
    | none => c :: replace words mask 0 s
    | some w => mask ++ replace words mask (w.length - 1) s

theorem replace_skip (words : List (List A)) (mask : List A) (n : ℕ) (s : List A) :
    replace words mask n s = replace words mask 0 (s.drop n) := by
  induction n generalizing s with
  | zero => rfl
  | succ n ih =>
    cases s with
    | nil => rfl
    | cons c s =>
      rw [replace, ih]
      rfl

theorem replace_of_none {words : List (List A)} {mask : List A} {c : A} {s : List A}
    (h : words.find? (fun w => w.isPrefixOf (c :: s)) = none) :
    replace words mask 0 (c :: s) = c :: replace words mask 0 s := by
  rw [replace, h]

theorem replace_of_some {words : List (List A)} {mask : List A} {s w : List A} (hne : w ≠ [])
    (h : words.find? (fun w => w.isPrefixOf s) = some w) :
    replace words mask 0 s = mask ++ replace words mask 0 (s.drop w.length) := by
  cases s with
  | nil =>
    have hprefix : w.isPrefixOf [] = true := by simpa using List.find?_some h
    exact absurd (List.prefix_nil.mp (List.isPrefixOf_iff_prefix.mp hprefix)) hne
  | cons c s =>
    rw [replace, h]
    dsimp only
    rw [replace_skip]
    cases w with
    | nil => exact absurd rfl hne
    | cons b w => rfl

section Occurrences
variable {words words' : List (List A)} {mask s w : List A} {i p : ℕ}

omit [DecidableEq A] in
def OccursAt (s w : List A) (i : ℕ) : Prop := w <+: s.drop i

def Hidden (words : List (List A)) (s w : List A) (i : ℕ) : Prop :=
  ∃ j < i, ∃ v ∈ words, OccursAt s v j ∧ i + w.length ≤ j + v.length

/-- Occurrences that overlap are the same, unless one of them is hidden. -/
def Separate (words : List (List A)) (s : List A) : Prop :=
  ∀ i j v w, v ∈ words → w ∈ words → OccursAt s v i → OccursAt s w j → ¬ Hidden words s v i → ¬ Hidden words s w j →
    i ≤ j → j < i + v.length → i = j ∧ v = w

def Covered (words : List (List A)) (s : List A) (p : ℕ) : Prop :=
  ∃ i w, w ∈ words ∧ OccursAt s w i ∧ i ≤ p ∧ p < i + w.length

omit [DecidableEq A] in
theorem exists_not_hidden (hw : w ∈ words) (h : OccursAt s w i) :
    ∃ j ≤ i, ∃ v ∈ words, OccursAt s v j ∧ i + w.length ≤ j + v.length ∧ ¬ Hidden words s v j := by
  induction i using Nat.strongRecOn generalizing w with
  | ind i ih =>
    by_cases hhidden : Hidden words s w i
    · obtain ⟨j,hj,v,hv,hoccurs,hend⟩ := hhidden
      obtain ⟨k,hk,u,hu,hoccurs',hend',hopen⟩ := ih j hj hv hoccurs
      exact ⟨k,Nat.le_trans hk (Nat.le_of_lt hj),u,hu,hoccurs',Nat.le_trans hend hend',hopen⟩
    · exact ⟨i,Nat.le_refl i,w,hw,h,Nat.le_refl _,hhidden⟩

/-- A text with some pieces of it masked, among them every position of a kind. -/
inductive Redacted (mask : List A) : (ℕ → Prop) → List A → List A → Prop
  | nil {secret : ℕ → Prop} : Redacted mask secret [] []
  | keep {secret : ℕ → Prop} {c : A} {s t : List A} (hopen : ¬ secret 0) (h : Redacted mask (fun i => secret (i + 1)) s t) :
    Redacted mask secret (c :: s) (c :: t)
  | mask {secret : ℕ → Prop} {piece s t : List A} (hne : piece ≠ [])
    (h : Redacted mask (fun i => secret (i + piece.length)) s t) : Redacted mask secret (piece ++ s) (mask ++ t)

def Clear (words : List (List A)) (s : List A) (p : ℕ) : Prop :=
  ∀ i < p, ∀ w ∈ words, OccursAt s w i → ¬ Hidden words s w i → i + w.length ≤ p

omit [DecidableEq A] in
theorem Clear.not_hidden (h : Clear words s p) (hne : w ≠ []) : ¬ Hidden words s w p := by
  rintro ⟨i,hi,v,hv,hoccurs,hend⟩
  obtain ⟨j,hj,u,hu,hoccurs',hend',hopen⟩ := exists_not_hidden hv hoccurs
  have hle := h j (Nat.lt_of_le_of_lt hj hi) u hu hoccurs' hopen
  have hpos := List.length_pos_iff.mpr hne
  omega

omit [DecidableEq A] in
theorem Clear.after (h : Clear words s p) (hsep : Separate words s) (hw : w ∈ words) (hne : w ≠ [])
    (hoccurs : OccursAt s w p) : Clear words s (p + w.length) := by
  have hopen := h.not_hidden (w := w) hne
  intro i hi v hv hv' hvopen
  rcases Nat.lt_trichotomy i p with hlt | rfl | hgt
  · exact Nat.le_trans (h i hlt v hv hv' hvopen) (Nat.le_add_right _ _)
  · -- both start here
    have hpos := List.length_pos_iff.mpr hne
    obtain ⟨-,rfl⟩ := hsep i i w v hw hv hoccurs hv' hopen hvopen (Nat.le_refl i) (by omega)
    exact Nat.le_refl _
  · obtain ⟨heq,-⟩ := hsep p i w v hw hv hoccurs hv' hopen hvopen (Nat.le_of_lt hgt) hi
    omega

omit [DecidableEq A] in
theorem Clear.next (h : Clear words s p) (hnone : ∀ w ∈ words, ¬ OccursAt s w p) : Clear words s (p + 1) := by
  intro i hi w hw hoccurs hopen
  rcases Nat.lt_or_eq_of_le (Nat.le_of_lt_succ hi) with hlt | rfl
  · exact Nat.le_trans (h i hlt w hw hoccurs hopen) (Nat.le_succ p)
  · exact absurd hoccurs (hnone w hw)

omit [DecidableEq A] in
theorem Clear.not_covered (h : Clear words s p) (hnone : ∀ w ∈ words, ¬ OccursAt s w p) : ¬ Covered words s p := by
  rintro ⟨i,w,hw,hoccurs,hi,hend⟩
  obtain ⟨j,hj,v,hv,hoccurs',hend',hopen⟩ := exists_not_hidden hw hoccurs
  rcases Nat.lt_or_eq_of_le (Nat.le_trans hj hi) with hlt | rfl
  · have hle := h j hlt v hv hoccurs' hopen
    omega
  · exact hnone v hv hoccurs'

theorem find?_eq_none_iff : (words.find? fun w => w.isPrefixOf (s.drop p)) = none ↔ ∀ w ∈ words, ¬ OccursAt s w p := by
  rw [List.find?_eq_none]
  simp only [OccursAt, List.isPrefixOf_iff_prefix]

theorem find?_eq_some (h : (words.find? fun w => w.isPrefixOf (s.drop p)) = some w) : w ∈ words ∧ OccursAt s w p := by
  refine ⟨List.mem_of_find?_eq_some h,?_⟩
  have hprefix := List.find?_some h
  exact List.isPrefixOf_iff_prefix.mp hprefix

/-- Where the occurrences of the words are separate, every one of them is masked, and the order of the words makes no
difference. From a clear position on, by the length of the rest of the text. -/
theorem replace_separate (hwords : ∀ w ∈ words, w ≠ []) (hsame : ∀ w, w ∈ words' ↔ w ∈ words) (hsep : Separate words s)
    (hp : Clear words s p) : Redacted mask (fun i => Covered words s (p + i)) (s.drop p) (replace words mask 0 (s.drop p)) ∧
    replace words' mask 0 (s.drop p) = replace words mask 0 (s.drop p) := by
  induction hn : s.length - p using Nat.strongRecOn generalizing p with
  | ind n ih =>
    have hwords' : ∀ w ∈ words', w ≠ [] := fun w hw => hwords w ((hsame w).mp hw)
    by_cases hlt : p < s.length
    · cases hfind : words.find? fun w => w.isPrefixOf (s.drop p) with
      | none =>
        -- no word occurs here: the character is kept, and stays uncovered
        have hnone := find?_eq_none_iff.mp hfind
        have hfind' : (words'.find? fun w => w.isPrefixOf (s.drop p)) = none :=
          find?_eq_none_iff.mpr fun w hw => hnone w ((hsame w).mp hw)
        obtain ⟨hredacted,horder⟩ := ih (s.length - (p + 1)) (by omega) (hp.next hnone) rfl
        have hshift : (fun i => Covered words s (p + (i + 1))) = fun i => Covered words s (p + 1 + i) := by
          funext i
          rw [Nat.add_assoc, Nat.add_comm 1 i]
        rw [List.drop_eq_getElem_cons hlt] at hfind hfind' ⊢
        rw [replace_of_none hfind, replace_of_none hfind', horder]
        exact ⟨.keep (hp.not_covered hnone) (hshift ▸ hredacted),rfl⟩
      | some w =>
        obtain ⟨hw,hoccurs⟩ := find?_eq_some hfind
        have hne := hwords w hw
        have hopen := hp.not_hidden (w := w) hne
        have hfind' : (words'.find? fun w => w.isPrefixOf (s.drop p)) = some w := by
          cases hfind' : words'.find? fun w => w.isPrefixOf (s.drop p) with
          | none => exact absurd hoccurs (find?_eq_none_iff.mp hfind' w ((hsame w).mpr hw))
          | some v =>
            -- the order of the words chooses among the occurrences here, and there is only one
            obtain ⟨hv,hoccurs'⟩ := find?_eq_some hfind'
            have hpos := List.length_pos_iff.mpr hne
            have hopen' := hp.not_hidden (w := v) (hwords' v hv)
            obtain ⟨-,rfl⟩ := hsep p p w v hw ((hsame v).mp hv) hoccurs hoccurs' hopen hopen' (Nat.le_refl p) (by omega)
            rfl
        have hpos := List.length_pos_iff.mpr hne
        obtain ⟨hredacted,horder⟩ := ih (s.length - (p + w.length)) (by omega) (hp.after hsep hw hne hoccurs) rfl
        -- the occurrence is masked as a whole, and the induction goes on behind it
        have hsplit : s.drop p = w ++ s.drop (p + w.length) := by
          rw [← List.drop_drop]
          exact List.prefix_iff_eq_append.mp hoccurs |>.symm
        have hshift : (fun i => Covered words s (p + (i + w.length))) = fun i => Covered words s (p + w.length + i) := by
          funext i
          rw [Nat.add_assoc, Nat.add_comm w.length i]
        rw [replace_of_some hne hfind, replace_of_some hne hfind', List.drop_drop, horder]
        refine ⟨?_,rfl⟩
        rw [hsplit]
        exact .mask hne (hshift ▸ hredacted)
    · rw [List.drop_eq_nil_of_le (Nat.le_of_not_lt hlt)]
      exact ⟨.nil,rfl⟩

theorem replace_separate_text (hwords : ∀ w ∈ words, w ≠ []) (hsame : ∀ w, w ∈ words' ↔ w ∈ words)
    (hsep : Separate words s) : Redacted mask (Covered words s) s (replace words mask 0 s) ∧
    replace words' mask 0 s = replace words mask 0 s := by
  have hclear : Clear words s 0 := fun _ hi => absurd hi (Nat.not_lt_zero _)
  have h : Redacted mask _ _ _ ∧ _ := replace_separate hwords hsame hsep hclear
  have hzero : (fun i => Covered words s (0 + i)) = Covered words s := by
    funext i
    rw [Nat.zero_add]
  rw [List.drop_zero, hzero] at h
  exact h

omit [DecidableEq A] in
theorem redacted_refl {secret : ℕ → Prop} (h : ∀ i, ¬ secret i) (s : List A) : Redacted mask secret s s := by
  induction s generalizing secret with
  | nil => exact .nil
  | cons c s ih => exact .keep (h 0) (ih fun i => h (i + 1))

omit [DecidableEq A] in
theorem not_redacted_cons {secret : ℕ → Prop} {c m : A} {t : List A} (hc : c ≠ m) (hsecret : secret 0) :
    ¬ Redacted (m :: mask) secret (c :: s) (c :: t) := by
  intro h
  generalize hs : c :: s = before at h
  generalize ht : c :: t = after at h
  cases h with
  | nil => cases hs
  | keep hopen => exact hopen hsecret
  | mask =>
    rw [List.cons_append, List.cons.injEq] at ht
    exact hc ht.1

omit [DecidableEq A] in
theorem OccursAt.lt_length (h : OccursAt s w i) (hne : w ≠ []) : i < s.length := by
  have hlength := h.length_le
  have hpos := List.length_pos_iff.mpr hne
  rw [List.length_drop] at hlength
  omega

theorem not_covered_of_none (hwords : ∀ w ∈ words, w ≠ [])
    (h : ∀ j < s.length, ∀ w ∈ words, w.isPrefixOf (s.drop j) = false) (p : ℕ) : ¬ Covered words s p := by
  rintro ⟨j,w,hw,hoccurs,-,-⟩
  have hnone := h j (hoccurs.lt_length (hwords w hw)) w hw
  rw [List.isPrefixOf_iff_prefix.mpr hoccurs] at hnone
  cases hnone

theorem separate_of_one {v : List A} (hwords : ∀ w ∈ words, w ≠ [])
    (h : ∀ j < s.length, ∀ w ∈ words, w.isPrefixOf (s.drop j) = true → j = i ∧ w = v) : Separate words s := by
  have hone : ∀ j, ∀ w ∈ words, OccursAt s w j → j = i ∧ w = v := by
    intro j w hw hoccurs
    exact h j (hoccurs.lt_length (hwords w hw)) w hw (List.isPrefixOf_iff_prefix.mpr hoccurs)
  intro j k w u hw hu hj hk _ _ _ _
  obtain ⟨rfl,rfl⟩ := hone j w hw hj
  obtain ⟨rfl,rfl⟩ := hone k u hu hk
  exact ⟨rfl,rfl⟩

end Occurrences
end Alternations
