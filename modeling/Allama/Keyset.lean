import Mathlib.Data.List.Nodup
import Mathlib.Tactic.SplitIfs

/-! A list that is read in pages. The last item of a page gives the cursor of the next one. -/
namespace Keyset
variable {α : Type}

/-- The pages of `ys`, of `n` items each. `rest e` is what comes behind the cursor of `e`, when that can be
asked for. -/
inductive Pages (n : ℕ) (rest : α → Option (List α)) : List α → List (List α) → Prop
  | last {ys : List α} : ys.length ≤ n → Pages n rest ys [ys]
  | more {ys zs : List α} {e : α} {pages : List (List α)} : n < ys.length → ys[n-1]? = some e →
      rest e = some zs → Pages n rest zs pages → Pages n rest ys (ys.take n :: pages)

def Cursors (L : List α) (P : α → Bool) (rest : α → Option (List α)) : Prop :=
  ∀ e zs, rest e = some zs → zs = L ∨ zs <:+ L.filter P

/-- Everything behind the first page can be compared, and each cursor cuts the list where its page ends. -/
def Borders (n : ℕ) (L : List α) (P : α → Bool) (rest : α → Option (List α)) : Prop :=
  (∀ x ∈ L.drop n, P x = true) ∧
    ∀ k, 1 ≤ k → k*n < L.length → ∃ e, L[k*n-1]? = some e ∧ rest e = some (L.drop (k*n))

variable {n : ℕ} {L ys : List α} {P : α → Bool} {rest : α → Option (List α)} {pages : List (List α)}

theorem filter_suffix {R : α → α → Prop} {keep : α → Bool} {xs : List α} (h : xs.Pairwise R)
    (hkeep : ∀ a b, a ∈ xs → b ∈ xs → R a b → keep a = true → keep b = true) : xs.filter keep <:+ xs := by
  induction xs with
  | nil => exact List.suffix_refl []
  | cons x xs ih =>
    obtain ⟨hx,hxs⟩ := List.pairwise_cons.mp h
    by_cases hk : keep x = true
    · -- everything behind a kept item is kept
      have hall : ∀ y ∈ x :: xs, keep y = true := by
        intro y hy
        rcases List.mem_cons.mp hy with rfl | hy
        · exact hk
        · exact hkeep x y List.mem_cons_self (List.mem_cons_of_mem x hy) (hx y hy) hk
      exact ⟨[],List.filter_eq_self.mpr hall⟩
    · rw [List.filter_cons_of_neg hk]
      have hrest := ih hxs fun a b ha hb =>
        hkeep a b (List.mem_cons_of_mem x ha) (List.mem_cons_of_mem x hb)
      exact hrest.trans (List.suffix_cons x xs)

theorem suffix_unique {M as bs : List α} {x : α} (hM : M.Nodup) (ha : x :: as <:+ M) (hb : x :: bs <:+ M) :
    as = bs := by
  rcases List.suffix_or_suffix_of_suffix ha hb with h | h
  · rcases List.suffix_cons_iff.mp h with h | h
    · exact (List.cons.inj h).2
    · have hx : x ∈ bs := h.subset List.mem_cons_self
      exact absurd hx (List.nodup_cons.mp (hM.sublist hb.sublist)).1
  · rcases List.suffix_cons_iff.mp h with h | h
    · exact (List.cons.inj h).2.symm
    · have hx : x ∈ as := h.subset List.mem_cons_self
      exact absurd hx (List.nodup_cons.mp (hM.sublist ha.sublist)).1

theorem Pages.begins (h : Pages n rest ys pages) : ys.take n <+: pages.flatten := by
  cases h with
  | last hlength =>
    rw [List.take_of_length_le hlength, List.flatten_cons]
    exact List.prefix_append ys _
  | more =>
    rw [List.flatten_cons]
    exact List.prefix_append _ _

theorem first_notMem_drop (hL : L.Nodup) (hn : 1 ≤ n) {x : α} (hx : L[0]? = some x) : x ∉ L.drop n := by
  intro h
  obtain ⟨i,hi⟩ := List.getElem?_of_mem h
  rw [List.getElem?_drop] at hi
  have hi' := (List.getElem?_inj (List.getElem?_eq_some_iff.mp hx).1 hL).mp (hx.trans hi.symm)
  omega

theorem first_mem_take (hn : 1 ≤ n) {x : α} (hx : L[0]? = some x) : x ∈ L.take n := by
  have hpos : 0 < n := hn
  apply List.mem_of_getElem?
  rw [List.getElem?_take_of_lt hpos]
  exact hx

theorem comparable_of_rest (hc : Cursors L P rest) {e : α} {zs : List α} (h : rest e = some zs) :
    zs = L ∨ ∀ z ∈ zs, P z = true := by
  rcases hc e zs h with hzs | hzs
  · exact .inl hzs
  · right
    intro z hz
    exact (List.mem_filter.mp (hzs.subset hz)).2

section
variable (hc : Cursors L P rest) (hn : 1 ≤ n)
include hc hn

theorem Pages.comparable (h : Pages n rest ys pages) (hys : ∀ y ∈ ys, P y = true)
    (hfirst : ∀ x, L[0]? = some x → x ∉ pages.flatten) : ∀ x ∈ pages.flatten, P x = true := by
  induction h with
  | last hlength =>
    intro x hx
    rw [List.flatten_cons, List.flatten_nil, List.append_nil] at hx
    exact hys x hx
  | @more ys zs e pages _ _ hrest hpages ih =>
    have hzs : ∀ z ∈ zs, P z = true := by
      rcases comparable_of_rest hc hrest with rfl | hzs
      · -- the first item would come again
        intro z hz
        obtain ⟨x,hx⟩ : ∃ x, zs[0]? = some x := by
          rw [List.getElem?_eq_getElem (List.length_pos_of_mem hz)]
          exact ⟨_,rfl⟩
        refine absurd ?_ (hfirst x hx)
        rw [List.flatten_cons]
        exact List.mem_append_right _ (hpages.begins.subset (first_mem_take hn hx))
      · exact hzs
    intro x hx
    rw [List.flatten_cons] at hx
    rcases List.mem_append.mp hx with hx | hx
    · exact hys x (List.mem_of_mem_take hx)
    · refine ih hzs ?_ x hx
      intro y hy hmem
      apply hfirst y hy
      rw [List.flatten_cons]
      exact List.mem_append_right _ hmem

theorem rest_eq_drop (hL : L.Nodup) {e : α} {zs : List α} {m : ℕ} (hm : 1 ≤ m) (hlt : m < L.length)
    (hrest : rest e = some zs) (h : Pages n rest zs pages) (hflat : pages.flatten = L.drop m) :
    zs = L.drop m ∧ ∀ x ∈ L.drop m, P x = true := by
  have hfirst : ∀ x, L[0]? = some x → x ∉ pages.flatten := by
    intro x hx
    rw [hflat]
    exact first_notMem_drop hL hm hx
  have hbegin := h.begins
  rcases hc e zs hrest with rfl | hsuffix
  · have hx : zs[0]? = some zs[0] := List.getElem?_eq_getElem (by omega)
    exact absurd (hbegin.subset (first_mem_take hn hx)) (hfirst _ hx)
  have hzs : ∀ z ∈ zs, P z = true := fun z hz => (List.mem_filter.mp (hsuffix.subset hz)).2
  have hall := h.comparable hc hn hzs hfirst
  rw [hflat] at hbegin hall
  refine ⟨?_,hall⟩
  have hend : L.drop m <:+ L.filter P := by
    have hfilter := (List.drop_suffix m L).filter P
    rwa [List.filter_eq_self.mpr hall] at hfilter
  cases zs with
  | nil =>
    cases h with
    | last =>
      have hnil : L.drop m = [] := hflat.symm
      rw [List.drop_eq_nil_iff] at hnil
      omega
    | more hlength => cases hlength
  | cons z zs =>
    obtain ⟨m',rfl⟩ : ∃ m', n = m'+1 := ⟨n-1,by omega⟩
    rw [List.take_succ_cons] at hbegin
    obtain ⟨tail,htail⟩ := hbegin
    rw [← htail] at hend
    have heq : zs = zs.take m' ++ tail := suffix_unique (hL.filter P) hsuffix hend
    exact (congrArg (List.cons z) heq).trans htail

theorem borders_of_pages (hL : L.Nodup) (h : Pages n rest ys pages) {k : ℕ} (hys : ys = L.drop (k*n))
    (hflat : pages.flatten = ys) :
    ∀ j, 1 ≤ j → (k+j)*n < L.length →
      ∃ e, L[(k+j)*n-1]? = some e ∧ rest e = some (L.drop ((k+j)*n)) := by
  induction h generalizing k with
  | last hlength =>
    intro j hj hlt
    subst hys
    rw [List.length_drop] at hlength
    have hge : (k+1)*n ≤ (k+j)*n := Nat.mul_le_mul_right n (by omega)
    rw [Nat.succ_mul] at hge
    omega
  | @more ys zs e pages hlength he hrest hpages ih =>
    subst hys
    have hsucc : (k+1)*n = k*n+n := Nat.succ_mul k n
    rw [List.length_drop] at hlength
    have hflat' : pages.flatten = L.drop ((k+1)*n) := by
      rw [List.flatten_cons] at hflat
      have hsplit := hflat.trans (List.take_append_drop n (L.drop (k*n))).symm
      rw [List.append_cancel_left hsplit, List.drop_drop, hsucc]
    obtain ⟨rfl,-⟩ := rest_eq_drop hc hn hL (by omega) (by omega) hrest hpages hflat'
    intro j hj hlt
    by_cases hone : j = 1
    · subst hone
      rw [List.getElem?_drop] at he
      refine ⟨e,?_,hrest⟩
      rw [hsucc]
      have hindex : k*n+n-1 = k*n+(n-1) := by omega
      rw [hindex]
      exact he
    · obtain ⟨i,rfl⟩ : ∃ i, j = 1+i := ⟨j-1,by omega⟩
      have hsum : k+(1+i) = k+1+i := by omega
      rw [hsum] at hlt ⊢
      exact ih rfl hflat' i (by omega) hlt

end

theorem pages_of_borders (hn : 1 ≤ n) (h : Borders n L P rest) (k : ℕ) :
    ∃ pages, Pages n rest (L.drop (k*n)) pages ∧ pages.flatten = L.drop (k*n) := by
  by_cases hlength : (L.drop (k*n)).length ≤ n
  · refine ⟨[L.drop (k*n)],.last hlength,?_⟩
    rw [List.flatten_cons, List.flatten_nil, List.append_nil]
  · have hsucc : (k+1)*n = k*n+n := Nat.succ_mul k n
    rw [List.length_drop] at hlength
    obtain ⟨e,he,hrest⟩ := h.2 (k+1) (by omega) (by omega)
    obtain ⟨pages,hpages,hflat⟩ := pages_of_borders hn h (k+1)
    refine ⟨(L.drop (k*n)).take n :: pages,.more ?_ ?_ hrest hpages,?_⟩
    · rw [List.length_drop]
      omega
    · rw [List.getElem?_drop, ← he, hsucc]
      congr 1
      omega
    · rw [List.flatten_cons, hflat, hsucc, ← List.drop_drop]
      exact List.take_append_drop n _
termination_by L.length-k*n
decreasing_by
  rw [List.length_drop] at hlength
  have := Nat.succ_mul k n
  omega

theorem pages_iff_borders (hc : Cursors L P rest) (hn : 1 ≤ n) (hL : L.Nodup) :
    (∃ pages, Pages n rest L pages ∧ pages.flatten = L) ↔ Borders n L P rest := by
  constructor
  · rintro ⟨pages,hpages,hflat⟩
    refine ⟨?_,?_⟩
    · cases hpages with
      | last hlength =>
        intro x hx
        rw [List.drop_eq_nil_iff.mpr hlength] at hx
        cases hx
      | @more _ zs e pages hlength he hrest hpages =>
        have hflat' : pages.flatten = L.drop n := by
          rw [List.flatten_cons] at hflat
          exact List.append_cancel_left (hflat.trans (List.take_append_drop n L).symm)
        exact (rest_eq_drop hc hn hL hn hlength hrest hpages hflat').2
    · intro k hk hlt
      have hzero : L = L.drop (0*n) := by rw [Nat.zero_mul, List.drop_zero]
      have hborders := borders_of_pages hc hn hL hpages hzero hflat k hk
      rw [Nat.zero_add] at hborders
      exact hborders hlt
  · intro h
    have hpages := pages_of_borders hn h 0
    rwa [Nat.zero_mul, List.drop_zero] at hpages

section Cuts
variable {before : α → α → Prop} {keep : α → Bool} {i : ℕ} {e : α}

theorem filter_behind (h : L.Pairwise before) (hasymm : ∀ a b, before a b → ¬ before b a) (hi : L[i]? = some e)
    (hkeep : ∀ a, keep a = true ↔ before e a) : L.filter keep = L.drop (i+1) := by
  induction L generalizing i with
  | nil => cases hi
  | cons x xs ih =>
    obtain ⟨hx,hxs⟩ := List.pairwise_cons.mp h
    cases i with
    | zero =>
      obtain rfl : x = e := Option.some.inj hi
      have hself : ¬ keep x = true := fun hk => hasymm x x ((hkeep x).mp hk) ((hkeep x).mp hk)
      rw [List.filter_cons_of_neg hself]
      exact List.filter_eq_self.mpr fun a ha => (hkeep a).mpr (hx a ha)
    | succ i =>
      have he : e ∈ xs := List.mem_of_getElem? hi
      have hfirst : ¬ keep x = true := fun hk => hasymm x e (hx e he) ((hkeep x).mp hk)
      rw [List.filter_cons_of_neg hfirst]
      exact ih hxs hi

theorem filter_before (h : L.Pairwise before) (hasymm : ∀ a b, before a b → ¬ before b a) (hi : L[i]? = some e)
    (hkeep : ∀ a, keep a = true ↔ before a e) : L.filter keep = L.take i := by
  induction L generalizing i with
  | nil => cases hi
  | cons x xs ih =>
    obtain ⟨hx,hxs⟩ := List.pairwise_cons.mp h
    cases i with
    | zero =>
      obtain rfl : x = e := Option.some.inj hi
      rw [List.take_zero, List.filter_eq_nil_iff]
      intro a ha hk
      have hbefore := (hkeep a).mp hk
      rcases List.mem_cons.mp ha with rfl | ha
      · exact hasymm a a hbefore hbefore
      · exact hasymm a x hbefore (hx a ha)
    | succ i =>
      have he : e ∈ xs := List.mem_of_getElem? hi
      rw [List.filter_cons_of_pos ((hkeep x).mpr (hx e he)), List.take_succ_cons, ih hxs hi]

end Cuts
end Keyset
