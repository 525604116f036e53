import Mathlib.Data.List.Infix

/-! Backtracking matchers with continuations, and the leftmost matches in a text that do not overlap. -/
namespace Backtracking
variable {α β : Type}

def literal [BEq α] (w : List α) (k : List α → Option β) (s : List α) : Option β :=
  if w.isPrefixOf s then k (s.drop w.length) else none

def greedyStar (p : α → Bool) (k : List α → Option β) : List α → Option β
  | [] => k []
  | a :: s => if p a then (greedyStar p k s).or (k (a :: s)) else k (a :: s)

def lazyPlus (p : α → Bool) (k : List α → Option β) : List α → Option (List α × β)
  | [] => none
  | a :: s =>
    if p a then ((k s).map ([a],·)).or ((lazyPlus p k s).map fun r => (a :: r.1,r.2)) else none

theorem literal_append [BEq α] [LawfulBEq α] (w : List α) (k : List α → Option β) (s : List α) :
    literal w k (w ++ s) = k s := by
  have hp : w.isPrefixOf (w ++ s) = true := List.isPrefixOf_iff_prefix.mpr (List.prefix_append w s)
  rw [literal, if_pos hp, List.drop_left]

theorem literal_eq_some [BEq α] [LawfulBEq α] {w : List α} {k : List α → Option β} {s : List α} {b : β} :
    literal w k s = some b ↔ ∃ t, s = w ++ t ∧ k t = some b := by
  constructor
  · intro h
    rw [literal] at h
    split at h
    · rename_i hp
      obtain ⟨t,rfl⟩ := List.isPrefixOf_iff_prefix.mp hp
      exact ⟨t,rfl,by rwa [List.drop_left] at h⟩
    · cases h
  · rintro ⟨t,rfl,ht⟩
    rw [literal_append, ht]

theorem greedyStar_eq_none {p : α → Bool} {k : List α → Option β} {s : List α} :
    greedyStar p k s = none ↔ ∀ u t, s = u ++ t → (∀ a ∈ u, p a) → k t = none := by
  induction s with
  | nil =>
    rw [greedyStar]
    constructor
    · intro h u t hs _
      rwa [(List.append_eq_nil_iff.mp hs.symm).2]
    · intro h
      exact h [] [] rfl (by simp)
  | cons a s ih =>
    rw [greedyStar]
    constructor
    · intro h u t hs hu
      cases u with
      | nil =>
        rw [List.nil_append] at hs
        split at h
        · rw [← hs]
          exact (Option.or_eq_none_iff.mp h).2
        · rwa [← hs]
      | cons b u =>
        cases hs
        rw [if_pos (hu a (by simp)), Option.or_eq_none_iff] at h
        exact ih.mp h.1 u t rfl fun c hc => hu c (by simp [hc])
    · intro h
      have hk : k (a :: s) = none := h [] (a :: s) rfl (by simp)
      split
      · rename_i ha
        rw [hk, Option.or_none]
        apply ih.mpr
        intro u t hs hu
        exact h (a :: u) t (by rw [hs, List.cons_append]) (by simpa [ha] using hu)
      · exact hk

theorem greedyStar_eq_some {p : α → Bool} {k : List α → Option β} {s : List α} {b : β} :
    greedyStar p k s = some b ↔ ∃ u t, s = u ++ t ∧ (∀ a ∈ u, p a) ∧ k t = some b ∧
      ∀ u' t', s = u' ++ t' → (∀ a ∈ u', p a) → u.length < u'.length → k t' = none := by
  induction s with
  | nil =>
    rw [greedyStar]
    constructor
    · intro h
      refine ⟨[],[],rfl,by simp,h,?_⟩
      intro u' t' hs _ hl
      simp [(List.append_eq_nil_iff.mp hs.symm).1] at hl
    · rintro ⟨u,t,hs,_,ht,_⟩
      rwa [(List.append_eq_nil_iff.mp hs.symm).2] at ht
  | cons a s ih =>
    rw [greedyStar]
    -- a longer prefix than the empty one takes the head
    have hlonger : ∀ u : List α, (∀ u' t', a :: s = u' ++ t' → (∀ c ∈ u', p c) →
        (a :: u).length < u'.length → k t' = none) ↔ (p a → ∀ u' t', s = u' ++ t' → (∀ c ∈ u', p c) →
        u.length < u'.length → k t' = none) := by
      intro u
      constructor
      · intro h ha u' t' hs hu hl
        exact h (a :: u') t' (by rw [hs, List.cons_append]) (by simpa [ha] using hu) (by simpa using hl)
      · intro h u' t' hs hu hl
        cases u' with
        | nil => simp at hl
        | cons c u' =>
          cases hs
          exact h (hu a (by simp)) u' t' rfl (fun d hd => hu d (by simp [hd])) (by simpa using hl)
    split
    · rename_i ha
      rw [Option.or_eq_some_iff, ih]
      constructor
      · rintro (⟨u,t,rfl,hu,ht,hm⟩ | ⟨hnone,ht⟩)
        · exact ⟨a :: u,t,rfl,by simpa [ha] using hu,ht,(hlonger u).mpr fun _ => hm⟩
        · refine ⟨[],a :: s,rfl,by simp,ht,?_⟩
          intro u' t' hs hu hl
          cases u' with
          | nil => simp at hl
          | cons c u' =>
            cases hs
            exact greedyStar_eq_none.mp hnone u' t' rfl fun d hd => hu d (by simp [hd])
      · rintro ⟨u,t,hs,hu,ht,hm⟩
        cases u with
        | nil =>
          refine .inr ⟨greedyStar_eq_none.mpr ?_,by rwa [show a :: s = t from hs]⟩
          intro u' t' hs' hu'
          exact hm (a :: u') t' (by rw [hs', List.cons_append]) (by simpa [ha] using hu') (by simp)
        | cons c u =>
          cases hs
          exact .inl ⟨u,t,rfl,fun d hd => hu d (by simp [hd]),ht,(hlonger u).mp hm ha⟩
    · rename_i ha
      constructor
      · intro h
        refine ⟨[],a :: s,rfl,by simp,h,?_⟩
        intro u' t' hs hu hl
        cases u' with
        | nil => simp at hl
        | cons c u' =>
          cases hs
          exact absurd (hu a (by simp)) ha
      · rintro ⟨u,t,hs,hu,ht,_⟩
        cases u with
        | nil => rwa [show a :: s = t from hs]
        | cons c u =>
          cases hs
          exact absurd (hu a (by simp)) ha

theorem greedyStar_of_stops {p : α → Bool} {k : List α → Option β} (h : ∀ a s, p a = true → k (a :: s) = none)
    (s : List α) : greedyStar p k s = k (s.dropWhile p) := by
  induction s with
  | nil => rfl
  | cons a s ih =>
    rw [greedyStar]
    split
    · rename_i ha
      rw [List.dropWhile_cons_of_pos ha, ih, h a s ha, Option.or_none]
    · rename_i ha
      rw [List.dropWhile_cons_of_neg ha]

theorem greedyStar_of_isSome {p : α → Bool} {k : List α → Option β} (h : ∀ s, (k s).isSome = true) (s : List α) :
    greedyStar p k s = k (s.dropWhile p) := by
  induction s with
  | nil => rfl
  | cons a s ih =>
    rw [greedyStar]
    split
    · rename_i ha
      rw [List.dropWhile_cons_of_pos ha, ih, Option.or_of_isSome (h _)]
    · rename_i ha
      rw [List.dropWhile_cons_of_neg ha]

theorem lazyPlus_eq_none {p : α → Bool} {k : List α → Option β} {s : List α} :
    lazyPlus p k s = none ↔ ∀ u t, s = u ++ t → u ≠ [] → (∀ a ∈ u, p a) → k t = none := by
  induction s with
  | nil =>
    have hempty : ∀ u t : List α, [] = u ++ t → u ≠ [] → (∀ a ∈ u, p a) → k t = none :=
      fun u t hs hne _ => absurd (List.append_eq_nil_iff.mp hs.symm).1 hne
    exact ⟨fun _ => hempty,fun _ => rfl⟩
  | cons a s ih =>
    rw [lazyPlus]
    split
    · rename_i ha
      rw [Option.or_eq_none_iff, Option.map_eq_none_iff, Option.map_eq_none_iff, ih]
      constructor
      · rintro ⟨hs,hlater⟩ u t hu hne hp
        cases u with
        | nil => exact absurd rfl hne
        | cons c u =>
          cases hu
          cases u with
          | nil => exact hs
          | cons d u => exact hlater (d :: u) t rfl (by simp) fun e he => hp e (by simp [he])
      · intro h
        refine ⟨h [a] s rfl (by simp) (by simpa using ha),?_⟩
        intro u t hu _ hp
        exact h (a :: u) t (by rw [hu, List.cons_append]) (by simp) (by simpa [ha] using hp)
    · rename_i ha
      refine ⟨fun _ u t hu hne hp => ?_,fun _ => rfl⟩
      cases u with
      | nil => exact absurd rfl hne
      | cons c u =>
        cases hu
        exact absurd (hp a (by simp)) ha

theorem lazyPlus_eq_some {p : α → Bool} {k : List α → Option β} {s u : List α} {b : β} :
    lazyPlus p k s = some (u,b) ↔ ∃ t, s = u ++ t ∧ u ≠ [] ∧ (∀ a ∈ u, p a) ∧ k t = some b ∧
      ∀ v w, u = v ++ w → v ≠ [] → w ≠ [] → k (w ++ t) = none := by
  induction s generalizing u with
  | nil =>
    refine ⟨fun h => by simp [lazyPlus] at h,?_⟩
    rintro ⟨t,hs,hne,_⟩
    exact absurd (List.append_eq_nil_iff.mp hs.symm).1 hne
  | cons a s ih =>
    rw [lazyPlus]
    split
    · rename_i ha
      rw [Option.or_eq_some_iff, Option.map_eq_some_iff, Option.map_eq_some_iff, Option.map_eq_none_iff]
      constructor
      · rintro (⟨c,hc,he⟩ | ⟨hk,⟨v,c⟩,hv,he⟩)
        · -- the first element alone is enough
          cases he
          refine ⟨s,rfl,by simp,by simpa using ha,hc,?_⟩
          intro v w hvw hv hw
          have hl : v.length + w.length = 1 := by simpa using (congrArg List.length hvw).symm
          have := List.length_pos_iff.mpr hv
          have := List.length_pos_iff.mpr hw
          omega
        · cases he
          obtain ⟨t,rfl,hne,hp,ht,hm⟩ := ih.mp hv
          refine ⟨t,rfl,by simp,by simpa [ha] using hp,ht,?_⟩
          intro x w hxw hx hw
          cases x with
          | nil => exact absurd rfl hx
          | cons d x =>
            cases hxw
            cases x with
            | nil => exact hk
            | cons e x => exact hm (e :: x) w rfl (by simp) hw
      · rintro ⟨t,hs,hne,hp,ht,hm⟩
        cases u with
        | nil => exact absurd rfl hne
        | cons d u =>
          cases hs
          cases u with
          | nil => exact .inl ⟨b,ht,rfl⟩
          | cons e u =>
            refine .inr ⟨hm [a] (e :: u) rfl (by simp) (by simp),(e :: u,b),ih.mpr ?_,rfl⟩
            refine ⟨t,rfl,by simp,fun c hc => hp c (by simp [hc]),ht,?_⟩
            intro v w hvw hv hw
            exact hm (a :: v) w (by rw [hvw, List.cons_append]) (by simp) hw
    · rename_i ha
      constructor
      · intro h
        cases h
      rintro ⟨t,hs,hne,hp,_⟩
      cases u with
      | nil => exact absurd rfl hne
      | cons d u =>
        cases hs
        exact absurd (hp a (by simp)) ha

/-- A match, or an element that is in none. -/
inductive Piece (α β : Type)
  | item (a : α)
  | hit (text : List α) (value : β)
deriving DecidableEq

def Piece.text : Piece α β → List α
  | .item a => [a]
  | .hit text _ => text

variable (m : List α → Option (β × List α))

/-- The leftmost matches and what stands between them, with `skip` elements of a match still to pass. -/
def pieces : ℕ → List α → List (Piece α β)
  | _, [] => []
  | skip+1, _ :: s => pieces skip s
  | 0, a :: s =>
    match m (a :: s) with
    | some (b,t) => .hit ((a :: s).take ((a :: s).length-t.length)) b :: pieces (s.length-t.length) s
    | none => .item a :: pieces 0 s

def Consumes : Prop := ∀ s b t, m s = some (b,t) → ∃ u, u ≠ [] ∧ s = u ++ t

theorem pieces_skip (n : ℕ) (s : List α) : pieces m n s = pieces m 0 (s.drop n) := by
  induction s generalizing n with
  | nil => cases n <;> simp [pieces]
  | cons a s ih =>
    cases n with
    | zero => rfl
    | succ n => rw [pieces, ih n, List.drop_succ_cons]

theorem pieces_item {a : α} {s : List α} (h : m (a :: s) = none) :
    pieces m 0 (a :: s) = .item a :: pieces m 0 s := by
  rw [pieces, h]

theorem pieces_hit {u t : List α} {b : β} (hne : u ≠ []) (h : m (u ++ t) = some (b,t)) :
    pieces m 0 (u ++ t) = .hit u b :: pieces m 0 t := by
  cases u with
  | nil => exact absurd rfl hne
  | cons a u =>
    rw [List.cons_append] at h ⊢
    have hlen : (a :: (u ++ t)).length-t.length = (a :: u).length := by
      simp only [List.length_cons, List.length_append]
      omega
    have hskip : (u ++ t).length-t.length = u.length := by
      simp
    rw [pieces, h]
    simp only [hlen, hskip]
    rw [pieces_skip, List.drop_left, ← List.cons_append, List.take_left]

variable {m}

theorem text_pieces (hm : Consumes m) (s : List α) : (pieces m 0 s).flatMap Piece.text = s := by
  induction hn : s.length using Nat.strong_induction_on generalizing s with
  | _ n ih =>
    cases s with
    | nil => rfl
    | cons a s =>
      cases h : m (a :: s) with
      | none =>
        have hs : s.length < n := by rw [← hn]; simp
        rw [pieces_item m h, List.flatMap_cons, ih _ hs s rfl]
        rfl
      | some r =>
        obtain ⟨u,hne,hs⟩ := hm _ r.1 r.2 h
        have ht : r.2.length < n := by
          have := List.length_pos_iff.mpr hne
          rw [← hn, hs, List.length_append]
          omega
        rw [hs] at h ⊢
        rw [pieces_hit m hne h, List.flatMap_cons, ih _ ht r.2 rfl]
        rfl

theorem hit_of_mem_pieces (hm : Consumes m) {s u : List α} {b : β} (h : .hit u b ∈ pieces m 0 s) :
    ∃ x t, s = x ++ (u ++ t) ∧ m (u ++ t) = some (b,t) := by
  induction hn : s.length using Nat.strong_induction_on generalizing s with
  | _ n ih =>
    cases s with
    | nil => cases h
    | cons a s =>
      cases hr : m (a :: s) with
      | none =>
        have hs : s.length < n := by rw [← hn]; simp
        rw [pieces_item m hr, List.mem_cons] at h
        obtain ⟨x,t,hx,ht⟩ := ih _ hs (h.resolve_left (by simp)) rfl
        exact ⟨a :: x,t,by rw [hx, List.cons_append],ht⟩
      | some r =>
        obtain ⟨v,hne,hs⟩ := hm _ r.1 r.2 hr
        rw [hs] at hr h ⊢
        rw [pieces_hit m hne hr, List.mem_cons] at h
        rcases h with h | h
        · obtain ⟨rfl,rfl⟩ := Piece.hit.inj h
          exact ⟨[],r.2,rfl,hr⟩
        · have ht : r.2.length < n := by
            have := List.length_pos_iff.mpr hne
            rw [← hn, hs, List.length_append]
            omega
          obtain ⟨x,t,hx,ht⟩ := ih _ ht h rfl
          exact ⟨v ++ x,t,by rw [hx, List.append_assoc],ht⟩

end Backtracking
