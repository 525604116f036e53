import Mathlib.Data.Finset.Card
import Mathlib.Data.List.Nodup
import Mathlib.Logic.Relation

/-! Search from a worklist: every key is expanded once, and what it leads to is searched after it. -/
namespace Worklists
open Relation
variable {K V E : Type} [DecidableEq K] (expand : K → Except E (V × List K))

/-- The search with at most `n` turns, of which `none` is out. The keys in `done` have their values already. -/
def search : ℕ → List K → List (K × V) → Option (Except E (List (K × V)))
  | 0, _, _ => none
  | _+1, [], done => some (.ok done)
  | n+1, k :: queue, done =>
    if k ∈ done.map Prod.fst then search n queue done
    else
      match expand k with
      | .error e => some (.error e)
      | .ok (v,next) => search n (queue ++ next.filter (· ∉ (done ++ [(k,v)]).map Prod.fst)) (done ++ [(k,v)])

def Leads (a b : K) : Prop := ∃ v next, expand a = .ok (v,next) ∧ b ∈ next

/-- A key that the search from `names` comes to. -/
def Reached (names : List K) (k : K) : Prop := ∃ s ∈ names, ReflTransGen (Leads expand) s k

/-- What holds between two turns. -/
structure Explored (names queue : List K) (done : List (K × V)) : Prop where
  start : ∀ k ∈ names, k ∈ queue ∨ k ∈ done.map Prod.fst
  values : ∀ k v, (k,v) ∈ done → ∃ next, expand k = .ok (v,next) ∧ ∀ b ∈ next, b ∈ queue ∨ b ∈ done.map Prod.fst
  queued : ∀ k ∈ queue, Reached expand names k
  found : ∀ k ∈ done.map Prod.fst, Reached expand names k
  once : (done.map Prod.fst).Nodup

section Turns
variable {expand} {names queue : List K} {done found : List (K × V)} {k : K}

omit [DecidableEq K] in
theorem explored_start (names : List K) : Explored expand names names [] where
  start k hk := .inl hk
  values k v hv := by cases hv
  queued k hk := ⟨k,hk,.refl⟩
  found k hk := by cases hk
  once := List.nodup_nil

omit [DecidableEq K] in
theorem Explored.skip (h : Explored expand names (k :: queue) done) (hk : k ∈ done.map Prod.fst) :
    Explored expand names queue done where
  start := by
    intro s hs
    rcases h.start s hs with hq | hd
    · rcases List.mem_cons.mp hq with rfl | hq
      · exact .inr hk
      · exact .inl hq
    · exact .inr hd
  values := by
    intro a v hv
    obtain ⟨next,hexpand,hnext⟩ := h.values a v hv
    refine ⟨next,hexpand,?_⟩
    intro b hb
    rcases hnext b hb with hq | hd
    · rcases List.mem_cons.mp hq with rfl | hq
      · exact .inr hk
      · exact .inl hq
    · exact .inr hd
  queued a ha := h.queued a (List.mem_cons_of_mem k ha)
  found := h.found
  once := h.once

theorem Explored.expanded (h : Explored expand names (k :: queue) done) (hk : k ∉ done.map Prod.fst) {v : V} {next : List K}
    (hexpand : expand k = .ok (v,next)) :
    Explored expand names (queue ++ next.filter (· ∉ (done ++ [(k,v)]).map Prod.fst)) (done ++ [(k,v)]) := by
  have hkeys : (done ++ [(k,v)]).map Prod.fst = done.map Prod.fst ++ [k] := by rw [List.map_append]; rfl
  -- what was queued or done is so after the turn: the key itself moves from the queue to what is done
  have hmoved : ∀ a, a ∈ k :: queue ∨ a ∈ done.map Prod.fst →
      a ∈ queue ++ next.filter (· ∉ (done ++ [(k,v)]).map Prod.fst) ∨ a ∈ (done ++ [(k,v)]).map Prod.fst := by
    intro a ha
    rw [hkeys, List.mem_append, List.mem_append, List.mem_singleton]
    rcases ha with hq | hd
    · rcases List.mem_cons.mp hq with rfl | hq
      · exact .inr (.inr rfl)
      · exact .inl (.inl hq)
    · exact .inr (.inl hd)
  constructor
  · intro s hs
    exact hmoved s (h.start s hs)
  · intro a w hw
    rcases List.mem_append.mp hw with hw | hw
    · obtain ⟨next',hexpand',hnext'⟩ := h.values a w hw
      exact ⟨next',hexpand',fun b hb => hmoved b (hnext' b hb)⟩
    · cases List.mem_singleton.mp hw
      refine ⟨next,hexpand,?_⟩
      intro b hb
      by_cases hbd : b ∈ (done ++ [(k,v)]).map Prod.fst
      · exact .inr hbd
      · exact .inl (List.mem_append_right _ (List.mem_filter.mpr ⟨hb,by simpa using hbd⟩))
  · intro a ha
    rcases List.mem_append.mp ha with hq | hn
    · exact h.queued a (List.mem_cons_of_mem k hq)
    · obtain ⟨s,hs,hreach⟩ := h.queued k List.mem_cons_self
      exact ⟨s,hs,hreach.tail ⟨v,next,hexpand,(List.mem_filter.mp hn).1⟩⟩
  · intro a ha
    rw [hkeys, List.mem_append, List.mem_singleton] at ha
    rcases ha with hd | rfl
    · exact h.found a hd
    · exact h.queued a List.mem_cons_self
  · rw [hkeys]
    exact h.once.append (List.nodup_singleton k) (List.disjoint_singleton.mpr hk)

theorem explored_of_search {n : ℕ} (h : Explored expand names queue done) (hsearch : search expand n queue done = some (.ok found)) :
    Explored expand names [] found := by
  induction n generalizing queue done with
  | zero => cases hsearch
  | succ n ih =>
    cases queue with
    | nil =>
      obtain rfl := Except.ok.inj (Option.some.inj hsearch)
      exact h
    | cons k queue =>
      rw [search] at hsearch
      split at hsearch
      · rename_i hk
        exact ih (h.skip hk) hsearch
      · rename_i hk
        split at hsearch
        · cases hsearch
        · rename_i v next hexpand
          exact ih (h.expanded hk hexpand) hsearch

theorem reached_of_search_error {n : ℕ} {e : E} (h : Explored expand names queue done)
    (hsearch : search expand n queue done = some (.error e)) : ∃ k, Reached expand names k ∧ expand k = .error e := by
  induction n generalizing queue done with
  | zero => cases hsearch
  | succ n ih =>
    cases queue with
    | nil => cases hsearch
    | cons k queue =>
      rw [search] at hsearch
      split at hsearch
      · rename_i hk
        exact ih (h.skip hk) hsearch
      · rename_i hk
        split at hsearch
        · rename_i hexpand
          obtain rfl := Except.error.inj (Option.some.inj hsearch)
          exact ⟨k,h.queued k List.mem_cons_self,hexpand⟩
        · rename_i v next hexpand
          exact ih (h.expanded hk hexpand) hsearch

omit [DecidableEq K] in
theorem mem_keys_iff (h : Explored expand names [] found) (k : K) : k ∈ found.map Prod.fst ↔ Reached expand names k := by
  constructor
  · exact h.found k
  · rintro ⟨s,hs,hreach⟩
    induction hreach with
    | refl => exact (h.start s hs).resolve_left List.not_mem_nil
    | tail _ hlead ih =>
      obtain ⟨v,next,hexpand,hb⟩ := hlead
      obtain ⟨⟨a,w⟩,hw,rfl⟩ := List.mem_map.mp ih
      obtain ⟨next',hexpand',hnext'⟩ := h.values a w hw
      obtain ⟨-,rfl⟩ := Prod.mk.inj (Except.ok.inj (hexpand.symm.trans hexpand'))
      exact (hnext' _ hb).resolve_left List.not_mem_nil

end Turns

/-- Where only finitely many keys can be expanded, every search comes to an end. -/
theorem search_terminates {expand : K → Except E (V × List K)} (known : Finset K)
    (hknown : ∀ k v next, expand k = .ok (v,next) → k ∈ known) (queue : List K) (done : List (K × V)) :
    ∃ n result, search expand n queue done = some result := by
  -- Every expansion leaves fewer keys that are not done, and every other turn a shorter queue.
  induction hleft : (known \ (done.map Prod.fst).toFinset).card using Nat.strong_induction_on generalizing queue done with
  | _ left ihLeft =>
    induction queue with
    | nil => exact ⟨1,_,rfl⟩
    | cons k queue ihQueue =>
      by_cases hk : k ∈ done.map Prod.fst
      · obtain ⟨n,result,hn⟩ := ihQueue
        refine ⟨n+1,result,?_⟩
        rw [search, if_pos hk]
        exact hn
      · cases he : expand k with
        | error e =>
          refine ⟨1,.error e,?_⟩
          rw [search, if_neg hk, he]
        | ok found =>
          obtain ⟨v,next⟩ := found
          -- the key that is expanded is known and was not done before
          have hfewer : (known \ ((done ++ [(k,v)]).map Prod.fst).toFinset).card < left := by
            rw [← hleft]
            apply Finset.card_lt_card
            refine ⟨?_,?_⟩
            · apply Finset.sdiff_subset_sdiff (Finset.Subset.refl _)
              intro a ha
              rw [List.mem_toFinset] at ha ⊢
              rw [List.map_append]
              exact List.mem_append_left _ ha
            · intro hsub
              have hmem : k ∈ known \ (done.map Prod.fst).toFinset :=
                Finset.mem_sdiff.mpr ⟨hknown k v next he,by rwa [List.mem_toFinset]⟩
              have hout := (Finset.mem_sdiff.mp (hsub hmem)).2
              apply hout
              rw [List.mem_toFinset, List.map_append]
              exact List.mem_append_right _ (List.mem_singleton.mpr rfl)
          obtain ⟨n,result,hn⟩ := ihLeft _ hfewer (queue ++ next.filter (· ∉ (done ++ [(k,v)]).map Prod.fst)) (done ++ [(k,v)]) rfl
          refine ⟨n+1,result,?_⟩
          rw [search, if_neg hk, he]
          exact hn

end Worklists
