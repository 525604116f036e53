import Mathlib.Data.Finset.Card
import Mathlib.Logic.Relation

/-! How deep calls nest in a graph of calls. -/
namespace CallGraphs
open Relation
variable {A : Type} (calls : A → A → Prop)

/-- Calls from `a` nest less deep than `n`. -/
def Within : ℕ → A → Prop
  | 0, _ => False
  | n+1, a => ∀ b, calls a b → Within n b

variable {calls}

theorem Within.mono {n m : ℕ} {a : A} (h : Within calls n a) (hle : n ≤ m) : Within calls m a := by
  induction n generalizing m a with
  | zero => exact h.elim
  | succ n ih =>
    cases m with
    | zero => omega
    | succ m =>
      intro b hb
      exact ih (h b hb) (by omega)

theorem Within.reached {n : ℕ} {a b : A} (h : Within calls n a) (hreach : ReflTransGen calls a b) : Within calls n b := by
  induction hreach with
  | refl => exact h
  | tail _ hcall ih =>
    cases n with
    | zero => exact ih.elim
    | succ n => exact (ih _ hcall).mono (by omega)

theorem Within.irreflexive {n : ℕ} {a : A} (h : Within calls n a) : ¬ TransGen calls a a := by
  induction n generalizing a with
  | zero => exact h.elim
  | succ n ih =>
    intro hcycle
    obtain ⟨b,hcall,hreach⟩ := TransGen.head'_iff.mp hcycle
    exact ih ((h b hcall).reached hreach) hcycle

theorem within_card [DecidableEq A] {s : Finset A} {a : A} (hnodes : ∀ b, ReflTransGen calls a b → b ∈ s)
    (hacyclic : ∀ b, ReflTransGen calls a b → ¬ TransGen calls b b) : Within calls s.card a := by
  induction hcard : s.card generalizing s a with
  | zero =>
    have ha := hnodes a .refl
    rw [Finset.card_eq_zero.mp hcard] at ha
    exact absurd ha (Finset.notMem_empty a)
  | succ n ih =>
    intro b hcall
    have ha : a ∈ s := hnodes a .refl
    apply ih (s := s.erase a)
    · intro c hc
      apply Finset.mem_erase.mpr
      constructor
      · rintro rfl
        exact hacyclic c .refl (TransGen.head' hcall hc)
      · exact hnodes c (.head hcall hc)
    · intro c hc
      exact hacyclic c (.head hcall hc)
    · rw [Finset.card_erase_of_mem ha]
      omega

end CallGraphs
