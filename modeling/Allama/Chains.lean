import Mathlib.Data.List.Basic

/-! Chains of changes: each has an old value and what it writes, and what is written stands for the next old value. -/
namespace Chains
variable {A B : Type}

/-- The changes lead from one value to another. -/
def Linked (stands : B → A → Prop) (a : A) : List (A × B) → A → Prop
  | [], b => a = b
  | (old,new) :: changes, b => old = a ∧ ∃ a', stands new a' ∧ Linked stands a' changes b

variable {stands : B → A → Prop} {a b c : A}

theorem linked_append {changes changes' : List (A × B)} (h : Linked stands a changes b)
    (h' : Linked stands b changes' c) : Linked stands a (changes ++ changes') c := by
  induction changes generalizing a with
  | nil =>
    obtain rfl : a = b := h
    exact h'
  | cons change changes ih =>
    obtain ⟨hold,a',hstands,hrest⟩ := h
    exact ⟨hold,a',hstands,ih hrest⟩

theorem linked_one {new : B} (h : stands new b) : Linked stands a [(a,new)] b := ⟨rfl,b,h,rfl⟩

theorem linked_nil : Linked stands a [] b ↔ a = b := Iff.rfl

theorem linked_unique {a b c : A} {changes : List (A × A)} (h : Linked Eq a changes b) (h' : Linked Eq a changes c) :
    b = c := by
  induction changes generalizing a with
  | nil => exact (linked_nil.mp h).symm.trans (linked_nil.mp h')
  | cons change changes ih =>
    obtain ⟨-,_,rfl,hrest⟩ := h
    obtain ⟨-,_,rfl,hrest'⟩ := h'
    exact ih hrest hrest'

theorem linked_written [DecidableEq A] (old new : A) : Linked Eq old (if old = new then [] else [(old,new)]) new := by
  split
  · assumption
  · exact linked_one rfl

end Chains
