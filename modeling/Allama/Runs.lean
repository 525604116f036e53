/-! Runs of a labelled transition system, with a condition on the steps they take. -/
namespace Runs
universe u v w

section
variable {σ : Type u} {α : Type v} {next : σ → α → Option σ} {ok ok' : σ → α → Prop}
  {as : List α} {s t : σ}

/-- The states of the runs from `first` whose steps all meet `ok`. -/
inductive Reaches (next : σ → α → Option σ) (ok : σ → α → Prop) (first : σ) : σ → Prop
  | refl : Reaches next ok first first
  | step {st st' : σ} {a : α} : Reaches next ok first st → ok st a → next st a = some st' →
      Reaches next ok first st'

/-- Runs under no condition. -/
abbrev Reachable (next : σ → α → Option σ) : σ → σ → Prop := Reaches next fun _ _ => True

theorem Reaches.weaken (h : Reaches next ok s t) (hok : ∀ st a, ok st a → ok' st a) :
    Reaches next ok' s t := by
  induction h with
  | refl => exact .refl
  | step _ ha hn ih => exact .step ih (hok _ _ ha) hn

theorem Reaches.trans {u : σ} (h : Reaches next ok s t) (h' : Reaches next ok t u) :
    Reaches next ok s u := by
  induction h' with
  | refl => exact h
  | step _ ha hn ih => exact .step ih ha hn

theorem Reaches.invariant {P : σ → Prop} (h : Reaches next ok s t) (h0 : P s)
    (hstep : ∀ st a st', Reaches next ok s st → P st → ok st a → next st a = some st' → P st') :
    P t := by
  induction h with
  | refl => exact h0
  | step hr ha hn ih => exact hstep _ _ _ hr ih ha hn

/-- The run along a list of labels. -/
def follow (next : σ → α → Option σ) (st : σ) : List α → Option σ
  | [] => some st
  | a :: as => (next st a).bind (fun st => follow next st as)

/-- The run along a list of labels, refused at a step that does not meet `ok`. -/
def followOk (next : σ → α → Option σ) (ok : σ → α → Bool) (st : σ) : List α → Option σ
  | [] => some st
  | a :: as => if ok st a then (next st a).bind (fun st => followOk next ok st as) else none

theorem reaches_of_followOk {ok : σ → α → Bool} (h : followOk next ok s as = some t) :
    Reaches next (fun st a => ok st a) s t := by
  induction as generalizing s with
  | nil =>
    obtain rfl : s = t := by simpa only [followOk, Option.some.injEq] using h
    exact .refl
  | cons a as ih =>
    simp only [followOk] at h
    split at h
    · rename_i ha
      obtain ⟨u, hu, ht⟩ := Option.bind_eq_some_iff.mp h
      have hfirst : Reaches next (fun st a => ok st a) s u := .step .refl ha hu
      exact hfirst.trans (ih ht)
    · simp at h

theorem reaches_of_follow (h : follow next s as = some t) (hok : ∀ a ∈ as, ∀ st, ok st a) :
    Reaches next ok s t := by
  induction as generalizing s with
  | nil =>
    obtain rfl : s = t := by simpa only [follow, Option.some.injEq] using h
    exact .refl
  | cons a as ih =>
    obtain ⟨u, hu, ht⟩ := Option.bind_eq_some_iff.mp h
    have hfirst : Reaches next ok s u := .step .refl (hok a List.mem_cons_self s) hu
    exact hfirst.trans (ih ht fun b hb => hok b (.tail a hb))

theorem reachable_of_follow (h : follow next s as = some t) : Reachable next s t :=
  reaches_of_follow h fun _ _ _ => trivial

theorem reachable_of_observed {β : Type w} {f : σ → β} {b : β}
    (h : (follow next s as).map f = some b) : ∃ t, Reachable next s t ∧ f t = b := by
  obtain ⟨t,ht,hb⟩ := Option.map_eq_some_iff.mp h
  exact ⟨t,reachable_of_follow ht,hb⟩

theorem reaches_of_observed {β : Type w} {ok : σ → α → Bool} {f : σ → β} {b : β}
    (h : (followOk next ok s as).map f = some b) :
    ∃ t, Reaches next (fun st a => ok st a) s t ∧ f t = b := by
  obtain ⟨t,ht,hb⟩ := Option.map_eq_some_iff.mp h
  exact ⟨t,reaches_of_followOk ht,hb⟩

/-- `P` holds in every state of the run along a list of labels. -/
def Throughout (next : σ → α → Option σ) (P : σ → Prop) (st : σ) : List α → Prop
  | [] => P st
  | a :: as => P st ∧ ∀ st', next st a = some st' → Throughout next P st' as

/-- Every step of the run along a list of labels meets `ok`. -/
def StepsMeet (next : σ → α → Option σ) (ok : σ → α → Prop) (st : σ) : List α → Prop
  | [] => True
  | a :: as => ∀ st', next st a = some st' → ok st a ∧ StepsMeet next ok st' as

theorem throughout_iff_stepsMeet {I P : σ → Prop}
    (hI : ∀ st a st', I st → next st a = some st' → I st')
    (hstep : ∀ st a st', I st → P st → next st a = some st' → (P st' ↔ ok st a)) {st : σ} (hi : I st)
    (hp : P st) (as : List α) : Throughout next P st as ↔ StepsMeet next ok st as := by
  induction as generalizing st with
  | nil => exact ⟨fun _ => trivial,fun _ => hp⟩
  | cons a as ih =>
    constructor
    · rintro ⟨-,h⟩ st' hn
      have hp' : P st' := by
        cases as with
        | nil => exact h st' hn
        | cons b bs => exact (h st' hn).1
      exact ⟨(hstep st a st' hi hp hn).mp hp',(ih (hI st a st' hi hn) hp').mp (h st' hn)⟩
    · intro h
      refine ⟨hp,?_⟩
      intro st' hn
      obtain ⟨hok,hrest⟩ := h st' hn
      have hp' := (hstep st a st' hi hp hn).mpr hok
      exact (ih (hI st a st' hi hn) hp').mpr hrest

end
end Runs
