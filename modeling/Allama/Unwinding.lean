import Allama.Runs

/-! Two deterministic systems that agree on what is not hidden. -/
namespace Unwinding
universe u v w

section
variable {σ : Type u} {τ : Type v} {α : Type w} {next : σ → α → Option σ} {next' : τ → α → Option τ}
  {ok : α → Prop} {visible : α → Bool} {R : σ → τ → Prop}

/-- A hidden step of either system keeps the relation, and so does a visible step of both. -/
structure Unwinds (next : σ → α → Option σ) (next' : τ → α → Option τ) (ok : α → Prop)
    (visible : α → Bool) (R : σ → τ → Prop) : Prop where
  left : ∀ {s s' t a}, R s t → visible a = false → ok a → next s a = some s' → R s' t
  right : ∀ {s t t' a}, R s t → visible a = false → ok a → next' t a = some t' → R s t'
  both : ∀ {s s' t t' a}, R s t → visible a = true → next s a = some s' → next' t a = some t' → R s' t'

theorem Unwinds.right_hidden (h : Unwinds next next' ok visible R) {as : List α} {s : σ} {t t' : τ}
    (hR : R s t) (hok : ∀ a ∈ as, visible a = false → ok a) (hhid : as.filter visible = [])
    (hrun : Runs.follow next' t as = some t') : R s t' := by
  induction as generalizing t with
  | nil =>
    cases hrun
    exact hR
  | cons a as ih =>
    obtain ⟨t1,hstep,hrest⟩ := Option.bind_eq_some_iff.mp hrun
    have hall := List.filter_eq_nil_iff.mp hhid
    have ha : visible a = false := Bool.eq_false_iff.mpr (hall a List.mem_cons_self)
    have hnext := h.right hR ha (hok a List.mem_cons_self ha) hstep
    refine ih hnext (fun b hb => hok b (.tail a hb)) ?_ hrest
    exact List.filter_eq_nil_iff.mpr fun b hb => hall b (.tail a hb)

/-- Runs with the same visible steps, whose hidden ones are all `ok`, stay related. -/
theorem Unwinds.runs (h : Unwinds next next' ok visible R) {as bs : List α} {s s' : σ} {t t' : τ}
    (hR : R s t) (hoka : ∀ a ∈ as, visible a = false → ok a)
    (hokb : ∀ b ∈ bs, visible b = false → ok b) (hvis : as.filter visible = bs.filter visible)
    (hrun : Runs.follow next s as = some s') (hrun' : Runs.follow next' t bs = some t') : R s' t' := by
  induction as generalizing bs s t with
  | nil =>
    cases hrun
    exact h.right_hidden hR hokb hvis.symm hrun'
  | cons a as ih =>
    obtain ⟨s1,hstep,hrest⟩ := Option.bind_eq_some_iff.mp hrun
    have hoka' : ∀ b ∈ as, visible b = false → ok b := fun b hb => hoka b (.tail a hb)
    by_cases hv : visible a = true
    · rw [List.filter_cons_of_pos hv] at hvis
      -- the other run meets `a` too, after some hidden steps
      induction bs generalizing t with
      | nil => cases hvis
      | cons b bs ihb =>
        obtain ⟨t1,hstep',hrest'⟩ := Option.bind_eq_some_iff.mp hrun'
        have hokb' : ∀ c ∈ bs, visible c = false → ok c := fun c hc => hokb c (.tail b hc)
        by_cases hvb : visible b = true
        · rw [List.filter_cons_of_pos hvb] at hvis
          obtain ⟨rfl,htail⟩ := List.cons.inj hvis
          exact ih (h.both hR hv hstep hstep') hoka' hokb' htail hrest hrest'
        · rw [List.filter_cons_of_neg hvb] at hvis
          have hb := Bool.eq_false_iff.mpr hvb
          exact ihb (h.right hR hb (hokb b List.mem_cons_self hb) hstep') hokb' hvis hrest'
    · rw [List.filter_cons_of_neg hv] at hvis
      have ha := Bool.eq_false_iff.mpr hv
      exact ih (h.left hR ha (hoka a List.mem_cons_self ha) hstep) hoka' hokb hvis hrest hrun'

end
end Unwinding
