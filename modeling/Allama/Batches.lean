import Mathlib.Data.List.Infix
import Mathlib.Data.List.TakeDrop
import Mathlib.Algebra.Order.Group.Unbundled.Int
import Mathlib.Algebra.Order.Ring.Int

/-! A loop that takes the positions of a range in batches, and stops at the first batch that fails. -/
namespace Batches
variable {σ ρ ε τ : Type}

/-- The batches from `start` on, each of `size` positions or as many as are left: what they start and,
after `done`, what they give. `none` when the fuel runs out. -/
def run (batch : ℤ → ℤ → List σ × Except ε (List ρ)) (size total : ℤ) :
    ℕ → ℤ → List σ → List ρ → Option (List σ × Except ε (List ρ))
  | fuel, start, started, done =>
    if start < total then
      match fuel with
      | 0 => none
      | fuel+1 =>
        match batch start (min size (total-start)) with
        | (more,.error e) => some (started ++ more,.error e)
        | (more,.ok results) =>
          run batch size total fuel (start + min size (total-start)) (started ++ more) (done ++ results)
    else some (started,.ok done)

variable {batch : ℤ → ℤ → List σ × Except ε (List ρ)} {size total : ℤ}

theorem run_stop {fuel : ℕ} {start : ℤ} (h : total ≤ start) (started : List σ) (done : List ρ) :
    run batch size total fuel start started done = some (started,.ok done) := by
  unfold run
  rw [if_neg (by omega)]

theorem run_error {fuel : ℕ} {start : ℤ} {more : List σ} {e : ε} (h : start < total)
    (hb : batch start (min size (total-start)) = (more,.error e)) (started : List σ) (done : List ρ) :
    run batch size total (fuel+1) start started done = some (started ++ more,.error e) := by
  rw [run, if_pos h]
  simp only [hb]

theorem run_ok {fuel : ℕ} {start : ℤ} {more : List σ} {results : List ρ} (h : start < total)
    (hb : batch start (min size (total-start)) = (more,.ok results)) (started : List σ) (done : List ρ) :
    run batch size total (fuel+1) start started done =
      run batch size total fuel (start + min size (total-start)) (started ++ more) (done ++ results) := by
  rw [run, if_pos h]
  simp only [hb]

theorem run_ne_ok (hsize : size ≤ 0) {fuel : ℕ} {start : ℤ} (h : start < total) {started : List σ}
    {done : List ρ} (s : List σ) (results : List ρ) :
    run batch size total fuel start started done ≠ some (s,.ok results) := by
  induction fuel generalizing start started done with
  | zero =>
    rw [run, if_pos h]
    simp
  | succ fuel ih =>
    cases hb : batch start (min size (total-start)) with
    | mk more result =>
      cases result with
      | error e =>
        rw [run_error h hb]
        simp
      | ok rs =>
        rw [run_ok h hb]
        apply ih
        have := min_le_left size (total-start)
        omega

theorem run_started_eq (hnil : ∀ a c, (batch a c).1 = []) {fuel : ℕ} {start : ℤ} {started s : List σ} {done : List ρ}
    {result : Except ε (List ρ)} (h : run batch size total fuel start started done = some (s,result)) : s = started := by
  induction fuel generalizing start started done with
  | zero =>
    rw [run] at h
    split at h
    · cases h
    · exact (Prod.mk.inj (Option.some.inj h)).1.symm
  | succ fuel ih =>
    by_cases hlt : start < total
    · have hmore := hnil start (min size (total-start))
      cases hb : batch start (min size (total-start)) with
      | mk more batchResult =>
        obtain rfl : more = [] := by rwa [hb] at hmore
        cases batchResult with
        | error e =>
          rw [run_error hlt hb, List.append_nil] at h
          exact (Prod.mk.inj (Option.some.inj h)).1.symm
        | ok results =>
          rw [run_ok hlt hb, List.append_nil] at h
          exact ih h
    · rw [run_stop (not_lt.mp hlt)] at h
      exact (Prod.mk.inj (Option.some.inj h)).1.symm

variable {ys : List τ} {g : σ → τ} {f : σ → ρ} {good : Prop}

/-- What a batch of a range has to do: it starts its positions in order, gives a result for each, and
fails only when not all is good. -/
def Exact (batch : ℤ → ℤ → List σ × Except ε (List ρ)) (ys : List τ) (g : σ → τ) (f : σ → ρ)
    (good : Prop) : Prop :=
  ∀ a c : ℕ, 1 ≤ c → a+c ≤ ys.length → (batch a c).1.map g = (ys.drop a).take c ∧
    (∀ results, (batch a c).2 = .ok results → results = (batch a c).1.map f) ∧
    (good → ∃ results, (batch a c).2 = .ok results)

/-- Batches that advance come to an end, start every position once and in order, and collect a result
for each. -/
theorem run_exact (hbatch : Exact batch ys g f good) (hsize : 1 ≤ size) {fuel start : ℕ}
    (hstart : start ≤ ys.length) (hfuel : ys.length-start ≤ fuel) {started : List σ} {done : List ρ}
    (hstarted : started.map g = ys.take start) (hdone : done = started.map f) :
    ∃ s result, run batch size ys.length fuel start started done = some (s,result) ∧
      s.map g <+: ys ∧ (∀ results, result = .ok results → s.map g = ys ∧ results = s.map f) ∧
      (good → ∃ results, result = .ok results) := by
  induction fuel generalizing start started done with
  | zero =>
    have hend : start = ys.length := by omega
    refine ⟨started,.ok done,run_stop (by omega) _ _,?_⟩
    rw [hend, List.take_length] at hstarted
    refine ⟨by rw [hstarted],?_,fun _ => ⟨done,rfl⟩⟩
    intro results h
    injection h with h
    exact ⟨hstarted,by rw [← h, hdone]⟩
  | succ fuel ih =>
    by_cases hend : start = ys.length
    · refine ⟨started,.ok done,run_stop (by omega) _ _,?_⟩
      rw [hend, List.take_length] at hstarted
      refine ⟨by rw [hstarted],?_,fun _ => ⟨done,rfl⟩⟩
      intro results h
      injection h with h
      exact ⟨hstarted,by rw [← h, hdone]⟩
    · have hlt : (start:ℤ) < ys.length := by omega
      obtain ⟨c,hc⟩ : ∃ c : ℕ, (c:ℤ) = min size (ys.length-start) :=
        ⟨(min size (ys.length-start)).toNat,Int.toNat_of_nonneg (by omega)⟩
      have hpos : 1 ≤ c := by omega
      have hle : start+c ≤ ys.length := by omega
      obtain ⟨hmore,hresults,hgood⟩ := hbatch start c hpos hle
      -- the positions before the end of this batch
      have htake : (started ++ (batch start c).1).map g = ys.take (start+c) := by
        rw [List.map_append, hstarted, hmore, List.take_add]
      cases hb : batch start c with
      | mk more result =>
        rw [hb] at hmore hresults hgood htake
        cases result with
        | error e =>
          refine ⟨started ++ more,.error e,run_error hlt (by rw [← hc, hb]) _ _,?_,?_,?_⟩
          · rw [htake]
            exact List.take_prefix _ _
          · intro results h
            cases h
          · intro h
            obtain ⟨_,h⟩ := hgood h
            cases h
        | ok results =>
          rw [run_ok hlt (by rw [← hc, hb]), ← hc, ← Nat.cast_add]
          apply ih hle (by omega) htake
          rw [List.map_append, hdone, hresults results rfl]

end Batches
