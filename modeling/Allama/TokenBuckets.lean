import Mathlib

/-! A bucket of tokens that is refilled with time, and the calls it admits. -/
namespace TokenBuckets

structure TokenBucket where
  rate : ℚ≥0
  capacity : ℚ≥0
  tokens : ℚ
  last_refill : ℚ

/-- `__init__`: a full bucket. -/
def TokenBucket.new (rate capacity : ℚ≥0) (now : ℚ) : TokenBucket := ⟨rate,capacity,capacity,now⟩

def TokenBucket.refill (b : TokenBucket) (now : ℚ) : TokenBucket :=
  let elapsed := now - b.last_refill
  { b with tokens := min b.capacity (b.tokens + elapsed * b.rate), last_refill := now }

def TokenBucket.consume (b : TokenBucket) (tokens now : ℚ) : Bool × TokenBucket :=
  let filled := b.refill now
  if tokens ≤ filled.tokens then (true,{ filled with tokens := filled.tokens - tokens }) else (false,filled)

/-- The calls `consume(1)` at the clock readings, with their outcomes, and the bucket after them. -/
def TokenBucket.consumeAll (b : TokenBucket) : List ℚ → List (ℚ × Bool) × TokenBucket
  | [] => ([],b)
  | now :: rest =>
    let (admitted,next) := b.consume 1 now
    let (outcomes,last) := next.consumeAll rest
    ((now,admitted) :: outcomes,last)

def admitted (start stop : ℚ) (outcomes : List (ℚ × Bool)) : ℕ :=
  outcomes.countP fun o => o.2 && decide (start ≤ o.1) && decide (o.1 ≤ stop)

structure TokenBucket.Bounded (b : TokenBucket) : Prop where
  nonneg : 0 ≤ b.tokens
  le_capacity : b.tokens ≤ b.capacity

variable {b : TokenBucket}

theorem TokenBucket.bounded_new (rate capacity : ℚ≥0) (now : ℚ) : (TokenBucket.new rate capacity now).Bounded :=
  ⟨capacity.cast_nonneg,le_rfl⟩

theorem TokenBucket.inflow_nonneg {now : ℚ} (h : b.last_refill ≤ now) : 0 ≤ (now - b.last_refill) * b.rate :=
  mul_nonneg (sub_nonneg.mpr h) b.rate.cast_nonneg

theorem TokenBucket.Bounded.refill (hb : b.Bounded) {now : ℚ} (h : b.last_refill ≤ now) : (b.refill now).Bounded where
  nonneg := le_min b.capacity.cast_nonneg (add_nonneg hb.nonneg (inflow_nonneg h))
  le_capacity := min_le_left _ _

theorem TokenBucket.refill_tokens_le (now : ℚ) : (b.refill now).tokens ≤ b.tokens + (now - b.last_refill) * b.rate :=
  min_le_right _ _

theorem TokenBucket.consume_eq (now : ℚ) :
    (1 ≤ (b.refill now).tokens ∧
      b.consume 1 now = (true,{ b.refill now with tokens := (b.refill now).tokens - 1 })) ∨
    ((b.refill now).tokens < 1 ∧ b.consume 1 now = (false,b.refill now)) := by
  unfold TokenBucket.consume
  by_cases htokens : 1 ≤ (b.refill now).tokens
  · exact .inl ⟨htokens,if_pos htokens⟩
  · exact .inr ⟨not_le.mp htokens,if_neg htokens⟩

theorem TokenBucket.consume_keeps (now : ℚ) : (b.consume 1 now).2.rate = b.rate ∧
    (b.consume 1 now).2.capacity = b.capacity ∧ (b.consume 1 now).2.last_refill = now := by
  obtain ⟨_,h⟩ | ⟨_,h⟩ := TokenBucket.consume_eq (b := b) now
  · rw [h]
    exact ⟨rfl,rfl,rfl⟩
  · rw [h]
    exact ⟨rfl,rfl,rfl⟩

theorem TokenBucket.Bounded.consume (hb : b.Bounded) {now : ℚ} (h : b.last_refill ≤ now) : (b.consume 1 now).2.Bounded := by
  have hfilled := hb.refill h
  obtain ⟨htokens,hconsume⟩ | ⟨_,hconsume⟩ := TokenBucket.consume_eq (b := b) now
  · rw [hconsume]
    refine ⟨sub_nonneg.mpr htokens,?_⟩
    have hcapacity := hfilled.le_capacity
    change (b.refill now).tokens - 1 ≤ (b.refill now).capacity
    linarith
  · rw [hconsume]
    exact hfilled

theorem TokenBucket.consume_refill (now : ℚ) : (b.refill now).consume 1 now = b.consume 1 now := by
  have hrefill : (b.refill now).refill now = b.refill now := by
    unfold TokenBucket.refill
    simp
  unfold TokenBucket.consume
  rw [hrefill]

theorem admitted_cons (start stop now : ℚ) (ok : Bool) (outcomes : List (ℚ × Bool)) :
    admitted start stop ((now,ok) :: outcomes) =
      admitted start stop outcomes + if ok = true ∧ start ≤ now ∧ now ≤ stop then 1 else 0 := by
  unfold admitted
  rw [List.countP_cons]
  congr 1
  simp [and_assoc]

theorem times_consumeAll (readings : List ℚ) : (b.consumeAll readings).1.map Prod.fst = readings := by
  induction readings generalizing b with
  | nil => rfl
  | cons now rest ih => exact congrArg (now :: ·) ih

theorem admitted_after {now : ℚ} {rest : List ℚ} (hsorted : (now :: rest).Pairwise (· ≤ ·)) {stop : ℚ} (h : stop < now)
    (start : ℚ) : admitted start stop (b.consumeAll (now :: rest)).1 = 0 := by
  apply List.countP_eq_zero.mpr
  intro o ho
  have htime : o.1 ∈ now :: rest := times_consumeAll (b := b) (now :: rest) ▸ List.mem_map_of_mem ho
  have hlate : stop < o.1 := by
    obtain hfirst | hlater := List.mem_cons.mp htime
    · rw [hfirst]
      exact h
    · exact lt_of_lt_of_le h ((List.pairwise_cons.mp hsorted).1 o.1 hlater)
  simp [not_le.mpr hlate]

theorem TokenBucket.Bounded.admitted_le (hb : b.Bounded) {readings : List ℚ} (hsorted : (b.last_refill :: readings).Pairwise (· ≤ ·))
    (start : ℚ) {stop : ℚ} (hstop : b.last_refill ≤ stop) :
    (admitted start stop (b.consumeAll readings).1 : ℚ) ≤ b.tokens + (stop - b.last_refill) * b.rate := by
  induction readings generalizing b with
  | nil =>
    have hinflow := inflow_nonneg hstop
    have htokens := hb.nonneg
    simp only [consumeAll, admitted, List.countP_nil, Nat.cast_zero]
    linarith
  | cons now rest ih =>
    have hnow : b.last_refill ≤ now := (List.pairwise_cons.mp hsorted).1 now List.mem_cons_self
    have hrest := (List.pairwise_cons.mp hsorted).2
    by_cases hin : now ≤ stop
    · obtain ⟨hrate,_,hlast⟩ := consume_keeps (b := b) now
      have hih := ih (hb.consume hnow) (by rwa [hlast]) (by rwa [hlast])
      rw [hlast, hrate] at hih
      have hfilled := refill_tokens_le (b := b) now
      have hsplit : (stop - b.last_refill) * b.rate = (now - b.last_refill) * b.rate + (stop - now) * b.rate := by ring
      change (admitted start stop ((now,(b.consume 1 now).1) :: ((b.consume 1 now).2.consumeAll rest).1) : ℚ) ≤ _
      rw [admitted_cons]
      obtain ⟨_,hconsume⟩ | ⟨_,hconsume⟩ := consume_eq (b := b) now
      · rw [hconsume] at hih ⊢
        dsimp only at hih ⊢
        push_cast
        split_ifs <;> linarith
      · rw [hconsume] at hih ⊢
        dsimp only at hih ⊢
        rw [if_neg (by simp), Nat.add_zero]
        linarith
    · have hafter := admitted_after (b := b) hrest (not_le.mp hin) start
      have hinflow := inflow_nonneg hstop
      have htokens := hb.nonneg
      rw [hafter, Nat.cast_zero]
      linarith

/-- In any interval no more is admitted than the capacity and what flows in during the interval. -/
theorem TokenBucket.Bounded.admitted_interval_le (hb : b.Bounded) {readings : List ℚ}
    (hsorted : (b.last_refill :: readings).Pairwise (· ≤ ·)) (start : ℚ) {length : ℚ} (hlength : 0 ≤ length) :
    (admitted start (start + length) (b.consumeAll readings).1 : ℚ) ≤ b.capacity + length * b.rate := by
  induction readings generalizing b with
  | nil =>
    have hinflow := mul_nonneg hlength b.rate.cast_nonneg
    have hcapacity : (0 : ℚ) ≤ b.capacity := b.capacity.cast_nonneg
    simp only [consumeAll, admitted, List.countP_nil, Nat.cast_zero]
    linarith
  | cons now rest ih =>
    have hnow : b.last_refill ≤ now := (List.pairwise_cons.mp hsorted).1 now List.mem_cons_self
    have hrest := (List.pairwise_cons.mp hsorted).2
    by_cases hbefore : now < start
    · obtain ⟨hrate,hcapacity,hlast⟩ := consume_keeps (b := b) now
      have hih := ih (hb.consume hnow) (by rwa [hlast])
      rw [hrate, hcapacity] at hih
      change (admitted start _ ((now,(b.consume 1 now).1) :: ((b.consume 1 now).2.consumeAll rest).1) : ℚ) ≤ _
      rw [admitted_cons, if_neg (fun h => absurd h.2.1 (not_le.mpr hbefore)), Nat.add_zero]
      exact hih
    · -- the first call of the interval: its bucket is as full as can be at most
      have hfilled := hb.refill hnow
      have hconsume : (b.refill now).consumeAll (now :: rest) = b.consumeAll (now :: rest) := by
        simp only [consumeAll, consume_refill]
      by_cases hin : now ≤ start + length
      · have hsame : ((b.refill now).last_refill :: now :: rest).Pairwise (· ≤ ·) := by
          refine List.pairwise_cons.mpr ⟨?_,hrest⟩
          intro later hlater
          obtain rfl | hmem := List.mem_cons.mp hlater
          · exact le_rfl
          · exact (List.pairwise_cons.mp hrest).1 later hmem
        have hle := hfilled.admitted_le hsame start hin
        rw [hconsume] at hle
        have hshort : (start + length - now) * b.rate ≤ length * b.rate :=
          mul_le_mul_of_nonneg_right (by linarith) b.rate.cast_nonneg
        calc (admitted start (start + length) (b.consumeAll (now :: rest)).1 : ℚ)
            ≤ (b.refill now).tokens + (start + length - now) * b.rate := hle
          _ ≤ b.capacity + length * b.rate := add_le_add hfilled.le_capacity hshort
      · rw [admitted_after hrest (not_le.mp hin) start, Nat.cast_zero]
        exact add_nonneg b.capacity.cast_nonneg (mul_nonneg hlength b.rate.cast_nonneg)

end TokenBuckets
