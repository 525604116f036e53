import Allama.Expressions
import Allama.TokenBuckets

/-! The rate limit of the requests under one bucket key. -/
namespace Allama
namespace RateLimits
open Function TokenBuckets

/-- What the middleware reads of a request: the headers for a client behind a proxy, the peer's host, and the path. -/
structure Request where
  x_forwarded_for : Option Text
  x_real_ip : Option Text
  client_host : Option Text
  path : Text

structure RateLimitMiddleware where
  rate : ℚ≥0
  capacity : ℚ≥0
  by_ip : Bool
  by_endpoint : Bool

def getClientIp (request : Request) : Text :=
  match request.x_forwarded_for with
  | some forwarded => strip (forwarded.takeWhile (· ≠ ','))
  | none =>
    match request.x_real_ip with
    | some ip => ip
    | none => request.client_host.getD "unknown".toList

def RateLimitMiddleware.getBucketKey (m : RateLimitMiddleware) (request : Request) : Text :=
  let parts := (if m.by_ip then ["ip:".toList ++ getClientIp request] else []) ++
    if m.by_endpoint then ["path:".toList ++ request.path] else []
  if parts = [] then "global".toList else [':'].intercalate parts

structure Response where
  content : String
  status_code : ℕ
  media_type : String
  deriving DecidableEq

def tooManyRequests : Response := ⟨"Rate limit exceeded. Please try again later.",429,"text/plain"⟩

/-- A request with the readings of the clock for a bucket that is made for it and for its call of `consume`. -/
structure Arrival where
  request : Request
  created : ℚ
  now : ℚ

abbrev Buckets := Text → Option TokenBucket

section Dispatch
variable (m : RateLimitMiddleware)

/-- `self.buckets[bucket_key]`. -/
def RateLimitMiddleware.bucket (buckets : Buckets) (a : Arrival) : TokenBucket :=
  (buckets (m.getBucketKey a.request)).getD (.new m.rate m.capacity a.created)

/-- `dispatch`: none where the next handler responds. -/
def RateLimitMiddleware.dispatch (buckets : Buckets) (a : Arrival) : Option Response × Buckets :=
  let (admitted,bucket) := (m.bucket buckets a).consume 1 a.now
  (if admitted then none else some tooManyRequests,update buckets (m.getBucketKey a.request) (some bucket))

/-- The requests in their order: each with its outcome, and the buckets after them. -/
def RateLimitMiddleware.run (buckets : Buckets) : List Arrival → List (Arrival × Option Response) × Buckets
  | [] => ([],buckets)
  | a :: rest =>
    let (response,next) := m.dispatch buckets a
    let (outcomes,last) := RateLimitMiddleware.run next rest
    ((a,response) :: outcomes,last)

def noBuckets : Buckets := fun _ => none

/-- The readings of the clock, in their order. -/
def readings (arrivals : List Arrival) : List ℚ := arrivals.flatMap fun a => [a.created,a.now]

/-- The requests of one bucket that are admitted between two readings. -/
def RateLimitMiddleware.admittedUnder (key : Text) (start stop : ℚ) (outcomes : List (Arrival × Option Response)) : ℕ :=
  outcomes.countP fun o =>
    m.getBucketKey o.1.request == key && o.2.isNone && decide (start ≤ o.1.now) && decide (o.1.now ≤ stop)

end Dispatch

section Keys
variable {m : RateLimitMiddleware}

def RateLimitMiddleware.under (m : RateLimitMiddleware) (key : Text) (a : Arrival) : Bool := m.getBucketKey a.request == key

section
variable (buckets : Buckets) (a : Arrival)
include buckets a

theorem dispatch_fst :
    (m.dispatch buckets a).1 = if ((m.bucket buckets a).consume 1 a.now).1 then none else some tooManyRequests := by
  rw [RateLimitMiddleware.dispatch]

theorem dispatch_snd :
    (m.dispatch buckets a).2 =
      update buckets (m.getBucketKey a.request) (some ((m.bucket buckets a).consume 1 a.now).2) := by
  rw [RateLimitMiddleware.dispatch]

theorem dispatch_self :
    (m.dispatch buckets a).2 (m.getBucketKey a.request) = some ((m.bucket buckets a).consume 1 a.now).2 := by
  rw [dispatch_snd, update_self]

theorem isNone_dispatch : (m.dispatch buckets a).1.isNone = ((m.bucket buckets a).consume 1 a.now).1 := by
  rw [dispatch_fst]
  cases ((m.bucket buckets a).consume 1 a.now).1 <;> rfl

end

theorem dispatch_congr {buckets others : Buckets} {a : Arrival}
    (h : buckets (m.getBucketKey a.request) = others (m.getBucketKey a.request)) :
    (m.dispatch buckets a).1 = (m.dispatch others a).1 ∧
      (m.dispatch buckets a).2 (m.getBucketKey a.request) = (m.dispatch others a).2 (m.getBucketKey a.request) := by
  unfold RateLimitMiddleware.dispatch RateLimitMiddleware.bucket
  rw [h]
  simp

theorem dispatch_other {buckets : Buckets} {a : Arrival} {key : Text} (h : key ≠ m.getBucketKey a.request) :
    (m.dispatch buckets a).2 key = buckets key :=
  update_of_ne h _ _

theorem run_under (key : Text) (arrivals : List Arrival) {buckets others : Buckets} (h : buckets key = others key) :
    (m.run buckets arrivals).1.filter (fun o => m.under key o.1) = (m.run others (arrivals.filter (m.under key))).1 ∧
      (m.run buckets arrivals).2 key = (m.run others (arrivals.filter (m.under key))).2 key := by
  induction arrivals generalizing buckets others with
  | nil => exact ⟨rfl,h⟩
  | cons a rest ih =>
    cases hkey : m.under key a with
    | false =>
      have hne : key ≠ m.getBucketKey a.request := by
        intro heq
        rw [RateLimitMiddleware.under, ← heq, beq_self_eq_true] at hkey
        cases hkey
      have hrest := ih ((dispatch_other hne).trans h)
      rw [List.filter_cons_of_neg (by simp [hkey])]
      simp only [RateLimitMiddleware.run]
      rw [List.filter_cons_of_neg (by simp [hkey])]
      exact hrest
    | true =>
      have heq : m.getBucketKey a.request = key := beq_iff_eq.mp hkey
      obtain ⟨hresponse,hbucket⟩ := @dispatch_congr m buckets others a (by rwa [heq])
      rw [heq] at hbucket
      have hrest := ih hbucket
      rw [List.filter_cons_of_pos hkey]
      simp only [RateLimitMiddleware.run]
      rw [List.filter_cons_of_pos (by simpa using hkey), hrest.1, hresponse]
      exact ⟨rfl,hrest.2⟩

end Keys

section Limits
variable {m : RateLimitMiddleware}

/-- What holds of the buckets at a reading of the clock. -/
def RateLimitMiddleware.Kept (m : RateLimitMiddleware) (buckets : Buckets) (now : ℚ) : Prop :=
  ∀ key b, buckets key = some b → b.rate = m.rate ∧ b.capacity = m.capacity ∧ b.Bounded ∧ b.last_refill ≤ now

theorem bucket_limits {buckets : Buckets} {a : Arrival} {now : ℚ} (h : m.Kept buckets now) :
    (m.bucket buckets a).rate = m.rate ∧ (m.bucket buckets a).capacity = m.capacity := by
  unfold RateLimitMiddleware.bucket
  cases hbucket : buckets (m.getBucketKey a.request) with
  | none => exact ⟨rfl,rfl⟩
  | some b =>
    obtain ⟨hrate,hcapacity,-⟩ := h _ b hbucket
    exact ⟨hrate,hcapacity⟩

theorem bucket_kept {buckets : Buckets} {a : Arrival} {now : ℚ} (h : m.Kept buckets now) (hnow : now ≤ a.now)
    (hcreated : a.created ≤ a.now) : (m.bucket buckets a).rate = m.rate ∧ (m.bucket buckets a).capacity = m.capacity ∧
      (m.bucket buckets a).Bounded ∧ (m.bucket buckets a).last_refill ≤ a.now := by
  unfold RateLimitMiddleware.bucket
  cases hbucket : buckets (m.getBucketKey a.request) with
  | none => exact ⟨rfl,rfl,TokenBucket.bounded_new _ _ _,hcreated⟩
  | some b =>
    obtain ⟨hrate,hcapacity,hbounded,hlast⟩ := h _ b hbucket
    exact ⟨hrate,hcapacity,hbounded,hlast.trans hnow⟩

theorem dispatch_kept {buckets : Buckets} {a : Arrival} {now : ℚ} (h : m.Kept buckets now) (hnow : now ≤ a.now)
    (hcreated : a.created ≤ a.now) : m.Kept (m.dispatch buckets a).2 a.now := by
  obtain ⟨hrate,hcapacity,hbounded,hlast⟩ := bucket_kept h hnow hcreated
  obtain ⟨hsameRate,hsameCapacity,hsameLast⟩ := TokenBucket.consume_keeps (b := m.bucket buckets a) a.now
  intro key b hb
  by_cases hkey : key = m.getBucketKey a.request
  · subst hkey
    obtain rfl := Option.some.inj ((dispatch_self buckets a).symm.trans hb)
    exact ⟨hsameRate.trans hrate,hsameCapacity.trans hcapacity,hbounded.consume hlast,hsameLast.le⟩
  · rw [dispatch_other hkey] at hb
    obtain ⟨hold,hcap,hbound,hbefore⟩ := h key b hb
    exact ⟨hold,hcap,hbound,hbefore.trans hnow⟩

theorem readings_cons {now : ℚ} {a : Arrival} {rest : List Arrival}
    (h : (now :: readings (a :: rest)).Pairwise (· ≤ ·)) :
    now ≤ a.created ∧ a.created ≤ a.now ∧ (a.now :: readings rest).Pairwise (· ≤ ·) := by
  obtain ⟨hfirst,hrest⟩ := List.pairwise_cons.mp h
  obtain ⟨hcreated,hlater⟩ := List.pairwise_cons.mp hrest
  exact ⟨hfirst a.created List.mem_cons_self,hcreated a.now List.mem_cons_self,hlater⟩

theorem exists_earlier {arrivals : List Arrival} (h : (readings arrivals).Pairwise (· ≤ ·)) :
    ∃ now, (now :: readings arrivals).Pairwise (· ≤ ·) := by
  cases arrivals with
  | nil => exact ⟨0,List.pairwise_singleton _ _⟩
  | cons a rest =>
    refine ⟨a.created,List.pairwise_cons.mpr ⟨?_,h⟩⟩
    intro later hlater
    obtain rfl | hmem := List.mem_cons.mp hlater
    · exact le_rfl
    · exact (List.pairwise_cons.mp h).1 later hmem

theorem run_kept {buckets : Buckets} {now : ℚ} (h : m.Kept buckets now) {before after : List Arrival}
    (hsorted : (now :: readings (before ++ after)).Pairwise (· ≤ ·)) :
    ∃ last, m.Kept (m.run buckets before).2 last ∧ (last :: readings after).Pairwise (· ≤ ·) := by
  induction before generalizing buckets now with
  | nil => exact ⟨now,h,hsorted⟩
  | cons a before ih =>
    obtain ⟨hnow,hcreated,hrest⟩ := readings_cons hsorted
    exact ih (dispatch_kept h (hnow.trans hcreated) hcreated) hrest

theorem run_consumeAll {key : Text} {arrivals : List Arrival} (harrivals : ∀ a ∈ arrivals, m.getBucketKey a.request = key)
    {buckets : Buckets} {b : TokenBucket} (hb : buckets key = some b) :
    (m.run buckets arrivals).1.map (fun o => (o.1.now,o.2.isNone)) = (b.consumeAll (arrivals.map Arrival.now)).1 := by
  induction arrivals generalizing buckets b with
  | nil => rfl
  | cons a rest ih =>
    have hkey := harrivals a List.mem_cons_self
    have hbucket : m.bucket buckets a = b := by
      rw [RateLimitMiddleware.bucket, hkey, hb]
      rfl
    have hnext : (m.dispatch buckets a).2 key = some (b.consume 1 a.now).2 := by
      rw [← hbucket, ← hkey]
      exact dispatch_self buckets a
    have hresponse : (m.dispatch buckets a).1.isNone = (b.consume 1 a.now).1 := by
      rw [← hbucket]
      exact isNone_dispatch buckets a
    have hrest := ih (fun other hother => harrivals other (List.mem_cons_of_mem a hother)) hnext
    simp only [RateLimitMiddleware.run, List.map_cons, TokenBucket.consumeAll]
    rw [hresponse, hrest]

theorem run_created {key : Text} {a : Arrival} {rest : List Arrival} (hkey : m.getBucketKey a.request = key)
    (hrest : ∀ other ∈ rest, m.getBucketKey other.request = key) {buckets : Buckets} (hnone : buckets key = none) :
    (m.run buckets (a :: rest)).1.map (fun o => (o.1.now,o.2.isNone)) =
      ((TokenBucket.new m.rate m.capacity a.created).consumeAll ((a :: rest).map Arrival.now)).1 := by
  have hsame : m.run buckets (a :: rest) =
      m.run (update buckets key (some (TokenBucket.new m.rate m.capacity a.created))) (a :: rest) := by
    have hbucket : m.bucket buckets a =
        m.bucket (update buckets key (some (TokenBucket.new m.rate m.capacity a.created))) a := by
      unfold RateLimitMiddleware.bucket
      rw [hkey, hnone, update_self]
      rfl
    have hdispatch : m.dispatch buckets a =
        m.dispatch (update buckets key (some (TokenBucket.new m.rate m.capacity a.created))) a := by
      refine Prod.ext ?_ ?_
      · rw [dispatch_fst, dispatch_fst, ← hbucket]
      · rw [dispatch_snd, dispatch_snd, ← hbucket, hkey, update_idem]
    simp only [RateLimitMiddleware.run, hdispatch]
  rw [hsame]
  refine run_consumeAll ?_ (update_self _ _ _)
  intro other hother
  obtain rfl | hmem := List.mem_cons.mp hother
  · exact hkey
  · exact hrest other hmem

theorem pairwise_now {now : ℚ} {arrivals : List Arrival} (h : (now :: readings arrivals).Pairwise (· ≤ ·)) :
    (now :: arrivals.map Arrival.now).Pairwise (· ≤ ·) := by
  refine h.sublist (List.Sublist.cons_cons now ?_)
  induction arrivals with
  | nil => exact List.Sublist.refl _
  | cons a rest ih =>
    obtain ⟨hnow,hcreated,hrest⟩ := readings_cons h
    have hlater : (now :: readings rest).Pairwise (· ≤ ·) :=
      List.pairwise_cons.mpr ⟨fun later hlater => (hnow.trans hcreated).trans ((List.pairwise_cons.mp hrest).1 later hlater),
        (List.pairwise_cons.mp hrest).2⟩
    exact (List.Sublist.cons_cons a.now (ih hlater)).cons a.created

theorem readings_filter (p : Arrival → Bool) (arrivals : List Arrival) :
    (readings (arrivals.filter p)).Sublist (readings arrivals) :=
  List.filter_sublist.flatMap _

theorem admittedUnder_eq (key : Text) (start stop : ℚ) (outcomes : List (Arrival × Option Response)) :
    m.admittedUnder key start stop outcomes =
      admitted start stop ((outcomes.filter fun o => m.under key o.1).map fun o => (o.1.now,o.2.isNone)) := by
  unfold RateLimitMiddleware.admittedUnder admitted
  rw [List.countP_map, List.countP_filter]
  congr 1
  funext o
  simp only [Function.comp, RateLimitMiddleware.under]
  cases m.getBucketKey o.1.request == key <;> simp

theorem admittedUnder_le {arrivals : List Arrival} (h : (readings arrivals).Pairwise (· ≤ ·)) (key : Text) (start : ℚ)
    {length : ℚ} (hlength : 0 ≤ length) :
    (m.admittedUnder key start (start + length) (m.run noBuckets arrivals).1 : ℚ) ≤ m.capacity + m.rate * length := by
  have hfilter : (readings (arrivals.filter (m.under key))).Pairwise (· ≤ ·) := h.sublist (readings_filter _ _)
  have hkeys : ∀ a ∈ arrivals.filter (m.under key), m.getBucketKey a.request = key :=
    fun a ha => beq_iff_eq.mp (List.mem_filter.mp ha).2
  rw [admittedUnder_eq, (@run_under m key arrivals noBuckets noBuckets rfl).1]
  generalize arrivals.filter (m.under key) = mine at hfilter hkeys
  cases mine with
  | nil =>
    have hzero : admitted start (start + length) [] = 0 := rfl
    simp only [RateLimitMiddleware.run, List.map_nil, hzero, Nat.cast_zero]
    exact add_nonneg m.capacity.cast_nonneg (mul_nonneg m.rate.cast_nonneg hlength)
  | cons a rest =>
    obtain ⟨hcreated,_⟩ := List.pairwise_cons.mp hfilter
    have hsorted : (a.created :: (a :: rest).map Arrival.now).Pairwise (· ≤ ·) := by
      refine pairwise_now (List.pairwise_cons.mpr ⟨?_,hfilter⟩)
      intro later hlater
      obtain rfl | hmem := List.mem_cons.mp hlater
      · exact le_rfl
      · exact hcreated later hmem
    rw [run_created (hkeys a List.mem_cons_self) (fun other hother => hkeys other (List.mem_cons_of_mem a hother)) rfl]
    have hle := (TokenBucket.bounded_new m.rate m.capacity a.created).admitted_interval_le hsorted start hlength
    rw [mul_comm] at hle
    exact hle

/-- In every run with a clock that does not go back: the buckets hold no less than no token and no more than the capacity, no
interval admits more than the capacity and what flows in, no request is refused while a token is there or has flowed in, and the
requests of one key have the outcomes that they have on their own. -/
theorem requests_limited (m : RateLimitMiddleware) {arrivals : List Arrival} (h : (readings arrivals).Pairwise (· ≤ ·)) :
    (∀ before after, arrivals = before ++ after → ∀ key b, (m.run noBuckets before).2 key = some b →
      0 ≤ b.tokens ∧ b.tokens ≤ m.capacity) ∧
    (∀ key start length, 0 ≤ length →
      (m.admittedUnder key start (start + length) (m.run noBuckets arrivals).1 : ℚ) ≤ m.capacity + m.rate * length) ∧
    (∀ before a after, arrivals = before ++ a :: after → (m.dispatch (m.run noBuckets before).2 a).1 ≠ none →
      let b := m.bucket (m.run noBuckets before).2 a
      min (m.capacity : ℚ) (b.tokens + (a.now - b.last_refill) * m.rate) < 1) ∧
    ∀ key, (m.run noBuckets arrivals).1.filter (fun o => m.under key o.1) =
      (m.run noBuckets (arrivals.filter (m.under key))).1 := by
  have hnone : ∀ now, m.Kept noBuckets now := by
    intro now key b hb
    cases hb
  obtain ⟨now,hsorted⟩ := exists_earlier h
  refine ⟨?_,fun key start length hlength => admittedUnder_le h key start hlength,?_,?_⟩
  · rintro before after rfl key b hb
    obtain ⟨last,hkept,_⟩ := run_kept (hnone now) hsorted
    obtain ⟨_,hcapacity,hbounded,_⟩ := hkept key b hb
    exact ⟨hbounded.nonneg,hcapacity ▸ hbounded.le_capacity⟩
  · rintro before a after rfl hrefused
    obtain ⟨last,hkept,_⟩ := run_kept (hnone now) hsorted
    obtain ⟨hrate,hcapacity⟩ := bucket_limits (a := a) hkept
    generalize m.run noBuckets before = st at hrefused hrate hcapacity
    obtain ⟨_,hconsume⟩ | ⟨htokens,_⟩ := TokenBucket.consume_eq (b := m.bucket st.2 a) a.now
    · rw [dispatch_fst, hconsume] at hrefused
      exact absurd rfl hrefused
    · rw [TokenBucket.refill, hrate, hcapacity] at htokens
      exact htokens
  · intro key
    exact (@run_under m key arrivals noBuckets noBuckets rfl).1

def oneASecond : RateLimitMiddleware := ⟨1,2,false,false⟩

/-- A request at a reading of the clock. -/
def requestAt (now : ℚ) : Arrival := ⟨⟨none,none,none,"/health".toList⟩,now,now⟩

/-- A second brings a token, and ten seconds no more than the capacity. -/
def bursts : List Arrival := [requestAt 0,requestAt 0,requestAt 0,requestAt 1,requestAt 11,requestAt 11,requestAt 11]

theorem requests_limited_bursts :
    (oneASecond.run noBuckets bursts).1.map (fun o => o.2.isNone) = [true,true,false,true,true,true,false] ∧
    (oneASecond.admittedUnder "global".toList 0 (0 + 1) (oneASecond.run noBuckets bursts).1 : ℚ) ≤
      oneASecond.capacity + oneASecond.rate * 1 ∧
    let b := oneASecond.bucket (oneASecond.run noBuckets (bursts.take 6)).2 (requestAt 11)
    min (oneASecond.capacity : ℚ) (b.tokens + (11 - b.last_refill) * oneASecond.rate) < 1 := by
  have hsorted : (readings bursts).Pairwise (· ≤ ·) := by
    simp [readings, bursts, requestAt]
  obtain ⟨-,hadmitted,hrefused,-⟩ := requests_limited oneASecond hsorted
  exact ⟨by decide +kernel,hadmitted "global".toList 0 1 (by norm_num),
    hrefused (bursts.take 6) (requestAt 11) [] rfl (by decide +kernel)⟩

end Limits
end RateLimits
end Allama
