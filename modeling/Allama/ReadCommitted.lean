import Mathlib.Logic.Function.Basic
import Allama.Runs

/-! Transactions that read the committed state piece by piece and write at their end, interleaved with
those of other clients. -/
namespace ReadCommitted

/-- The rest of a transaction: a query whose answer decides how it goes on, a check that a constraint
backs or whose answer is not used, a failure, or the writes that it sends before it commits. -/
inductive Txn (σ ε : Type) : Type 1
  | read {β : Type} [DecidableEq β] (query : σ → β) (next : β → Txn σ ε)
  | check (query : σ → Bool) (next : Bool → Txn σ ε)
  | fail (error : ε)
  | write (flush : σ → Except ε σ)

namespace Txn
variable {σ ε : Type}

/-- The transaction with nothing in between. -/
def exec : Txn σ ε → σ → Except ε σ
  | @read _ _ _ _ query next, s => (next (query s)).exec s
  | .check query next, s => (next (query s)).exec s
  | .fail e, _ => .error e
  | .write flush, s => flush s

/-- What a transaction makes of the state: a failure is rolled back. -/
def outcome (t : Txn σ ε) (s : σ) : σ := (t.exec s).toOption.getD s

/-- It fails, whatever it reads. -/
def Fails : Txn σ ε → Prop
  | @read _ _ _ _ _ next => ∀ answer, (next answer).Fails
  | .check _ next => ∀ answer, (next answer).Fails
  | .fail _ => True
  | .write _ => False

/-- It comes to its writes, whatever it reads. -/
def Commits : Txn σ ε → Prop
  | @read _ _ _ _ _ next => ∀ answer, (next answer).Commits
  | .check _ next => ∀ answer, (next answer).Commits
  | .fail _ => False
  | .write _ => True

/-- A check that is passed leaves nothing to fail, and its answer makes no difference in the good states
that give the answers read before. -/
def Backed : Txn σ ε → (σ → Prop) → Prop
  | @read _ _ _ _ query next, good => ∀ answer, (next answer).Backed fun s => good s ∧ query s = answer
  | .check query next, good => ∀ answer, (next answer).Fails ∨ (next answer).Commits ∧
      (next answer).Backed good ∧ ∀ s, good s → (next answer).outcome s = (next (query s)).outcome s
  | .fail _, _ => True
  | .write _, _ => True

/-- The next answer in a state: the rest after it, and what is then seen of the state. -/
def answer (s : σ) : Txn σ ε → Option (Txn σ ε × List (σ → Bool))
  | @read _ _ _ _ query next => some (next (query s),[fun t => query t = query s])
  | .check query next => some (next (query s),[])
  | _ => none

variable {t : Txn σ ε}

theorem Fails.outcome (h : t.Fails) (s : σ) : t.outcome s = s := by
  induction t with
  | read query next ih => exact ih (query s) (h _)
  | check query next ih => exact ih (query s) (h _)
  | fail e => rfl
  | write flush => exact h.elim

theorem Fails.backed (h : t.Fails) (good : σ → Prop) : t.Backed good := by
  induction t generalizing good with
  | read query next ih => exact fun a => ih a (h a) _
  | check query next ih => exact fun a => .inl (h a)
  | fail e => trivial
  | write flush => trivial

theorem Commits.not_fails (h : t.Commits) (s : σ) : ¬ t.Fails := by
  induction t with
  | read query next ih => exact fun hf => ih (query s) (h _) (hf _)
  | check query next ih => exact fun hf => ih (query s) (h _) (hf _)
  | fail e => exact h.elim
  | write flush => exact id

theorem Backed.mono {good good' : σ → Prop} (h : t.Backed good) (hgood : ∀ s, good' s → good s) :
    t.Backed good' := by
  induction t generalizing good good' with
  | read query next ih => exact fun a => ih a (h a) fun s hs => ⟨hgood s hs.1,hs.2⟩
  | check query next ih =>
    intro a
    refine (h a).imp_right ?_
    rintro ⟨hcommits,hbacked,hsame⟩
    exact ⟨hcommits,ih a hbacked hgood,fun s hs => hsame s (hgood s hs)⟩
  | fail e => trivial
  | write flush => trivial

end Txn

section
variable (ι σ ρ ε : Type)

/-- A client, with what it has seen of the state in its transaction. -/
inductive Client : Type 1
  | idle
  | reading (request : ρ) (rest : Txn σ ε) (seen : List (σ → Bool))
  | flushed (request : ρ) (flush : σ → Except ε σ) (seen : List (σ → Bool))

/-- The committed state, the clients, and the requests in the order in which they ended. -/
structure System : Type 1 where
  state : σ
  clients : ι → Client σ ρ ε
  log : List ρ

inductive Event
  | start (i : ι) (r : ρ)
  | read (i : ι)
  | fail (i : ι)
  | flush (i : ι)
  | commit (i : ι)

end

variable {ι σ ρ ε : Type} [DecidableEq ι]

def System.init (ι : Type) {σ ρ ε : Type} (state : σ) : System ι σ ρ ε := ⟨state,fun _ => .idle,[]⟩

def System.setClient (st : System ι σ ρ ε) (i : ι) (c : Client σ ρ ε) : System ι σ ρ ε :=
  {st with clients := Function.update st.clients i c}

def Client.seen : Client σ ρ ε → List (σ → Bool)
  | .idle => []
  | .reading _ _ seen => seen
  | .flushed _ _ seen => seen

section
variable (program : ρ → Txn σ ε)

/-- The writes that are sent stay invisible to the other clients until the commit. A write that meets
one of a transaction that is not committed yet waits for it, so that the writes of a transaction take
effect together, at its commit; those that break a constraint then fail it. -/
def step (st : System ι σ ρ ε) : Event ι ρ → Option (System ι σ ρ ε)
  | .start i r =>
    match st.clients i with
    | .idle => some (st.setClient i (.reading r (program r) []))
    | _ => none
  | .read i =>
    match st.clients i with
    | .reading r rest seen =>
      (rest.answer st.state).map fun (next,new) => st.setClient i (.reading r next (seen ++ new))
    | _ => none
  | .fail i =>
    match st.clients i with
    | .reading r (.fail _) _ => some {st.setClient i .idle with log := st.log ++ [r]}
    | _ => none
  | .flush i =>
    match st.clients i with
    | .reading r (.write flush) seen => some (st.setClient i (.flushed r flush seen))
    | _ => none
  | .commit i =>
    match st.clients i with
    | .flushed r flush _ =>
      some {st.setClient i .idle with
        state := (flush st.state).toOption.getD st.state
        log := st.log ++ [r]}
    | _ => none

/-- The requests one after the other. -/
def serial (s : σ) (log : List ρ) : σ := log.foldl (fun s r => (program r).outcome s) s

/-- What the requests of a program are known for: an invariant of the states that they keep where they
are clean, states that they are refused in whatever else they have seen, and that their checks are backed
where they are clean. -/
structure Discipline where
  Invariant : σ → Prop
  Clean : ρ → σ → Prop
  Refused : ρ → σ → Prop
  keeps : ∀ r s, Invariant s → Clean r s → Invariant ((program r).outcome s)
  refuses : ∀ r s, Refused r s → (program r).outcome s = s
  backed : ∀ r, (program r).Backed fun s => Invariant s ∧ Clean r s

end

section
variable {program : ρ → Txn σ ε} (d : Discipline program)

/-- When a client commits, all that it has read is still so, checks apart, and its request is clean; and
so is what it has read before when an answer makes it fail, unless it is refused whatever it has read. -/
def Fresh (st : System ι σ ρ ε) : Event ι ρ → Prop
  | .read i => ∀ r rest seen next new, st.clients i = .reading r rest seen →
      rest.answer st.state = some (next,new) → ¬ rest.Fails → next.Fails →
        (∀ p ∈ seen, p st.state) ∨ d.Refused r st.state
  | .commit i => ∀ r flush seen, st.clients i = .flushed r flush seen →
      (∀ p ∈ seen, p st.state) ∧ d.Clean r st.state
  | _ => True

/-- In a state that agrees with what the client has seen, its transaction comes to what the rest of it
does; once a check is passed, in a good state. -/
def Client.Agrees : Client σ ρ ε → Prop
  | .idle => True
  | .reading r rest seen => (rest.Backed fun s => (d.Invariant s ∧ d.Clean r s) ∧ ∀ p ∈ seen, p s) ∧
      (¬ rest.Fails → ∀ s, (∀ p ∈ seen, p s) → (rest.Commits → d.Invariant s ∧ d.Clean r s) →
        (program r).outcome s = rest.outcome s)
  | .flushed r flush seen => ∀ s, (∀ p ∈ seen, p s) → d.Invariant s ∧ d.Clean r s →
      (program r).outcome s = (flush s).toOption.getD s

variable (program) in
/-- The requests that have ended, in an order that leads to the state; a client that can only fail has a
place in it. -/
structure Ordered (first : σ) (st : System ι σ ρ ε) (order : List ρ) : Prop where
  perm : order.Perm st.log
  state : serial program first order = st.state
  failing : ∀ i r rest seen, st.clients i = .reading r rest seen → rest.Fails →
    ∃ before after, order = before ++ after ∧
      (program r).outcome (serial program first before) = serial program first before

structure Consistent (first : σ) (st : System ι σ ρ ε) : Prop where
  agrees : ∀ i, (st.clients i).Agrees d
  invariant : d.Invariant st.state
  ordered : ∃ order, Ordered program first st order

variable {d} {first : σ} {st st' : System ι σ ρ ε}

theorem serial_append (s : σ) (log log' : List ρ) :
    serial program s (log ++ log') = serial program (serial program s log) log' := List.foldl_append

/-- A client is as far as its transaction after an answer; an answer that makes it fail is one that the
whole transaction fails by. -/
theorem Client.Agrees.answer {r : ρ} {rest next : Txn σ ε} {seen new : List (σ → Bool)} {s : σ}
    (h : (Client.reading r rest seen).Agrees d) (hs : rest.answer s = some (next,new)) :
    (Client.reading r next (seen ++ new)).Agrees d ∧
      (¬ rest.Fails → next.Fails → (∀ p ∈ seen, p s) → (program r).outcome s = s) := by
  obtain ⟨hbacked,hagree⟩ := h
  cases rest with
  | read query continue' =>
    cases hs
    refine ⟨⟨?_,?_⟩,?_⟩
    · apply (hbacked (query s)).mono
      rintro t ⟨hgood,hseen⟩
      have hquery := hseen (fun t => query t = query s) (List.mem_append_right _ (List.mem_singleton_self _))
      exact ⟨⟨hgood,fun p hp => hseen p (List.mem_append_left _ hp)⟩,by simpa using hquery⟩
    · intro hfails t hseen hgood
      have hquery : query t = query s := by
        simpa using hseen (fun t => query t = query s) (List.mem_append_right _ (List.mem_singleton_self _))
      rw [hagree (fun hf => hfails (hf _)) t (fun p hp => hseen p (List.mem_append_left _ hp))
        fun hcommits => hgood (hcommits _)]
      change (continue' (query t)).outcome t = _
      rw [hquery]
    · intro hnot hfails hseen
      rw [hagree hnot s hseen fun hcommits => absurd hfails ((hcommits (query s)).not_fails s)]
      exact hfails.outcome s
  | check query continue' =>
    cases hs
    rw [List.append_nil]
    refine ⟨⟨?_,?_⟩,?_⟩
    · rcases hbacked (query s) with hfails | ⟨-,hnext,-⟩
      · exact hfails.backed _
      · exact hnext
    · intro hnot t hseen hgood
      obtain hfails | ⟨hcommits,-,hsame⟩ := hbacked (query s)
      · exact absurd hfails hnot
      · have hgood := hgood hcommits
        rw [hagree (fun hf => hnot (hf _)) t hseen fun _ => hgood]
        exact (hsame t ⟨hgood,hseen⟩).symm
    · intro hnot hfails hseen
      rw [hagree hnot s hseen fun hcommits => absurd hfails ((hcommits (query s)).not_fails s)]
      exact hfails.outcome s
  | fail e => cases hs
  | write flush => cases hs

theorem Consistent.set (h : Consistent d first st) {i : ι} {c : Client σ ρ ε} (hc : c.Agrees d) :
    ∀ j, ((st.setClient i c).clients j).Agrees d := by
  intro j
  by_cases hij : j = i
  · subst hij
    simpa only [System.setClient, Function.update_self] using hc
  · simpa only [System.setClient, Function.update_of_ne hij] using h.agrees j

theorem Ordered.set {order : List ρ} (h : Ordered program first st order) {i : ι} {c : Client σ ρ ε}
    (hc : ∀ r rest seen, c = .reading r rest seen → rest.Fails →
      (∃ rest seen, st.clients i = .reading r rest seen ∧ rest.Fails) ∨
        (program r).outcome st.state = st.state) :
    Ordered program first (st.setClient i c) order := by
  refine ⟨h.perm,h.state,?_⟩
  intro j r rest seen hj hfails
  by_cases hij : j = i
  · subst hij
    simp only [System.setClient, Function.update_self] at hj
    rcases hc r rest seen hj hfails with ⟨rest',seen',hold,hfails'⟩ | hrefused
    · exact h.failing j r rest' seen' hold hfails'
    · refine ⟨order,[],(List.append_nil order).symm,?_⟩
      rw [h.state]
      exact hrefused
  · simp only [System.setClient, Function.update_of_ne hij] at hj
    exact h.failing j r rest seen hj hfails

theorem Ordered.insert {before after : List ρ} (h : Ordered program first st (before ++ after)) {i : ι}
    {r : ρ} {s : σ} (hs : serial program first (before ++ [r] ++ after) = s)
    (hr : (program r).outcome (serial program first before) = serial program first before ∨ after = []) :
    Ordered program first { st.setClient i .idle with state := s, log := st.log ++ [r] }
      (before ++ [r] ++ after) := by
  refine ⟨?_,hs,?_⟩
  · rw [List.append_assoc, List.singleton_append]
    exact List.perm_middle.trans (((List.perm_cons r).mpr h.perm).trans (List.perm_append_singleton r st.log).symm)
  · intro j r' rest seen hj hfails
    have hji : j ≠ i := by
      rintro rfl
      simp [System.setClient] at hj
    simp only [System.setClient, Function.update_of_ne hji] at hj
    obtain ⟨before',after',hsplit,hsame⟩ := h.failing j r' rest seen hj hfails
    -- the place is before the new request, or after it
    rcases List.append_eq_append_iff.mp hsplit with ⟨t,rfl,rfl⟩ | ⟨t,rfl,rfl⟩
    · rcases hr with hr | hr
      · refine ⟨before ++ [r] ++ t,after',by simp only [List.append_assoc],?_⟩
        have hskip : serial program first (before ++ [r] ++ t) = serial program first (before ++ t) := by
          rw [serial_append, serial_append, serial_append]
          exact congrArg (serial program · t) hr
        rw [hskip]
        exact hsame
      · obtain ⟨rfl,rfl⟩ := List.append_eq_nil_iff.mp hr
        rw [List.append_nil] at hsame
        exact ⟨before,[r],by simp,hsame⟩
    · exact ⟨before',t ++ [r] ++ after,by simp only [List.append_assoc],hsame⟩

/-- A fresh step keeps the state that of the requests in some order. -/
theorem Consistent.step (h : Consistent d first st) {event : Event ι ρ} (hok : Fresh d st event)
    (hs : step program st event = some st') : Consistent d first st' := by
  obtain ⟨order,horder⟩ := h.ordered
  cases event with
  | start i r =>
    cases hi : st.clients i <;> simp only [ReadCommitted.step, hi, Option.some.injEq, reduceCtorEq] at hs
    subst hs
    refine ⟨h.set ⟨(d.backed r).mono fun _ hs => hs.1,fun _ _ _ _ => rfl⟩,h.invariant,order,horder.set ?_⟩
    intro r' rest seen he hfails
    cases he
    exact .inr (hfails.outcome _)
  | read i =>
    cases hi : st.clients i <;> simp only [ReadCommitted.step, hi, reduceCtorEq] at hs
    rename_i r rest seen
    obtain ⟨⟨next,new⟩,hanswer,rfl⟩ := Option.map_eq_some_iff.mp hs
    have hagrees := h.agrees i
    rw [hi] at hagrees
    obtain ⟨hnext,hrefused⟩ := hagrees.answer hanswer
    refine ⟨h.set hnext,h.invariant,order,horder.set ?_⟩
    intro r' rest' seen' he hfails
    cases he
    by_cases hrest : rest.Fails
    · exact .inl ⟨rest,seen,hi,hrest⟩
    · rcases hok r rest seen next new hi hanswer hrest hfails with hseen | hr
      · exact .inr (hrefused hrest hfails hseen)
      · exact .inr (d.refuses r _ hr)
  | fail i =>
    cases hi : st.clients i <;> simp only [ReadCommitted.step, hi, reduceCtorEq] at hs
    rename_i r rest seen
    cases rest <;> simp only [Option.some.injEq, reduceCtorEq] at hs
    subst hs
    obtain ⟨before,after,rfl,hsame⟩ := horder.failing i r _ seen hi trivial
    refine ⟨h.set (i := i) (c := .idle) trivial,h.invariant,before ++ [r] ++ after,horder.insert ?_ (.inl hsame)⟩
    refine Eq.trans ?_ horder.state
    rw [serial_append, serial_append, serial_append]
    exact congrArg (serial program · after) hsame
  | flush i =>
    cases hi : st.clients i <;> simp only [ReadCommitted.step, hi, reduceCtorEq] at hs
    rename_i r rest seen
    cases rest <;> simp only [Option.some.injEq, reduceCtorEq] at hs
    rename_i flush
    subst hs
    have hagrees := h.agrees i
    rw [hi] at hagrees
    refine ⟨h.set ?_,h.invariant,order,horder.set ?_⟩
    · exact fun s hseen hgood => hagrees.2 id s hseen fun _ => hgood
    · intro r' rest' seen' he
      cases he
  | commit i =>
    cases hi : st.clients i <;> simp only [ReadCommitted.step, hi, Option.some.injEq, reduceCtorEq] at hs
    rename_i r flush seen
    subst hs
    have hagrees := h.agrees i
    rw [hi] at hagrees
    obtain ⟨hseen,hclean⟩ := hok r flush seen hi
    have hstate : (flush st.state).toOption.getD st.state = (program r).outcome st.state :=
      (hagrees st.state hseen ⟨h.invariant,hclean⟩).symm
    refine ⟨h.set (i := i) (c := .idle) trivial,?_,order ++ [r] ++ [],?_⟩
    · rw [hstate]
      exact d.keeps r _ h.invariant hclean
    · refine Ordered.insert (by rwa [List.append_nil]) ?_ (.inr rfl)
      rw [List.append_nil, serial_append, horder.state]
      exact hstate.symm

omit [DecidableEq ι] in
theorem consistent_init (h : d.Invariant first) : Consistent d first (System.init ι first) := by
  refine ⟨fun _ => trivial,h,[],List.Perm.refl [],rfl,?_⟩
  intro i r rest seen hi
  cases hi

theorem consistent_of_fresh (h0 : d.Invariant first) (h : Runs.Reaches (step program) (Fresh d)
    (System.init ι first) st) : Consistent d first st :=
  h.invariant (consistent_init h0) fun _ _ _ _ hc hok hs => hc.step hok hs

end
end ReadCommitted
