import Mathlib.Logic.Function.Basic
import Allama.Checked
import Allama.Runs

/-! Transactions that lock a row when they read it: any number of clients, each of which reads the
row under its lock, computes on a copy of its own, and commits or rolls back. -/
namespace RowLocks
open Checked
section
variable (ι σ ρ ε : Type)

/-- A client: without a transaction, blocked on the lock, or in its transaction with its copy of the
row and the steps left, or done with the request that it made last. -/
inductive Client
  | idle
  | waiting (request : ρ)
  | running (request : ρ) (copy : σ) (rest : List (σ → Except ε σ))
  | committed (request : ρ)
  | rejected (request : ρ) (error : ε)

/-- The row as committed, who holds its lock, the clients, and the requests committed so far. -/
structure System where
  row : σ
  holder : Option ι
  clients : ι → Client σ ρ ε
  log : List ρ

/-- A client sends a request, gets the lock, does the next step of its program, commits, or
disconnects. -/
inductive Event
  | request (i : ι) (r : ρ)
  | lock (i : ι)
  | advance (i : ι)
  | commit (i : ι)
  | disconnect (i : ι)

end

variable {ι σ ρ ε : Type} [DecidableEq ι]

def System.init (ι : Type) {σ ρ ε : Type} (row : σ) : System ι σ ρ ε := ⟨row,none,fun _ => .idle,[]⟩

def System.setClient (st : System ι σ ρ ε) (i : ι) (c : Client σ ρ ε) : System ι σ ρ ε :=
  {st with clients := Function.update st.clients i c}

def System.release (st : System ι σ ρ ε) (i : ι) (c : Client σ ρ ε) : System ι σ ρ ε :=
  {st.setClient i c with holder := none}

section
variable (program : ρ → List (σ → Except ε σ))

def step (st : System ι σ ρ ε) : Event ι ρ → Option (System ι σ ρ ε)
  | .request i r =>
    match st.clients i with
    | .waiting _ => none
    | .running _ _ _ => none
    | _ => some (st.setClient i (.waiting r))
  | .lock i =>
    match st.clients i, st.holder with
    | .waiting r, none => some {st.setClient i (.running r st.row (program r)) with holder := some i}
    | _, _ => none
  | .advance i =>
    match st.clients i with
    | .running r copy (p :: ps) =>
      match p copy with
      | .ok copy => some (st.setClient i (.running r copy ps))
      -- an exception: the session is closed without a commit
      | .error e => some (st.release i (.rejected r e))
    | _ => none
  | .commit i =>
    match st.clients i with
    | .running r copy [] => some {st.release i (.committed r) with row := copy, log := st.log ++ [r]}
    | _ => none
  | .disconnect i =>
    match st.clients i with
    | .waiting _ => some (st.setClient i .idle)
    | .running _ _ _ => some (st.release i .idle)
    | _ => none

/-- The steps one after the other, on one copy. -/
def perform (ps : List (σ → Except ε σ)) (s : σ) : Except ε σ := ps.foldlM (fun s p => p s) s

def replay (s : σ) (log : List ρ) : Except ε σ := log.foldlM (fun s r => perform (program r) s) s

theorem perform_append (ps qs : List (σ → Except ε σ)) (s : σ) :
    perform (ps ++ qs) s = perform ps s >>= perform qs := by
  rw [perform, List.foldlM_append]
  rfl

theorem perform_snoc {ps : List (σ → Except ε σ)} {p : σ → Except ε σ} {s t : σ}
    (h : perform ps s = .ok t) : perform (ps ++ [p]) s = p t := by
  rw [perform_append, h]
  change perform [p] t = p t
  rw [perform, List.foldlM_cons]
  cases p t <;> rfl

theorem perform_error {ps qs : List (σ → Except ε σ)} {p : σ → Except ε σ} {s t : σ} {e : ε}
    (h : perform ps s = .ok t) (he : p t = .error e) : perform (ps ++ p :: qs) s = .error e := by
  rw [perform_append, h]
  change perform (p :: qs) t = .error e
  rw [perform, List.foldlM_cons, he]
  rfl

/-- What the steps can do. -/
inductive Move (st : System ι σ ρ ε) : Event ι ρ → System ι σ ρ ε → Prop
  | aside {event : Event ι ρ} (i : ι) (c : Client σ ρ ε)
      (hi : ∀ r copy ps, st.clients i ≠ .running r copy ps)
      (hc : ∀ r copy ps, c ≠ .running r copy ps) (he : ∀ r e, c ≠ .rejected r e) :
      Move st event (st.setClient i c)
  | lock (i : ι) (r : ρ) (hi : st.clients i = .waiting r) (hfree : st.holder = none) :
      Move st (.lock i) {st.setClient i (.running r st.row (program r)) with holder := some i}
  | advance (i : ι) (r : ρ) (copy : σ) (p : σ → Except ε σ) (ps : List (σ → Except ε σ)) (copy' : σ)
      (hi : st.clients i = .running r copy (p :: ps)) (hp : p copy = .ok copy') :
      Move st (.advance i) (st.setClient i (.running r copy' ps))
  | reject (i : ι) (r : ρ) (copy : σ) (p : σ → Except ε σ) (ps : List (σ → Except ε σ)) (e : ε)
      (hi : st.clients i = .running r copy (p :: ps)) (hp : p copy = .error e) :
      Move st (.advance i) (st.release i (.rejected r e))
  | commit (i : ι) (r : ρ) (copy : σ) (hi : st.clients i = .running r copy []) :
      Move st (.commit i) {st.release i (.committed r) with row := copy, log := st.log ++ [r]}
  | disconnect (i : ι) (r : ρ) (copy : σ) (ps : List (σ → Except ε σ))
      (hi : st.clients i = .running r copy ps) : Move st (.disconnect i) (st.release i .idle)

variable {program} {first : σ} {st st' : System ι σ ρ ε} {event : Event ι ρ}

theorem step_cases (h : step program st event = some st') : Move program st event st' := by
  cases event with
  | request i r =>
    cases hi : st.clients i <;> simp only [step, hi, Option.some.injEq, reduceCtorEq] at h
    all_goals
      subst h
      exact .aside i _ (by simp [hi]) (by simp) (by simp)
  | lock i =>
    cases hi : st.clients i <;> cases hh : st.holder <;>
      simp only [step, hi, hh, Option.some.injEq, reduceCtorEq] at h
    subst h
    exact .lock i _ hi hh
  | advance i =>
    cases hi : st.clients i <;> simp only [step, hi, reduceCtorEq] at h
    rename_i r copy rest
    cases rest with
    | nil => cases h
    | cons p ps =>
      cases hp : p copy <;> simp only [hp, Option.some.injEq] at h
      · subst h
        exact .reject i r copy p ps _ hi hp
      · subst h
        exact .advance i r copy p ps _ hi hp
  | commit i =>
    cases hi : st.clients i <;> simp only [step, hi, reduceCtorEq] at h
    rename_i r copy rest
    cases rest with
    | nil =>
      cases h
      exact .commit i r copy hi
    | cons p ps => cases h
  | disconnect i =>
    cases hi : st.clients i <;> simp only [step, hi, Option.some.injEq, reduceCtorEq] at h
    · subst h
      exact .aside i _ (by simp [hi]) (by simp) (by simp)
    · subst h
      exact .disconnect i _ _ _ hi

/-- A running client holds the lock, and its copy is what its steps so far make of the row. -/
structure Locked (program : ρ → List (σ → Except ε σ)) (first : σ) (st : System ι σ ρ ε) :
    Prop where
  holder : ∀ i r copy ps, st.clients i = .running r copy ps → st.holder = some i
  copy : ∀ i r copy ps, st.clients i = .running r copy ps →
    ∃ before, program r = before ++ ps ∧ perform before st.row = .ok copy
  log : replay program first st.log = .ok st.row

theorem setClient_of_ne {i j : ι} {c : Client σ ρ ε} (h : j ≠ i) :
    (st.setClient i c).clients j = st.clients j := Function.update_of_ne h ..

theorem setClient_self {i : ι} {c : Client σ ρ ε} : (st.setClient i c).clients i = c :=
  Function.update_self ..

omit [DecidableEq ι] in
theorem Locked.alone (h : Locked program first st) {i j : ι} (hij : j ≠ i) {r r' : ρ}
    {copy copy' : σ} {ps ps' : List (σ → Except ε σ)} (hi : st.clients i = .running r copy ps) :
    st.clients j ≠ .running r' copy' ps' := by
  intro hj
  have hh := h.holder j _ _ _ hj
  rw [h.holder i _ _ _ hi] at hh
  exact hij (Option.some.inj hh).symm

omit [DecidableEq ι] in
theorem Locked.free (h : Locked program first st) (hfree : st.holder = none) (i : ι) (r : ρ)
    (copy : σ) (ps : List (σ → Except ε σ)) : st.clients i ≠ .running r copy ps := by
  intro hi
  have hh := h.holder i _ _ _ hi
  rw [hfree] at hh
  cases hh

theorem Locked.ends (h : Locked program first st) {i : ι} {r : ρ} {copy : σ}
    {ps : List (σ → Except ε σ)} (hi : st.clients i = .running r copy ps) {c : Client σ ρ ε}
    (hc : ∀ r copy ps, c ≠ .running r copy ps) {row : σ} {log : List ρ}
    (hlog : replay program first log = .ok row) :
    Locked program first {st.release i c with row := row, log := log} := by
  -- nobody is running any more
  have hnone : ∀ j r' copy' ps', (st.setClient i c).clients j ≠ .running r' copy' ps' := by
    intro j r' copy' ps'
    by_cases hij : j = i
    · subst hij
      rw [setClient_self]
      exact hc r' copy' ps'
    · rw [setClient_of_ne hij]
      exact h.alone hij hi
  exact ⟨fun j _ _ _ hj => absurd hj (hnone j _ _ _),fun j _ _ _ hj => absurd hj (hnone j _ _ _),hlog⟩

theorem Locked.step (h : Locked program first st) (hs : step program st event = some st') :
    Locked program first st' := by
  cases step_cases hs with
  | aside i c hi hc =>
    -- the runners stay as they are
    have hold : ∀ j r copy ps, (st.setClient i c).clients j = .running r copy ps →
        st.clients j = .running r copy ps := by
      intro j r copy ps hj
      by_cases hij : j = i
      · subst hij
        rw [setClient_self] at hj
        exact absurd hj (hc r copy ps)
      · rwa [setClient_of_ne hij] at hj
    exact ⟨fun j r copy ps hj => h.holder j r copy ps (hold j r copy ps hj),
      fun j r copy ps hj => h.copy j r copy ps (hold j r copy ps hj),h.log⟩
  | lock i r hi hfree =>
    have hnew : ∀ j r' copy ps, (st.setClient i (.running r st.row (program r))).clients j =
        .running r' copy ps → j = i ∧ r' = r ∧ copy = st.row ∧ ps = program r := by
      intro j r' copy ps hj
      by_cases hij : j = i
      · subst hij
        rw [setClient_self] at hj
        cases hj
        exact ⟨rfl,rfl,rfl,rfl⟩
      · rw [setClient_of_ne hij] at hj
        exact absurd hj (h.free hfree j r' copy ps)
    constructor
    · intro j r' copy ps hj
      rw [(hnew j r' copy ps hj).1]
    · intro j r' copy ps hj
      obtain ⟨-,rfl,rfl,rfl⟩ := hnew j r' copy ps hj
      exact ⟨[],rfl,rfl⟩
    · exact h.log
  | advance i r copy p ps copy' hi hp =>
    have hnew : ∀ j r' c qs, (st.setClient i (.running r copy' ps)).clients j =
        .running r' c qs → j = i ∧ r' = r ∧ c = copy' ∧ qs = ps := by
      intro j r' c qs hj
      by_cases hij : j = i
      · subst hij
        rw [setClient_self] at hj
        cases hj
        exact ⟨rfl,rfl,rfl,rfl⟩
      · rw [setClient_of_ne hij] at hj
        exact absurd hj (h.alone hij hi)
    constructor
    · intro j r' c qs hj
      rw [(hnew j r' c qs hj).1]
      exact h.holder i r copy _ hi
    · intro j r' c qs hj
      obtain ⟨-,rfl,rfl,rfl⟩ := hnew j r' c qs hj
      obtain ⟨before,hsplit,hbefore⟩ := h.copy i r' copy _ hi
      refine ⟨before ++ [p],?_,?_⟩
      · rw [hsplit, List.append_assoc]
        rfl
      · exact (perform_snoc hbefore).trans hp
    · exact h.log
  | reject i r copy p ps e hi hp => exact h.ends hi (by simp) h.log
  | commit i r copy hi =>
    obtain ⟨before,hsplit,hbefore⟩ := h.copy i r copy [] hi
    apply h.ends hi (by simp)
    rw [replay, List.foldlM_append, ← replay, h.log]
    change replay program st.row [r] = .ok copy
    rw [replay, List.foldlM_cons, hsplit, List.append_nil, hbefore]
    rfl
  | disconnect i r copy ps hi => exact h.ends hi (by simp) h.log

omit [DecidableEq ι] in
theorem locked_init (row : σ) : Locked program row (System.init ι row) :=
  ⟨by simp [System.init],by simp [System.init],rfl⟩

theorem locked_of_reachable (h : Runs.Reachable (step program) (System.init ι first) st) :
    Locked program first st :=
  h.invariant (locked_init first) fun _ _ _ _ hl _ hs => hl.step hs

theorem Locked.row_cases (h : Locked program first st) (hs : RowLocks.step program st event = some st') :
    st'.row = st.row ∧ st'.log = st.log ∨
      ∃ i r, event = .commit i ∧ st'.log = st.log ++ [r] ∧ perform (program r) st.row = .ok st'.row := by
  cases step_cases hs with
  | aside i c => exact .inl ⟨rfl,rfl⟩
  | lock i r => exact .inl ⟨rfl,rfl⟩
  | advance i r copy p ps copy' => exact .inl ⟨rfl,rfl⟩
  | reject i r copy p ps e => exact .inl ⟨rfl,rfl⟩
  | commit i r copy hi =>
    obtain ⟨before,hsplit,hbefore⟩ := h.copy i r copy [] hi
    refine .inr ⟨i,r,rfl,rfl,?_⟩
    rw [hsplit, List.append_nil]
    exact hbefore
  | disconnect i r copy ps => exact .inl ⟨rfl,rfl⟩

theorem Locked.rejected (h : Locked program first st)
    (hs : RowLocks.step program st event = some st') {i : ι} {r : ρ} {e : ε}
    (hi : st'.clients i = .rejected r e) (hnew : st.clients i ≠ .rejected r e) :
    st'.row = st.row ∧ st'.log = st.log ∧ perform (program r) st.row = .error e := by
  have hself : ∀ j c, (st.setClient j c).clients i = .rejected r e → c = .rejected r e := by
    intro j c hc
    by_cases hij : i = j
    · subst hij
      rwa [setClient_self] at hc
    · rw [setClient_of_ne hij] at hc
      exact absurd hc hnew
  cases step_cases hs with
  | aside j c _ _ he => exact absurd (hself j c hi) (he r e)
  | lock j r' => cases hself j _ hi
  | advance j r' copy p ps copy' => cases hself j _ hi
  | reject j r' copy p ps e' hj hp =>
    cases hself j _ hi
    obtain ⟨before,hsplit,hbefore⟩ := h.copy j r copy _ hj
    refine ⟨rfl,rfl,?_⟩
    rw [hsplit]
    exact perform_error hbefore hp
  | commit j r' copy => cases hself j _ hi
  | disconnect j r' copy ps => cases hself j _ hi

end
end RowLocks
