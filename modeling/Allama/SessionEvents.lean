import Mathlib.Tactic.SplitIfs
import Allama.Runs

/-! Callbacks that a database session runs after a commit, over whole histories of transactions. -/
namespace Allama

/-- What calling a callback does. -/
inductive CallOutcome
  | coroutine
  | value
  | raises
deriving DecidableEq

structure AsyncCallback where
  id : Nat
  outcome : CallOutcome
deriving DecidableEq

abbrev EventLoop := Nat

/-- The two keys of `session.info` that the callbacks use. -/
structure SessionInfo where
  afterCommitCallbacks : List AsyncCallback
  eventLoop : Option EventLoop

/-- `loop` is the running loop at the call, if there is one. Only the first one is kept. -/
def SessionInfo.addAfterCommitCallback (info : SessionInfo) (callback : AsyncCallback)
    (loop : Option EventLoop) : SessionInfo :=
  ⟨info.afterCommitCallbacks ++ [callback],info.eventLoop.or loop⟩

/-- A session, with the savepoints that are open in its transaction, the loops that are closed by now,
and the callbacks that have run. -/
structure DBSession where
  info : SessionInfo
  savepoints : Nat
  closedLoops : List EventLoop
  ran : List AsyncCallback

/-- A coroutine cannot be scheduled on a loop that is closed. -/
def AsyncCallback.runsOn (closedLoops : List EventLoop) (loop : EventLoop) (callback : AsyncCallback) :
    Bool :=
  callback.outcome ≠ .coroutine || loop ∉ closedLoops

/-- The listener of the event `after_commit`. -/
def DBSession.runAfterCommit (s : DBSession) : DBSession :=
  let callbacks := s.info.afterCommitCallbacks
  let info := ⟨[],s.info.eventLoop⟩
  match s.info.eventLoop with
  | none => { s with info }
  | some loop => { s with info, ran := s.ran ++ callbacks.filter (·.runsOn s.closedLoops loop) }

namespace DBSession

@[simp] theorem runAfterCommit_callbacks (s : DBSession) :
    s.runAfterCommit.info.afterCommitCallbacks = [] := by
  unfold runAfterCommit
  cases s.info.eventLoop <;> rfl

theorem runAfterCommit_of_empty {s : DBSession} (h : s.info.afterCommitCallbacks = []) :
    s.runAfterCommit = s := by
  obtain ⟨⟨callbacks,loop⟩,savepoints,closed,ran⟩ := s
  obtain rfl : callbacks = [] := h
  cases loop with
  | none => rfl
  | some loop => simp [runAfterCommit]

theorem runAfterCommit_ran_iff (s : DBSession) :
    s.runAfterCommit.ran = s.ran ++ s.info.afterCommitCallbacks ↔
      s.info.afterCommitCallbacks = [] ∨ ∃ loop, s.info.eventLoop = some loop ∧
        ∀ callback ∈ s.info.afterCommitCallbacks, callback.runsOn s.closedLoops loop = true := by
  cases hloop : s.info.eventLoop with
  | none => simp [runAfterCommit, hloop]
  | some loop =>
    have hran : s.runAfterCommit.ran =
        s.ran ++ s.info.afterCommitCallbacks.filter (·.runsOn s.closedLoops loop) := by
      simp only [runAfterCommit, hloop]
    rw [hran, List.append_cancel_left_eq, List.filter_eq_self]
    constructor
    · intro h
      exact .inr ⟨loop,rfl,h⟩
    · rintro (h | ⟨loop',hl,h⟩)
      · rw [h]
        simp
      · obtain rfl : loop = loop' := by injection hl
        exact h

end DBSession

inductive SessionEvent
  | addAfterCommitCallback (callback : AsyncCallback) (loop : Option EventLoop)
  | flush
  | beginNested
  | release
  | rollbackNested
  | commit
  | rollback
  | closeLoop (loop : EventLoop)
deriving DecidableEq

/-- A step of the session. `onRelease` says whether the library fires `after_commit` for a savepoint
that is released. A commit releases the open savepoints, and a rollback discards them. -/
def DBSession.next (onRelease : Bool) (s : DBSession) : SessionEvent → Option DBSession
  | .addAfterCommitCallback callback loop =>
    some { s with info := s.info.addAfterCommitCallback callback loop }
  | .flush => some s
  | .beginNested => some { s with savepoints := s.savepoints+1 }
  | .release =>
    match s.savepoints with
    | 0 => none
    | n+1 =>
      if onRelease then some { s.runAfterCommit with savepoints := n }
      else some { s with savepoints := n }
  | .rollbackNested =>
    match s.savepoints with
    | 0 => none
    | n+1 => some { s with savepoints := n }
  | .commit =>
    let released := if onRelease ∧ s.savepoints ≠ 0 then s.runAfterCommit else s
    some { released.runAfterCommit with savepoints := 0 }
  | .rollback => some { s with savepoints := 0 }
  | .closeLoop loop => some { s with closedLoops := loop :: s.closedLoops }

/-- What callbacks are for: those registered in each transaction that is still open, the innermost one
in `current`, and those whose transaction has committed. -/
structure Ledger where
  current : List AsyncCallback
  outer : List (List AsyncCallback)
  due : List AsyncCallback

namespace Ledger

/-- The callbacks of the open transactions, in the order of their registration. -/
def pending (l : Ledger) : List AsyncCallback := l.outer.reverse.flatten ++ l.current

def next (l : Ledger) : SessionEvent → Ledger
  | .addAfterCommitCallback callback _ => { l with current := l.current ++ [callback] }
  | .flush => l
  | .beginNested => { l with current := [], outer := l.current :: l.outer }
  | .release =>
    match l.outer with
    | [] => l
    | o :: outer => { l with current := o ++ l.current, outer }
  | .rollbackNested =>
    match l.outer with
    | [] => l
    | o :: outer => { l with current := o, outer }
  | .commit => ⟨[],[],l.due ++ l.pending⟩
  | .rollback => ⟨[],[],l.due⟩
  | .closeLoop _ => l

end Ledger

/-- A session beside the ledger of its history. -/
abbrev Recorded := DBSession × Ledger

namespace Recorded

def first : Recorded := ⟨⟨⟨[],none⟩,0,[],[]⟩,⟨[],[],[]⟩⟩

def next (onRelease : Bool) (r : Recorded) (e : SessionEvent) : Option Recorded :=
  (r.1.next onRelease e).map fun s => (s,r.2.next e)

/-- Exactly the callbacks that are due have run, once each and in order, and a later commit would run
exactly those of the transactions that are open. -/
def Faithful (r : Recorded) : Prop :=
  r.1.ran = r.2.due ∧ r.1.info.afterCommitCallbacks = r.2.pending

/-- The condition on a step: what is rolled back has registered nothing, a savepoint whose release
fires the event has nothing before it, and a commit with callbacks has an open loop. -/
def Sound (onRelease : Bool) (r : Recorded) : SessionEvent → Prop
  | .rollback => r.2.pending = []
  | .rollbackNested => r.2.current = []
  | .release => onRelease = false ∨ r.2.pending = []
  | .commit => r.2.pending = [] ∨ ∃ loop, r.1.info.eventLoop = some loop ∧
      ∀ callback ∈ r.2.pending, callback.runsOn r.1.closedLoops loop = true
  | _ => True

def Aligned (r : Recorded) : Prop := r.1.savepoints = r.2.outer.length

variable {onRelease : Bool} {r r' : Recorded} {e : SessionEvent}

theorem aligned_next (h : r.Aligned) (hn : r.next onRelease e = some r') : r'.Aligned := by
  obtain ⟨s,⟨current,outer,due⟩⟩ := r
  obtain ⟨s',hs,rfl⟩ := Option.map_eq_some_iff.mp hn
  change s.savepoints = outer.length at h
  cases e with
  | addAfterCommitCallback callback loop =>
    injection hs with hs
    subst hs
    exact h
  | flush =>
    injection hs with hs
    subst hs
    exact h
  | closeLoop loop =>
    injection hs with hs
    subst hs
    exact h
  | beginNested =>
    injection hs with hs
    subst hs
    exact congrArg Nat.succ h
  | release =>
    cases outer with
    | nil => simp [DBSession.next, h] at hs
    | cons o outer =>
      simp only [DBSession.next, h, List.length_cons] at hs
      split_ifs at hs <;> (injection hs with hs; subst hs; rfl)
  | rollbackNested =>
    cases outer with
    | nil => simp [DBSession.next, h] at hs
    | cons o outer =>
      simp only [DBSession.next, h, List.length_cons] at hs
      injection hs with hs
      subst hs
      rfl
  | commit =>
    injection hs with hs
    subst hs
    rfl
  | rollback =>
    injection hs with hs
    subst hs
    rfl

theorem faithful_release_iff (h : r.Aligned) (hr : r.Faithful)
    (hn : r.next onRelease .release = some r') : r'.Faithful ↔ Sound onRelease r .release := by
  obtain ⟨s,⟨current,outer,due⟩⟩ := r
  obtain ⟨s',hs,rfl⟩ := Option.map_eq_some_iff.mp hn
  obtain ⟨hran,hcallbacks⟩ := hr
  change s.savepoints = outer.length at h
  cases outer with
  | nil => simp [DBSession.next, h] at hs
  | cons o outer =>
    have hpending : (Ledger.next ⟨current,o :: outer,due⟩ .release).pending =
        (Ledger.mk current (o :: outer) due).pending := by
      simp [Ledger.next, Ledger.pending]
    simp only [DBSession.next, h, List.length_cons] at hs
    cases onRelease with
    | false =>
      obtain rfl : { s with savepoints := outer.length } = s' := by simpa using hs
      exact iff_of_true ⟨hran,hcallbacks.trans hpending.symm⟩ (.inl rfl)
    | true =>
      obtain rfl : { s.runAfterCommit with savepoints := outer.length } = s' := by simpa using hs
      simp only [Faithful, Sound, hpending, DBSession.runAfterCommit_callbacks, Bool.true_eq_false,
        false_or]
      constructor
      · intro hf
        exact hf.2.symm
      · intro hempty
        have hnone : s.info.afterCommitCallbacks = [] := hcallbacks.trans hempty
        refine ⟨?_,hempty.symm⟩
        rw [DBSession.runAfterCommit_of_empty hnone]
        exact hran

theorem next_commit (s : DBSession) :
    s.next onRelease .commit = some { s.runAfterCommit with savepoints := 0 } := by
  have hreleased : (if onRelease ∧ s.savepoints ≠ 0 then s.runAfterCommit else s).runAfterCommit =
      s.runAfterCommit := by
    split_ifs
    · exact DBSession.runAfterCommit_of_empty s.runAfterCommit_callbacks
    · rfl
  simp only [DBSession.next, hreleased]

theorem faithful_commit_iff (hr : r.Faithful) (hn : r.next onRelease .commit = some r') :
    r'.Faithful ↔ Sound onRelease r .commit := by
  obtain ⟨s,l⟩ := r
  obtain ⟨hran,hcallbacks⟩ := hr
  obtain ⟨s',hs,rfl⟩ := Option.map_eq_some_iff.mp hn
  rw [next_commit] at hs
  injection hs with hs
  subst hs
  have hlost := s.runAfterCommit_ran_iff
  simp only at hran hcallbacks
  rw [hran, hcallbacks] at hlost
  change (s.runAfterCommit.ran = l.due ++ l.pending ∧ s.runAfterCommit.info.afterCommitCallbacks = []) ↔ _
  rw [hlost]
  exact and_iff_left s.runAfterCommit_callbacks

theorem faithful_rollbackNested_iff (h : r.Aligned) (hr : r.Faithful)
    (hn : r.next onRelease .rollbackNested = some r') :
    r'.Faithful ↔ Sound onRelease r .rollbackNested := by
  obtain ⟨s,⟨current,outer,due⟩⟩ := r
  obtain ⟨s',hs,rfl⟩ := Option.map_eq_some_iff.mp hn
  obtain ⟨hran,hcallbacks⟩ := hr
  change s.savepoints = outer.length at h
  cases outer with
  | nil => simp [DBSession.next, h] at hs
  | cons o outer =>
    simp only [DBSession.next, h, List.length_cons] at hs
    injection hs with hs
    subst hs
    have hsplit : s.info.afterCommitCallbacks = (outer.reverse.flatten ++ o) ++ current := by
      rw [hcallbacks]
      simp [Ledger.pending]
    change s.ran = due ∧ s.info.afterCommitCallbacks = outer.reverse.flatten ++ o ↔ current = []
    rw [hsplit, List.append_right_eq_self]
    exact and_iff_right hran

theorem faithful_next_iff (h : r.Aligned) (hr : r.Faithful) (hn : r.next onRelease e = some r') :
    r'.Faithful ↔ Sound onRelease r e := by
  cases e with
  | release => exact faithful_release_iff h hr hn
  | commit => exact faithful_commit_iff hr hn
  | addAfterCommitCallback callback loop =>
    cases hn
    refine iff_of_true ⟨hr.1,?_⟩ trivial
    have hpending : (r.2.next (.addAfterCommitCallback callback loop)).pending =
        r.2.pending ++ [callback] := by
      simp [Ledger.next, Ledger.pending]
    rw [hpending, ← hr.2]
    rfl
  | flush =>
    cases hn
    exact iff_of_true hr trivial
  | closeLoop loop =>
    cases hn
    exact iff_of_true hr trivial
  | beginNested =>
    cases hn
    refine iff_of_true ⟨hr.1,?_⟩ trivial
    have hpending : (r.2.next .beginNested).pending = r.2.pending := by
      simp [Ledger.next, Ledger.pending]
    rw [hpending, ← hr.2]
  | rollbackNested => exact faithful_rollbackNested_iff h hr hn
  | rollback =>
    cases hn
    change r.1.ran = r.2.due ∧ r.1.info.afterCommitCallbacks = [] ↔ r.2.pending = []
    rw [hr.2]
    exact and_iff_right hr.1

/-- Over a history of transactions and savepoints, a callback runs exactly when the transaction that it
was registered in commits, once and in order, and a rollback leaves none to run, exactly when every step
meets its condition. -/
theorem faithful_throughout_iff (onRelease : Bool) (events : List SessionEvent) :
    Runs.Throughout (next onRelease) Faithful first events ↔
      Runs.StepsMeet (next onRelease) (Sound onRelease) first events := by
  have haligned : first.Aligned := rfl
  have hfaithful : first.Faithful := ⟨rfl,rfl⟩
  apply Runs.throughout_iff_stepsMeet (I := Aligned) ?_ ?_ haligned hfaithful
  · intro r e r' h hn
    exact aligned_next h hn
  · intro r e r' h hr hn
    exact faithful_next_iff h hr hn

/-- The transaction of `import_workflows_atomic`: a savepoint, what the schedules of its workflows
register, and the commit, or the rollback to the savepoint when a workflow raises. -/
def importWorkflowsAtomic (registrations : List (AsyncCallback × Option EventLoop)) (raises : Bool) :
    List SessionEvent :=
  .beginNested :: registrations.map (fun c => .addAfterCommitCallback c.1 c.2) ++
    [if raises then .rollbackNested else .commit]

/-- A callback of a transaction that rolls back, or of an import that fails, runs when the next
transaction commits. -/
theorem rolledBack_callback_runs :
    (Runs.follow (next true) first
      [.addAfterCommitCallback ⟨1,.coroutine⟩ (some 0),.rollback,.commit]).map
      (fun r => (r.1.ran,r.2.due)) = some ([⟨1,.coroutine⟩],[]) ∧
    (Runs.follow (next true) first
      (importWorkflowsAtomic [(⟨1,.coroutine⟩,some 0)] true ++ [.commit])).map
      (fun r => (r.1.ran,r.2.due)) = some ([⟨1,.coroutine⟩],[]) := by
  decide

end Recorded
end Allama
