import Allama.SandboxRun

/-! Runs of the sandbox that end with one marker, and with the result that the runtime gives. -/
namespace Allama
namespace Sandbox
open AgentStream Runs
variable {m : RuntimeMessage} {buffered : List RuntimeMessage}

/-- The runtime has sent `done`, and no error before it. -/
def CleanDone (sent : List RuntimeMessage) : Prop :=
  ∃ before after, sent = before ++ .done :: after ∧ ∀ m ∈ before, m.failed = false

def Marked (stream : List StreamItem) : Prop := ∃ before, stream = before ++ [.endMarker] ∧ StreamItem.endMarker ∉ before

/-- When the run has returned, the stream is marked, and the result is that of the runtime. -/
def Settled (s : System) : Prop :=
  s.executor = .returned → Marked s.stream ∧ (s.result.success = true ↔ CleanDone s.sent)

/-- What a run that is given up keeps to: the runtime has connected, the error comes before the marker, and the runtime
has not sent `done` when the run returns. -/
def Undisturbed (s : System) : Event → Prop
  | .report => s.handler.phase ≠ .absent ∧ StreamItem.endMarker ∉ s.stream
  | .leave => s.executor = .closing true → ¬ CleanDone s.sent
  | _ => True

def RuntimeMessage.terminal : RuntimeMessage → Bool
  | .streamEvent event => event.type = .error
  | .error _ | .done => true
  | .other => false

theorem RuntimeMessage.eq_done_of_terminal (h : m.terminal = true) (hfailed : m.failed = false) :
    m = .done := by
  cases m with
  | streamEvent event => exact absurd (h.symm.trans hfailed) nofun
  | error error => cases hfailed
  | done => rfl
  | other => cases h

theorem RuntimeMessage.failed_of_not_terminal (h : m.terminal = false) : m.failed = false := by
  cases m with
  | streamEvent event => exact h
  | error error => cases h
  | done => rfl
  | other => rfl

def firstTerminal (sent : List RuntimeMessage) : Option RuntimeMessage := sent.find? RuntimeMessage.terminal

theorem cleanDone_iff (sent : List RuntimeMessage) : CleanDone sent ↔ firstTerminal sent = some .done := by
  constructor
  · rintro ⟨before,after,rfl,hbefore⟩
    rw [firstTerminal, List.find?_append]
    cases hfind : before.find? RuntimeMessage.terminal with
    | none => rfl
    | some m =>
      have hdone := RuntimeMessage.eq_done_of_terminal (List.find?_some hfind) (hbefore m (List.mem_of_find?_eq_some hfind))
      rw [hdone]
      rfl
  · intro h
    obtain ⟨-,before,after,rfl,hbefore⟩ := List.find?_eq_some_iff_append.mp h
    refine ⟨before,after,rfl,?_⟩
    intro m hm
    exact RuntimeMessage.failed_of_not_terminal (by simpa using hbefore m hm)

theorem firstTerminal_append {sent : List RuntimeMessage} (h : firstTerminal sent = some m)
    (later : List RuntimeMessage) : firstTerminal (sent ++ later) = some m := by
  rw [firstTerminal, List.find?_append]
  change (firstTerminal sent).or _ = _
  rw [h]
  rfl

def ReadSoFar (s : System) : Prop :=
  ∃ processed, s.sent = processed ++ s.buffered ∧ firstTerminal processed = none

/-- The loop of the handler has ended: at `done`, at an error, or because nothing more will come. -/
def LoopEnded (s : System) : Prop :=
  (s.handler.result.error = none ∧ firstTerminal s.sent = some .done) ∨
    (s.handler.result.error ≠ none ∧ ∃ m, firstTerminal s.sent = some m ∧ m.failed = true) ∨
    (s.handler.result.error ≠ none ∧ firstTerminal s.sent = none ∧ s.disconnected = true)

theorem LoopEnded.cleanDone_iff {s : System} (h : LoopEnded s) : CleanDone s.sent ↔ s.handler.result.error = none := by
  rw [Sandbox.cleanDone_iff]
  rcases h with ⟨herror,hdone⟩ | ⟨herror,m,hm,hfailed⟩ | ⟨herror,hnone,-⟩
  · exact iff_of_true hdone herror
  · refine iff_of_false ?_ herror
    intro hdone
    rw [hdone] at hm
    cases hm
    cases hfailed
  · refine iff_of_false ?_ herror
    rw [hnone]
    nofun

/-- What the handler has, where it is. -/
def HandlerInv (s : System) : Prop :=
  match s.handler.phase with
  | .absent | .starting => s.sent = [] ∧ s.buffered = [] ∧ s.handler.result.error = none ∧ s.handler.streamDoneEmitted = false
  | .reading => ReadSoFar s ∧ s.handler.result.error = none ∧ s.handler.streamDoneEmitted = false
  | .appending items false => ReadSoFar s ∧ s.handler.result.error = none ∧ s.handler.streamDoneEmitted = false ∧
    StreamItem.endMarker ∉ items
  | .appending items true => LoopEnded s ∧ (StreamItem.endMarker ∉ items ∨ Marked items) ∧
    (s.handler.streamDoneEmitted = true → items = [])
  | .finishing => LoopEnded s
  | .closed => LoopEnded s ∧ s.handler.streamDoneEmitted = true ∧
    s.handler.result.success = s.handler.result.error.isNone

def StreamInv (s : System) : Prop :=
  if s.handler.streamDoneEmitted then Marked s.stream else StreamItem.endMarker ∉ s.stream

/-- What the executor has, where it is. -/
def ExecutorInv (s : System) : Prop :=
  match s.executor with
  | .waiting | .reporting _ => s.result.success = false
  | .closing false => s.handler.phase = .closed ∧ s.result.success = s.handler.result.success
  | .closing true => s.handler.phase ≠ .absent ∧ s.result.success = false
  | .returned => s.handler.phase = .closed ∧ (s.result.success = true ↔ CleanDone s.sent)

structure Inv (s : System) : Prop where
  handler : HandlerInv s
  stream : StreamInv s
  executor : ExecutorInv s
  loopback : ∀ loopback, s.loopbackResult = some loopback → s.handler.phase = .closed ∧ loopback = s.handler.result

theorem Inv.settled {s : System} (h : Inv s) : Settled s := by
  intro hreturned
  have hexecutor := h.executor
  have hhandler := h.handler
  have hstream := h.stream
  unfold ExecutorInv at hexecutor
  unfold HandlerInv at hhandler
  unfold StreamInv at hstream
  rw [hreturned] at hexecutor
  rw [hexecutor.1] at hhandler
  rw [if_pos hhandler.2.1] at hstream
  exact ⟨hstream,hexecutor.2⟩

theorem inv_init : Inv {} where
  handler := ⟨rfl,rfl,rfl,rfl⟩
  stream := List.not_mem_nil
  executor := rfl
  loopback := nofun

section Steps
variable {s s' : System}

theorem LoopEnded.send (h : LoopEnded s) (hconnected : s.disconnected = false) (m : RuntimeMessage) :
    LoopEnded {s with sent := s.sent ++ [m], buffered := s.buffered ++ [m]} := by
  rcases h with ⟨herror,hdone⟩ | ⟨herror,m',hm',hfailed⟩ | ⟨-,-,hdisconnected⟩
  · exact .inl ⟨herror,firstTerminal_append hdone _⟩
  · exact .inr (.inl ⟨herror,m',firstTerminal_append hm' _,hfailed⟩)
  · rw [hconnected] at hdisconnected
    cases hdisconnected

theorem ReadSoFar.send (h : ReadSoFar s) (m : RuntimeMessage) :
    ReadSoFar {s with sent := s.sent ++ [m], buffered := s.buffered ++ [m]} := by
  obtain ⟨processed,hsent,hnone⟩ := h
  refine ⟨processed,?_,hnone⟩
  change s.sent ++ [m] = _
  rw [hsent, List.append_assoc]

theorem Inv.environment (h : Inv s) {disconnected : Bool} (hdisconnected : s.disconnected = true → disconnected = true)
    (exited : Option (ℤ × String)) (fatalError : Option String) :
    Inv {s with disconnected := disconnected, exited := exited, fatalError := fatalError} := by
  have hended : LoopEnded s → LoopEnded {s with disconnected := disconnected, exited := exited, fatalError := fatalError} := by
    rintro (hdone | hfailed | ⟨herror,hnone,hgone⟩)
    · exact .inl hdone
    · exact .inr (.inl hfailed)
    · exact .inr (.inr ⟨herror,hnone,hdisconnected hgone⟩)
  refine ⟨?_,h.stream,h.executor,h.loopback⟩
  have hhandler := h.handler
  unfold HandlerInv at hhandler ⊢
  dsimp only
  split <;> rename_i hphase <;> rw [hphase] at hhandler
  · exact hhandler
  · exact hhandler
  · exact hhandler
  · exact hhandler
  · exact ⟨hended hhandler.1,hhandler.2⟩
  · exact hended hhandler
  · exact ⟨hended hhandler.1,hhandler.2⟩

theorem ExecutorInv.step (h : ExecutorInv s) (hopen : s.handler.phase ≠ .closed) (hexecutor : s'.executor = s.executor)
    (hresult : s'.result = s.result) (hphase : s'.handler.phase ≠ .absent) : ExecutorInv s' := by
  unfold ExecutorInv at h ⊢
  rw [hexecutor, hresult]
  split <;> rename_i hwhere <;> rw [hwhere] at h
  · exact h
  · exact h
  · exact absurd h.1 hopen
  · exact ⟨hphase,h.2⟩
  · exact absurd h.1 hopen

theorem Inv.step (h : Inv s) (hopen : s.handler.phase ≠ .closed) (hexecutor : s'.executor = s.executor)
    (hresult : s'.result = s.result) (hloopback : s'.loopbackResult = s.loopbackResult) (hphase : s'.handler.phase ≠ .absent)
    (hhandler : HandlerInv s') (hstream : StreamInv s') : Inv s' where
  handler := hhandler
  stream := hstream
  executor := h.executor.step hopen hexecutor hresult hphase
  loopback loopback hsome := absurd (h.loopback loopback (hloopback ▸ hsome)).1 hopen

theorem Inv.connect (h : Inv s) (hphase : s.handler.phase = .absent) :
    Inv (s.setHandler {s.handler with phase := .starting}) := by
  have hhandler := h.handler
  unfold HandlerInv at hhandler
  rw [hphase] at hhandler
  exact h.step (by rw [hphase]; nofun) rfl rfl rfl nofun hhandler h.stream

theorem Inv.send (h : Inv s) (hstarted : s.handler.phase ≠ .absent ∧ s.handler.phase ≠ .starting ∧ s.handler.phase ≠ .closed)
    (hconnected : s.disconnected = false) (m : RuntimeMessage) :
    Inv {s with sent := s.sent ++ [m], buffered := s.buffered ++ [m]} := by
  refine h.step hstarted.2.2 rfl rfl rfl hstarted.1 ?_ h.stream
  have hhandler := h.handler
  unfold HandlerInv at hhandler ⊢
  dsimp only
  split <;> rename_i hphase <;> rw [hphase] at hhandler
  · exact absurd hphase hstarted.1
  · exact absurd hphase hstarted.2.1
  · exact ⟨hhandler.1.send m,hhandler.2⟩
  · exact ⟨hhandler.1.send m,hhandler.2⟩
  · exact ⟨hhandler.1.send hconnected m,hhandler.2⟩
  · exact hhandler.send hconnected m
  · exact absurd hphase hstarted.2.2

theorem Inv.nextRuntime (h : Inv s) {event : Event} (hnext : s.nextRuntime event = some s') : Inv s' := by
  unfold System.nextRuntime at hnext
  split at hnext
  · split at hnext
    · rename_i hphase _
      split at hnext
      · cases hnext
      · cases hnext
        exact h.connect hphase
    · rename_i hphase _
      split at hnext
      · cases hnext
      · cases hnext
        exact h.connect hphase
    · cases hnext
  · rename_i m
    split at hnext
    · cases hnext
    · cases hnext
    · cases hnext
    · rename_i habsent hstarting hclosed
      split at hnext
      · cases hnext
      · rename_i hconnected
        cases hnext
        rw [Bool.or_eq_true, not_or] at hconnected
        exact h.send ⟨habsent,hstarting,hclosed⟩ (Bool.eq_false_iff.mpr hconnected.1) m
  · split at hnext
    · cases hnext
    · cases hnext
      exact h.environment (fun _ => rfl) s.exited s.fatalError
  · split at hnext
    · cases hnext
    · cases hnext
      exact h.environment (fun _ => rfl) _ s.fatalError
  · cases hnext
    exact h.environment (fun h => h) s.exited _
  · cases hnext

theorem ReadSoFar.firstTerminal_cons (h : ReadSoFar s) (hbuffered : s.buffered = m :: buffered)
    (hm : m.terminal = true) : firstTerminal s.sent = some m := by
  obtain ⟨processed,hsent,hnone⟩ := h
  rw [hsent, hbuffered, firstTerminal, List.find?_append]
  change (firstTerminal processed).or _ = _
  rw [hnone, List.find?_cons_of_pos hm]
  rfl

theorem ReadSoFar.next (h : ReadSoFar s) (hbuffered : s.buffered = m :: buffered)
    (hm : m.terminal = false) (handler : Handler) :
    ReadSoFar {s.setHandler handler with buffered := buffered} := by
  obtain ⟨processed,hsent,hnone⟩ := h
  refine ⟨processed ++ [m],?_,?_⟩
  · change s.sent = _
    rw [hsent, hbuffered, List.append_assoc]
    rfl
  · rw [firstTerminal, List.find?_append]
    change (firstTerminal processed).or _ = _
    rw [hnone, List.find?_cons_of_neg (by rw [hm]; decide)]
    rfl

theorem HandlerInv.process {m : RuntimeMessage} {buffered : List RuntimeMessage} (hread : ReadSoFar s)
    (herror : s.handler.result.error = none) (hemitted : s.handler.streamDoneEmitted = false)
    (hbuffered : s.buffered = m :: buffered) : HandlerInv {s.setHandler (s.handler.process m) with buffered := buffered} := by
  cases m with
  | streamEvent event =>
    by_cases hfailed : event.type = .error
    · have hprocess : s.handler.process (.streamEvent event) = _ := if_pos hfailed
      have hterminal : (RuntimeMessage.streamEvent event).terminal = true := decide_eq_true hfailed
      rw [hprocess]
      refine ⟨.inr (.inl ⟨nofun,_,hread.firstTerminal_cons hbuffered hterminal,decide_eq_true hfailed⟩),.inr ⟨[_,_],rfl,?_⟩,?_⟩
      · simp
      · exact fun h => absurd (hemitted.symm.trans h) nofun
    · have hprocess : s.handler.process (.streamEvent event) = _ := if_neg hfailed
      have hterminal : (RuntimeMessage.streamEvent event).terminal = false := decide_eq_false hfailed
      rw [hprocess]
      by_cases happroval : event.type = .approvalRequest
      · rw [if_pos happroval]
        exact ⟨hread.next hbuffered hterminal _,herror,hemitted,by simp⟩
      · rw [if_neg happroval]
        exact ⟨hread.next hbuffered hterminal _,herror,hemitted,by simp⟩
  | error error =>
    refine ⟨.inr (.inl ⟨nofun,_,hread.firstTerminal_cons hbuffered rfl,rfl⟩),.inr ⟨[_],rfl,?_⟩,?_⟩
    · simp
    · exact fun h => absurd (hemitted.symm.trans h) nofun
  | done =>
    refine ⟨.inl ⟨herror,hread.firstTerminal_cons hbuffered rfl⟩,.inr ⟨[],rfl,List.not_mem_nil⟩,?_⟩
    exact fun h => absurd (hemitted.symm.trans h) nofun
  | other => exact ⟨hread.next hbuffered rfl _,herror,hemitted⟩

theorem Inv.initSent (h : Inv s) (hphase : s.handler.phase = .starting) :
    Inv (s.setHandler {s.handler with phase := .reading}) := by
  have hhandler := h.handler
  unfold HandlerInv at hhandler
  rw [hphase] at hhandler
  refine h.step (by rw [hphase]; nofun) rfl rfl rfl nofun ⟨⟨[],?_,rfl⟩,hhandler.2.2⟩ h.stream
  change s.sent = [] ++ s.buffered
  rw [hhandler.1, hhandler.2.1]
  rfl

theorem Inv.initFailed (h : Inv s) (hphase : s.handler.phase = .starting) (hgone : s.disconnected = true) (error : String) :
    Inv (s.setHandler (s.handler.initFailed error)) := by
  have hhandler := h.handler
  unfold HandlerInv at hhandler
  rw [hphase] at hhandler
  have hnone : firstTerminal s.sent = none := by rw [hhandler.1]; rfl
  have hended : LoopEnded (s.setHandler (s.handler.initFailed error)) := .inr (.inr ⟨nofun,hnone,hgone⟩)
  refine h.step (by rw [hphase]; nofun) rfl rfl rfl nofun ⟨hended,.inl (by simp),?_⟩ h.stream
  exact fun hemitted => absurd (hhandler.2.2.2.symm.trans hemitted) nofun

theorem Inv.connectionLost (h : Inv s) (hphase : s.handler.phase = .reading) (hbuffered : s.buffered = [])
    (hgone : s.disconnected = true) : Inv (s.setHandler s.handler.connectionLost) := by
  have hhandler := h.handler
  unfold HandlerInv at hhandler
  rw [hphase] at hhandler
  obtain ⟨⟨processed,hsent,hnone⟩,-,hemitted⟩ := hhandler
  rw [hbuffered, List.append_nil] at hsent
  have hended : LoopEnded (s.setHandler s.handler.connectionLost) := by
    refine .inr (.inr ⟨nofun,?_,hgone⟩)
    change firstTerminal s.sent = none
    rw [hsent, hnone]
  refine h.step (by rw [hphase]; nofun) rfl rfl rfl nofun ⟨hended,.inl (by simp),?_⟩ h.stream
  exact fun htrue => absurd (hemitted.symm.trans htrue) nofun

theorem Inv.read (h : Inv s) (hphase : s.handler.phase = .reading)
    (hbuffered : s.buffered = m :: buffered) :
    Inv {s.setHandler (s.handler.process m) with buffered := buffered} := by
  have hhandler := h.handler
  have hstream := h.stream
  unfold HandlerInv at hhandler
  unfold StreamInv at hstream
  rw [hphase] at hhandler
  obtain ⟨hread,herror,hemitted⟩ := hhandler
  have hsame : (s.handler.process m).streamDoneEmitted = s.handler.streamDoneEmitted ∧ (s.handler.process m).phase ≠ .absent := by
    cases m with
    | streamEvent event =>
      unfold Handler.process
      dsimp only
      split
      · exact ⟨rfl,nofun⟩
      · split <;> exact ⟨rfl,nofun⟩
    | error error => exact ⟨rfl,nofun⟩
    | done => exact ⟨rfl,nofun⟩
    | other => exact ⟨rfl,nofun⟩
  refine h.step (by rw [hphase]; nofun) rfl rfl rfl hsame.2 (.process hread herror hemitted hbuffered) ?_
  unfold StreamInv
  change if (s.handler.process m).streamDoneEmitted then _ else _
  rw [hsame.1]
  exact hstream

theorem marked_append {stream : List StreamItem} (h : StreamItem.endMarker ∉ stream) : Marked (stream ++ [.endMarker]) :=
  ⟨stream,rfl,h⟩

theorem marked_cons {item : StreamItem} {items : List StreamItem} (h : Marked (item :: items)) :
    (item = .endMarker ∧ items = []) ∨ (item ≠ .endMarker ∧ Marked items) := by
  obtain ⟨before,heq,hbefore⟩ := h
  cases before with
  | nil =>
    cases heq
    exact .inl ⟨rfl,rfl⟩
  | cons first before =>
    cases heq
    refine .inr ⟨?_,before,rfl,fun hmem => hbefore (List.mem_cons_of_mem _ hmem)⟩
    rintro rfl
    exact hbefore List.mem_cons_self

theorem StreamInv.append (h : StreamInv s) (hemitted : s.handler.streamDoneEmitted = false) {item : StreamItem}
    (hitem : item ≠ .endMarker) (hstream : s'.stream = s.stream ++ [item])
    (hsame : s'.handler.streamDoneEmitted = false) : StreamInv s' := by
  unfold StreamInv at h ⊢
  rw [hemitted, if_neg nofun] at h
  rw [hsame, if_neg nofun, hstream]
  intro hmem
  rcases List.mem_append.mp hmem with hmem | hmem
  · exact h hmem
  · exact hitem (List.mem_singleton.mp hmem).symm

theorem Inv.append (h : Inv s) (hnext : s.nextHandler .append = some s') : Inv s' := by
  have hhandler := h.handler
  unfold HandlerInv at hhandler
  unfold System.nextHandler at hnext
  dsimp only at hnext
  split at hnext
  · rename_i item items ends hphase
    have hopen : s.handler.phase ≠ .closed := by rw [hphase]; nofun
    rw [hphase] at hhandler
    cases ends with
    | false =>
      obtain ⟨hread,herror,hemitted,hitems⟩ := hhandler
      have hitem : item ≠ .endMarker := by
        rintro rfl
        exact hitems List.mem_cons_self
      have hsame : item.marks s.handler.streamDoneEmitted = false := by
        cases item <;> first | exact hemitted | exact absurd rfl hitem
      cases hnext
      refine h.step hopen rfl rfl rfl nofun ⟨hread,herror,hsame,fun hmem => hitems (List.mem_cons_of_mem _ hmem)⟩ ?_
      exact h.stream.append hemitted hitem rfl hsame
    | true =>
      obtain ⟨hended,hitems,hempty⟩ := hhandler
      have hemitted : s.handler.streamDoneEmitted = false := by
        by_contra htrue
        exact nomatch hempty (Bool.of_not_eq_false htrue)
      have hcases : (item = .endMarker ∧ items = []) ∨
          (item ≠ .endMarker ∧ (StreamItem.endMarker ∉ items ∨ Marked items)) := by
        rcases hitems with hnone | hmarked
        · refine .inr ⟨?_,.inl fun hmem => hnone (List.mem_cons_of_mem _ hmem)⟩
          rintro rfl
          exact hnone List.mem_cons_self
        · rcases marked_cons hmarked with hlast | ⟨hne,hrest⟩
          · exact .inl hlast
          · exact .inr ⟨hne,.inr hrest⟩
      rcases hcases with ⟨rfl,rfl⟩ | ⟨hne,hrest⟩
      · cases hnext
        refine h.step hopen rfl rfl rfl nofun ⟨hended,.inl List.not_mem_nil,fun _ => rfl⟩ ?_
        have hstream := h.stream
        unfold StreamInv at hstream ⊢
        rw [hemitted, if_neg nofun] at hstream
        exact marked_append hstream
      · have hsame : item.marks s.handler.streamDoneEmitted = false := by
          cases item <;> first | exact hemitted | exact absurd rfl hne
        cases hnext
        refine h.step hopen rfl rfl rfl nofun ⟨hended,hrest,fun htrue => absurd (hsame.symm.trans htrue) nofun⟩ ?_
        exact h.stream.append hemitted hne rfl hsame
  · rename_i ends hphase
    have hopen : s.handler.phase ≠ .closed := by rw [hphase]; nofun
    rw [hphase] at hhandler
    cases hnext
    cases ends with
    | false => exact h.step hopen rfl rfl rfl nofun ⟨hhandler.1,hhandler.2.1,hhandler.2.2.1⟩ h.stream
    | true => exact h.step hopen rfl rfl rfl nofun hhandler.1 h.stream
  · cases hnext

theorem Inv.finish (h : Inv s) (hnext : s.nextHandler .finish = some s') : Inv s' := by
  have hhandler := h.handler
  unfold HandlerInv at hhandler
  unfold System.nextHandler at hnext
  dsimp only at hnext
  split at hnext
  · rename_i hphase
    rw [hphase] at hhandler
    cases hnext
    refine h.step (by rw [hphase]; nofun) rfl rfl rfl nofun ⟨hhandler,rfl,rfl⟩ ?_
    have hstream := h.stream
    unfold StreamInv at hstream ⊢
    dsimp only
    split at hstream
    · rename_i hemitted
      rw [if_pos hemitted]
      exact hstream
    · rename_i hemitted
      rw [if_neg hemitted]
      exact marked_append hstream
  · cases hnext

theorem Inv.nextHandler (h : Inv s) {event : Event} (hnext : s.nextHandler event = some s') : Inv s' := by
  cases event with
  | initSent =>
    unfold System.nextHandler at hnext
    dsimp only at hnext
    split at hnext
    · rename_i hphase
      cases hnext
      exact h.initSent hphase
    · cases hnext
  | initFailed error =>
    unfold System.nextHandler at hnext
    dsimp only at hnext
    split at hnext
    · rename_i hphase
      split at hnext
      · rename_i hgone
        cases hnext
        exact h.initFailed hphase hgone error
      · cases hnext
    · cases hnext
  | read =>
    unfold System.nextHandler at hnext
    dsimp only at hnext
    split at hnext
    · rename_i m buffered hphase hbuffered
      cases hnext
      exact h.read hphase hbuffered
    · rename_i hphase hbuffered
      split at hnext
      · rename_i hgone
        cases hnext
        exact h.connectionLost hphase hbuffered hgone
      · cases hnext
    · cases hnext
  | append => exact h.append hnext
  | finish => exact h.finish hnext
  | deliver =>
    unfold System.nextHandler at hnext
    dsimp only at hnext
    split at hnext
    · rename_i hphase _
      cases hnext
      exact ⟨h.handler,h.stream,h.executor,fun loopback hsome => ⟨hphase,(Option.some.inj hsome).symm⟩⟩
    · cases hnext
  | _ => cases hnext

theorem Inv.wake (h : Inv s) (hwaiting : s.executor = .waiting) {timeoutSeconds : ℕ}
    (hnext : s.wake timeoutSeconds = some s') : Inv s' := by
  have hexecutor := h.executor
  unfold ExecutorInv at hexecutor
  rw [hwaiting] at hexecutor
  have hgiveUp : ∀ error killed, Inv {s.giveUp error with killed := killed} :=
    fun error killed => ⟨h.handler,h.stream,hexecutor,h.loopback⟩
  unfold System.wake at hnext
  split at hnext
  · cases hnext
    exact hgiveUp _ s.killed
  · split at hnext
    · cases hnext
      exact hgiveUp _ true
    · cases hnext
      exact hgiveUp _ s.killed
    · rename_i loopback _ hloopback
      cases hnext
      obtain ⟨hclosed,hresult⟩ := h.loopback loopback hloopback
      refine ⟨h.handler,h.stream,⟨hclosed,?_⟩,h.loopback⟩
      rw [hresult]
    · cases hnext

theorem Inv.nextExecutor (h : Inv s) {timeoutSeconds : ℕ} {event : Event} (hok : Undisturbed s event)
    (hnext : s.nextExecutor timeoutSeconds event = some s') : Inv s' := by
  have hexecutor := h.executor
  unfold ExecutorInv at hexecutor
  cases event with
  | heartbeat =>
    unfold System.nextExecutor at hnext
    dsimp only at hnext
    split at hnext
    · split at hnext
      · cases hnext
        exact ⟨h.handler,h.stream,h.executor,h.loopback⟩
      · cases hnext
    · cases hnext
  | wake =>
    unfold System.nextExecutor at hnext
    dsimp only at hnext
    split at hnext
    · rename_i hwaiting
      exact h.wake hwaiting hnext
    · cases hnext
  | report =>
    unfold System.nextExecutor at hnext
    dsimp only at hnext
    split at hnext
    · rename_i error hreporting
      cases hnext
      rw [hreporting] at hexecutor
      have hunmarked : s.handler.streamDoneEmitted = false := by
        by_contra htrue
        have hstream := h.stream
        unfold StreamInv at hstream
        rw [if_pos (Bool.of_not_eq_false htrue)] at hstream
        obtain ⟨before,hbefore,-⟩ := hstream
        exact hok.2 (by rw [hbefore]; simp)
      have hitem : StreamItem.error error ≠ .endMarker := nofun
      exact ⟨h.handler,h.stream.append hunmarked hitem rfl hunmarked,⟨hok.1,hexecutor⟩,h.loopback⟩
    · cases hnext
  | leave =>
    unfold System.nextExecutor at hnext
    dsimp only at hnext
    split at hnext
    · rename_i gaveUp hclosing habsent
      rw [hclosing] at hexecutor
      cases gaveUp with
      | false => exact nomatch hexecutor.1.symm.trans habsent
      | true => exact absurd habsent hexecutor.1
    · rename_i gaveUp hclosing hclosed
      cases hnext
      rw [hclosing] at hexecutor
      have hhandler := h.handler
      unfold HandlerInv at hhandler
      rw [hclosed] at hhandler
      refine ⟨h.handler,h.stream,⟨hclosed,?_⟩,h.loopback⟩
      change s.result.success = true ↔ CleanDone s.sent
      cases gaveUp with
      | false =>
        rw [hexecutor.2, hhandler.2.2, hhandler.1.cleanDone_iff]
        exact Option.isNone_iff_eq_none
      | true =>
        rw [hexecutor.2]
        exact iff_of_false nofun (hok hclosing)
    · cases hnext
  | _ => cases hnext

theorem Inv.next (h : Inv s) {timeoutSeconds : ℕ} {event : Event} (hok : Undisturbed s event)
    (hnext : s.next timeoutSeconds event = some s') : Inv s' := by
  rcases Option.or_eq_some_iff.mp hnext with hnext | ⟨-,hnext⟩
  · rcases Option.or_eq_some_iff.mp hnext with hnext | ⟨-,hnext⟩
    · exact h.nextRuntime hnext
    · exact h.nextHandler hnext
  · exact h.nextExecutor hok hnext

end Steps

/-- In every run without a disturbing step, a result that is returned is settled. -/
theorem settled_of_reaches {timeoutSeconds : ℕ} {s : System}
    (h : Reaches (System.next timeoutSeconds) Undisturbed {} s) : Settled s := by
  have hinv : Inv s := h.invariant inv_init fun st event st' _ hst hok hnext => hst.next hok hnext
  exact hinv.settled

def undisturbed (s : System) : Event → Bool
  | .report => false
  | .leave => match s.executor with | .closing true => false | _ => true
  | _ => true

theorem undisturbed_sound {s : System} {event : Event} (h : undisturbed s event = true) : Undisturbed s event := by
  cases event with
  | report => cases h
  | leave =>
    intro hclosing
    rw [undisturbed, hclosing] at h
    cases h
  | _ => trivial

/-- The runtime connects, sends `done` and exits when its message has been read. -/
def orderlyRun : List Event :=
  [.connect,.initSent,.send .done,.read,.append,.append,.exit 0 "",.finish,.deliver,.wake,.leave]

def hastyRun : List Event :=
  [.connect,.initSent,.send .done,.exit 0 "",.wake,.report,.read,.append,.append,.finish,.leave]

def stateAfter (events : List Event) : System := (follow (System.next 600) {} events).getD {}

theorem orderlyRun_settled : Settled (stateAfter orderlyRun) := by
  have hrun : followOk (System.next 600) undisturbed {} orderlyRun = some (stateAfter orderlyRun) := rfl
  exact settled_of_reaches ((reaches_of_followOk hrun).weaken fun _ _ => undisturbed_sound)

/-- A runtime that has finished is reported as crashed. -/
theorem hastyRun_unsettled : ¬ ∀ timeoutSeconds s, Reachable (System.next timeoutSeconds) {} s → Settled s := by
  intro h
  have hrun : follow (System.next 600) {} hastyRun = some (stateAfter hastyRun) := by
    have hsome : (follow (System.next 600) {} hastyRun).isSome = true := rfl
    obtain ⟨s,hs⟩ := Option.isSome_iff_exists.mp hsome
    rw [stateAfter, hs]
    rfl
  have hsent : (stateAfter hastyRun).sent = [.done] := rfl
  have hclean : CleanDone (stateAfter hastyRun).sent := ⟨[],[],hsent,fun _ hm => absurd hm List.not_mem_nil⟩
  have hsuccess := (h 600 _ (reachable_of_follow hrun) rfl).2.mpr hclean
  have hfailed : (stateAfter hastyRun).result.success = false := rfl
  rw [hfailed] at hsuccess
  cases hsuccess

end Sandbox
end Allama
