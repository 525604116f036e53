import Allama.VenvCache

/-! When the cached environments of `SafePythonExecutor` are complete and lasting. -/
namespace Allama
open Function
namespace SafeVenvs
section Keys
variable {K : Type} {config : Config K}

theorem normalized_perm (config : Config K) (dependencies : List Text) :
    (normalized config dependencies).Perm (dependencies.map fun dep => strip (config.lower dep)) :=
  List.perm_insertionSort _ _

theorem normalized_ne_nil (config : Config K) {dependencies : List Text} (h : dependencies ≠ []) : normalized config dependencies ≠ [] := by
  intro hnil
  have hperm := normalized_perm config dependencies
  rw [hnil] at hperm
  exact h (List.map_eq_nil_iff.mp hperm.nil_eq.symm)

theorem hashInput_eq {request : Request} (h : request.dependencies ≠ []) :
    hashInput config request = ['\n'].intercalate (request.workspace.toList ++ normalized config request.dependencies) := by
  unfold hashInput
  cases request.workspace with
  | none => rfl
  | some workspace =>
    dsimp only [Option.toList]
    obtain ⟨line,lines,hlines⟩ := List.exists_cons_of_ne_nil (normalized_ne_nil config h)
    rw [hlines]
    change workspace ++ (['\n'] ++ ['\n'].intercalate (line :: lines)) = ['\n'].intercalate (workspace :: line :: lines)
    rw [List.intercalate_cons_cons, List.append_assoc]

theorem lines_of_hashInput {request : Request} (h : request.dependencies ≠ []) (hsep : Separable config request) :
    (hashInput config request).splitOn '\n' = request.workspace.toList ++ normalized config request.dependencies := by
  rw [hashInput_eq h]
  refine List.splitOn_intercalate _ ?_ ?_
  · intro line hline
    rcases List.mem_append.mp hline with hline | hline
    · exact hsep.1 line (Option.mem_toList.mp hline)
    · exact hsep.2 line hline
  · intro hnil
    exact normalized_ne_nil config h (List.append_eq_nil_iff.mp hnil).2

theorem equivalent_of_hashInput {request request' : Request} (h : request.dependencies ≠ []) (h' : request'.dependencies ≠ [])
    (hsep : Separable config request) (hsep' : Separable config request') (hconf : ¬ Confused config request request')
    (hconf' : ¬ Confused config request' request) (heq : hashInput config request = hashInput config request') :
    Equivalent config request request' := by
  have hlines : request.workspace.toList ++ normalized config request.dependencies =
      request'.workspace.toList ++ normalized config request'.dependencies := by
    rw [← lines_of_hashInput h hsep, ← lines_of_hashInput h' hsep', heq]
  have hboth : request.workspace = request'.workspace ∧
      normalized config request.dependencies = normalized config request'.dependencies := by
    cases hw : request.workspace with
    | none =>
      cases hw' : request'.workspace with
      | none =>
        rw [hw, hw'] at hlines
        exact ⟨rfl,hlines⟩
      | some workspace =>
        -- the first dependency of the one is the workspace of the other
        refine (hconf ⟨hw,workspace,hw',?_⟩).elim
        rw [hw, hw'] at hlines
        change normalized config request.dependencies = workspace :: _ at hlines
        rw [hlines]
        exact List.mem_cons_self
    | some workspace =>
      cases hw' : request'.workspace with
      | none =>
        refine (hconf' ⟨hw',workspace,hw,?_⟩).elim
        rw [hw, hw'] at hlines
        change workspace :: _ = normalized config request'.dependencies at hlines
        rw [← hlines]
        exact List.mem_cons_self
      | some workspace' =>
        rw [hw, hw'] at hlines
        obtain ⟨rfl,hrest⟩ := List.cons.inj hlines
        exact ⟨rfl,hrest⟩
  refine ⟨hboth.1,?_⟩
  have hperm := normalized_perm config request'.dependencies
  rw [← hboth.2] at hperm
  exact (normalized_perm config _).symm.trans hperm

theorem not_confused_self (request : Request) : ¬ Confused config request request := by
  rintro ⟨hnone,workspace,hsome,-⟩
  rw [hnone] at hsome
  cases hsome

end Keys

section Steps
variable {K : Type} (config : Config K)

/-- What a step of a call leaves: the other calls, directories and failures, and the environments that are there. -/
structure Acts (id : ℕ) (call : Call) (st st' : State K) : Prop where
  calls : st'.calls = update st.calls id (some call)
  temp : ∀ p ≠ tempVenv config call.request, st'.temp p = st.temp p
  failures : ∀ i ≠ id, i ∈ st'.failures ↔ i ∈ st.failures
  usable : ∀ request, st.usable config request = true → st'.usable config request = true

/-- What a call finds that waits. -/
inductive Waits (id : ℕ) (request : Request) (st : State K) : Option Uv → Prop
  | creating : id ∉ st.failures → Waits id request st (some ⟨.venv,none⟩)
  | created (venv : Venv) : id ∉ st.failures → st.temp (tempVenv config request) = some venv → venv.python = true →
      Waits id request st (some ⟨.venv,some true⟩)
  | installing (venv : Venv) : id ∉ st.failures → st.temp (tempVenv config request) = some venv → venv.python = true →
      Waits id request st (some ⟨.install,none⟩)
  | installed (venv : Venv) : id ∉ st.failures → st.temp (tempVenv config request) = some venv → venv.python = true →
      (∀ dependency ∈ request.dependencies, dependency ∈ venv.installed) → Waits id request st (some ⟨.install,some true⟩)
  | failed (command : Command) : id ∈ st.failures → Waits id request st (some ⟨command,some false⟩)

/-- A call in its phase. -/
structure InPhase (id : ℕ) (call : Call) (st : State K) : Prop where
  waiting : call.phase = .waiting → Waits config id call.request st call.uv
  raised : call.phase = .raised → id ∈ st.failures
  ready : call.phase = .ready → st.usable config call.request = true ∧ call.occupies = false

/-- The published environments. -/
structure Published (st : State K) : Prop where
  complete : ∀ p ∈ st.publications, ∃ call, st.calls p.call = some call ∧ call.phase = .ready ∧
    computeCacheKey config call.request = p.cache_key ∧ p.venv.python = true ∧
    ∀ dependency ∈ call.request.dependencies, dependency ∈ p.venv.installed
  published : ∀ cache_key venv, st.cached cache_key = some venv →
    ∃ p ∈ st.publications, p.cache_key = cache_key ∧ p.venv = venv
  kept : ∀ p ∈ st.publications, st.cached p.cache_key = some p.venv
  failed : ∀ p ∈ st.publications, p.call ∉ st.failures

/-- No other call and no process of one uses the temporary directory of the request. -/
def Free (id : ℕ) (request : Request) (st : State K) : Prop :=
  ∀ i ≠ id, ∀ call, st.calls i = some call → call.occupies = true → tempVenv config call.request ≠ tempVenv config request

structure Sound (st : State K) : Prop where
  exclusive : ∀ id call, st.calls id = some call → call.occupies = true → Free config id call.request st
  phases : ∀ id call, st.calls id = some call → InPhase config id call st
  known : ∀ id ∈ st.failures, st.calls id ≠ none
  published : Published config st

/-- What a step of a call with the request leads to: the invariant, and no call of another request. -/
structure Onward (request : Request) (st st' : State K) : Prop where
  sound : Sound config st'
  requests : ∀ i c, st'.calls i = some c → c.request = request ∨ ∃ j before, st.calls j = some before ∧ before.request = c.request

variable {config} {id : ℕ} {call : Call} {st st' : State K}

theorem Waits.congr {request : Request} {uv : Option Uv} (h : Waits config id request st uv)
    (htemp : st'.temp (tempVenv config request) = st.temp (tempVenv config request))
    (hfailures : id ∈ st'.failures ↔ id ∈ st.failures) : Waits config id request st' uv := by
  cases h with
  | creating hgood => exact .creating (hfailures.not.mpr hgood)
  | created venv hgood hvenv hpython => exact .created venv (hfailures.not.mpr hgood) (htemp.trans hvenv) hpython
  | installing venv hgood hvenv hpython => exact .installing venv (hfailures.not.mpr hgood) (htemp.trans hvenv) hpython
  | installed venv hgood hvenv hpython hdeps =>
    exact .installed venv (hfailures.not.mpr hgood) (htemp.trans hvenv) hpython hdeps
  | failed command hfailed => exact .failed command (hfailures.mpr hfailed)

theorem occupies_of_waiting (h : call.phase = .waiting) : call.occupies = true := by
  unfold Call.occupies
  rw [h]
  rfl

theorem Acts.calls_ne (hacts : Acts config id call st st') {i : ℕ} (hi : i ≠ id) : st'.calls i = st.calls i := by
  rw [hacts.calls, update_of_ne hi]

theorem Acts.calls_self (hacts : Acts config id call st st') : st'.calls id = some call := by
  rw [hacts.calls, update_self]

theorem ne_ready_of_eq (hcall : st.calls id = some call) (h : call.phase ≠ .ready) :
    ∀ c, st.calls id = some c → c.phase ≠ .ready := by
  intro c hc
  obtain rfl := Option.some.inj (hcall.symm.trans hc)
  exact h

theorem Acts.fail (h : Acts config id call st st') : Acts config id call st (st'.fail id) :=
  ⟨h.calls,h.temp,fun i hi => (List.mem_cons.trans (or_iff_right hi)).trans (h.failures i hi),h.usable⟩

theorem InPhase.of_waiting (hphase : call.phase = .waiting) (h : Waits config id call.request st call.uv) :
    InPhase config id call st := by
  refine ⟨fun _ => h,?_,?_⟩ <;> rw [hphase] <;> exact Phase.noConfusion

theorem InPhase.of_raised (hphase : call.phase = .raised) (h : id ∈ st.failures) : InPhase config id call st := by
  refine ⟨?_,fun _ => h,?_⟩ <;> rw [hphase] <;> exact Phase.noConfusion

theorem InPhase.of_ready (hphase : call.phase = .ready) (h : st.usable config call.request = true) (hocc : call.occupies = false) :
    InPhase config id call st := by
  refine ⟨?_,?_,fun _ => ⟨h,hocc⟩⟩ <;> rw [hphase] <;> exact Phase.noConfusion

theorem Published.usable {request : Request} (h : Published config st) {venv : Venv}
    (hcached : st.cached (computeCacheKey config request) = some venv) :
    st.usable config request = true ∧ venv ≠ .empty := by
  obtain ⟨p,hp,-,rfl⟩ := h.published _ _ hcached
  obtain ⟨-,-,-,-,hpython,-⟩ := h.complete p hp
  constructor
  · unfold State.usable
    rw [hcached]
    exact hpython
  · intro hempty
    rw [hempty] at hpython
    cases hpython

theorem Acts.requests (hacts : Acts config id call st st') {i : ℕ} {c : Call} (hc : st'.calls i = some c) :
    c.request = call.request ∨ ∃ j before, st.calls j = some before ∧ before.request = c.request := by
  by_cases hi : i = id
  · subst hi
    exact .inl (congrArg Call.request (Option.some.inj (hacts.calls_self.symm.trans hc)).symm)
  · exact .inr ⟨i,c,(hacts.calls_ne hi).symm.trans hc,rfl⟩

/-- A step of a call that nobody else disturbs keeps the invariant. -/
theorem Sound.step (h : Sound config st) (hacts : Acts config id call st st')
    (hfree : Free config id call.request st ∨ st'.temp = st.temp ∧ call.occupies = false) (hphase : InPhase config id call st')
    (hpublished : Published config st') : Onward config call.request st st' := by
  have hplace : ∀ i ≠ id, ∀ c, st.calls i = some c → c.occupies = true →
      st'.temp (tempVenv config c.request) = st.temp (tempVenv config c.request) := by
    intro i hi c hc hocc
    rcases hfree with hfree | ⟨htemp,-⟩
    · exact hacts.temp _ (hfree i hi c hc hocc)
    · rw [htemp]
  refine ⟨⟨?_,?_,?_,hpublished⟩,fun _ _ => hacts.requests⟩
  · intro i c hc hocc j hj c' hc' hocc'
    by_cases hi : i = id
    · -- the call itself, against another one
      subst hi
      obtain rfl := Option.some.inj (hacts.calls_self.symm.trans hc)
      rcases hfree with hfree | ⟨-,hnot⟩
      · rw [hacts.calls_ne hj] at hc'
        exact hfree j hj c' hc' hocc'
      · rw [hnot] at hocc
        cases hocc
    · rw [hacts.calls_ne hi] at hc
      by_cases hj' : j = id
      · subst hj'
        obtain rfl := Option.some.inj (hacts.calls_self.symm.trans hc')
        rcases hfree with hfree | ⟨-,hnot⟩
        · exact (hfree i hi c hc hocc).symm
        · rw [hnot] at hocc'
          cases hocc'
      · rw [hacts.calls_ne hj'] at hc'
        exact h.exclusive i c hc hocc j hj c' hc' hocc'
  · intro i c hc
    by_cases hi : i = id
    · subst hi
      obtain rfl := Option.some.inj (hacts.calls_self.symm.trans hc)
      exact hphase
    · rw [hacts.calls_ne hi] at hc
      obtain ⟨hwaiting,hraised,hready⟩ := h.phases i c hc
      refine ⟨fun hw => ?_,fun hr => (hacts.failures i hi).mpr (hraised hr),fun hr => ?_⟩
      · exact (hwaiting hw).congr (hplace i hi c hc (occupies_of_waiting hw)) (hacts.failures i hi)
      · exact ⟨hacts.usable _ (hready hr).1,(hready hr).2⟩
  · intro i hi hnone
    by_cases heq : i = id
    · rw [heq, hacts.calls_self] at hnone
      cases hnone
    · rw [hacts.calls_ne heq] at hnone
      exact h.known i ((hacts.failures i heq).mp hi) hnone

theorem Published.step (h : Published config st) (hacts : Acts config id call st st')
    (hready : ∀ c, st.calls id = some c → c.phase ≠ .ready) (hcached : st'.cached = st.cached)
    (hpublications : st'.publications = st.publications) : Published config st' := by
  have hne : ∀ p ∈ st.publications, p.call ≠ id := by
    intro p hp heq
    obtain ⟨c,hc,hphase,-⟩ := h.complete p hp
    exact hready c (heq ▸ hc) hphase
  refine ⟨?_,?_,?_,?_⟩
  · intro p hp
    rw [hpublications] at hp
    obtain ⟨c,hc,hrest⟩ := h.complete p hp
    exact ⟨c,(hacts.calls_ne (hne p hp)).trans hc,hrest⟩
  · rw [hcached, hpublications]
    exact h.published
  · rw [hcached, hpublications]
    exact h.kept
  · intro p hp hfailed
    rw [hpublications] at hp
    exact h.failed p hp ((hacts.failures _ (hne p hp)).mp hfailed)

theorem Sound.not_ready (h : Sound config st) (hcall : st.calls id = some call) (hocc : call.occupies = true) : call.phase ≠ .ready := by
  intro hphase
  have hnot := ((h.phases id call hcall).ready hphase).2
  rw [hocc] at hnot
  cases hnot

/-- A step of a call that occupies its temporary directory, and publishes nothing. -/
theorem Sound.act {before : Call} (h : Sound config st) (hbefore : st.calls id = some before) (hocc : before.occupies = true)
    (hacts : Acts config id call st st') (hrequest : call.request = before.request) (hphase : InPhase config id call st')
    (hcached : st'.cached = st.cached) (hpublications : st'.publications = st.publications) :
    Onward config call.request st st' :=
  h.step hacts (.inl (hrequest ▸ h.exclusive id before hbefore hocc)) hphase
    (h.published.step hacts (ne_ready_of_eq hbefore (h.not_ready hbefore hocc)) hcached hpublications)

theorem acts_setCall (config : Config K) (id : ℕ) (st : State K) (call : Call) :
    Acts config id call st (st.setCall id call) :=
  ⟨rfl,fun _ _ => rfl,fun _ _ => Iff.rfl,fun _ h => h⟩

theorem sound_started : Sound config started := by
  refine ⟨?_,?_,?_,?_,?_,?_,?_⟩
  · intro _ _ hcall
    cases hcall
  · intro _ _ hcall
    cases hcall
  · intro _ hid
    cases hid
  · intro _ hp
    cases hp
  · intro _ _ hcached
    cases hcached
  · intro _ hp
    cases hp
  · intro _ hp
    cases hp

end Steps

section Calls
variable {K : Type} [DecidableEq K] {config : Config K} {id : ℕ} {request : Request} {uv : Option Uv} {command : Command}
  {st : State K}

theorem acts_setTemp (config : Config K) (id : ℕ) (st : State K) (call : Call) (venv : Option Venv) :
    Acts config id call st ((st.setTemp config call.request venv).setCall id call) :=
  ⟨rfl,fun _ hp => update_of_ne hp _ _,fun _ _ => Iff.rfl,fun _ h => h⟩

theorem acts_leave (config : Config K) (id : ℕ) (st : State K) (call : Call) (phase : Phase) :
    Acts config id { call with phase := phase } st (st.leave config id call phase) :=
  ⟨rfl,fun _ hp => update_of_ne hp _ _,fun _ _ => Iff.rfl,fun _ h => h⟩

theorem sound_execute (h : Sound config st) (hnew : st.calls id = none) (spawns : Bool)
    (hfree : st.usable config request = false → Free config id request st) :
    Onward config request st (execute config id request spawns st) := by
  have hready : ∀ c, st.calls id = some c → c.phase ≠ .ready := by
    intro c hc
    rw [hnew] at hc
    cases hc
  unfold execute
  cases husable : st.usable config request with
  | true =>
    rw [if_pos rfl]
    have hacts := acts_setCall config id st ⟨request,.ready,none⟩
    exact h.step hacts (.inr ⟨rfl,rfl⟩) (.of_ready rfl husable rfl) (h.published.step hacts hready rfl rfl)
  | false =>
    rw [if_neg Bool.false_ne_true]
    cases spawns with
    | true =>
      have hacts := acts_setTemp config id st ⟨request,.waiting,some ⟨.venv,none⟩⟩ none
      exact h.step hacts (.inl (hfree husable)) (.of_waiting rfl (.creating fun hfailed => h.known id hfailed hnew))
        (h.published.step hacts hready rfl rfl)
    | false =>
      have hacts := (acts_leave config id st ⟨request,.waiting,none⟩ .raised).fail
      exact h.step hacts (.inl (hfree husable)) (.of_raised rfl List.mem_cons_self) (h.published.step hacts hready rfl rfl)

theorem write_python {venv : Venv} (file : File) (h : venv.python = true) : (venv.write file).python = true := by
  cases file with
  | python => rfl
  | _ => exact h

theorem sound_writes (h : Sound config st) {phase : Phase} (hcall : st.calls id = some ⟨request,phase,some ⟨command,none⟩⟩)
    (file : File) : Onward config request st
      (st.setTemp config request (some (((st.temp (tempVenv config request)).getD .empty).write file))) := by
  have hacts : Acts config id ⟨request,phase,some ⟨command,none⟩⟩ st
      (st.setTemp config request (some (((st.temp (tempVenv config request)).getD .empty).write file))) :=
    ⟨(update_eq_self_iff.mpr hcall.symm).symm,fun _ hp => update_of_ne hp _ _,fun _ _ => Iff.rfl,fun _ h => h⟩
  obtain ⟨hwaiting,hraised,hready⟩ := h.phases id _ hcall
  refine h.act hcall (Bool.or_true _) hacts rfl ⟨fun hw => ?_,hraised,hready⟩ rfl rfl
  have hwaits : Waits config id request st (some ⟨command,none⟩) := hwaiting hw
  cases hwaits with
  | creating hgood => exact .creating hgood
  | installing venv hgood hvenv hpython =>
    refine .installing (venv.write file) hgood ?_ (write_python file hpython)
    rw [hvenv]
    exact update_self ..

theorem complete_python {dependencies : List Text} {directory : Option Venv} {venv : Venv}
    (h : command.complete dependencies directory = some venv) : venv.python = true := by
  cases command with
  | venv =>
    cases h
    rfl
  | install =>
    obtain ⟨v,hv,rfl⟩ := Option.map_eq_some_iff.mp h
    exact (Option.filter_eq_some_iff.mp hv).2

theorem complete_installed {dependencies : List Text} {directory : Option Venv} {venv : Venv}
    (h : Command.install.complete dependencies directory = some venv) : ∀ d ∈ dependencies, d ∈ venv.installed := by
  obtain ⟨v,-,rfl⟩ := Option.map_eq_some_iff.mp h
  intro d hd
  exact List.mem_append_right _ hd

theorem sound_exits (h : Sound config st) {phase : Phase} (hcall : st.calls id = some ⟨request,phase,some ⟨command,none⟩⟩)
    (succeeds : Bool) : Onward config request st (exits config id ⟨request,phase,some ⟨command,none⟩⟩ command succeeds st) := by
  have hocc : Call.occupies ⟨request,phase,some ⟨command,none⟩⟩ = true := Bool.or_true _
  obtain ⟨hwaiting,hraised,-⟩ := h.phases id _ hcall
  have hphase := h.not_ready hcall hocc
  unfold exits
  cases succeeds with
  | true =>
    rw [if_pos rfl]
    cases hcomplete : command.complete request.dependencies (st.temp (tempVenv config request)) with
    | some venv =>
      refine h.act hcall hocc (acts_setTemp config id st ⟨request,phase,some ⟨command,some true⟩⟩ (some venv)) rfl
        ⟨fun hw => ?_,hraised,fun hr => (hphase hr).elim⟩ rfl rfl
      have hwaits : Waits config id request st (some ⟨command,none⟩) := hwaiting hw
      have htemp : ((st.setTemp config request (some venv)).setCall id ⟨request,phase,some ⟨command,some true⟩⟩).temp
          (tempVenv config request) = some venv := update_self ..
      cases hwaits with
      | creating hgood => exact .created venv hgood htemp (complete_python hcomplete)
      | installing _ hgood _ _ => exact .installed venv hgood htemp (complete_python hcomplete) (complete_installed hcomplete)
    | none =>
      refine h.act hcall hocc (acts_setCall config id st ⟨request,phase,some ⟨command,some false⟩⟩) rfl
        ⟨fun hw => ?_,hraised,fun hr => (hphase hr).elim⟩ rfl rfl
      -- a process that waits for its turn finds the interpreter
      have hwaits : Waits config id request st (some ⟨command,none⟩) := hwaiting hw
      cases hwaits with
      | creating _ => cases hcomplete
      | installing venv _ hvenv hpython =>
        have hnone := Option.map_eq_none_iff.mp hcomplete
        rw [hvenv, Option.filter_some_pos hpython] at hnone
        cases hnone
  | false =>
    rw [if_neg Bool.false_ne_true]
    exact h.act hcall hocc (acts_setCall config id st ⟨request,phase,some ⟨command,some false⟩⟩).fail rfl
      ⟨fun _ => .failed command List.mem_cons_self,fun _ => List.mem_cons_self,fun hr => (hphase hr).elim⟩ rfl rfl

theorem sound_leave (h : Sound config st) (hcall : st.calls id = some ⟨request,.waiting,uv⟩) {phase : Phase}
    (hwaiting : phase ≠ .waiting) (hready : phase ≠ .ready) (hraised : phase = .raised → id ∈ st.failures) :
    Onward config request st (st.leave config id ⟨request,.waiting,uv⟩ phase) := by
  exact h.act hcall (occupies_of_waiting rfl) (acts_leave config id st ⟨request,.waiting,uv⟩ phase) rfl
    ⟨fun hw => (hwaiting hw).elim,hraised,fun hr => (hready hr).elim⟩ rfl rfl

/-- The state after the rename of a directory under a free cache key. -/
def State.renamed (config : Config K) (id : ℕ) (request : Request) (venv : Venv) (st : State K) : State K :=
  { st.setTemp config request none with
    cached := update st.cached (computeCacheKey config request) (some venv)
    publications := ⟨id,computeCacheKey config request,venv⟩ :: st.publications }

theorem rename_free {venv : Venv} (htemp : st.temp (tempVenv config request) = some venv)
    (hcached : st.cached (computeCacheKey config request) = none) :
    st.rename config id request = st.renamed config id request venv := by
  unfold State.rename
  rw [htemp, hcached]
  exact if_pos rfl

theorem rename_taken (h : Published config st) {venv : Venv} (hcached : st.cached (computeCacheKey config request) = some venv) :
    st.rename config id request = st := by
  unfold State.rename
  split
  · rfl
  · rw [hcached]
    exact if_neg (h.usable hcached).2

theorem usable_renamed (id : ℕ) {venv : Venv} (hpython : venv.python = true) (request' : Request)
    (h : st.usable config request' = true) : (st.renamed config id request venv).usable config request' = true := by
  unfold State.usable State.renamed
  dsimp only
  by_cases hkey : computeCacheKey config request' = computeCacheKey config request
  · rw [hkey, update_self]
    exact hpython
  · rw [update_of_ne hkey]
    exact h

/-- The packages are installed: the directory is put under its cache key, unless there is an environment. -/
theorem sound_publish (h : Sound config st) (hcall : st.calls id = some ⟨request,.waiting,some ⟨.install,some true⟩⟩)
    (spawns : Bool) : Onward config request st (resume config id ⟨request,.waiting,some ⟨.install,some true⟩⟩ .install true spawns st) := by
  have hwaits : Waits config id request st (some ⟨.install,some true⟩) := (h.phases id _ hcall).waiting rfl
  have hfree : Free config id request st := h.exclusive id _ hcall rfl
  have hnever := ne_ready_of_eq hcall Phase.noConfusion
  cases hwaits with
  | installed venv hgood hvenv hpython hdeps =>
    unfold resume
    rw [if_pos rfl]
    dsimp only
    cases hcached : st.cached (computeCacheKey config request) with
    | some other =>
      rw [rename_taken h.published hcached, if_pos (h.published.usable hcached).1]
      exact h.act hcall rfl (acts_leave config id st ⟨request,.waiting,some ⟨.install,some true⟩⟩ .ready) rfl
        (.of_ready rfl (h.published.usable hcached).1 rfl) rfl rfl
    | none =>
      have husable : (st.renamed config id request venv).usable config request = true := by
        unfold State.usable State.renamed
        dsimp only
        rw [update_self]
        exact hpython
      rw [rename_free hvenv hcached, if_pos husable]
      have hacts : Acts config id ⟨request,.ready,some ⟨.install,some true⟩⟩ st
          ((st.renamed config id request venv).leave config id ⟨request,.waiting,some ⟨.install,some true⟩⟩ .ready) := by
        refine ⟨rfl,fun p hp => ?_,fun _ _ => Iff.rfl,usable_renamed id hpython⟩
        exact (update_of_ne hp _ _).trans (update_of_ne hp _ _)
      refine h.step hacts (.inl hfree) (.of_ready rfl husable rfl) ?_
      -- the key was free, so that no environment is replaced
      have hne : ∀ p ∈ st.publications, p.cache_key ≠ computeCacheKey config request := by
        intro p hp heq
        have hkept := h.published.kept p hp
        rw [heq, hcached] at hkept
        cases hkept
      refine ⟨?_,?_,?_,?_⟩
      · intro p hp
        rcases List.mem_cons.mp hp with rfl | hp
        · exact ⟨_,hacts.calls_self,rfl,rfl,hpython,hdeps⟩
        · obtain ⟨c,hc,hphase,hrest⟩ := h.published.complete p hp
          have hid : p.call ≠ id := fun heq => hnever c (heq ▸ hc) hphase
          exact ⟨c,(hacts.calls_ne hid).trans hc,hphase,hrest⟩
      · intro cache_key v hv
        by_cases hkey : cache_key = computeCacheKey config request
        · subst hkey
          change update st.cached _ _ _ = _ at hv
          rw [update_self] at hv
          exact ⟨_,List.mem_cons_self,rfl,Option.some.inj hv⟩
        · change update st.cached _ _ _ = _ at hv
          rw [update_of_ne hkey] at hv
          obtain ⟨p,hp,hrest⟩ := h.published.published cache_key v hv
          exact ⟨p,List.mem_cons_of_mem _ hp,hrest⟩
      · intro p hp
        rcases List.mem_cons.mp hp with rfl | hp
        · exact update_self ..
        · exact (update_of_ne (hne p hp) _ _).trans (h.published.kept p hp)
      · intro p hp
        rcases List.mem_cons.mp hp with rfl | hp
        · exact hgood
        · exact h.published.failed p hp

theorem sound_resume (h : Sound config st) {succeeded : Bool} (spawns : Bool)
    (hcall : st.calls id = some ⟨request,.waiting,some ⟨command,some succeeded⟩⟩) :
    Onward config request st (resume config id ⟨request,.waiting,some ⟨command,some succeeded⟩⟩ command succeeded spawns st) := by
  have hwaits : Waits config id request st (some ⟨command,some succeeded⟩) := (h.phases id _ hcall).waiting rfl
  cases hwaits with
  | created venv hgood hvenv hpython =>
    unfold resume
    rw [if_pos rfl]
    cases spawns with
    | true =>
      exact h.act hcall rfl (acts_setCall config id st ⟨request,.waiting,some ⟨.install,none⟩⟩) rfl
        (.of_waiting rfl (.installing venv hgood hvenv hpython)) rfl rfl
    | false =>
      exact h.act hcall rfl (acts_leave config id st ⟨request,.waiting,some ⟨.venv,some true⟩⟩ .raised).fail rfl
        (.of_raised rfl List.mem_cons_self) rfl rfl
  | installed => exact sound_publish h hcall spawns
  | failed command hfailed => exact sound_leave h hcall Phase.noConfusion Phase.noConfusion fun _ => hfailed

end Calls

section Runs
variable {K : Type} [DecidableEq K] {config : Config K} {st st' : State K} {action : Action}

/-- A step is one of a call with the request of an earlier one, or with a request that begins. -/
theorem onward_next (h : Sound config st) (hok : Undisturbed config st action) (hnext : next config st action = some st') :
    ∃ request, Onward config request st st' ∧ ((∃ j before, st.calls j = some before ∧ before.request = request) ∨
      request.dependencies ≠ [] ∧ ∃ id spawns, action = .execute id request spawns) := by
  unfold next at hnext
  cases action with
  | execute id request spawns =>
    dsimp only at hnext
    split at hnext
    · cases hnext
    · rename_i hnew
      cases hnext
      obtain ⟨hnew,hdeps⟩ := not_or.mp hnew
      exact ⟨request,sound_execute h (Option.not_isSome_iff_eq_none.mp hnew) spawns fun husable i _ => hok.2.2 husable i,
        .inr ⟨hdeps,id,spawns,rfl⟩⟩
  | writes id file =>
    dsimp only at hnext
    split at hnext
    · rename_i hcall
      split at hnext
      · cases hnext
        exact ⟨_,sound_writes h hcall file,.inl ⟨id,_,hcall,rfl⟩⟩
      · cases hnext
    · cases hnext
  | exits id succeeds =>
    dsimp only at hnext
    split at hnext
    · rename_i hcall
      cases hnext
      exact ⟨_,sound_exits h hcall succeeds,.inl ⟨id,_,hcall,rfl⟩⟩
    · cases hnext
  | resume id spawns =>
    dsimp only at hnext
    split at hnext
    · rename_i hcall
      cases hnext
      exact ⟨_,sound_resume h spawns hcall,.inl ⟨id,_,hcall,rfl⟩⟩
    · cases hnext
  | cancel id =>
    dsimp only at hnext
    split at hnext
    · rename_i hcall
      cases hnext
      exact ⟨_,sound_leave h hcall Phase.noConfusion Phase.noConfusion Phase.noConfusion,.inl ⟨id,_,hcall,rfl⟩⟩
    · cases hnext

/-- The calls are told apart by what is hashed for them. -/
structure Told (config : Config K) (st : State K) : Prop where
  separable : ∀ id call, st.calls id = some call → Separable config call.request ∧ call.request.dependencies ≠ []
  apart : ∀ id id' call call', st.calls id = some call → st.calls id' = some call' →
    ¬ Confused config call.request call'.request

omit [DecidableEq K] in
theorem Told.of_earlier (h : Told config st)
    (hearlier : ∀ i c, st'.calls i = some c → ∃ j before, st.calls j = some before ∧ before.request = c.request) :
    Told config st' := by
  constructor
  · intro i c hc
    obtain ⟨j,before,hbefore,hrequest⟩ := hearlier i c hc
    rw [← hrequest]
    exact h.separable j before hbefore
  · intro i j c c' hc hc'
    obtain ⟨k,before,hbefore,hrequest⟩ := hearlier i c hc
    obtain ⟨l,before',hbefore',hrequest'⟩ := hearlier j c' hc'
    rw [← hrequest, ← hrequest']
    exact h.apart k l before before' hbefore hbefore'

theorem told_next (h : Told config st) (hsound : Sound config st) (hok : Undisturbed config st action)
    (hnext : next config st action = some st') : Told config st' := by
  obtain ⟨request,⟨-,hrequests⟩,⟨j,before,hbefore,heq⟩ | ⟨hdeps,id,spawns,rfl⟩⟩ := onward_next hsound hok hnext
  · refine h.of_earlier fun i c hc => ?_
    rcases hrequests i c hc with hrequest | hearlier
    · exact ⟨j,before,hbefore,heq.trans hrequest.symm⟩
    · exact hearlier
  · obtain ⟨hsep,hconf,-⟩ := hok
    constructor
    · intro i c hc
      rcases hrequests i c hc with heq | ⟨j,before,hj,heq⟩
      · rw [heq]
        exact ⟨hsep,hdeps⟩
      · rw [← heq]
        exact h.separable j before hj
    · intro i j c c' hc hc'
      rcases hrequests i c hc with heq | ⟨k,before,hk,heq⟩ <;> rcases hrequests j c' hc' with heq' | ⟨l,before',hl,heq'⟩
      · rw [heq, heq']
        exact not_confused_self _
      · rw [heq, ← heq']
        exact (hconf l before' hl).1
      · rw [heq', ← heq]
        exact (hconf k before hk).2
      · rw [← heq, ← heq']
        exact h.apart k l before before' hk hl

/-- In every run whose calls are told apart and undisturbed the cache is as required. -/
theorem cache_correct (config : Config K) {st : State K}
    (h : Runs.Reaches (next config) (Undisturbed config) started st) : Correct config st := by
  obtain ⟨hsound,htold⟩ : Sound config st ∧ Told config st := by
    refine h.invariant (P := fun st => Sound config st ∧ Told config st) ⟨sound_started,?_,?_⟩ ?_
    · intro _ _ hcall
      cases hcall
    · intro _ _ _ _ hcall
      cases hcall
    · rintro st action st' - ⟨hsound,htold⟩ hok hnext
      obtain ⟨_,honward,-⟩ := onward_next hsound hok hnext
      exact ⟨honward.sound,told_next htold hsound hok hnext⟩
  refine ⟨?_,hsound.published.published,hsound.published.kept,hsound.published.failed,?_,?_,?_⟩
  · intro p hp
    obtain ⟨call,hcall,-,hkey,-,hdeps⟩ := hsound.published.complete p hp
    exact ⟨call,hcall,hkey,hdeps⟩
  · intro id call hcall
    exact (hsound.phases id call hcall).raised
  · intro id call hcall hphase
    exact ((hsound.phases id call hcall).ready hphase).1
  · intro id id' call call' hcall hcall' _ _ _ hhash
    obtain ⟨hsep,hdeps⟩ := htold.separable id call hcall
    obtain ⟨hsep',hdeps'⟩ := htold.separable id' call' hcall'
    exact equivalent_of_hashInput hdeps hdeps' hsep hsep' (htold.apart id id' call call' hcall hcall')
      (htold.apart id' id call' call hcall' hcall) hhash

end Runs

section Samples

/-- The text itself stands for its digest. -/
def sampleConfig : Config Text := ⟨fun text => text,List.map Char.toLower⟩

/-- A request of a workspace, to a process. -/
def requests (pid : ℕ) : Request := ⟨pid,some "acme".toList,["requests".toList]⟩

/-- The steps of two calls that overlap, from the first environment on. -/
def overlappingActions : List Action :=
  [.resume 0 true,.exits 1 true,.resume 1 true,.writes 0 (.package "requests".toList),.exits 0 true,
    .writes 1 (.package "requests".toList),.resume 0 true,.exits 1 true,.resume 1 true]

theorem separable_requests (pid : ℕ) : Separable sampleConfig (requests pid) := by
  have hdeps : ∀ dependency ∈ normalized sampleConfig ["requests".toList], '\n' ∉ dependency := by decide
  refine ⟨fun workspace hworkspace => ?_,hdeps⟩
  cases hworkspace
  decide

theorem not_confused_requests (pid : ℕ) (request : Request) : ¬ Confused sampleConfig (requests pid) request := by
  rintro ⟨hnone,-⟩
  cases hnone

theorem cache_correct_overlapping : ∃ st, Runs.follow (next sampleConfig) started
    ([.execute 0 (requests 1) true,.exits 0 true,.execute 1 (requests 2) true] ++
      (overlappingActions ++ [.execute 2 (requests 2) true])) = some st ∧
    Correct sampleConfig st := by
  have hquiet : ∀ a ∈ overlappingActions, ∀ st, Undisturbed sampleConfig st a := by
    simp [overlappingActions, Undisturbed]
  have hfirst : Runs.Reaches (next sampleConfig) (Undisturbed sampleConfig) started
      (execute sampleConfig 0 (requests 1) true started) := by
    refine Runs.Reaches.refl.step (a := .execute 0 (requests 1) true) ⟨separable_requests 1,?_,?_⟩ rfl
    · intro _ _ hcall
      cases hcall
    · intro _ _ _ hcall
      cases hcall
  -- the other call is one of another process
  have hsecond : Runs.Reaches (next sampleConfig) (Undisturbed sampleConfig) started
      (execute sampleConfig 1 (requests 2) true (exits sampleConfig 0 ⟨requests 1,.waiting,some ⟨.venv,none⟩⟩ .venv true
        (execute sampleConfig 0 (requests 1) true started))) := by
    refine .step (a := .execute 1 (requests 2) true) (.step (a := .exits 0 true) hfirst trivial rfl)
      ⟨separable_requests 2,?_,?_⟩ rfl
    · intro id call hcall
      refine ⟨not_confused_requests _ _,?_⟩
      cases id with
      | zero =>
        cases hcall
        exact not_confused_requests _ _
      | succ id => cases hcall
    · intro _ id call hcall _
      cases id with
      | zero =>
        cases hcall
        decide
      | succ id => cases hcall
  refine ⟨_,rfl,cache_correct sampleConfig ?_⟩
  refine .step (a := .execute 2 (requests 2) true) (hsecond.trans (Runs.reaches_of_follow rfl hquiet))
    ⟨separable_requests 2,?_,?_⟩ rfl
  · intro id call hcall
    refine ⟨not_confused_requests _ _,?_⟩
    match id, hcall with
    | 0, hcall =>
      cases hcall
      exact not_confused_requests _ _
    | 1, hcall =>
      cases hcall
      exact not_confused_requests _ _
  · intro husable
    cases husable

/-- A second call of the process begins when the packages of the first one are installed. -/
def overlapActions : List Action :=
  [.execute 0 (requests 1) true,.exits 0 true,.resume 0 true,.exits 0 true,.execute 1 (requests 1) true,.exits 1 true,.resume 0 true,
    .resume 1 true,.exits 1 true,.resume 1 true]

/-- What a sequence of actions publishes, the phases of the calls, and the calls whose own installation failed. -/
def outcome (actions : List Action) : Option (List (List Text) × List (Option Phase) × List ℕ) :=
  (Runs.follow (next sampleConfig) started actions).map fun st =>
    (st.publications.map fun p => p.venv.installed,[0,1].map fun id => (st.calls id).map Call.phase,st.failures)

/-- The same text is hashed for it as for `requests`, of any process. -/
def confusedRequests : Request := ⟨1,none,["acme".toList,"requests".toList]⟩

/-- The first call publishes an environment without its package and makes the second one fail, and a request of no workspace is
hashed like one of a workspace. -/
theorem overlap_breaks_cache : outcome overlapActions = some ([[]],[some .ready,some .raised],[]) ∧
    hashInput sampleConfig confusedRequests = hashInput sampleConfig (requests 1) ∧
    confusedRequests.workspace ≠ (requests 1).workspace := by
  refine ⟨by decide,by decide,by decide⟩

end Samples
end SafeVenvs
end Allama
