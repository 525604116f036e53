import Allama.CallGraphs
import Allama.LockBindings

/-! The secrets that are collected for an action are those of the actions that it reaches, exactly if none of these
reaches itself. -/
namespace Allama
namespace RegistryLock
open CallGraphs Checked RecordFields Relation
section Specification
variable {Raw Secret Rest : Type} (validatePython : Raw → Option (RegistryActionImpl Secret Rest))
  (registries : Registries Raw Secret) (lock : Lock)

def declared (m : ManifestAction Raw Secret) : List Secret :=
  match validatePython m.implementation with
  | none => []
  | some (.udf _ _ _) => m.secrets.getD []
  | some (.template definition) => definition.secrets.getD []

def CallsStep (m m' : ManifestAction Raw Secret) : Prop :=
  ∃ definition, validatePython m.implementation = some (.template definition) ∧
    ∃ step ∈ definition.steps, stepAction validatePython registries lock step.action = .ok (some m')

def Loads (m : ManifestAction Raw Secret) : Prop :=
  ∀ definition, validatePython m.implementation = some (.template definition) →
    ∀ step ∈ definition.steps, ∃ found, stepAction validatePython registries lock step.action = .ok found

/-- The secrets of an action are collected: they are those of the actions that it reaches, and no others. -/
def CollectsReached (action : String) : Prop :=
  ∃ depth secrets m, collectActionSecretsFromManifest validatePython registries depth action lock = .ok secrets ∧
    boundAction validatePython registries action lock = .ok m ∧
    ∀ s, s ∈ secrets ↔ ∃ m', ReflTransGen (CallsStep validatePython registries lock) m m' ∧ s ∈ declared validatePython m'

/-- The action is found, what it reaches can be loaded, and no template that it reaches comes back to itself. -/
def AcyclicSteps (action : String) : Prop :=
  ∃ m, boundAction validatePython registries action lock = .ok m ∧
    ∀ m', ReflTransGen (CallsStep validatePython registries lock) m m' →
      Loads validatePython registries lock m' ∧ ¬ TransGen (CallsStep validatePython registries lock) m' m'

end Specification

section Found
variable {Raw Secret Rest : Type} {validatePython : Raw → Option (RegistryActionImpl Secret Rest)}
  {registries : Registries Raw Secret} {lock : Lock} {m m' : ManifestAction Raw Secret}

theorem valid_of_entry {origin version action : String}
    {entry : Manifest Raw Secret × List (String × ActionImplementation Secret Rest)}
    (h : getManifestEntry validatePython registries origin version = .ok entry) (hm : entry.1.lookup action = some m) :
    ∃ impl, validatePython m.implementation = some impl := by
  obtain ⟨row,-,hentry⟩ := bind_eq_ok.mp h
  obtain ⟨index,hindex,hentry⟩ := bind_eq_ok.mp hentry
  cases hentry
  exact Option.isSome_iff_exists.mp (validManifest_of_index hindex (action,m) (mem_of_lookup hm))

theorem valid_of_boundAction {action : String} (h : boundAction validatePython registries action lock = .ok m) :
    ∃ impl, validatePython m.implementation = some impl := by
  rw [boundAction] at h
  split at h
  · cases h
  · split at h
    · cases h
    · obtain ⟨entry,hentry,h⟩ := bind_eq_ok.mp h
      split at h
      · cases h
      · rename_i hm
        cases h
        exact valid_of_entry hentry hm

theorem stepAction_found {action : String} (h : stepAction validatePython registries lock action = .ok (some m)) :
    action ∈ lock.actions.map Prod.fst ∧ ∃ impl, validatePython m.implementation = some impl := by
  rw [stepAction] at h
  split at h
  · cases h
  · rename_i origin hlookup
    refine ⟨List.mem_map.mpr ⟨_,mem_of_lookup hlookup,rfl⟩,?_⟩
    split at h
    · cases h
    · split at h
      · rename_i entry hentry
        exact valid_of_entry hentry (Except.ok.inj h)
      · cases h
      · cases h

theorem reached_found {impl : RegistryActionImpl Secret Rest} (hm : validatePython m.implementation = some impl)
    (h : ReflTransGen (CallsStep validatePython registries lock) m m') :
    (∃ impl', validatePython m'.implementation = some impl') ∧
      (m' = m ∨ ∃ action ∈ lock.actions.map Prod.fst, stepAction validatePython registries lock action = .ok (some m')) := by
  cases h with
  | refl => exact ⟨⟨impl,hm⟩,.inl rfl⟩
  | tail _ hcall =>
    obtain ⟨definition,-,step,-,hfound⟩ := hcall
    obtain ⟨hbound,hvalid⟩ := stepAction_found hfound
    exact ⟨hvalid,.inr ⟨step.action,hbound,hfound⟩⟩

end Found

section Collection
variable {Raw Secret Rest : Type} {validatePython : Raw → Option (RegistryActionImpl Secret Rest)}
  {registries : Registries Raw Secret} {lock : Lock} {m : ManifestAction Raw Secret}

theorem collect_template {definition : TemplateActionDefinition Secret Rest} (depth : ℕ) (secrets : List Secret)
    (h : validatePython m.implementation = some (.template definition)) :
    collectSecretsRecursive validatePython registries lock (depth+1) m secrets =
      definition.steps.foldlM (fun secrets step =>
        stepAction validatePython registries lock step.action >>= fun found =>
          match found with
          | none => .ok secrets
          | some found => collectSecretsRecursive validatePython registries lock depth found secrets)
        (secrets ++ definition.secrets.getD []) := by
  rewrite [collectSecretsRecursive, h]
  rfl

theorem collect_udf {url module name : String} (depth : ℕ) (secrets : List Secret)
    (h : validatePython m.implementation = some (.udf url module name)) :
    collectSecretsRecursive validatePython registries lock (depth+1) m secrets = .ok (secrets ++ m.secrets.getD []) := by
  rw [collectSecretsRecursive, h]

/-- What is collected adds the secrets of the reached actions. -/
def Adds (validatePython : Raw → Option (RegistryActionImpl Secret Rest)) (registries : Registries Raw Secret) (lock : Lock)
    (m : ManifestAction Raw Secret) (secrets collected : List Secret) : Prop :=
  ∀ s, s ∈ collected ↔ s ∈ secrets ∨
    ∃ m', ReflTransGen (CallsStep validatePython registries lock) m m' ∧ s ∈ declared validatePython m'

/-- A secret of an action that is reached from the action of a step. -/
def ReachedBy (validatePython : Raw → Option (RegistryActionImpl Secret Rest)) (registries : Registries Raw Secret) (lock : Lock)
    (step : ActionStep) (s : Secret) : Prop :=
  ∃ m, stepAction validatePython registries lock step.action = .ok (some m) ∧
    ∃ m', ReflTransGen (CallsStep validatePython registries lock) m m' ∧ s ∈ declared validatePython m'

/-- Calls that nest within the depth, and that load, collect what they reach. -/
theorem collect_within {depth : ℕ} (hwithin : Within (CallsStep validatePython registries lock) depth m)
    (hloads : ∀ m', ReflTransGen (CallsStep validatePython registries lock) m m' → Loads validatePython registries lock m')
    {impl : RegistryActionImpl Secret Rest} (hm : validatePython m.implementation = some impl) (secrets : List Secret) :
    ∃ collected, collectSecretsRecursive validatePython registries lock depth m secrets = .ok collected ∧
      Adds validatePython registries lock m secrets collected := by
  induction depth generalizing m impl secrets with
  | zero => exact hwithin.elim
  | succ depth ih =>
    cases impl with
    | udf url module name =>
      refine ⟨_,collect_udf depth secrets hm,?_⟩
      intro s
      -- a function calls nothing: what it reaches is itself
      have hown : declared validatePython m = m.secrets.getD [] := by rw [declared, hm]
      rw [List.mem_append, ← hown]
      constructor
      · rintro (hs | hs)
        · exact .inl hs
        · exact .inr ⟨m,.refl,hs⟩
      · rintro (hs | ⟨m',hreach,hs⟩)
        · exact .inl hs
        · rcases ReflTransGen.cases_head hreach with rfl | ⟨m₁,⟨definition,htemplate,-⟩,-⟩
          · exact .inr hs
          · rw [hm] at htemplate
            cases htemplate
    | template definition =>
      have hown : declared validatePython m = definition.secrets.getD [] := by rw [declared, hm]
      -- Each step adds what its action reaches, if the action is found.
      have hstep : ∀ step ∈ definition.steps, ∀ secrets, ∃ collected,
          (stepAction validatePython registries lock step.action >>= fun found =>
            match found with
            | none => .ok secrets
            | some found => collectSecretsRecursive validatePython registries lock depth found secrets) = .ok collected ∧
          ∀ s, s ∈ collected ↔ s ∈ secrets ∨ ReachedBy validatePython registries lock step s := by
        intro step hstep secrets
        obtain ⟨found,hfound⟩ := hloads m .refl definition hm step hstep
        rw [hfound]
        cases found with
        | none =>
          refine ⟨secrets,rfl,?_⟩
          intro s
          constructor
          · exact .inl
          · rintro (hs | ⟨m₁,hfound₁,-⟩)
            · exact hs
            · rw [hfound] at hfound₁
              cases hfound₁
        | some m₁ =>
          have hcall : CallsStep validatePython registries lock m m₁ := ⟨definition,hm,step,hstep,hfound⟩
          obtain ⟨impl₁,hvalid⟩ := (stepAction_found hfound).2
          obtain ⟨collected,hok,hadds⟩ := ih (hwithin m₁ hcall) (fun m' hm' => hloads m' (.head hcall hm')) hvalid secrets
          refine ⟨collected,hok,?_⟩
          intro s
          rw [hadds s]
          constructor
          · rintro (hs | hs)
            · exact .inl hs
            · exact .inr ⟨m₁,hfound,hs⟩
          · rintro (hs | ⟨m₂,hfound₂,hs⟩)
            · exact .inl hs
            · obtain rfl := Option.some.inj (Except.ok.inj (hfound.symm.trans hfound₂))
              exact .inr hs
      obtain ⟨collected,hcollected,hmem⟩ := foldlM_adds hstep (secrets ++ definition.secrets.getD [])
      refine ⟨collected,(collect_template depth secrets hm).trans hcollected,?_⟩
      intro s
      rw [hmem s, List.mem_append, ← hown, or_assoc]
      apply or_congr_right
      constructor
      · rintro (hs | ⟨step,hstep,m₁,hfound,m',hreach,hs⟩)
        · exact ⟨m,.refl,hs⟩
        · exact ⟨m',.head ⟨definition,hm,step,hstep,hfound⟩ hreach,hs⟩
      · rintro ⟨m',hreach,hs⟩
        rcases ReflTransGen.cases_head hreach with rfl | ⟨m₁,⟨definition',htemplate,step,hstep,hfound⟩,hrest⟩
        · exact .inl hs
        · obtain rfl : definition = definition' := by
            rw [hm] at htemplate
            injection Option.some.inj htemplate
          exact .inr ⟨step,hstep,m₁,hfound,m',hrest,hs⟩

/-- What is collected nests within the depth, and loads. -/
theorem within_of_collect {depth : ℕ} {secrets collected : List Secret}
    (h : collectSecretsRecursive validatePython registries lock depth m secrets = .ok collected) :
    Within (CallsStep validatePython registries lock) depth m ∧
      ∀ m', ReflTransGen (CallsStep validatePython registries lock) m m' → Loads validatePython registries lock m' := by
  induction depth generalizing m secrets collected with
  | zero => cases h
  | succ depth ih =>
    have hsteps : ∀ definition, validatePython m.implementation = some (.template definition) → ∀ step ∈ definition.steps,
        ∃ secrets collected, (stepAction validatePython registries lock step.action >>= fun found =>
          match found with
          | none => .ok secrets
          | some found => collectSecretsRecursive validatePython registries lock depth found secrets) = .ok collected := by
      intro definition hm step hstep
      rw [collect_template depth secrets hm] at h
      exact step_of_foldlM h hstep
    -- a call of a template is one of its steps, so that it was collected with one level less
    have hcalls : ∀ m₁, CallsStep validatePython registries lock m m₁ →
        ∃ secrets collected, collectSecretsRecursive validatePython registries lock depth m₁ secrets = .ok collected := by
      rintro m₁ ⟨definition,hm,step,hstep,hfound⟩
      obtain ⟨secrets,collected,hok⟩ := hsteps definition hm step hstep
      rw [hfound] at hok
      exact ⟨secrets,collected,hok⟩
    constructor
    · intro m₁ hcall
      obtain ⟨secrets,collected,hok⟩ := hcalls m₁ hcall
      exact (ih hok).1
    · intro m' hreach
      rcases ReflTransGen.cases_head hreach with rfl | ⟨m₁,hcall,hrest⟩
      · intro definition hm step hstep
        obtain ⟨secrets,collected,hok⟩ := hsteps definition hm step hstep
        obtain ⟨found,hfound,-⟩ := bind_eq_ok.mp hok
        exact ⟨found,hfound⟩
      · obtain ⟨secrets,collected,hok⟩ := hcalls m₁ hcall
        exact (ih hok).2 m' hrest

/-- The secrets of an action are collected exactly if its steps can be loaded and do not come back to a template. -/
theorem collectsReached_iff (validatePython : Raw → Option (RegistryActionImpl Secret Rest)) (registries : Registries Raw Secret)
    (lock : Lock) (action : String) :
    CollectsReached validatePython registries lock action ↔ AcyclicSteps validatePython registries lock action := by
  constructor
  · rintro ⟨depth,secrets,m,hcollect,hbound,-⟩
    refine ⟨m,hbound,?_⟩
    obtain ⟨m₁,hbound₁,hcollect⟩ := bind_eq_ok.mp hcollect
    obtain rfl := Except.ok.inj (hbound.symm.trans hbound₁)
    obtain ⟨hwithin,hloads⟩ := within_of_collect hcollect
    intro m' hreach
    exact ⟨hloads m' hreach,(hwithin.reached hreach).irreflexive⟩
  · rintro ⟨m,hbound,hacyclic⟩
    classical
    obtain ⟨impl,hm⟩ := valid_of_boundAction hbound
    let found : List (ManifestAction Raw Secret) := (lock.actions.map Prod.fst).filterMap fun action =>
      match stepAction validatePython registries lock action with
      | .ok found => found
      | .error _ => none
    have hnodes : ∀ m', ReflTransGen (CallsStep validatePython registries lock) m m' → m' ∈ (m :: found).toFinset := by
      intro m' hreach
      rw [List.mem_toFinset, List.mem_cons]
      rcases (reached_found hm hreach).2 with rfl | ⟨name,hname,hfound⟩
      · exact .inl rfl
      · refine .inr (List.mem_filterMap.mpr ⟨name,hname,?_⟩)
        rw [hfound]
    -- without cycles a path visits each template once, so that the number of them bounds the depth
    have hwithin := within_card hnodes fun m' hreach => (hacyclic m' hreach).2
    obtain ⟨secrets,hcollect,hadds⟩ := collect_within hwithin (fun m' hreach => (hacyclic m' hreach).1) hm []
    refine ⟨(m :: found).toFinset.card,secrets,m,?_,hbound,?_⟩
    · rw [collectActionSecretsFromManifest, hbound]
      exact hcollect
    · intro s
      rw [hadds s]
      simp

end Collection

section Samples

/-- Two templates that are steps of each other. -/
def mutualRegistry : Registry (RegistryActionImpl Unit Unit) Unit where
  repositories := [⟨1,defaultRegistryOrigin,some 1⟩]
  versions := [⟨1,1,"1.0.0",[("tools.a.first",{ implementation := .template ⟨none,[⟨"next","tools.a.second"⟩],()⟩ }),
    ("tools.a.second",{ implementation := .template ⟨none,[⟨"next","tools.a.first"⟩],()⟩ })]⟩]

def mutualLock : Lock :=
  ⟨[(defaultRegistryOrigin,"1.0.0")],[("tools.a.first",defaultRegistryOrigin),("tools.a.second",defaultRegistryOrigin)]⟩

/-- Templates that reach each other are bound by a lock, and their secrets are never collected. -/
theorem mutual_templates_not_collected : ¬ ∀ (registries : Registries (RegistryActionImpl Unit Unit) Unit) (turns : ℕ)
    (names : Finset String) (lock : Lock), resolveLockWithBindings some registries turns names = some (.ok lock) →
    ∀ a ∈ names, CollectsReached some registries lock a := by
  intro h
  have hresolve : resolveLockWithBindings some ⟨mutualRegistry,noRegistry⟩ 3 {"tools.a.first"} = some (.ok mutualLock) := by
    rw [resolveLockWithBindings, Finset.sort_singleton]
    rfl
  obtain ⟨depth,secrets,m,hcollect,hbound,-⟩ := h _ 3 _ mutualLock hresolve "tools.a.first" (Finset.mem_singleton_self _)
  obtain ⟨m₁,hbound₁,hcollect⟩ := bind_eq_ok.mp hcollect
  obtain rfl := Except.ok.inj (hbound.symm.trans hbound₁)
  cases hbound
  have hfirst : CallsStep some ⟨mutualRegistry,noRegistry⟩ mutualLock
      { implementation := .template ⟨none,[⟨"next","tools.a.second"⟩],()⟩ }
      { implementation := .template ⟨none,[⟨"next","tools.a.first"⟩],()⟩ } := ⟨_,rfl,_,List.mem_singleton.mpr rfl,rfl⟩
  have hsecond : CallsStep some ⟨mutualRegistry,noRegistry⟩ mutualLock
      { implementation := .template ⟨none,[⟨"next","tools.a.first"⟩],()⟩ }
      { implementation := .template ⟨none,[⟨"next","tools.a.second"⟩],()⟩ } := ⟨_,rfl,_,List.mem_singleton.mpr rfl,rfl⟩
  exact (within_of_collect hcollect).1.irreflexive (.tail (.single hfirst) hsecond)

end Samples
end RegistryLock
end Allama
