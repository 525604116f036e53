import Allama.Checked
import Allama.RegistryLocks

/-! A lock binds the least closed set of actions, and is executed from the manifests that it was computed from exactly if
every registry that it needs is looked up where it is. -/
namespace Allama
namespace RegistryLock
open Checked RecordFields Relation Worklists
section Specification
variable {Raw Secret Rest : Type} (validatePython : Raw → Option (RegistryActionImpl Secret Rest))
  (registries : Registries Raw Secret)

/-- A template of some registry has the second action in a step. -/
def StepsTo (a b : String) : Prop :=
  ∃ row ∈ originVersions registries, ∃ m definition, row.2.2.manifest.lookup a = some m ∧
    validatePython m.implementation = some (.template definition) ∧ b ∈ definition.steps.map ActionStep.action

def Needed (names : Finset String) (a : String) : Prop := ∃ s ∈ names, ReflTransGen (StepsTo validatePython registries) s a

/-- The actions of a lock are the least set that has the names and is closed under steps, each bound to the one registry
that has it. -/
structure BindsLeast (names : Finset String) (lock : Lock) : Prop where
  named : ∀ a ∈ names, a ∈ lock.actions.map Prod.fst
  closed : ∀ a ∈ lock.actions.map Prod.fst, ∀ b, StepsTo validatePython registries a b → b ∈ lock.actions.map Prod.fst
  least : ∀ S : String → Prop, (∀ a ∈ names, S a) → (∀ a b, S a → StepsTo validatePython registries a b → S b) →
    ∀ a ∈ lock.actions.map Prod.fst, S a
  bound : ∀ a origin, lock.actions.lookup a = some origin →
    ∃ scope v, (originVersions registries).lookup origin = some (scope,v) ∧ (v.manifest.lookup a).isSome
  unique : ∀ a origin, lock.actions.lookup a = some origin →
    ∀ row ∈ originVersions registries, (row.2.2.manifest.lookup a).isSome → row.1 = origin

/-- An action of a lock is resolved from the row whose manifest the lock was computed from. -/
def FromItsManifest (lock : Lock) (a origin : String) : Prop :=
  ∃ scope v m impl, (originVersions registries).lookup origin = some (scope,v) ∧
    fetchManifest registries origin v.version = .ok (scope,v) ∧ v.manifest.lookup a = some m ∧
    validatePython m.implementation = some impl ∧
    resolveAction validatePython registries a lock = .ok (actionImplementation origin a impl)

/-- What is expected of every lock. -/
structure LockAgrees (names : Finset String) : Prop where
  terminates : ∃ turns result, resolveLockWithBindings validatePython registries turns names = some result
  least : ∀ turns lock, resolveLockWithBindings validatePython registries turns names = some (.ok lock) →
    BindsLeast validatePython registries names lock
  resolved : ∀ turns lock, resolveLockWithBindings validatePython registries turns names = some (.ok lock) →
    ∀ a origin, lock.actions.lookup a = some origin → FromItsManifest validatePython registries lock a origin

def Routed (row : String × Scope × Version Raw Secret) : Prop := row.1 = defaultRegistryOrigin ↔ row.2.1 = .platform

def ValidManifest (manifest : Manifest Raw Secret) : Prop :=
  ∀ entry ∈ manifest, (validatePython entry.2.implementation).isSome

/-- Unless an action is not found, ambiguous or invalid, the registries of the needed actions are looked up where they
are, and can be indexed. -/
def ServedInPlace (names : Finset String) : Prop :=
  (∀ a, Needed validatePython registries names a → ∃ bound, bindAction validatePython registries a = .ok bound) →
    ∀ a, Needed validatePython registries names a → ∀ row ∈ originVersions registries, (row.2.2.manifest.lookup a).isSome →
      Routed row ∧ ValidManifest validatePython row.2.2.manifest

end Specification

section Rows
variable {Raw Secret : Type} {registries : Registries Raw Secret} {registry : Registry Raw Secret}

theorem mem_currentVersions {origin : String} {v : Version Raw Secret} (h : registry.WellFormed)
    (hrow : (origin,v) ∈ currentVersions registry) :
    v ∈ registry.versions ∧ ∃ r ∈ registry.repositories, r.origin = origin ∧ v.repositoryId = r.id := by
  obtain ⟨r,hr,hrow⟩ := List.mem_filterMap.mp hrow
  obtain ⟨w,hw,heq⟩ := Option.map_eq_some_iff.mp hrow
  obtain ⟨rfl,rfl⟩ := Prod.mk.inj heq
  obtain ⟨id,hid,hfind⟩ := Option.bind_eq_some_iff.mp hw
  obtain ⟨current,hcurrent,hsame,hrepository⟩ := h.current r hr id hid
  have hmem : w ∈ registry.versions := List.mem_of_find?_eq_some hfind
  have hwid : w.id = id := by simpa using List.find?_some hfind
  have heq : w = current := List.inj_on_of_nodup_map h.versionIds hmem hcurrent (hwid.trans hsame.symm)
  exact ⟨hmem,r,hr,rfl,heq ▸ hrepository⟩

theorem nodup_originVersions : ((originVersions registries).map Prod.fst).Nodup := keys_putAll _ List.nodup_nil

theorem mem_of_originVersions {origin : String} {scope : Scope} {v : Version Raw Secret}
    (h : (originVersions registries).lookup origin = some (scope,v)) :
    (origin,v) ∈ currentVersions (registries.at scope) := by
  rw [originVersions, lookup_putAll, List.lookup_nil, Option.or_none] at h
  have hmem := List.mem_reverse.mp (mem_of_lookup h)
  rcases List.mem_append.mp hmem with hp | ho
  · obtain ⟨row,hrow,heq⟩ := List.mem_map.mp hp
    obtain ⟨rfl,hrest⟩ := Prod.mk.inj heq
    cases hrest
    exact hrow
  · obtain ⟨row,hrow,heq⟩ := List.mem_map.mp ho
    obtain ⟨rfl,hrest⟩ := Prod.mk.inj heq
    cases hrest
    exact hrow

/-- The row of a lock is found again in the tables that its origin is looked up in. -/
theorem fetchManifest_eq_ok {origin : String} {scope : Scope} {v : Version Raw Secret}
    (hplatform : registries.platform.WellFormed) (horganization : registries.organization.WellFormed)
    (h : (originVersions registries).lookup origin = some (scope,v)) :
    fetchManifest registries origin v.version = .ok (scope,v) ↔ Routed (origin,scope,v) := by
  constructor
  · intro hfetch
    unfold fetchManifest at hfetch
    dsimp only at hfetch
    split at hfetch
    · cases hfetch
    · obtain ⟨hscope,-⟩ := Prod.mk.inj (Except.ok.inj hfetch)
      change origin = defaultRegistryOrigin ↔ scope = .platform
      rw [← hscope]
      split
      · simp [*]
      · simp [*]
    · cases hfetch
  · intro hrouted
    have hscope : (if origin = defaultRegistryOrigin then Scope.platform else .organization) = scope := by
      cases scope with
      | platform => exact if_pos (hrouted.mpr rfl)
      | organization =>
        apply if_neg
        intro hdefault
        cases hrouted.mp hdefault
    have hwf : (registries.at scope).WellFormed := by
      cases scope with
      | platform => exact hplatform
      | organization => exact horganization
    obtain ⟨hmem,r,hr,horigin,hrepository⟩ := mem_currentVersions hwf (mem_of_originVersions h)
    -- versions and origins are keys, so that the query finds the row of the lock and no other
    have hrows : ((registries.at scope).versions.filter fun w =>
        w.version = v.version ∧ (registries.at scope).repositories.any (fun r => r.id = w.repositoryId ∧ r.origin = origin)) =
        [v] := by
      apply filter_eq_singleton (List.Nodup.of_map _ hwf.versionIds) hmem
      · simpa using ⟨r,hr,hrepository.symm,horigin⟩
      · intro w hw hpw
        simp only [decide_eq_true_eq, List.any_eq_true] at hpw
        obtain ⟨hversion,r',hr',hid,horigin'⟩ := hpw
        have hsame : r' = r := List.inj_on_of_nodup_map hwf.origins hr' hr (horigin'.trans horigin.symm)
        apply List.inj_on_of_nodup_map hwf.versions hw hmem
        rw [hversion, ← hid, hsame, hrepository]
    unfold fetchManifest
    dsimp only
    rw [hscope, hrows]

end Rows

section Binding
variable {Raw Secret Rest : Type} {validatePython : Raw → Option (RegistryActionImpl Secret Rest)}
  {registries : Registries Raw Secret} {names : Finset String}

def RegistryActionImpl.steps : RegistryActionImpl Secret Rest → List String
  | .udf _ _ _ => []
  | .template definition => definition.steps.map ActionStep.action

theorem mem_matchingOrigins {a origin : String} : origin ∈ matchingOrigins registries a ↔
    ∃ row ∈ originVersions registries, (row.2.2.manifest.lookup a).isSome ∧ row.1 = origin := by
  rw [matchingOrigins, List.mem_map]
  constructor
  · rintro ⟨row,hrow,rfl⟩
    exact ⟨row,(List.mem_filter.mp hrow).1,(List.mem_filter.mp hrow).2,rfl⟩
  · rintro ⟨row,hrow,hsome,rfl⟩
    exact ⟨row,List.mem_filter.mpr ⟨hrow,hsome⟩,rfl⟩

theorem bindAction_ok {a origin : String} {next : List String}
    (h : bindAction validatePython registries a = .ok (origin,next)) :
    ∃ scope v m impl, (originVersions registries).lookup origin = some (scope,v) ∧ v.manifest.lookup a = some m ∧
      validatePython m.implementation = some impl ∧ next = impl.steps ∧
      ∀ row ∈ originVersions registries, (row.2.2.manifest.lookup a).isSome → row.1 = origin := by
  unfold bindAction at h
  split at h
  · cases h
  · cases h
  rename_i found hmatching
  have honly : ∀ row ∈ originVersions registries, (row.2.2.manifest.lookup a).isSome → row.1 = found := by
    intro row hrow hsome
    have hmem : row.1 ∈ matchingOrigins registries a := mem_matchingOrigins.mpr ⟨row,hrow,hsome,rfl⟩
    rw [hmatching] at hmem
    exact List.mem_singleton.mp hmem
  obtain ⟨row,hrow,hsome,horigin⟩ : ∃ row ∈ originVersions registries, (row.2.2.manifest.lookup a).isSome ∧ row.1 = found := by
    apply mem_matchingOrigins.mp
    rw [hmatching]
    exact List.mem_singleton.mpr rfl
  obtain ⟨rowOrigin,scope,v⟩ := row
  obtain rfl : rowOrigin = found := horigin
  have hlookup : (originVersions registries).lookup rowOrigin = some (scope,v) := lookup_of_mem nodup_originVersions hrow
  obtain ⟨m,hm⟩ := Option.isSome_iff_exists.mp hsome
  have hbind : (((originVersions registries).lookup rowOrigin).bind fun row => row.2.manifest.lookup a) = some m := by
    rw [hlookup]
    exact hm
  rw [hbind] at h
  dsimp only at h
  split at h
  · cases h
  · rename_i hvalid
    obtain ⟨rfl,rfl⟩ := Prod.mk.inj (Except.ok.inj h)
    exact ⟨scope,v,m,_,hlookup,hm,hvalid,rfl,honly⟩
  · rename_i definition hvalid
    split at h
    · cases h
    · obtain ⟨rfl,rfl⟩ := Prod.mk.inj (Except.ok.inj h)
      exact ⟨scope,v,m,_,hlookup,hm,hvalid,rfl,honly⟩

theorem stepsTo_iff {a b origin : String} {next : List String}
    (h : bindAction validatePython registries a = .ok (origin,next)) : StepsTo validatePython registries a b ↔ b ∈ next := by
  obtain ⟨scope,v,m,impl,hlookup,hm,hvalid,rfl,honly⟩ := bindAction_ok h
  constructor
  · rintro ⟨row,hrow,m',definition,hm',hvalid',hb⟩
    have hrowLookup : (originVersions registries).lookup row.1 = some row.2 := lookup_of_mem nodup_originVersions hrow
    rw [honly row hrow (Option.isSome_iff_exists.mpr ⟨m',hm'⟩), hlookup] at hrowLookup
    rw [← Option.some.inj hrowLookup] at hm'
    obtain rfl := Option.some.inj (hm.symm.trans hm')
    obtain rfl := Option.some.inj (hvalid.symm.trans hvalid')
    exact hb
  · intro hb
    cases impl with
    | udf url module name => cases hb
    | template definition => exact ⟨_,mem_of_lookup hlookup,m,definition,hm,hvalid,hb⟩

theorem leads_stepsTo {a b : String} (h : Leads (bindAction validatePython registries) a b) :
    StepsTo validatePython registries a b := by
  obtain ⟨origin,next,hbind,hb⟩ := h
  exact (stepsTo_iff hbind).mpr hb

theorem needed_of_reached {a : String}
    (h : Reached (bindAction validatePython registries) (names.sort (· ≤ ·)) a) : Needed validatePython registries names a := by
  obtain ⟨s,hs,hreach⟩ := h
  refine ⟨s,(Finset.mem_sort _).mp hs,?_⟩
  induction hreach with
  | refl => exact .refl
  | tail _ hlead ih => exact ih.tail (leads_stepsTo hlead)

end Binding

section Locks
variable {Raw Secret Rest : Type} {validatePython : Raw → Option (RegistryActionImpl Secret Rest)}
  {registries : Registries Raw Secret} {names : Finset String} {turns : ℕ} {lock : Lock}

section
variable (h : resolveLockWithBindings validatePython registries turns names = some (.ok lock))
include h

theorem explored_of_resolve : Explored (bindAction validatePython registries) (names.sort (· ≤ ·)) [] lock.actions := by
  obtain ⟨result,hsearch,hresult⟩ := Option.map_eq_some_iff.mp h
  cases result with
  | error err => cases hresult
  | ok found =>
    cases hresult
    exact explored_of_search (explored_start _) hsearch

theorem lookup_origins {origin : String} (hused : origin ∈ lock.actions.map Prod.snd) :
    lock.origins.lookup origin = ((originVersions registries).lookup origin).map fun row => row.2.version := by
  obtain ⟨result,hsearch,hresult⟩ := Option.map_eq_some_iff.mp h
  cases result with
  | error err => cases hresult
  | ok found =>
    cases hresult
    dsimp only at hused ⊢
    rw [lookup_filter_key (fun origin => decide (origin ∈ found.map Prod.snd)), if_pos (decide_eq_true hused)]
    exact lookup_mapValues (fun row : Scope × Version Raw Secret => row.2.version) _ _

theorem bindAction_of_lookup {a origin : String} (hlookup : lock.actions.lookup a = some origin) :
    ∃ next, bindAction validatePython registries a = .ok (origin,next) := by
  obtain ⟨next,hbind,-⟩ := (explored_of_resolve h).values a origin (mem_of_lookup hlookup)
  exact ⟨next,hbind⟩

theorem mem_actions_iff (a : String) : a ∈ lock.actions.map Prod.fst ↔ Needed validatePython registries names a := by
  have hexplored := explored_of_resolve h
  constructor
  · intro ha
    exact needed_of_reached ((mem_keys_iff hexplored a).mp ha)
  · rintro ⟨s,hs,hreach⟩
    induction hreach with
    | refl => exact (hexplored.start s ((Finset.mem_sort _).mpr hs)).resolve_left List.not_mem_nil
    | @tail b c _ hstep ih =>
      obtain ⟨⟨b,origin⟩,hmem,rfl⟩ := List.mem_map.mp ih
      obtain ⟨next,hbind,hnext⟩ := hexplored.values b origin hmem
      exact (hnext c ((stepsTo_iff hbind).mp hstep)).resolve_left List.not_mem_nil

theorem bindsLeast_of_resolve :
    BindsLeast validatePython registries names lock where
  named a ha := (mem_actions_iff h a).mpr ⟨a,ha,.refl⟩
  closed a ha b hstep := by
    obtain ⟨s,hs,hreach⟩ := (mem_actions_iff h a).mp ha
    exact (mem_actions_iff h b).mpr ⟨s,hs,hreach.tail hstep⟩
  least S hnames hsteps a ha := by
    obtain ⟨s,hs,hreach⟩ := (mem_actions_iff h a).mp ha
    induction hreach with
    | refl => exact hnames s hs
    | tail hreach hstep ih => exact hsteps _ _ (ih ((mem_actions_iff h _).mpr ⟨s,hs,hreach⟩)) hstep
  bound a origin hlookup := by
    obtain ⟨next,hbind⟩ := bindAction_of_lookup h hlookup
    obtain ⟨scope,v,m,-,horigin,hm,-⟩ := bindAction_ok hbind
    exact ⟨scope,v,horigin,Option.isSome_iff_exists.mpr ⟨m,hm⟩⟩
  unique a origin hlookup := by
    obtain ⟨next,hbind⟩ := bindAction_of_lookup h hlookup
    obtain ⟨-,-,-,-,-,-,-,-,honly⟩ := bindAction_ok hbind
    exact honly

end

variable (validatePython registries) in
theorem resolve_terminates (names : Finset String) :
    ∃ turns result, resolveLockWithBindings validatePython registries turns names = some result := by
  let known : Finset String := ((originVersions registries).flatMap fun row => row.2.2.manifest.map Prod.fst).toFinset
  have hknown : ∀ a origin next, bindAction validatePython registries a = .ok (origin,next) → a ∈ known := by
    intro a origin next hbind
    obtain ⟨scope,v,m,-,horigin,hm,-⟩ := bindAction_ok hbind
    rw [List.mem_toFinset, List.mem_flatMap]
    exact ⟨_,mem_of_lookup horigin,List.mem_map.mpr ⟨_,mem_of_lookup hm,rfl⟩⟩
  obtain ⟨turns,result,hsearch⟩ := search_terminates known hknown (names.sort (· ≤ ·)) []
  exact ⟨turns,_,congrArg (Option.map _) hsearch⟩

theorem exists_lock (h : ∀ a, Needed validatePython registries names a → ∃ bound, bindAction validatePython registries a = .ok bound) :
    ∃ turns lock, resolveLockWithBindings validatePython registries turns names = some (.ok lock) := by
  obtain ⟨turns,result,hresolve⟩ := resolve_terminates validatePython registries names
  cases result with
  | ok lock => exact ⟨turns,lock,hresolve⟩
  | error err =>
    obtain ⟨found,hsearch,hfound⟩ := Option.map_eq_some_iff.mp hresolve
    cases found with
    | ok found => cases hfound
    | error err' =>
      obtain ⟨a,hreached,herror⟩ := reached_of_search_error (explored_start _) hsearch
      obtain ⟨bound,hbound⟩ := h a (needed_of_reached hreached)
      rw [hbound] at herror
      cases herror

end Locks

section Execution
variable {Raw Secret Rest : Type} {validatePython : Raw → Option (RegistryActionImpl Secret Rest)}
  {registries : Registries Raw Secret} {names : Finset String} {turns : ℕ} {lock : Lock}

theorem validManifest_of_index {manifest : Manifest Raw Secret} {origin : String}
    {index : List (String × ActionImplementation Secret Rest)} (h : buildImplIndex validatePython manifest origin = .ok index) :
    ValidManifest validatePython manifest := by
  intro entry hentry
  obtain ⟨indexed,-,hindexed⟩ := exists_of_forall₂ (mapM_eq_ok.mp h) hentry
  cases hvalid : validatePython entry.2.implementation with
  | some impl => rfl
  | none =>
    rw [hvalid] at hindexed
    cases hindexed

theorem index_of_validManifest {manifest : Manifest Raw Secret} (h : ValidManifest validatePython manifest) (origin : String) :
    ∃ index, buildImplIndex validatePython manifest origin = .ok index ∧ ∀ a m impl, manifest.lookup a = some m →
      validatePython m.implementation = some impl → index.lookup a = some (actionImplementation origin a impl) := by
  induction manifest with
  | nil => exact ⟨[],rfl,fun a m impl hm => by cases hm⟩
  | cons entry manifest ih =>
    obtain ⟨name,action⟩ := entry
    obtain ⟨index,hindex,hlookup⟩ := ih fun e he => h e (List.mem_cons_of_mem _ he)
    obtain ⟨impl,himpl⟩ := Option.isSome_iff_exists.mp (h (name,action) List.mem_cons_self)
    refine ⟨(name,actionImplementation origin name impl) :: index,?_,?_⟩
    · unfold buildImplIndex at hindex ⊢
      rw [List.mapM_cons, hindex]
      dsimp only
      rw [himpl]
      rfl
    · intro a m impl' hm hvalid
      rw [List.lookup_cons] at hm ⊢
      by_cases ha : a = name
      · subst ha
        rw [beq_self_eq_true] at hm ⊢
        cases hm
        obtain rfl := Option.some.inj (himpl.symm.trans hvalid)
        rfl
      · rw [beq_false_of_ne ha] at hm ⊢
        exact hlookup a m impl' hm hvalid

/-- An action of a lock is resolved from its manifest exactly if its registry is looked up where it is and can be
indexed. -/
theorem fromItsManifest_iff (hplatform : registries.platform.WellFormed) (horganization : registries.organization.WellFormed)
    (h : resolveLockWithBindings validatePython registries turns names = some (.ok lock)) {a origin : String}
    (ha : lock.actions.lookup a = some origin) {scope : Scope} {v : Version Raw Secret}
    (hrow : (originVersions registries).lookup origin = some (scope,v)) :
    FromItsManifest validatePython registries lock a origin ↔ Routed (origin,scope,v) ∧ ValidManifest validatePython v.manifest := by
  have hused : origin ∈ lock.actions.map Prod.snd := List.mem_map.mpr ⟨(a,origin),mem_of_lookup ha,rfl⟩
  have horigin : lock.origins.lookup origin = some v.version := by
    rw [lookup_origins h hused, hrow]
    rfl
  constructor
  · rintro ⟨scope',v',m,impl,hrow',hfetch,hm,hvalid,hresolve⟩
    obtain ⟨rfl,rfl⟩ := Prod.mk.inj (Option.some.inj (hrow'.symm.trans hrow))
    refine ⟨(fetchManifest_eq_ok hplatform horganization hrow).mp hfetch,?_⟩
    -- an action that resolves came through the index of its manifest
    rw [resolveAction, ha] at hresolve
    dsimp only at hresolve
    rw [horigin] at hresolve
    obtain ⟨entry,hentry,-⟩ := bind_eq_ok.mp hresolve
    obtain ⟨row,hfetched,hentry⟩ := bind_eq_ok.mp hentry
    obtain rfl := Except.ok.inj (hfetch.symm.trans hfetched)
    obtain ⟨index,hindex,-⟩ := bind_eq_ok.mp hentry
    exact validManifest_of_index hindex
  · rintro ⟨hrouted,hvalid⟩
    have hfetch := (fetchManifest_eq_ok hplatform horganization hrow).mpr hrouted
    obtain ⟨next,hbind⟩ := bindAction_of_lookup h ha
    obtain ⟨scope',v',m,impl,hrow',hm,himpl,-⟩ := bindAction_ok hbind
    obtain ⟨rfl,rfl⟩ := Prod.mk.inj (Option.some.inj (hrow'.symm.trans hrow))
    obtain ⟨index,hindex,hlookup⟩ := index_of_validManifest hvalid origin
    refine ⟨scope',v',m,impl,hrow,hfetch,hm,himpl,?_⟩
    rw [resolveAction, ha]
    dsimp only
    rw [horigin]
    dsimp only
    rw [getManifestEntry, hfetch]
    change (buildImplIndex validatePython v'.manifest origin >>= _) >>= _ = _
    rw [hindex]
    simp only [bind, Except.bind, hlookup a m impl hm himpl]

/-- Locks agree with execution exactly if the registries of the needed actions are served in place. -/
theorem lockAgrees_iff (hplatform : registries.platform.WellFormed) (horganization : registries.organization.WellFormed)
    (names : Finset String) : LockAgrees validatePython registries names ↔ ServedInPlace validatePython registries names := by
  constructor
  · intro h hbound a hneeded row hrow hsome
    obtain ⟨turns,lock,hresolve⟩ := exists_lock hbound
    obtain ⟨⟨a',origin⟩,hmem,rfl⟩ := List.mem_map.mp ((mem_actions_iff hresolve a).mpr hneeded)
    have ha : lock.actions.lookup a' = some origin := lookup_of_mem (explored_of_resolve hresolve).once hmem
    have horigin := (h.least turns lock hresolve).unique a' origin ha row hrow hsome
    have hrowLookup : (originVersions registries).lookup origin = some (row.2.1,row.2.2) := by
      rw [← horigin]
      exact lookup_of_mem nodup_originVersions hrow
    have hserved := (fromItsManifest_iff hplatform horganization hresolve ha hrowLookup).mp (h.resolved turns lock hresolve a' origin ha)
    rw [← horigin] at hserved
    exact hserved
  · intro h
    refine ⟨resolve_terminates validatePython registries names,fun turns lock => bindsLeast_of_resolve,?_⟩
    intro turns lock hresolve a origin ha
    obtain ⟨scope,v,hrow,hsome⟩ := (bindsLeast_of_resolve hresolve).bound a origin ha
    have hbound : ∀ b, Needed validatePython registries names b → ∃ bound, bindAction validatePython registries b = .ok bound := by
      intro b hb
      obtain ⟨⟨b,bOrigin⟩,hmem,rfl⟩ := List.mem_map.mp ((mem_actions_iff hresolve b).mpr hb)
      obtain ⟨next,hbind,-⟩ := (explored_of_resolve hresolve).values b bOrigin hmem
      exact ⟨_,hbind⟩
    -- the actions of the lock are the needed ones, and each was bound on the way
    have hneeded := (mem_actions_iff hresolve a).mp (List.mem_map.mpr ⟨_,mem_of_lookup ha,rfl⟩)
    exact (fromItsManifest_iff hplatform horganization hresolve ha hrow).mpr (h hbound a hneeded _ (mem_of_lookup hrow) hsome)

end Execution

section Samples

/-- One repository with one action. -/
def oneRegistry (origin name : String) (implementation : RegistryActionImpl Unit Unit) :
    Registry (RegistryActionImpl Unit Unit) Unit where
  repositories := [⟨1,origin,some 1⟩]
  versions := [⟨1,1,"1.0.0",[(name,{ implementation := implementation })]⟩]

/-- A function of the registry. -/
def callRegistry (origin : String) : Registry (RegistryActionImpl Unit Unit) Unit :=
  oneRegistry origin "tools.api.call" (.udf origin "tools.api" "call")

/-- A template that has the function in a step. -/
def flowRegistry : Registry (RegistryActionImpl Unit Unit) Unit :=
  oneRegistry "custom" "tools.flow.run" (.template { steps := [⟨"first","tools.api.call"⟩], rest := () })

def noRegistry : Registry (RegistryActionImpl Unit Unit) Unit := ⟨[],[]⟩

theorem oneRegistry_wellFormed (origin name : String) (implementation : RegistryActionImpl Unit Unit) :
    (oneRegistry origin name implementation).WellFormed where
  repositoryIds := List.nodup_singleton _
  origins := List.nodup_singleton _
  versionIds := List.nodup_singleton _
  versions := List.nodup_singleton _
  current := by
    intro r hr id hid
    obtain rfl := List.mem_singleton.mp hr
    cases hid
    exact ⟨_,List.mem_singleton.mpr rfl,rfl,rfl⟩
  actions := by
    intro v hv
    obtain rfl := List.mem_singleton.mp hv
    exact List.nodup_singleton _

theorem noRegistry_wellFormed : noRegistry.WellFormed where
  repositoryIds := List.nodup_nil
  origins := List.nodup_nil
  versionIds := List.nodup_nil
  versions := List.nodup_nil
  current _ hr := absurd hr List.not_mem_nil
  actions _ hv := absurd hv List.not_mem_nil

/-- The base registry is looked up in the platform's tables, and the template's in those of the organization. -/
theorem lockAgrees_base : LockAgrees some ⟨callRegistry defaultRegistryOrigin,flowRegistry⟩ {"tools.flow.run"} := by
  apply (lockAgrees_iff (oneRegistry_wellFormed _ _ _) (oneRegistry_wellFormed _ _ _) _).mpr
  intro _ a _ row hrow _
  have hrows : originVersions ⟨callRegistry defaultRegistryOrigin,flowRegistry⟩ =
      [(defaultRegistryOrigin,.platform,⟨1,1,"1.0.0",[("tools.api.call",
        { implementation := .udf defaultRegistryOrigin "tools.api" "call" })]⟩),
        ("custom",.organization,⟨1,1,"1.0.0",[("tools.flow.run",
          { implementation := .template { steps := [⟨"first","tools.api.call"⟩], rest := () } })]⟩)] := rfl
  rw [hrows, List.mem_cons, List.mem_singleton] at hrow
  rcases hrow with rfl | rfl
  · exact ⟨Iff.intro (fun _ => rfl) fun _ => rfl,fun _ _ => rfl⟩
  · exact ⟨Iff.intro (fun h => absurd h (by decide)) fun h => Scope.noConfusion h,fun _ _ => rfl⟩

/-- Another registry of the platform is looked up in the organization's tables, which do not have it. -/
theorem platform_registry_not_found : ¬ ∀ registries : Registries (RegistryActionImpl Unit Unit) Unit,
    registries.platform.WellFormed → registries.organization.WellFormed →
    ∀ names : Finset String, LockAgrees some registries names := by
  intro h
  have hagrees := h ⟨callRegistry "platform_origin",noRegistry⟩ (oneRegistry_wellFormed _ _ _) noRegistry_wellFormed {"tools.api.call"}
  let lock : Lock := ⟨[("platform_origin","1.0.0")],[("tools.api.call","platform_origin")]⟩
  have hresolve : resolveLockWithBindings some ⟨callRegistry "platform_origin",noRegistry⟩ 2 {"tools.api.call"} = some (.ok lock) := by
    rw [resolveLockWithBindings, Finset.sort_singleton]
    rfl
  obtain ⟨scope,v,m,impl,hrow,hfetch,-⟩ := hagrees.resolved 2 lock hresolve "tools.api.call" "platform_origin" rfl
  cases hrow
  cases hfetch

end Samples
end RegistryLock
end Allama
