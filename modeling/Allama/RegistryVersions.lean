import Allama.RegistrySyncs

/-! When syncs leave as current version one of the commit that they are for, with exactly its actions. -/
namespace Allama
namespace RegistrySyncs
open RecordFields
section Manifests

theorem foldl_fromActions (actions : List RegistryActionCreate) (manifest : Manifest)
    (hnodup : (actions.map RegistryActionCreate.action).Nodup) (hnew : ∀ action ∈ actions, manifest.lookup action.action = none) :
    actions.foldl (fun manifest action => put action.action (fromActionCreate action) manifest) manifest =
      manifest ++ actions.map fun action => (action.action,fromActionCreate action) := by
  induction actions generalizing manifest with
  | nil => exact (List.append_nil manifest).symm
  | cons action actions ih =>
    rw [List.map_cons, List.nodup_cons] at hnodup
    have hput : put action.action (fromActionCreate action) manifest = manifest ++ [(action.action,fromActionCreate action)] := by
      unfold put
      rw [hnew action List.mem_cons_self]
      rfl
    rw [List.foldl_cons, hput, ih _ hnodup.2, List.append_assoc]
    · rfl
    · intro other hother
      rw [lookup_append_key (hnew action List.mem_cons_self)]
      have hne : other.action ≠ action.action := fun heq => hnodup.1 (heq ▸ List.mem_map_of_mem hother)
      rw [beq_false_of_ne hne]
      exact hnew other (List.mem_cons_of_mem _ hother)

theorem fromActions_eq {actions : List RegistryActionCreate} (hnodup : (actions.map RegistryActionCreate.action).Nodup) :
    fromActions actions = actions.map fun action => (action.action,fromActionCreate action) :=
  foldl_fromActions actions [] hnodup fun _ _ => rfl

theorem fromActions_values (source : Source) (commit : Option Text) :
    (fromActions (source.actions commit)).map Prod.snd = (source.actions commit).map fromActionCreate := by
  rw [fromActions_eq (source.distinct commit), List.map_map]
  rfl

end Manifests

section Syncs
variable {config : Config} {st st' : State} {sync : Sync} {repo : RegistryRepository} {type : OriginType}

/-- The index entries are those of the manifest, and no two versions have a tarball location in common. -/
structure Sound (st : State) : Prop where
  index : ∀ v ∈ st.versions, v.index_entries = v.manifest.map fun entry => indexEntry entry.2
  locations : (st.versions.map RegistryVersion.tarball_uri).Nodup

theorem fetch_commit (origin : Text)
    (h : sync.sandboxed = true → type = .git → sync.target_commit_sha = some sync.source.head) :
    (fetch config sync origin type).actions = sync.source.actions (sync.commit type) ∧
      (fetch config sync origin type).commit_sha = sync.commit type := by
  unfold fetch Sync.commit
  cases hsandboxed : sync.sandboxed with
  | false =>
    rw [if_neg Bool.false_ne_true]
    cases type <;> exact ⟨rfl,rfl⟩
  | true =>
    rw [if_pos rfl]
    unfold fetchSandboxed
    cases type with
    | git =>
      rw [if_pos rfl, if_pos rfl, h hsandboxed rfl]
      exact ⟨rfl,rfl⟩
    | _ => exact ⟨rfl,rfl⟩

theorem repository_id {id : ℕ} (h : st.repository id = some repo) : repo.id = id :=
  of_decide_eq_true (List.find?_some (p := fun r : RegistryRepository => decide (r.id = id)) h)

theorem repository_promote {id version_id : ℕ} (h : st.repository id = some repo) :
    (st.promote id version_id).repository id = some { repo with current_version_id := some version_id } := by
  unfold State.promote State.repository
  have hid := repository_id h
  rw [List.find?_map]
  have hkept : ((fun r : RegistryRepository => decide (r.id = id)) ∘ fun r =>
      if r.id = id then { r with current_version_id := some version_id } else r) = fun r => decide (r.id = id) := by
    funext r
    change decide ((if r.id = id then _ else r).id = id) = _
    by_cases hr : r.id = id
    · rw [if_pos hr]
    · rw [if_neg hr]
  rw [hkept]
  have hfound : st.repositories.find? (fun r => decide (r.id = id)) = some repo := h
  rw [hfound, Option.map_some, if_pos hid]

theorem existing_spec {id : ℕ} {text : Text} {version : RegistryVersion} (h : st.existing id text = some version) :
    version ∈ st.versions ∧ version.repository_id = id := by
  have hpred := List.find?_some h
  exact ⟨List.mem_of_find?_eq_some h,of_decide_eq_true (Bool.and_eq_true_iff.mp hpred).1⟩

theorem sync_cases {version : RegistryVersion} (h : syncRepository config st sync = some (st',version)) :
    ∃ repo type, st.repository sync.repository_id = some repo ∧ getOriginType repo.origin = some type ∧
      (st' = st ∧ st.existing repo.id (fetch config sync repo.origin type).version = some version ∨
        st.existing repo.id (fetch config sync repo.origin type).version = none ∧
          version = newVersion st repo.id (fetch config sync repo.origin type) ∧
          st' = { st with versions := st.versions ++ [version] }.promote repo.id version.id) := by
  unfold syncRepository at h
  split at h
  · cases h
  · obtain ⟨repo,hrepo,h⟩ := Option.bind_eq_some_iff.mp h
    obtain ⟨type,htype,h⟩ := Option.bind_eq_some_iff.mp h
    refine ⟨repo,type,hrepo,htype,?_⟩
    dsimp only at h
    split at h
    · cases h
    · split at h
      · rename_i v hexisting
        cases h
        exact .inl ⟨rfl,hexisting⟩
      · rename_i hexisting
        cases h
        exact .inr ⟨hexisting,rfl,rfl⟩

theorem sync_succeeds {version : RegistryVersion} (hsound : Sound st) (hfits : Fits config st (.sync sync))
    (h : syncRepository config st sync = some (st',version)) : (∃ repo type, st.repository sync.repository_id = some repo ∧
      getOriginType repo.origin = some type ∧ Succeeds sync repo type st' version) ∧ Sound st' := by
  obtain ⟨repo,type,hrepo,htype,hcase⟩ := sync_cases h
  obtain ⟨hcommit,hversion⟩ := hfits repo type hrepo htype
  have hfetched : (fetch config sync repo.origin type).actions = sync.source.actions (sync.commit type) ∧
    (fetch config sync repo.origin type).commit_sha = sync.commit type := fetch_commit repo.origin hcommit
  obtain ⟨hactions,hsha⟩ := hfetched
  have hid := repository_id hrepo
  rcases hcase with ⟨rfl,hexisting⟩ | ⟨hnone,rfl,rfl⟩
  · rw [hexisting] at hversion
    obtain ⟨hcurrent,hof,hmanifest⟩ := hversion
    obtain ⟨hstored,hown⟩ := existing_spec hexisting
    refine ⟨⟨repo,type,hrepo,htype,hstored,hown,hof,?_,?_,?_⟩,hsound⟩
    · rw [hmanifest]
      exact fromActions_values _ _
    · rw [hsound.index version hstored, hmanifest, fromActions_eq (sync.source.distinct _), List.map_map]
      rfl
    · rw [hid, hrepo]
      exact hcurrent
  · rw [hnone] at hversion
    refine ⟨⟨repo,type,hrepo,htype,List.mem_append_right _ List.mem_cons_self,rfl,hsha,?_,?_,?_⟩,?_,?_⟩
    · change (fromActions _).map Prod.snd = _
      rw [hactions]
      exact fromActions_values _ _
    · change (fromActions _).map _ = _
      rw [hactions, fromActions_eq (sync.source.distinct _), List.map_map]
      rfl
    · have hrepo' : ({ st with versions := st.versions ++ [newVersion st repo.id (fetch config sync repo.origin type)] } :
          State).repository repo.id = some repo := by
        rw [hid]
        exact hrepo
      rw [repository_promote hrepo']
      rfl
    · intro v hv
      rcases List.mem_append.mp hv with hv | hv
      · exact hsound.index v hv
      · obtain rfl := List.mem_singleton.mp hv
        rfl
    · change ((st.versions ++ [_]).map _).Nodup
      rw [List.map_append]
      refine hsound.locations.append (List.nodup_singleton _) (List.disjoint_singleton.mpr ?_)
      intro hmem
      obtain ⟨v,hv,heq⟩ := List.mem_map.mp hmem
      exact hversion v hv heq

theorem promote_versions {id version_id : ℕ} (h : promoteVersion st id version_id = some st') : st'.versions = st.versions := by
  unfold promoteVersion at h
  obtain ⟨version,-,h⟩ := Option.bind_eq_some_iff.mp h
  split at h
  · cases h
    rfl
  · cases h

theorem versions_next {action : Action} (hsound : Sound st) (hfits : Fits config st action) (h : next config st action = some st') :
    Sound st' ∧ st.versions <+: st'.versions := by
  cases action with
  | sync sync =>
    cases h
    cases hsync : syncRepository config st sync with
    | none => exact ⟨hsound,List.prefix_refl _⟩
    | some result =>
      obtain ⟨st'',version⟩ := result
      refine ⟨(sync_succeeds hsound hfits hsync).2,?_⟩
      obtain ⟨repo,type,-,-,⟨rfl,-⟩ | ⟨-,-,rfl⟩⟩ := sync_cases hsync
      · exact List.prefix_refl _
      · exact List.prefix_append _ _
  | promote id version_id =>
    cases h
    cases hpromote : promoteVersion st id version_id with
    | none => exact ⟨hsound,List.prefix_refl _⟩
    | some st'' =>
      have hversions := promote_versions hpromote
      refine ⟨⟨?_,?_⟩,?_⟩
      · change ∀ v ∈ st''.versions, _
        rw [hversions]
        exact hsound.index
      · change (st''.versions.map _).Nodup
        rw [hversions]
        exact hsound.locations
      · change _ <+: st''.versions
        rw [hversions]

/-- In every run whose syncs fit, the stored versions stay as they are and have tarball locations of their own, a sync that succeeds
leaves as current version one of its commit with exactly its actions, and one that raises leaves everything as it was. -/
theorem syncs_versioned (config : Config) {repositories : List RegistryRepository} {st st' : State}
    (h : Runs.Reaches (next config) (Fits config) (started repositories) st) (h' : Runs.Reaches (next config) (Fits config) st st') :
    st.versions <+: st'.versions ∧ (st'.versions.map RegistryVersion.tarball_uri).Nodup ∧
      ∀ sync, (syncRepository config st' sync = none → next config st' (.sync sync) = some st') ∧
        (Fits config st' (.sync sync) → ∀ st'' version, syncRepository config st' sync = some (st'',version) →
          next config st' (.sync sync) = some st'' ∧ ∃ repo type, st'.repository sync.repository_id = some repo ∧
            getOriginType repo.origin = some type ∧ Succeeds sync repo type st'' version) := by
  have hstarted : Sound (started repositories) := ⟨fun _ hv => (List.not_mem_nil hv).elim,List.nodup_nil⟩
  have hsound : Sound st := h.invariant hstarted fun _ _ _ _ hs hok hnext => (versions_next hs hok hnext).1
  obtain ⟨hsound',hbefore⟩ : Sound st' ∧ st.versions <+: st'.versions := by
    refine h'.invariant (P := fun t => Sound t ∧ st.versions <+: t.versions) ⟨hsound,List.prefix_refl _⟩ ?_
    rintro t action t' - ⟨hs,hp⟩ hok hnext
    obtain ⟨hs',hp'⟩ := versions_next hs hok hnext
    exact ⟨hs',hp.trans hp'⟩
  refine ⟨hbefore,hsound'.locations,fun sync => ⟨fun hnone => ?_,fun hfits st'' version hsync => ⟨?_,?_⟩⟩⟩
  · unfold next
    dsimp only
    rw [hnone]
    rfl
  · unfold next
    dsimp only
    rw [hsync]
    rfl
  · exact (sync_succeeds hsound' hfits hsync).1

end Syncs

section Samples

def sampleAction (name : String) : RegistryActionCreate where
  namespace_ := "tools".toList
  name := name.toList
  action_type := "udf".toList
  description := []
  default_title := none
  display_group := none
  doc_url := none
  author := none
  deprecated := none
  secrets := none
  interface := .none
  options := .none
  implementation := .none

def firstCommit : Text := "1111111a".toList

def secondCommit : Text := "2222222b".toList

def sampleSource (head : Text) : Source where
  head := head
  actions commit := [sampleAction (if commit = some firstCommit then "first" else "second")]
  distinct _ := List.nodup_singleton _

def sampleConfig : Config := ⟨"registry".toList,"org".toList,"1.0.0".toList⟩

def sampleRepositories : List RegistryRepository :=
  [⟨0,"git+ssh://git@host/a/b".toList,none⟩,⟨1,"git+ssh://git@host/a_b".toList,none⟩]

def sampleSync (repository_id : ℕ) (sandboxed : Bool) (target_version target_commit_sha : Option Text) (head : Text) : Sync :=
  ⟨repository_id,sandboxed,target_version,target_commit_sha,sampleSource head,"2025.01.01.000000".toList,"2025.01.01.000001".toList,
    false⟩

/-- What a sequence of syncs reads from the state that it comes to. -/
def outcome {A : Type} (read : State → A) (syncs : List Sync) : Option A :=
  (Runs.follow (next sampleConfig) (started sampleRepositories) (syncs.map .sync)).map read

def commits (st : State) : List (Option Text) := st.versions.map RegistryVersion.commit_sha

def names (st : State) : List (List Text) := st.versions.map fun v => v.index_entries.map ActionFields.name

def locations (st : State) : List Text := st.versions.map RegistryVersion.tarball_uri

def current (st : State) : List (Option ℕ) := st.repositories.map RegistryRepository.current_version_id

def firstUri : Text := "s3://registry/org/tarball-venvs/git_host_a_b/1111111/site-packages.tar.gz".toList

def onceSynced : State :=
  ((syncRepository sampleConfig (started sampleRepositories) (sampleSync 0 false none none firstCommit)).map Prod.fst).getD
    (started sampleRepositories)

/-- A second sync at another commit, after which the first version is made the current one again. -/
theorem syncs_versioned_promoted : ∃ st st', Runs.follow (next sampleConfig) (started sampleRepositories)
      [.sync (sampleSync 0 false none none firstCommit)] = some st ∧
    Runs.follow (next sampleConfig) st [.sync (sampleSync 0 false none none secondCommit),.promote 0 0] = some st' ∧
    current st' = [some 0,none] ∧ commits st' = [some firstCommit,some secondCommit] ∧
    st.versions <+: st'.versions ∧ (st'.versions.map RegistryVersion.tarball_uri).Nodup ∧
    ∀ sync, (syncRepository sampleConfig st' sync = none → next sampleConfig st' (.sync sync) = some st') ∧
      (Fits sampleConfig st' (.sync sync) → ∀ st'' version, syncRepository sampleConfig st' sync = some (st'',version) →
        next sampleConfig st' (.sync sync) = some st'' ∧ ∃ repo type, st'.repository sync.repository_id = some repo ∧
          getOriginType repo.origin = some type ∧ Succeeds sync repo type st'' version) := by
  have hfirst : Runs.Reaches (next sampleConfig) (Fits sampleConfig) (started sampleRepositories) onceSynced := by
    refine Runs.Reaches.refl.step (a := .sync (sampleSync 0 false none none firstCommit)) ?_ rfl
    intro repo type _ _
    refine ⟨Bool.noConfusion,?_⟩
    change ∀ v ∈ ([] : List RegistryVersion), _
    intro v hv
    exact (List.not_mem_nil hv).elim
  refine ⟨onceSynced,_,rfl,rfl,by decide,by decide,syncs_versioned sampleConfig hfirst ?_⟩
  refine .step (a := .promote 0 0) (Runs.Reaches.refl.step (a := .sync (sampleSync 0 false none none secondCommit)) ?_ rfl)
    trivial rfl
  intro repo type hrepo htype
  cases hrepo
  cases htype
  refine ⟨Bool.noConfusion,?_⟩
  change ∀ v ∈ onceSynced.versions, v.tarball_uri ≠ _
  decide

def oldCommitSyncs : List Sync :=
  [sampleSync 0 false none none firstCommit,sampleSync 0 false none none secondCommit,
    sampleSync 0 false none (some firstCommit) secondCommit]

def twoRepositorySyncs : List Sync := [sampleSync 0 false none none firstCommit,sampleSync 1 false none none firstCommit]

def workflowSyncs : List Sync := [sampleSync 0 true none (some firstCommit) secondCommit]

/-- After a sync for an old commit the current version stays another one; versions of two repositories share a tarball location; and
a workflow for an old commit stores the actions of the commit at the origin. -/
theorem syncs_go_astray :
    (outcome commits oldCommitSyncs = some [some firstCommit,some secondCommit] ∧
      outcome current oldCommitSyncs = some [some 1,none]) ∧
    outcome locations twoRepositorySyncs = some [firstUri,firstUri] ∧
    outcome commits workflowSyncs = some [some firstCommit] ∧ outcome names workflowSyncs = some [["second".toList]] := by
  refine ⟨⟨by decide,by decide⟩,by decide,by decide,by decide⟩

end Samples
end RegistrySyncs
end Allama
