import Allama.TarballCache

/-! What holds of the cache of extracted tarballs in every run whose calls do not disturb each other, and what a step of one call
leaves of it. -/
namespace Allama
namespace TarballCache
open RecordFields
section Contents

theorem lookup_extracted (members : List Member) (path : Text) :
    (extracted members).lookup path = members.reverse.lookup path := by
  unfold extracted
  rw [lookup_putAll]
  exact Option.or_none ..

/-- The files of the members are in a directory as `extractall` leaves them. -/
def Filled (members dir : List Member) : Prop :=
  ∀ path ∈ members.map Prod.fst, dir.lookup path = members.reverse.lookup path

def Within (members dir : List Member) : Prop := ∀ path, dir.lookup path ≠ none → path ∈ members.map Prod.fst

theorem filled_nil (dir : List Member) : Filled [] dir := fun _ h => (List.not_mem_nil h).elim

theorem within_nil (members : List Member) : Within members [] := fun _ h => (h rfl).elim

theorem within_put {members dir : List Member} {member : Member} (h : Within members dir) (hmember : member ∈ members)
    (data : List UInt8) : Within members (put member.1 data dir) := by
  intro path hpath
  rw [lookup_put] at hpath
  by_cases heq : path = member.1
  · rw [heq]
    exact List.mem_map_of_mem hmember
  · rw [beq_false_of_ne heq] at hpath
    exact h path hpath

theorem lookup_put_ne {dir : List Member} {path path' : Text} (data : List UInt8) (h : path' ≠ path) :
    (put path data dir).lookup path' = dir.lookup path' := by
  rw [lookup_put, beq_false_of_ne h]
  rfl

theorem filled_append {members dir : List Member} {member : Member}
    (h : ∀ path ≠ member.1, path ∈ members.map Prod.fst → dir.lookup path = members.reverse.lookup path) :
    Filled (members ++ [member]) (put member.1 member.2 dir) := by
  intro path hpath
  rw [List.reverse_append, lookup_put]
  change _ = List.lookup path (member :: members.reverse)
  rw [List.lookup_cons]
  by_cases heq : path = member.1
  · rw [heq, beq_self_eq_true]
    rfl
  · rw [beq_false_of_ne heq]
    rw [List.map_append] at hpath
    rcases List.mem_append.mp hpath with hpath | hpath
    · exact h path heq hpath
    · exact (heq (List.mem_singleton.mp hpath)).elim

theorem lookup_of_filled {members dir : List Member} (h : Filled members dir) (hwithin : Within members dir) (path : Text) :
    dir.lookup path = members.reverse.lookup path := by
  by_cases hpath : path ∈ members.map Prod.fst
  · exact h path hpath
  · have hnone : dir.lookup path = none := by
      by_contra hsome
      exact hpath (hwithin path hsome)
    rw [hnone]
    apply Eq.symm
    apply lookup_eq_none_of_notMem
    rw [List.map_reverse, List.mem_reverse]
    exact hpath

end Contents

section Invariant
variable {K : Type} (config : Config K)

/-- The directories that there are: those under temporary names have no file but those of the tarball of a call, the target
directories have exactly the contents of one. -/
structure Known (st : State K) : Prop where
  temp : ∀ place serial, st.temp place = some serial → serial < st.created ∧ (∀ k, st.target k ≠ some ⟨place,serial⟩) ∧
    ∃ (j : ℕ) (call : Call K), st.calls[j]? = some call ∧ call.request.place config = place ∧
      Within (config.tarball call.request.uri) (st.contents ⟨place,serial⟩)
  fresh : ∀ dir : Dir K, st.created ≤ dir.serial → st.contents dir = []
  target : ∀ k dir, st.target k = some dir → dir.serial < st.created ∧
    ∃ (j : ℕ) (call : Call K), st.calls[j]? = some call ∧ computeTarballCacheKey config call.request.uri = k ∧
      ∀ path, (st.contents dir).lookup path = (config.tarball call.request.uri).reverse.lookup path
  tarballs : ∀ place members, st.tarballs place = some members →
    ∃ (j : ℕ) (call : Call K), st.calls[j]? = some call ∧ call.request.place config = place ∧ members = config.tarball call.request.uri

/-- A thread that runs writes files of its tarball, to a directory of its own place that is no target directory. -/
structure Writes (request : Request) (thread : Thread K) (st : State K) : Prop where
  members : ∀ members, thread.members = some members → ∀ member ∈ members, member ∈ config.tarball request.uri
  handle : ∀ dir member, thread.handle = some (dir,member) → member ∈ config.tarball request.uri ∧
    dir.place = request.place config ∧ dir.serial < st.created ∧ ∀ k, st.target k ≠ some dir

/-- How far the thread of a call that waits for it is. -/
inductive Progress (request : Request) (st : State K) : Thread K → Prop
  | unopened (serial : ℕ) : st.tarballs (request.place config) = some (config.tarball request.uri) →
      st.temp (request.place config) = some serial → Progress request st ⟨none,none,none⟩
  | between (serial : ℕ) (before members : List Member) : st.temp (request.place config) = some serial →
      config.tarball request.uri = before ++ members → Filled before (st.contents ⟨request.place config,serial⟩) →
      Progress request st ⟨some members,none,none⟩
  | writing (serial : ℕ) (before : List Member) (member : Member) (members : List Member) :
      st.temp (request.place config) = some serial → config.tarball request.uri = before ++ member :: members →
      (∀ path ≠ member.1, path ∈ before.map Prod.fst →
        (st.contents ⟨request.place config,serial⟩).lookup path = before.reverse.lookup path) →
      Progress request st ⟨some members,some (⟨request.place config,serial⟩,member),none⟩
  | ended (serial : ℕ) (members : Option (List Member)) (handle : Option (Dir K × Member)) :
      st.temp (request.place config) = some serial →
      Filled (config.tarball request.uri) (st.contents ⟨request.place config,serial⟩) →
      Progress request st ⟨members,handle,some true⟩
  | failed (members : Option (List Member)) (handle : Option (Dir K × Member)) : Progress request st ⟨members,handle,some false⟩

/-- A call in its phase. -/
structure InPhase (call : Call K) (st : State K) : Prop where
  returned : call.phase = .returned → (st.target (computeTarballCacheKey config call.request.uri)).isSome = true
  waiting : call.phase.live = true → call.phase ≠ .extracting → call.thread = none
  downloaded : call.phase = .downloaded →
    st.tarballs (call.request.place config) = some (config.tarball call.request.uri)
  extracting : call.phase = .extracting → ∃ thread, call.thread = some thread ∧ Progress config call.request st thread
  running : ∀ thread, call.thread = some thread → thread.exit = none → Writes config call.request thread st

structure Sound (st : State K) : Prop where
  unique : ∀ (i j : ℕ) (call other : Call K), i ≠ j → st.calls[i]? = some call → st.calls[j]? = some other → call.phase.live = true →
    other.phase.live = true → ¬ (call.request.pid = other.request.pid ∧ call.request.unique_id = other.request.unique_id)
  exclusive : ∀ (i j : ℕ) (call other : Call K), i ≠ j → st.calls[i]? = some call → st.calls[j]? = some other → call.phase = .extracting →
    other.running = true → other.request.place config ≠ call.request.place config
  keys : ∀ (i j : ℕ) (call other : Call K), st.calls[i]? = some call → st.calls[j]? = some other →
    computeTarballCacheKey config call.request.uri = computeTarballCacheKey config other.request.uri →
    call.request.uri = other.request.uri
  phases : ∀ (i : ℕ) (call : Call K), st.calls[i]? = some call → InPhase config call st
  known : Known config st

/-- What a step of a call leaves: the other calls, the files and directories of other places, and the target directories. -/
structure Acts (i : ℕ) (call : Call K) (st st' : State K) : Prop where
  calls : ∀ j ≠ i, st'.calls[j]? = st.calls[j]?
  self : st'.calls[i]? = some call
  temp : ∀ place ≠ call.request.place config, st'.temp place = st.temp place
  tarballs : ∀ place ≠ call.request.place config, st'.tarballs place = st.tarballs place
  contents : ∀ dir, dir.place ≠ call.request.place config ∨ (∃ k, st.target k = some dir) → st'.contents dir = st.contents dir
  created : st.created ≤ st'.created
  target : ∀ k dir, st'.target k = some dir → st.target k = some dir ∨ dir.place = call.request.place config ∧
    ∀ j ≠ i, ∀ other : Call K, st.calls[j]? = some other → other.running = true →
      other.request.place config ≠ call.request.place config
  kept : ∀ k, (st.target k).isSome = true → (st'.target k).isSome = true

variable {config} {i : ℕ} {call : Call K} {st st' : State K}

theorem Progress.congr {request : Request} {thread : Thread K} (h : Progress config request st thread)
    (htemp : st'.temp (request.place config) = st.temp (request.place config))
    (htarballs : st'.tarballs (request.place config) = st.tarballs (request.place config))
    (hcontents : ∀ dir : Dir K, dir.place = request.place config → st'.contents dir = st.contents dir) :
    Progress config request st' thread := by
  cases h with
  | unopened serial htarball hserial => exact .unopened serial (htarballs.trans htarball) (htemp.trans hserial)
  | between serial before members hserial heq hfilled =>
    refine .between serial before members (htemp.trans hserial) heq ?_
    rw [hcontents _ rfl]
    exact hfilled
  | writing serial before member members hserial heq hfilled =>
    refine .writing serial before member members (htemp.trans hserial) heq ?_
    rw [hcontents _ rfl]
    exact hfilled
  | ended serial members handle hserial hfilled =>
    refine .ended serial members handle (htemp.trans hserial) ?_
    rw [hcontents _ rfl]
    exact hfilled
  | failed members handle => exact .failed members handle

theorem Progress.temp {request : Request} {thread : Thread K} (h : Progress config request st thread) :
    thread.exit = some false ∨ ∃ serial, st.temp (request.place config) = some serial := by
  cases h with
  | unopened serial _ hserial => exact .inr ⟨serial,hserial⟩
  | between serial _ _ hserial => exact .inr ⟨serial,hserial⟩
  | writing serial _ _ _ hserial => exact .inr ⟨serial,hserial⟩
  | ended serial _ _ hserial => exact .inr ⟨serial,hserial⟩
  | failed => exact .inl rfl

theorem InPhase.congr {j : ℕ} {other : Call K} (h : InPhase config other st) (hacts : Acts config i call st st') (hj : j ≠ i)
    (hother : st.calls[j]? = some other)
    (hfree : other.phase.live = true → other.request.place config = call.request.place config →
      other.phase ≠ .extracting ∧ st'.tarballs = st.tarballs) : InPhase config other st' := by
  refine ⟨fun hr => hacts.kept _ (h.returned hr),h.waiting,?_,?_,?_⟩
  · intro hdownloaded
    have htarballs : st'.tarballs (other.request.place config) = st.tarballs (other.request.place config) := by
      by_cases hplace : other.request.place config = call.request.place config
      · rw [(hfree (by rw [hdownloaded]; rfl) hplace).2]
      · exact hacts.tarballs _ hplace
    rw [htarballs]
    exact h.downloaded hdownloaded
  · intro hextracting
    have hplace : other.request.place config ≠ call.request.place config := by
      intro hplace
      exact (hfree (by rw [hextracting]; rfl) hplace).1 hextracting
    obtain ⟨thread,hthread,hprogress⟩ := h.extracting hextracting
    refine ⟨thread,hthread,hprogress.congr (hacts.temp _ hplace) (hacts.tarballs _ hplace) ?_⟩
    intro dir hdir
    exact hacts.contents dir (.inl (hdir ▸ hplace))
  · intro thread hthread hexit
    obtain ⟨hmembers,hhandle⟩ := h.running thread hthread hexit
    refine ⟨hmembers,?_⟩
    intro dir member hopen
    obtain ⟨hmember,hplace,hserial,htarget⟩ := hhandle dir member hopen
    refine ⟨hmember,hplace,hserial.trans_le hacts.created,?_⟩
    intro k hk
    rcases hacts.target k dir hk with hk | ⟨hdir,halone⟩
    · exact htarget k hk
    · have hrunning : other.running = true := by
        unfold Call.running
        rw [hthread]
        exact Option.isNone_iff_eq_none.mpr hexit
      exact halone j hj other hother hrunning (hplace.symm.trans hdir)

/-- A step that meets what the invariant asks of the call that acts keeps the invariant. -/
theorem Sound.step (h : Sound config st) (hacts : Acts config i call st st')
    (hfree : ∀ j ≠ i, ∀ other, st.calls[j]? = some other → other.phase.live = true →
      other.request.place config = call.request.place config → other.phase ≠ .extracting ∧ st'.tarballs = st.tarballs)
    (hunique : ∀ j ≠ i, ∀ other, st.calls[j]? = some other → call.phase.live = true → other.phase.live = true →
      ¬ (call.request.pid = other.request.pid ∧ call.request.unique_id = other.request.unique_id))
    (hexclusive : ∀ j ≠ i, ∀ other, st.calls[j]? = some other →
      (call.phase = .extracting ∧ other.running = true ∨ other.phase = .extracting ∧ call.running = true) →
      other.request.place config ≠ call.request.place config)
    (hkeys : ∀ j ≠ i, ∀ other, st.calls[j]? = some other →
      computeTarballCacheKey config other.request.uri = computeTarballCacheKey config call.request.uri →
      other.request.uri = call.request.uri)
    (hphase : InPhase config call st') (hknown : Known config st') : Sound config st' := by
  -- a call of the later state is the one that acts, or is there before
  have hcases : ∀ j other, st'.calls[j]? = some other → j = i ∧ other = call ∨ j ≠ i ∧ st.calls[j]? = some other := by
    intro j other hother
    by_cases hj : j = i
    · subst hj
      exact .inl ⟨rfl,Option.some.inj (hother.symm.trans hacts.self)⟩
    · exact .inr ⟨hj,(hacts.calls j hj).symm.trans hother⟩
  refine ⟨?_,?_,?_,?_,hknown⟩
  · intro j k c c' hne hc hc' hlive hlive'
    rcases hcases j c hc with ⟨rfl,rfl⟩ | ⟨hj,hc⟩ <;> rcases hcases k c' hc' with ⟨rfl,rfl⟩ | ⟨hk,hc'⟩
    · exact (hne rfl).elim
    · exact hunique k hk c' hc' hlive hlive'
    · rintro ⟨hpid,hid⟩
      exact hunique j hj c hc hlive' hlive ⟨hpid.symm,hid.symm⟩
    · exact h.unique j k c c' hne hc hc' hlive hlive'
  · intro j k c c' hne hc hc' hextracting hrunning
    rcases hcases j c hc with ⟨rfl,rfl⟩ | ⟨hj,hc⟩ <;> rcases hcases k c' hc' with ⟨rfl,rfl⟩ | ⟨hk,hc'⟩
    · exact (hne rfl).elim
    · exact hexclusive k hk c' hc' (.inl ⟨hextracting,hrunning⟩)
    · exact (hexclusive j hj c hc (.inr ⟨hextracting,hrunning⟩)).symm
    · exact h.exclusive j k c c' hne hc hc' hextracting hrunning
  · intro j k c c' hc hc' hkey
    rcases hcases j c hc with ⟨rfl,rfl⟩ | ⟨hj,hc⟩ <;> rcases hcases k c' hc' with ⟨rfl,rfl⟩ | ⟨hk,hc'⟩
    · rfl
    · exact (hkeys k hk c' hc' hkey.symm).symm
    · exact hkeys j hj c hc hkey
    · exact h.keys j k c c' hc hc' hkey
  · intro j c hc
    rcases hcases j c hc with ⟨rfl,rfl⟩ | ⟨hj,hc⟩
    · exact hphase
    · exact (h.phases j c hc).congr hacts hj hc (hfree j hj c hc)

/-- What steps keep: the calls with their requests, and that there is a target directory. -/
structure Later (st st' : State K) : Prop where
  requests : ∀ (j : ℕ) (call : Call K), st.calls[j]? = some call → ∃ call' : Call K, st'.calls[j]? = some call' ∧
    call'.request = call.request
  targets : ∀ k, (st.target k).isSome = true → (st'.target k).isSome = true

theorem Acts.later (hacts : Acts config i call st st')
    (hbefore : ∀ before, st.calls[i]? = some before → before.request = call.request) : Later st st' := by
  refine ⟨fun j c hc => ?_,hacts.kept⟩
  by_cases hj : j = i
  · subst hj
    exact ⟨call,hacts.self,(hbefore c hc).symm⟩
  · exact ⟨c,(hacts.calls j hj).trans hc,rfl⟩

theorem Later.refl (st : State K) : Later st st := ⟨fun _ c hc => ⟨c,hc,rfl⟩,fun _ h => h⟩

theorem Later.trans {st'' : State K} (h : Later st st') (h' : Later st' st'') : Later st st'' := by
  refine ⟨fun j call hcall => ?_,fun k hk => h'.targets k (h.targets k hk)⟩
  obtain ⟨call',hcall',hrequest⟩ := h.requests j call hcall
  obtain ⟨call'',hcall'',hrequest'⟩ := h'.requests j call' hcall'
  exact ⟨call'',hcall'',hrequest'.trans hrequest⟩

/-- The state is sound, and later than `st`. -/
structure Onward (config : Config K) (st st' : State K) : Prop where
  sound : Sound config st'
  later : Later st st'

theorem Onward.trans {st'' : State K} (h : Onward config st st') (h' : Onward config st' st'') : Onward config st st'' :=
  ⟨h'.sound,h.later.trans h'.later⟩

theorem Known.step (h : Known config st) (hacts : Acts config i call st st')
    (hbefore : ∀ before, st.calls[i]? = some before → before.request = call.request)
    (htemp : ∀ serial, st'.temp (call.request.place config) = some serial → serial < st'.created ∧
      (∀ k, st'.target k ≠ some ⟨call.request.place config,serial⟩) ∧
      Within (config.tarball call.request.uri) (st'.contents ⟨call.request.place config,serial⟩))
    (hfresh : ∀ dir : Dir K, st'.created ≤ dir.serial → st'.contents dir = [])
    (htarget : ∀ k dir, st'.target k = some dir → st.target k = some dir ∨ dir.serial < st'.created ∧
      dir.place = call.request.place config ∧ computeTarballCacheKey config call.request.uri = k ∧
      ∀ path, (st'.contents dir).lookup path = (config.tarball call.request.uri).reverse.lookup path)
    (htarballs : ∀ members, st'.tarballs (call.request.place config) = some members → members = config.tarball call.request.uri) :
    Known config st' := by
  have hkept := (hacts.later hbefore).requests
  refine ⟨?_,hfresh,?_,?_⟩
  · intro place serial hserial
    by_cases hplace : place = call.request.place config
    · subst hplace
      obtain ⟨hlt,hne,hwithin⟩ := htemp serial hserial
      exact ⟨hlt,hne,i,call,hacts.self,rfl,hwithin⟩
    · rw [hacts.temp place hplace] at hserial
      obtain ⟨hlt,hne,j,c,hc,hcplace,hwithin⟩ := h.temp place serial hserial
      obtain ⟨c',hc',hrequest⟩ := hkept j c hc
      refine ⟨hlt.trans_le hacts.created,?_,j,c',hc',by rw [hrequest]; exact hcplace,?_⟩
      · intro k hk
        rcases htarget k _ hk with hk | ⟨-,heq,-⟩
        · exact hne k hk
        · exact hplace heq
      · rw [hrequest, hacts.contents _ (.inl hplace)]
        exact hwithin
  · intro k dir hdir
    rcases htarget k dir hdir with hold | ⟨hlt,-,hkey,hcontents⟩
    · obtain ⟨hlt,j,c,hc,hkey,hcontents⟩ := h.target k dir hold
      obtain ⟨c',hc',hrequest⟩ := hkept j c hc
      refine ⟨hlt.trans_le hacts.created,j,c',hc',by rw [hrequest]; exact hkey,?_⟩
      rw [hrequest, hacts.contents _ (.inr ⟨k,hold⟩)]
      exact hcontents
    · exact ⟨hlt,i,call,hacts.self,hkey,hcontents⟩
  · intro place members hmembers
    by_cases hplace : place = call.request.place config
    · subst hplace
      exact ⟨i,call,hacts.self,rfl,htarballs members hmembers⟩
    · rw [hacts.tarballs place hplace] at hmembers
      obtain ⟨j,c,hc,hcplace,heq⟩ := h.tarballs place members hmembers
      obtain ⟨c',hc',hrequest⟩ := hkept j c hc
      exact ⟨j,c',hc',by rw [hrequest]; exact hcplace,by rw [hrequest]; exact heq⟩

section
variable (h : Sound config st) (hcall : st.calls[i]? = some call)
include h hcall

theorem uri_of_place {j : ℕ} {other : Call K} (hother : st.calls[j]? = some other)
    (hplace : other.request.place config = call.request.place config) : other.request.uri = call.request.uri :=
  h.keys j i other call hother hcall (congrArg Place.cache_key hplace)

theorem Sound.temp_at {serial : ℕ} (hserial : st.temp (call.request.place config) = some serial) : serial < st.created ∧
      (∀ k, st.target k ≠ some ⟨call.request.place config,serial⟩) ∧
      Within (config.tarball call.request.uri) (st.contents ⟨call.request.place config,serial⟩) := by
  obtain ⟨hlt,hne,j,other,hother,hplace,hwithin⟩ := h.known.temp _ _ hserial
  rw [uri_of_place h hcall hother hplace] at hwithin
  exact ⟨hlt,hne,hwithin⟩

theorem Sound.tarballs_at {members : List Member} (hmembers : st.tarballs (call.request.place config) = some members) :
    members = config.tarball call.request.uri := by
  obtain ⟨j,other,hother,hplace,heq⟩ := h.known.tarballs _ _ hmembers
  rw [uri_of_place h hcall hother hplace] at heq
  exact heq

end

theorem ids_of_place {request request' : Request} (h : request.place config = request'.place config) :
    request.pid = request'.pid ∧ request.unique_id = request'.unique_id :=
  ⟨congrArg Place.pid h,congrArg Place.unique_id h⟩

theorem calls_before {before : Call K} (hbefore : st.calls[i]? = some before) (hrequest : before.request = call.request) :
    ∀ b, st.calls[i]? = some b → b.request = call.request := by
  intro b hb
  obtain rfl := Option.some.inj (hbefore.symm.trans hb)
  exact hrequest

/-- A step of a call that is there, and that awaits or whose thread runs. -/
theorem Sound.keep (h : Sound config st) {before : Call K} (hbefore : st.calls[i]? = some before)
    (hacts : Acts config i call st st') (hrequest : before.request = call.request)
    (hactor : before.phase.live = true ∨ before.running = true ∧ st'.tarballs = st.tarballs)
    (hlive : call.phase.live = true → before.phase.live = true)
    (hextracting : call.phase = .extracting → before.phase = .extracting ∨ ∀ j ≠ i, ∀ other, st.calls[j]? = some other →
      other.running = true → other.request.place config ≠ call.request.place config)
    (hphase : InPhase config call st') (hknown : Known config st') : Onward config st st' := by
  have halone : before.phase.live = true → ∀ j ≠ i, ∀ other, st.calls[j]? = some other → other.phase.live = true →
      other.request.place config ≠ call.request.place config := by
    intro hbl j hj other hother hol hplace
    rw [← hrequest] at hplace
    exact h.unique j i other before hj hother hbefore hol hbl (ids_of_place hplace)
  refine ⟨h.step hacts ?_ ?_ ?_ ?_ hphase hknown,hacts.later (calls_before hbefore hrequest)⟩
  · intro j hj other hother hol hplace
    rcases hactor with hbl | ⟨hrunning,htarballs⟩
    · exact (halone hbl j hj other hother hol hplace).elim
    · refine ⟨fun hoe => ?_,htarballs⟩
      rw [← hrequest] at hplace
      exact h.exclusive j i other before hj hother hbefore hoe hrunning hplace.symm
  · intro j hj other hother hcl hol
    rw [← hrequest]
    exact h.unique i j before other hj.symm hbefore hother (hlive hcl) hol
  · intro j hj other hother hcase
    rcases hcase with ⟨hce,hor⟩ | ⟨hoe,-⟩
    · rcases hextracting hce with hbe | hcond
      · rw [← hrequest]
        exact h.exclusive i j before other hj.symm hbefore hother hbe hor
      · exact hcond j hj other hother hor
    · rcases hactor with hbl | ⟨hrunning,-⟩
      · exact halone hbl j hj other hother (by rw [hoe]; rfl)
      · rw [← hrequest]
        exact (h.exclusive j i other before hj hother hbefore hoe hrunning).symm
  · intro j _ other hother hkey
    rw [← hrequest] at hkey ⊢
    exact h.keys j i other before hother hbefore hkey

theorem Writes.congr {request : Request} {thread : Thread K} (h : Writes config request thread st)
    (hcreated : st.created ≤ st'.created) (htarget : st'.target = st.target) : Writes config request thread st' := by
  refine ⟨h.members,fun dir member hopen => ?_⟩
  obtain ⟨hmember,hplace,hserial,hne⟩ := h.handle dir member hopen
  refine ⟨hmember,hplace,hserial.trans_le hcreated,?_⟩
  rw [htarget]
  exact hne

theorem InPhase.of_none (hthread : call.thread = none) (hphase : call.phase ≠ .extracting)
    (hreturned : call.phase = .returned → (st.target (computeTarballCacheKey config call.request.uri)).isSome = true)
    (hdownloaded : call.phase = .downloaded → st.tarballs (call.request.place config) = some (config.tarball call.request.uri)) :
    InPhase config call st := by
  refine ⟨hreturned,fun _ _ => hthread,hdownloaded,fun hextracting => (hphase hextracting).elim,?_⟩
  intro thread hsome
  rw [hthread] at hsome
  cases hsome

variable {before : Call K}

theorem calls_set (hbefore : st.calls[i]? = some before) : (st.setCall i call).calls[i]? = some call := by
  change (st.calls.set i call)[i]? = some call
  obtain ⟨hi,-⟩ := List.getElem?_eq_some_iff.mp hbefore
  exact List.getElem?_set_self hi

theorem calls_set_ne {j : ℕ} (hj : j ≠ i) : (st.setCall i call).calls[j]? = st.calls[j]? :=
  List.getElem?_set_ne hj.symm

theorem acts_setCall (hbefore : st.calls[i]? = some before) : Acts config i call st (st.setCall i call) :=
  ⟨fun _ hj => calls_set_ne hj,calls_set hbefore,fun _ _ => rfl,fun _ _ => rfl,fun _ _ => rfl,le_rfl,fun _ _ h => .inl h,
    fun _ h => h⟩

theorem sound_setCall (h : Sound config st) (hbefore : st.calls[i]? = some before) (hrequest : before.request = call.request)
    (hactor : before.phase.live = true ∨ before.running = true) (hlive : call.phase.live = true → before.phase.live = true)
    (hextracting : call.phase = .extracting → before.phase = .extracting ∨ ∀ j ≠ i, ∀ other, st.calls[j]? = some other →
      other.running = true → other.request.place config ≠ call.request.place config)
    (hphase : InPhase config call (st.setCall i call)) : Onward config st (st.setCall i call) := by
  have hacts : Acts config i call st (st.setCall i call) := acts_setCall hbefore
  refine h.keep hbefore hacts hrequest (hactor.imp_right fun hr => ⟨hr,rfl⟩) hlive hextracting hphase ?_
  refine h.known.step hacts (calls_before hbefore hrequest) ?_ h.known.fresh (fun _ _ hk => .inl hk) ?_
  · rw [← hrequest]
    intro serial hserial
    exact h.temp_at hbefore hserial
  · rw [← hrequest]
    intro members hmembers
    exact h.tarballs_at hbefore hmembers

theorem Sound.target_at (h : Sound config st) (hcall : st.calls[i]? = some call) {dir : Dir K}
    (hdir : st.target (computeTarballCacheKey config call.request.uri) = some dir) (path : Text) :
    (st.contents dir).lookup path = (extracted (config.tarball call.request.uri)).lookup path := by
  obtain ⟨-,j,other,hother,hkey,hcontents⟩ := h.known.target _ _ hdir
  rw [hcontents, lookup_extracted, h.keys j i other call hother hcall hkey]

theorem Sound.correct (h : Sound config st) : Correct config st := by
  constructor
  · intro call hmem dir hdir
    obtain ⟨i,hcall⟩ := List.mem_iff_getElem?.mp hmem
    exact h.target_at hcall hdir
  · intro call hmem hphase
    obtain ⟨i,hcall⟩ := List.mem_iff_getElem?.mp hmem
    exact (h.phases i call hcall).returned hphase

theorem Sound.kept (h : Sound config st) (h' : Sound config st') (hlater : Later st st') : Kept st st' := by
  intro k dir hdir
  obtain ⟨dir',hdir'⟩ := Option.isSome_iff_exists.mp (hlater.targets k (by rw [hdir]; rfl))
  refine ⟨dir',hdir',fun path => ?_⟩
  -- both have the contents of the tarball of one call
  obtain ⟨-,j,call,hcall,rfl,-⟩ := h.known.target k dir hdir
  obtain ⟨call',hcall',hrequest⟩ := hlater.requests j call hcall
  rw [h.target_at hcall hdir path, ← hrequest]
  rw [← hrequest] at hdir'
  exact h'.target_at hcall' hdir' path

theorem sound_started : Sound config started := by
  have hno : ∀ (i : ℕ) (call : Call K), (started : State K).calls[i]? = some call → False := by
    intro i call hcall
    cases hcall
  refine ⟨fun i _ call _ _ hcall => (hno i call hcall).elim,fun i _ call _ _ hcall => (hno i call hcall).elim,
    fun i _ call _ hcall => (hno i call hcall).elim,fun i call hcall => (hno i call hcall).elim,?_,fun _ _ => rfl,?_,?_⟩
  · intro _ _ htemp
    cases htemp
  · intro _ _ htarget
    cases htarget
  · intro _ _ htarball
    cases htarball

end Invariant
end TarballCache
end Allama
