import Allama.TarballInvariant

/-! When the target directories of extracted tarballs are complete and lasting. -/
namespace Allama
namespace TarballCache
open Function RecordFields
section Calls
variable {K : Type} {config : Config K} {i : ℕ} {before : Call K} {request : Request} {phase : Phase}
  {thread : Option (Thread K)} {members : Option (List Member)} {handle : Option (Dir K × Member)} {st st' : State K}

theorem sound_acquire (h : Sound config st) (hbefore : st.calls[i]? = some ⟨request,.locking,thread⟩) :
    Onward config st (st.setCall i ⟨request,
      if (st.target (computeTarballCacheKey config request.uri)).isSome then .returned else .downloading,thread⟩) := by
  have hnone : thread = none := (h.phases i _ hbefore).waiting rfl Phase.noConfusion
  refine sound_setCall h hbefore rfl (.inl rfl) (fun _ => rfl) ?_ ?_
  · dsimp only
    split <;> exact Phase.noConfusion
  · cases htarget : (st.target (computeTarballCacheKey config request.uri)).isSome with
    | true =>
      rw [if_pos rfl]
      exact .of_none hnone Phase.noConfusion (fun _ => htarget) Phase.noConfusion
    | false =>
      rw [if_neg Bool.false_ne_true]
      exact .of_none hnone Phase.noConfusion Phase.noConfusion Phase.noConfusion

theorem InPhase.of_thread {before after : Thread K} (h : InPhase config ⟨request,phase,some before⟩ st)
    (htarget : st'.target = st.target) (hprogress : phase = .extracting → Progress config request st' after)
    (hwrites : after.exit = none → Writes config request after st') : InPhase config ⟨request,phase,some after⟩ st' := by
  have hnever : phase.live = true → phase ≠ .extracting → False := by
    intro hlive hne
    cases h.waiting hlive hne
  refine ⟨?_,fun hlive hne => (hnever hlive hne).elim,?_,fun he => ⟨after,rfl,hprogress he⟩,?_⟩
  · intro hreturned
    rw [htarget]
    exact h.returned hreturned
  · intro hdownloaded
    obtain rfl : phase = .downloaded := hdownloaded
    exact (hnever rfl Phase.noConfusion).elim
  · intro t ht hexit
    cases ht
    exact hwrites hexit

theorem Progress.of_open {dir : Dir K} {member : Member} (h : Progress config request st ⟨members,some (dir,member),none⟩) :
    ∃ serial before after, members = some after ∧ dir = ⟨request.place config,serial⟩ ∧
      st.temp (request.place config) = some serial ∧ config.tarball request.uri = before ++ member :: after ∧
      ∀ path ≠ member.1, path ∈ before.map Prod.fst → (st.contents dir).lookup path = before.reverse.lookup path := by
  generalize hthread : (⟨members,some (dir,member),none⟩ : Thread K) = thread at h
  cases h with
  | writing serial before m after hserial heq hfilled =>
    obtain ⟨rfl,hopen,-⟩ := Thread.mk.inj hthread
    cases hopen
    exact ⟨serial,before,after,rfl,rfl,hserial,heq,hfilled⟩
  | unopened => cases hthread
  | between => cases hthread
  | ended => cases hthread
  | failed => cases hthread

theorem sound_opens (h : Sound config st) (hbefore : st.calls[i]? = some ⟨request,phase,some ⟨none,handle,none⟩⟩) :
    Onward config st (st.setThread i ⟨request,phase,some ⟨none,handle,none⟩⟩ (openTarball (st.tarballs (request.place config)))) := by
  have hphase := h.phases i _ hbefore
  refine sound_setCall h hbefore rfl (.inr rfl) id .inl (hphase.of_thread rfl ?_ ?_)
  · intro he
    obtain ⟨t,ht,hprogress⟩ := hphase.extracting he
    cases ht
    cases hprogress with
    | unopened serial htarball hserial =>
      have htarball' : st.tarballs (request.place config) = some (config.tarball request.uri) := htarball
      rw [htarball']
      exact .between serial [] _ hserial rfl (filled_nil _)
  · intro hexit
    cases htarball : st.tarballs (request.place config) with
    | none =>
      rw [htarball] at hexit
      cases hexit
    | some members =>
      refine ⟨?_,?_⟩
      · intro ms hms m hm
        cases hms
        rw [h.tarballs_at hbefore htarball] at hm
        exact hm
      · intro _ _ hnone
        cases hnone

theorem Progress.of_ended (h : Progress config request st ⟨members,handle,some true⟩) :
    ∃ serial, st.temp (request.place config) = some serial ∧
      Filled (config.tarball request.uri) (st.contents ⟨request.place config,serial⟩) := by
  generalize hthread : (⟨members,handle,some true⟩ : Thread K) = thread at h
  cases h with
  | ended serial _ _ hserial hfilled => exact ⟨serial,hserial,hfilled⟩
  | unopened => cases hthread
  | between => cases hthread
  | writing => cases hthread
  | failed => cases hthread

theorem sound_ends (h : Sound config st) (hbefore : st.calls[i]? = some ⟨request,phase,some ⟨members,handle,none⟩⟩)
    {succeeds : Bool} (hsucceeds : succeeds = true → members = some [] ∧ handle = none) :
    Onward config st (st.setCall i ⟨request,phase,some ⟨members,none,some succeeds⟩⟩) := by
  have hphase := h.phases i _ hbefore
  refine sound_setCall h hbefore rfl (.inr rfl) id .inl (hphase.of_thread rfl ?_ ?_)
  · intro he
    obtain ⟨t,ht,hprogress⟩ := hphase.extracting he
    cases ht
    cases succeeds with
    | false => exact .failed _ _
    | true =>
      obtain ⟨rfl,rfl⟩ := hsucceeds rfl
      cases hprogress with
      | between serial before _ hserial heq hfilled =>
        rw [List.append_nil] at heq
        refine .ended serial _ _ hserial ?_
        rw [heq]
        exact hfilled
  · intro hexit
    cases hexit

/-- A call begins that has the key of no other URI, in a task that is in no call. -/
theorem sound_ensure (h : Sound config st)
    (hidle : ∀ call ∈ st.calls, call.phase.live = true →
      ¬ (call.request.pid = request.pid ∧ call.request.unique_id = request.unique_id))
    (hkeys : ∀ call ∈ st.calls, computeTarballCacheKey config call.request.uri = computeTarballCacheKey config request.uri →
      call.request.uri = request.uri) :
    Onward config st { st with calls := st.calls ++ [⟨request,
      if (st.target (computeTarballCacheKey config request.uri)).isSome then .returned else .locking,none⟩] } := by
  generalize hphase : (if (st.target (computeTarballCacheKey config request.uri)).isSome then Phase.returned else .locking) = phase
  have hne : phase ≠ .extracting ∧ phase ≠ .downloaded := by
    rw [← hphase]
    split
    · exact ⟨Phase.noConfusion,Phase.noConfusion⟩
    · exact ⟨Phase.noConfusion,Phase.noConfusion⟩
  have hreturned : phase = .returned → (st.target (computeTarballCacheKey config request.uri)).isSome = true := by
    rw [← hphase]
    split
    · rename_i hsome
      exact fun _ => hsome
    · exact Phase.noConfusion
  have hcalls : ∀ j ≠ st.calls.length, (st.calls ++ [⟨request,phase,none⟩])[j]? = st.calls[j]? := by
    intro j hj
    rcases Nat.lt_or_gt_of_ne hj with hlt | hgt
    · exact List.getElem?_append_left hlt
    · rw [List.getElem?_eq_none hgt.le]
      apply List.getElem?_eq_none
      rw [List.length_append]
      exact hgt
  have hacts : Acts config st.calls.length ⟨request,phase,none⟩ st { st with calls := st.calls ++ [⟨request,phase,none⟩] } :=
    ⟨hcalls,List.getElem?_concat_length,fun _ _ => rfl,fun _ _ => rfl,fun _ _ => rfl,le_rfl,fun _ _ h => .inl h,fun _ h => h⟩
  have hmem : ∀ {j : ℕ} {other : Call K}, st.calls[j]? = some other → other ∈ st.calls := List.mem_of_getElem?
  have hfree : st.calls[st.calls.length]? = none := List.getElem?_eq_none le_rfl
  refine ⟨h.step hacts ?_ ?_ ?_ ?_ (.of_none rfl hne.1 hreturned fun hd => (hne.2 hd).elim) ?_,
    hacts.later fun c hc => nomatch hfree.symm.trans hc⟩
  · intro j _ other hother hlive hplace
    exact (hidle other (hmem hother) hlive (ids_of_place hplace)).elim
  · intro j _ other hother _ hlive hids
    exact hidle other (hmem hother) hlive ⟨hids.1.symm,hids.2.symm⟩
  · intro j _ other hother hcase hplace
    rcases hcase with ⟨he,-⟩ | ⟨-,hrunning⟩
    · exact hne.1 he
    · cases hrunning
  · intro j _ other hother hkey
    exact hkeys other (hmem hother) hkey
  · -- the directories are the same, and so are the calls that they are known by
    have hkept : ∀ (j : ℕ) (c : Call K), st.calls[j]? = some c → (st.calls ++ [⟨request,phase,none⟩])[j]? = some c := by
      intro j c hc
      rw [hcalls j (List.getElem?_eq_some_iff.mp hc).1.ne]
      exact hc
    refine ⟨?_,h.known.fresh,?_,?_⟩
    · intro place serial hserial
      obtain ⟨hlt,hnot,j,c,hc,hrest⟩ := h.known.temp place serial hserial
      exact ⟨hlt,hnot,j,c,hkept j c hc,hrest⟩
    · intro k dir hdir
      obtain ⟨hlt,j,c,hc,hrest⟩ := h.known.target k dir hdir
      exact ⟨hlt,j,c,hkept j c hc,hrest⟩
    · intro place ms hms
      obtain ⟨j,c,hc,hrest⟩ := h.known.tarballs place ms hms
      exact ⟨j,c,hkept j c hc,hrest⟩

variable [DecidableEq K]

theorem acts_leave (hbefore : st.calls[i]? = some before) (phase : Phase) :
    Acts config i { before with phase := phase } st (st.leave config i before phase) :=
  ⟨fun _ hj => calls_set_ne hj,calls_set hbefore,fun _ hp => update_of_ne hp _ _,fun _ hp => update_of_ne hp _ _,
    fun _ _ => rfl,le_rfl,fun _ _ h => .inl h,fun _ h => h⟩

theorem known_leave (h : Sound config st) (hbefore : st.calls[i]? = some before) (phase : Phase) :
    Known config (st.leave config i before phase) := by
  refine h.known.step (acts_leave hbefore phase) (calls_before hbefore rfl) ?_ h.known.fresh (fun _ _ hk => .inl hk) ?_
  · intro serial hserial
    have hnone : (st.leave config i before phase).temp (before.request.place config) = none := update_self ..
    cases hserial.symm.trans hnone
  · intro members hmembers
    have hnone : (st.leave config i before phase).tarballs (before.request.place config) = none := update_self ..
    cases hmembers.symm.trans hnone

theorem sound_leave (h : Sound config st) (hbefore : st.calls[i]? = some before) (hlive : before.phase.live = true) {phase : Phase}
    (hphase : phase = .raised ∨ phase = .cancelled) : Onward config st (st.leave config i before phase) := by
  have hacts : Acts config i { before with phase := phase } st (st.leave config i before phase) := acts_leave hbefore phase
  have hdead : phase.live = false := by rcases hphase with rfl | rfl <;> rfl
  have hne : ∀ {other : Phase}, other.live = true ∨ other = .returned → phase ≠ other := by
    rintro other hother rfl
    rcases hother with hother | rfl
    · rw [hdead] at hother
      cases hother
    · rcases hphase with hphase | hphase <;> cases hphase
  refine h.keep hbefore hacts rfl (.inl hlive) (fun _ => hlive) ?_ ⟨?_,?_,?_,?_,?_⟩ (known_leave h hbefore phase)
  · exact fun he => (hne (.inl rfl) he).elim
  · exact fun hr => (hne (.inr rfl) hr).elim
  · intro hl
    rw [hdead] at hl
    cases hl
  · exact fun hd => (hne (.inl rfl) hd).elim
  · exact fun he => (hne (.inl rfl) he).elim
  · intro thread hthread hexit
    exact ((h.phases i before hbefore).running thread hthread hexit).congr le_rfl rfl

theorem sound_download (h : Sound config st) (hbefore : st.calls[i]? = some ⟨request,.downloading,thread⟩) :
    Onward config st { st.setCall i ⟨request,.downloaded,thread⟩ with
      tarballs := update st.tarballs (request.place config) (some (config.tarball request.uri)) } := by
  have hnone : thread = none := (h.phases i _ hbefore).waiting rfl Phase.noConfusion
  have hacts : Acts config i ⟨request,.downloaded,thread⟩ st { st.setCall i ⟨request,.downloaded,thread⟩ with
      tarballs := update st.tarballs (request.place config) (some (config.tarball request.uri)) } :=
    ⟨fun _ hj => calls_set_ne hj,calls_set hbefore,fun _ _ => rfl,fun _ hp => update_of_ne hp _ _,fun _ _ => rfl,le_rfl,
      fun _ _ h => .inl h,fun _ h => h⟩
  refine h.keep hbefore hacts rfl (.inl rfl) (fun _ => rfl) Phase.noConfusion ?_ ?_
  · exact .of_none hnone Phase.noConfusion Phase.noConfusion fun _ => update_self ..
  · refine h.known.step hacts (calls_before hbefore rfl) ?_ h.known.fresh (fun _ _ hk => .inl hk) ?_
    · intro serial hserial
      exact h.temp_at hbefore hserial
    · intro members hmembers
      have hself : update st.tarballs (request.place config) (some (config.tarball request.uri)) (request.place config) =
        some (config.tarball request.uri) := update_self ..
      exact (Option.some.inj (hself.symm.trans hmembers)).symm

theorem makeDir_of_some {place : Place K} {serial : ℕ} (h : st.temp place = some serial) :
    st.makeDir place = (st,⟨place,serial⟩) := by
  unfold State.makeDir
  rw [h]

theorem makeDir_again (st : State K) (place : Place K) : (st.makeDir place).1.temp place = some (st.makeDir place).2.serial ∧
    (st.makeDir place).1.makeDir place = st.makeDir place ∧ (st.makeDir place).1.calls = st.calls ∧
    (st.makeDir place).1.tarballs = st.tarballs ∧ (st.makeDir place).1.target = st.target := by
  cases hserial : st.temp place with
  | some serial =>
    rw [makeDir_of_some hserial]
    exact ⟨hserial,makeDir_of_some hserial,rfl,rfl,rfl⟩
  | none =>
    have hmade : st.makeDir place = ({ st with temp := update st.temp place (some st.created), created := st.created + 1 },
        ⟨place,st.created⟩) := by
      unfold State.makeDir
      rw [hserial]
    have htemp : (st.makeDir place).1.temp place = some st.created := by
      rw [hmade]
      exact update_self ..
    refine ⟨by rw [htemp, hmade],?_,by rw [hmade],by rw [hmade],by rw [hmade]⟩
    rw [makeDir_of_some htemp, hmade]

section
variable (h : Sound config st)
include h

/-- A directory is created at the place of a call, if there is none. -/
theorem sound_makeDir (hbefore : st.calls[i]? = some before) (hactor : before.phase.live = true ∨ before.running = true) :
    Onward config st (st.makeDir (before.request.place config)).1 := by
  cases hserial : st.temp (before.request.place config) with
  | some serial =>
    rw [makeDir_of_some hserial]
    exact ⟨h,.refl st⟩
  | none =>
    have hmade : (st.makeDir (before.request.place config)).1 = { st with
        temp := update st.temp (before.request.place config) (some st.created), created := st.created + 1 } := by
      unfold State.makeDir
      rw [hserial]
    rw [hmade]
    have hacts : Acts config i before st { st with
        temp := update st.temp (before.request.place config) (some st.created), created := st.created + 1 } :=
      ⟨fun _ _ => rfl,hbefore,fun _ hp => update_of_ne hp _ _,fun _ _ => rfl,fun _ _ => rfl,Nat.le_succ _,
        fun _ _ h => .inl h,fun _ h => h⟩
    obtain ⟨hreturned,hwaiting,hdownloaded,hextracting,hrunning⟩ := h.phases i before hbefore
    refine h.keep hbefore hacts rfl (hactor.imp_right fun hr => ⟨hr,rfl⟩) id .inl ⟨hreturned,hwaiting,hdownloaded,?_,?_⟩ ?_
    · intro he
      obtain ⟨⟨members,handle,exit⟩,hthread,hprogress⟩ := hextracting he
      rcases hprogress.temp with hexit | ⟨serial,hsome⟩
      · obtain rfl : exit = some false := hexit
        exact ⟨_,hthread,.failed members handle⟩
      · rw [hserial] at hsome
        cases hsome
    · intro thread hthread hexit
      exact (hrunning thread hthread hexit).congr (Nat.le_succ _) rfl
    · refine h.known.step hacts (calls_before hbefore rfl) ?_ ?_ (fun _ _ hk => .inl hk) ?_
      · intro serial hs
        have hself : update st.temp (before.request.place config) (some st.created) (before.request.place config) =
          some st.created := update_self ..
        obtain rfl := Option.some.inj (hself.symm.trans hs)
        refine ⟨Nat.lt_succ_self _,?_,?_⟩
        · intro k hk
          exact lt_irrefl _ (h.known.target k _ hk).1
        · change Within _ (st.contents _)
          rw [h.known.fresh _ le_rfl]
          exact within_nil _
      · intro dir hdir
        exact h.known.fresh dir ((Nat.le_succ _).trans hdir)
      · intro members hmembers
        exact h.tarballs_at hbefore hmembers

theorem sound_extract (hbefore : st.calls[i]? = some ⟨request,.downloaded,thread⟩)
    (halone : ∀ j ≠ i, ∀ other, st.calls[j]? = some other → other.running = true →
      other.request.place config ≠ request.place config) :
    Onward config st ((st.makeDir (request.place config)).1.setCall i ⟨request,.extracting,some ⟨none,none,none⟩⟩) := by
  obtain ⟨htemp,-,hcalls,htarballs,-⟩ := makeDir_again st (request.place config)
  have hmade : Onward config st (st.makeDir (request.place config)).1 := sound_makeDir h hbefore (.inl rfl)
  have hbefore' : (st.makeDir (request.place config)).1.calls[i]? = some ⟨request,.downloaded,thread⟩ := by
    rw [hcalls]
    exact hbefore
  have hdownloaded : st.tarballs (request.place config) = some (config.tarball request.uri) :=
    (h.phases i _ hbefore).downloaded rfl
  refine hmade.trans (sound_setCall hmade.sound hbefore' rfl (.inl rfl) (fun _ => rfl) (fun _ => .inr ?_)
    ⟨Phase.noConfusion,fun _ hne => (hne rfl).elim,Phase.noConfusion,fun _ => ⟨_,rfl,?_⟩,?_⟩)
  · rw [hcalls]
    exact halone
  · exact .unopened _ ((congrFun htarballs _).trans hdownloaded) htemp
  · intro t ht _
    cases ht
    exact ⟨fun _ hnone => (Option.some_ne_none _ hnone.symm).elim,fun _ _ hnone => (Option.some_ne_none _ hnone.symm).elim⟩

/-- A thread writes to a file of its directory. -/
theorem sound_writeFile {before after : Thread K} {dir : Dir K} {member : Member} {data : List UInt8}
    (hbefore : st.calls[i]? = some ⟨request,phase,some before⟩) (hexit : before.exit = none)
    (hplace : dir.place = request.place config) (hserial : dir.serial < st.created) (hne : ∀ k, st.target k ≠ some dir)
    (hmember : member ∈ config.tarball request.uri) (hwrites : Writes config request after st)
    (hprogress : phase = .extracting → Progress config request { st.setThread i ⟨request,phase,some before⟩ after with
      contents := update st.contents dir (put member.1 data (st.contents dir)) } after) :
    Onward config st { st.setThread i ⟨request,phase,some before⟩ after with
      contents := update st.contents dir (put member.1 data (st.contents dir)) } := by
  have hrunning : Call.running ⟨request,phase,some before⟩ = true := Option.isNone_iff_eq_none.mpr hexit
  have hacts : Acts config i ⟨request,phase,some after⟩ st { st.setThread i ⟨request,phase,some before⟩ after with
      contents := update st.contents dir (put member.1 data (st.contents dir)) } := by
    refine ⟨fun _ hj => calls_set_ne hj,calls_set hbefore,fun _ _ => rfl,fun _ _ => rfl,?_,le_rfl,fun _ _ h => .inl h,fun _ h => h⟩
    intro d hd
    apply update_of_ne
    rintro rfl
    rcases hd with hd | ⟨k,hk⟩
    · exact hd hplace
    · exact hne k hk
  refine h.keep hbefore hacts rfl (.inr ⟨hrunning,rfl⟩) id .inl
    ((h.phases i _ hbefore).of_thread rfl hprogress fun _ => hwrites.congr le_rfl rfl) ?_
  refine h.known.step hacts (calls_before hbefore rfl) ?_ ?_ (fun _ _ hk => .inl hk) ?_
  · intro serial hs
    obtain ⟨hlt,hnot,hwithin⟩ := h.temp_at hbefore hs
    refine ⟨hlt,hnot,?_⟩
    change Within _ (update st.contents dir (put member.1 data (st.contents dir)) ⟨request.place config,serial⟩)
    by_cases heq : dir = ⟨request.place config,serial⟩
    · subst heq
      rw [update_self]
      exact within_put hwithin hmember data
    · rw [update_of_ne (Ne.symm heq)]
      exact hwithin
  · intro d hd
    have hd' : d ≠ dir := by
      rintro rfl
      exact absurd hserial (not_lt_of_ge hd)
    exact (update_of_ne hd' _ _).trans (h.known.fresh d hd)
  · intro ms hms
    exact h.tarballs_at hbefore hms

theorem sound_openMember {member : Member} {members : List Member}
    (hbefore : st.calls[i]? = some ⟨request,phase,some ⟨some (member :: members),none,none⟩⟩) :
    Onward config st (openMember config i ⟨request,phase,some ⟨some (member :: members),none,none⟩⟩ member members st) := by
  obtain ⟨htemp,hagain,hcalls,-,-⟩ := makeDir_again st (request.place config)
  obtain ⟨hmade,hlater⟩ : Onward config st (st.makeDir (request.place config)).1 := sound_makeDir h hbefore (.inr rfl)
  have hbefore' : (st.makeDir (request.place config)).1.calls[i]? =
      some ⟨request,phase,some ⟨some (member :: members),none,none⟩⟩ := by
    rw [hcalls]
    exact hbefore
  have hdir : (st.makeDir (request.place config)).2 = ⟨request.place config,(st.makeDir (request.place config)).2.serial⟩ := by
    have hmake := makeDir_of_some htemp
    rw [hagain] at hmake
    exact congrArg Prod.snd hmake
  unfold openMember
  dsimp only
  generalize hst : (st.makeDir (request.place config)).1 = made at *
  generalize (st.makeDir (request.place config)).2 = dir at *
  obtain ⟨place,serial⟩ := dir
  obtain rfl : place = request.place config := congrArg Dir.place hdir
  have hserial : made.temp (request.place config) = some serial := htemp
  obtain ⟨hlt,hne,-⟩ := hmade.temp_at hbefore' hserial
  have hphase := hmade.phases i _ hbefore'
  have hmembers := (hphase.running _ rfl rfl).members _ rfl
  refine .trans ⟨hmade,hlater⟩
    (sound_writeFile hmade hbefore' rfl rfl hlt hne (hmembers member List.mem_cons_self) ⟨?_,?_⟩ ?_)
  · intro ms hms m hm
    cases hms
    exact hmembers m (List.mem_cons_of_mem _ hm)
  · intro d m hopen
    cases hopen
    exact ⟨hmembers _ List.mem_cons_self,rfl,hlt,hne⟩
  · intro he
    obtain ⟨t,ht,hprogress⟩ := hphase.extracting he
    cases ht
    cases hprogress with
    | between serial' before _ hserial' heq hfilled =>
      obtain rfl := Option.some.inj (hserial.symm.trans hserial')
      refine .writing serial before member members hserial heq ?_
      intro path hpath hmem
      change (update made.contents _ _ _).lookup path = _
      rw [update_self, lookup_put_ne _ hpath]
      exact hfilled path hmem

theorem sound_writeMember {dir : Dir K} {member : Member}
    (hbefore : st.calls[i]? = some ⟨request,phase,some ⟨members,some (dir,member),none⟩⟩) (bytes : ℕ) :
    Onward config st (writeMember i ⟨request,phase,some ⟨members,some (dir,member),none⟩⟩ members dir member bytes st) := by
  have hphase := h.phases i _ hbefore
  have hwrites := hphase.running _ rfl rfl
  obtain ⟨hmember,hplace,hserial,hne⟩ := hwrites.handle dir member rfl
  refine sound_writeFile h hbefore rfl hplace hserial hne hmember ⟨hwrites.members,?_⟩ ?_
  · intro d m hopen
    dsimp only at hopen
    split at hopen
    · cases hopen
    · cases hopen
      exact ⟨hmember,hplace,hserial,hne⟩
  · intro he
    obtain ⟨t,ht,hprogress⟩ := hphase.extracting he
    cases ht
    obtain ⟨serial,before,after,rfl,hdir,hs,heq,hfilled⟩ := hprogress.of_open
    obtain rfl : dir = ⟨request.place config,serial⟩ := hdir
    split
    · -- the last data of the member
      rename_i hall
      refine .between serial (before ++ [member]) after hs (by rw [heq, List.append_assoc]; rfl) ?_
      change Filled _ (update st.contents _ _ _)
      rw [update_self, List.take_of_length_le hall]
      exact filled_append hfilled
    · refine .writing serial before member after hs heq ?_
      intro path hpath hmem
      change (update st.contents _ _ _).lookup path = _
      rw [update_self, lookup_put_ne _ hpath]
      exact hfilled path hpath hmem

end

/-- The state after the rename of a directory to a target that is free. -/
def State.renamed (config : Config K) (request : Request) (serial : ℕ) (st : State K) : State K :=
  { st with
    temp := update st.temp (request.place config) none
    target := update st.target (computeTarballCacheKey config request.uri) (some ⟨request.place config,serial⟩) }

theorem rename_free {serial : ℕ} (hserial : st.temp (request.place config) = some serial)
    (hfree : ((st.target (computeTarballCacheKey config request.uri)).map st.contents).getD [] = []) :
    st.rename config request = st.renamed config request serial := by
  unfold State.rename
  rw [hserial]
  exact if_pos hfree

theorem rename_taken (htaken : ((st.target (computeTarballCacheKey config request.uri)).map st.contents).getD [] ≠ []) :
    st.rename config request = st ∧ (st.target (computeTarballCacheKey config request.uri)).isSome = true := by
  constructor
  · unfold State.rename
    split
    · rfl
    · exact if_neg htaken
  · cases htarget : st.target (computeTarballCacheKey config request.uri) with
    | some dir => rfl
    | none =>
      rw [htarget] at htaken
      exact (htaken rfl).elim

/-- The directory is complete: it becomes the target directory, unless there is one. -/
theorem sound_publish (h : Sound config st)
    (hbefore : st.calls[i]? = some ⟨request,.extracting,some ⟨members,handle,some true⟩⟩) :
    Onward config st (resume config i ⟨request,.extracting,some ⟨members,handle,some true⟩⟩ true st) := by
  obtain ⟨t,ht,hprogress⟩ := (h.phases i _ hbefore).extracting rfl
  cases ht
  obtain ⟨serial,hserial,hfilled⟩ := hprogress.of_ended
  obtain ⟨hlt,hne,hwithin⟩ := h.temp_at hbefore hserial
  have hdone : ∀ thread : Thread K, (some ⟨members,handle,some true⟩ : Option (Thread K)) = some thread → thread.exit = none →
      ∀ st' : State K, Writes config request thread st' := by
    intro thread hthread hexit
    cases hthread
    cases hexit
  unfold resume
  rw [if_pos rfl]
  dsimp only
  by_cases hfree : ((st.target (computeTarballCacheKey config request.uri)).map st.contents).getD [] = []
  · have hsome : ((st.renamed config request serial).target (computeTarballCacheKey config request.uri)).isSome = true := by
      unfold State.renamed
      dsimp only
      rw [update_self]
      rfl
    rw [rename_free hserial hfree, if_pos hsome]
    -- no other thread runs at the place of the directory that is renamed
    have halone : ∀ j ≠ i, ∀ other, st.calls[j]? = some other → other.running = true →
        other.request.place config ≠ request.place config :=
      fun j hj other hother hrunning => h.exclusive i j _ other hj.symm hbefore hother rfl hrunning
    have htarget : ∀ k dir, (st.renamed config request serial).target k = some dir →
        st.target k = some dir ∨ dir = ⟨request.place config,serial⟩ ∧ computeTarballCacheKey config request.uri = k := by
      intro k dir hk
      by_cases hkey : k = computeTarballCacheKey config request.uri
      · subst hkey
        have hself : (st.renamed config request serial).target (computeTarballCacheKey config request.uri) =
          some ⟨request.place config,serial⟩ := update_self ..
        exact .inr ⟨(Option.some.inj (hself.symm.trans hk)).symm,rfl⟩
      · exact .inl ((update_of_ne hkey _ _).symm.trans hk)
    have hnone : ((st.renamed config request serial).leave config i
        ⟨request,.extracting,some ⟨members,handle,some true⟩⟩ .returned).temp (request.place config) = none := update_self ..
    have hacts : Acts config i ⟨request,.returned,some ⟨members,handle,some true⟩⟩ st
        ((st.renamed config request serial).leave config i ⟨request,.extracting,some ⟨members,handle,some true⟩⟩ .returned) := by
      refine ⟨fun _ hj => calls_set_ne hj,calls_set hbefore,?_,fun _ hp => update_of_ne hp _ _,fun _ _ => rfl,le_rfl,?_,?_⟩
      · intro place hp
        exact (update_of_ne hp _ _).trans (update_of_ne hp _ _)
      · intro k dir hk
        exact (htarget k dir hk).imp_right fun hdir => ⟨congrArg Dir.place hdir.1,halone⟩
      · intro k hk
        change (update st.target _ _ k).isSome = true
        by_cases hkey : k = computeTarballCacheKey config request.uri
        · rw [hkey, update_self]
          rfl
        · rw [update_of_ne hkey]
          exact hk
    refine h.keep hbefore hacts rfl (.inl rfl) (fun _ => rfl) Phase.noConfusion
      ⟨fun _ => hsome,Bool.noConfusion,Phase.noConfusion,Phase.noConfusion,fun t ht hexit => hdone t ht hexit _⟩ ?_
    refine h.known.step hacts (calls_before hbefore rfl) ?_ h.known.fresh ?_ ?_
    · intro s hs
      cases hnone.symm.trans hs
    · intro k dir hk
      refine (htarget k dir hk).imp_right ?_
      rintro ⟨rfl,hkey⟩
      exact ⟨hlt,rfl,hkey,lookup_of_filled hfilled hwithin⟩
    · intro ms hms
      have hnone' : ((st.renamed config request serial).leave config i
        ⟨request,.extracting,some ⟨members,handle,some true⟩⟩ .returned).tarballs (request.place config) = none :=
        update_self ..
      cases hnone'.symm.trans hms
  · obtain ⟨hrename,hsome⟩ := rename_taken hfree
    rw [hrename, if_pos hsome]
    have hacts : Acts config i ⟨request,.returned,some ⟨members,handle,some true⟩⟩ st (st.leave config i _ .returned) :=
      acts_leave hbefore .returned
    exact h.keep hbefore hacts rfl (.inl rfl) (fun _ => rfl) Phase.noConfusion
      ⟨fun _ => hsome,Bool.noConfusion,Phase.noConfusion,Phase.noConfusion,fun t ht hexit => hdone t ht hexit _⟩
      (known_leave h hbefore .returned)

theorem sound_resume {succeeded : Bool} (h : Sound config st)
    (hbefore : st.calls[i]? = some ⟨request,.extracting,some ⟨members,handle,some succeeded⟩⟩) :
    Onward config st (resume config i ⟨request,.extracting,some ⟨members,handle,some succeeded⟩⟩ succeeded st) := by
  cases succeeded with
  | true => exact sound_publish h hbefore
  | false => exact sound_leave h hbefore rfl (.inl rfl)

end Calls

section Runs
variable {K : Type} [DecidableEq K] {config : Config K} {st st' : State K} {action : Action}

theorem sound_next (h : Sound config st) (hok : Undisturbed config st action) (hnext : next config st action = some st') :
    Onward config st st' := by
  unfold next at hnext
  cases action with
  | ensure request =>
    dsimp only at hnext
    split at hnext
    · cases hnext
    · rename_i hidle
      cases hnext
      refine sound_ensure h ?_ hok
      rintro call hcall hlive ⟨hpid,hid⟩
      apply hidle
      refine List.any_eq_true.mpr ⟨call,hcall,?_⟩
      rw [hlive, hpid, hid, decide_eq_true rfl, decide_eq_true rfl]
      rfl
  | acquire i =>
    dsimp only at hnext
    split at hnext
    · rename_i hbefore
      split at hnext
      · cases hnext
      · cases hnext
        exact sound_acquire h hbefore
    · cases hnext
  | download i succeeds =>
    dsimp only at hnext
    split at hnext
    · rename_i hbefore
      split at hnext
      · cases hnext
        exact sound_download h hbefore
      · cases hnext
        exact sound_leave h hbefore rfl (.inl rfl)
    · cases hnext
  | extract i succeeds =>
    dsimp only at hnext
    split at hnext
    · rename_i hbefore
      split at hnext
      · cases hnext
        exact sound_extract h hbefore (hok _ hbefore)
      · cases hnext
        exact sound_leave h hbefore rfl (.inl rfl)
    · cases hnext
  | opens i =>
    dsimp only at hnext
    split at hnext
    · rename_i hbefore
      cases hnext
      exact sound_opens h hbefore
    · cases hnext
  | member i =>
    dsimp only at hnext
    split at hnext
    · rename_i hbefore
      cases hnext
      exact sound_openMember h hbefore
    · cases hnext
  | write i bytes =>
    dsimp only at hnext
    split at hnext
    · rename_i hbefore
      cases hnext
      exact sound_writeMember h hbefore bytes
    · cases hnext
  | ends i succeeds =>
    dsimp only at hnext
    split at hnext
    · rename_i request phase members handle hbefore
      split at hnext
      · cases hnext
      · rename_i hdone
        cases hnext
        refine sound_ends h hbefore ?_
        rintro rfl
        rw [Bool.true_and, Bool.not_eq_true, Bool.or_eq_false_iff] at hdone
        exact ⟨bne_eq_false_iff_eq.mp hdone.1,Option.isNone_iff_eq_none.mp (Option.isSome_eq_false_iff.mp hdone.2)⟩
    · cases hnext
  | resume i =>
    dsimp only at hnext
    split at hnext
    · rename_i hbefore
      cases hnext
      exact sound_resume h hbefore
    · cases hnext
  | cancel i =>
    dsimp only at hnext
    split at hnext
    · rename_i request phase thread hbefore
      split at hnext
      · rename_i hlocking
        subst hlocking
        cases hnext
        have hnone : thread = none := (h.phases i _ hbefore).waiting rfl Phase.noConfusion
        exact sound_setCall h hbefore rfl (.inl rfl) Bool.noConfusion Phase.noConfusion
          (.of_none hnone Phase.noConfusion Phase.noConfusion Phase.noConfusion)
      · split at hnext
        · rename_i hlocks
          cases hnext
          have hlive : phase.live = true := by
            cases phase <;> first | rfl | cases hlocks
          exact sound_leave h hbefore hlive (.inr rfl)
        · cases hnext
    · cases hnext

/-- In every run whose calls are told apart and undisturbed the target directories are as required, and stay so. -/
theorem targets_complete (config : Config K) {st st' : State K}
    (h : Runs.Reaches (next config) (Undisturbed config) started st)
    (h' : Runs.Reaches (next config) (Undisturbed config) st st') : Correct config st' ∧ Kept st st' := by
  have hsound : Sound config st := h.invariant sound_started fun _ _ _ _ hs hok hnext => (sound_next hs hok hnext).sound
  obtain ⟨hsound',hlater⟩ : Sound config st' ∧ Later st st' := by
    refine h'.invariant (P := fun t => Sound config t ∧ Later st t) ⟨hsound,.refl st⟩ ?_
    rintro t action t' - ⟨hs,hlater⟩ hok hnext
    have honward := sound_next hs hok hnext
    exact ⟨honward.sound,hlater.trans honward.later⟩
  exact ⟨hsound'.correct,hsound.kept hsound' hlater⟩

end Runs

section Samples

def sampleTarball : List Member := [("a".toList,[1,2])]

/-- The text itself stands for its digest, and there is one tarball. -/
def sampleConfig : Config Text := ⟨fun text => text,"base".toList,fun _ => sampleTarball⟩

def sampleUri : Text := "s3://b/k".toList

/-- A task with an id in a process. -/
def sampleRequest (pid unique_id : ℕ) : Request := ⟨sampleUri,pid,0,unique_id⟩

/-- Two calls of different processes begin. -/
def beginActions : List Action :=
  [.ensure (sampleRequest 1 7),.acquire 0,.download 0 true,.ensure (sampleRequest 2 7),.acquire 1,.download 1 true,.extract 0 true,
    .extract 1 true]

/-- The steps of their threads overlap. -/
def threadActions : List Action :=
  [.opens 0,.opens 1,.member 0,.write 0 1,.member 1,.write 1 1,.write 0 2,.ends 0 true,.resume 0,.write 1 2,.ends 1 true,.resume 1]

/-- A call is cancelled once its thread has opened the tarball. A new task with the id of its task extracts the tarball again, and
before it renames the directory the thread of the first call opens the file of the member in it. -/
def staleActions : List Action :=
  [.ensure (sampleRequest 1 7),.acquire 0,.download 0 true,.extract 0 true,.opens 0,.cancel 0,.ensure (sampleRequest 1 7),
    .acquire 1,.download 1 true,.extract 1 true,.opens 1,.member 1,.write 1 2,.ends 1 true,.member 0,.resume 1]

/-- What is in the target directory, and the phases of the calls. -/
def outcome (actions : List Action) : Option (Option (List Member) × List Phase) :=
  (Runs.follow (next sampleConfig) started actions).map fun st =>
    ((st.target sampleUri).map st.contents,st.calls.map Call.phase)

theorem targets_complete_overlapping : ∃ st0 st st', Runs.follow (next sampleConfig) started beginActions = some st0 ∧
    Runs.follow (next sampleConfig) st0 threadActions = some st ∧
    Runs.follow (next sampleConfig) st [.ensure (sampleRequest 2 7)] = some st' ∧
    Correct sampleConfig st' ∧ Kept st st' := by
  have huri : ∀ request : Request, request.uri = sampleUri → ∀ calls : List (Call Text),
      (∀ call ∈ calls, call.request.uri = sampleUri) → ∀ call ∈ calls,
        computeTarballCacheKey sampleConfig call.request.uri = computeTarballCacheKey sampleConfig request.uri →
          call.request.uri = request.uri :=
    fun request hrequest calls hcalls call hcall _ => (hcalls call hcall).trans hrequest.symm
  have hquiet : ∀ a ∈ threadActions, ∀ st, Undisturbed sampleConfig st a := by
    simp [threadActions, Undisturbed]
  have hbegin : Runs.Reaches (next sampleConfig) (Undisturbed sampleConfig) started
      ((Runs.follow (next sampleConfig) started beginActions).get rfl) := by
    refine .step (a := .extract 1 true) (.step (a := .extract 0 true) (.step (a := .download 1 true) (.step (a := .acquire 1)
      (.step (a := .ensure (sampleRequest 2 7)) (.step (a := .download 0 true) (.step (a := .acquire 0)
        (.step (a := .ensure (sampleRequest 1 7)) .refl (huri _ rfl _ ?_) rfl) trivial rfl) trivial rfl) (huri _ rfl _ ?_) rfl)
          trivial rfl) trivial rfl) ?_ rfl) ?_ rfl
    · intro call hcall
      cases hcall
    · intro call hcall
      obtain rfl := List.mem_singleton.mp hcall
      rfl
    · intro call _ j hj other hother hrunning
      match j, hother with
      | 0, _ => exact absurd rfl hj
      | 1, hother =>
        cases hother
        cases hrunning
    · intro call hcall j hj other hother _
      cases hcall
      match j, hother with
      | 0, hother =>
        cases hother
        decide
      | 1, _ => exact absurd rfl hj
  refine ⟨_,_,_,rfl,rfl,rfl,targets_complete sampleConfig (hbegin.trans (Runs.reaches_of_follow rfl hquiet)) ?_⟩
  refine Runs.Reaches.refl.step (a := .ensure (sampleRequest 2 7)) (huri _ rfl _ ?_) rfl
  intro call hcall
  rcases List.mem_pair.mp hcall with rfl | rfl <;> rfl

/-- The target directory is incomplete when the second call returns it, and changes afterwards; and another object of the storage
has the key of the tarball. -/
theorem stale_thread_writes : outcome staleActions = some (some [("a".toList,[])],[.cancelled,.returned]) ∧
    outcome (staleActions ++ [.write 0 2]) = some (some sampleTarball,[.cancelled,.returned]) ∧
    computeTarballCacheKey sampleConfig "s3://b/k ".toList = computeTarballCacheKey sampleConfig sampleUri := by
  refine ⟨by decide,by decide,by decide⟩

end Samples
end TarballCache
end Allama
