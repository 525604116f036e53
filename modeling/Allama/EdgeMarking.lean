import Allama.CoreSteps
import Allama.Oracles

/-! The markers on the edges out of the instances that ended. -/
namespace Allama

/-- The streams in which an instance with this outcome queues its successors. -/
def State.queueStreams (st : State) (dsl : DSLInput) (t : Task) : Outcome → List StreamID
  | .success | .failed _ => [t.streamId]
  | .skipped => [if dsl.IsScatter t.ref then .child t.streamId t.ref .skip else t.streamId]
  | .emptied => [.child t.streamId t.ref .skip]
  | .scattered => st.taskStreams t
  | .published => t.streamId.parent.toList
  | .closed => []

/-- The marker that an outcome calls for on the edges of a type. -/
def Outcome.marker (type : EdgeType) : Outcome → EdgeMarker
  | .success | .scattered | .published => if type = .success then .visited else .skipped
  | .failed _ => if type = .error then .visited else .skipped
  | .skipped | .emptied => .skipped
  | .closed => .pending

section
variable (dsl : DSLInput)

/-- The edges out of every instance that ended carry what its outcome calls for, and an error
edge is visited only if its source failed in the same stream. -/
structure EdgesConsistent (st : State) : Prop where
  ended : ∀ t outcome, st.flow.outcomes t = some outcome →
    (∀ exc, outcome = .failed exc → dsl.hasErrorEdge t.ref) →
    ∀ s ∈ st.queueStreams dsl t outcome, ∀ d type, (d,type) ∈ dsl.adj t.ref →
      st.flow.edges ⟨t.ref,d,type,s⟩ = outcome.marker type
  handlers : ∀ r d s, (d,EdgeType.error) ∈ dsl.adj r → st.flow.edges ⟨r,d,.error,s⟩ = .visited →
    ∃ exc, st.flow.outcomes ⟨r,s⟩ = some (.failed exc)

def Pc.PassesOn : Pc → Bool
  | .scatterInput (.ok (_ :: _)) | .scattering _ _ | .gatherSkipStream (.ok _)
  | .gatherNoop (.ok _) => true
  | _ => false

/-- The step passes on no scatter or gather that has an error edge. -/
def PassesOnQuietly (st : State) : Choice → Prop
  | .dequeue => True
  | .resume t => ((st.flow.pending.lookup t).any Pc.PassesOn : Prop) → ¬ dsl.hasErrorEdge t.ref

/-- The statuses that leave every edge visited. -/
def Status.VisitsAll : Status → Prop
  | .pending (.scattering _ _) | .ended .scattered | .ended .published => True
  | _ => False

variable {dsl} {st : State}

theorem Flow.status_of_outcome {f : Flow} (hf : Counted dsl f) {t : Task} {outcome : Outcome}
    (h : f.outcomes t = some outcome) : f.status t = .ended outcome := by
  have hdone : t ∈ f.completedTasks := (hf.outcomes t).mp (by rw [h]; rfl)
  have hnone : f.pending.lookup t = none := by
    refine Option.not_isSome_iff_eq_none.mp fun hs => ?_
    exact hf.disjoint t (AList.lookup_isSome.mp hs) hdone
  simp only [Flow.status, hnone, h]

/-- Only the positions of `PassesOn` lead to a status that visits every edge. -/
theorem BlockCase.passesOn {A : Activities} {t : Task} {pc : Pc} {st1 : State}
    {ending : BlockEnd} (h : BlockCase A dsl st t pc st1 ending) (hv : ending.status.VisitsAll) :
    pc.PassesOn ∨ (Status.pending pc).VisitsAll := by
  cases h with
  | opensFirst hs args hlen =>
    rename_i collection
    cases collection with
    | nil => cases hlen
    | cons v vs => exact .inl rfl
  | opensNext hs args hlen => exact .inl rfl
  | scatters hs hlen => exact .inl rfl
  | skipPublishes hg ht result => exact .inl rfl
  | publishes hg ht => exact .inl rfl
  | waits hpc hw hfits =>
    rename_i pc'
    cases pc' <;> first | exact hv.elim | exact hw.elim
  | closes harr hg ht o hn hc hend hstores =>
    cases ending with
    | raised exc => cases hv
    | done outcome =>
      obtain ⟨rfl,-⟩ := hend
      cases hv
    | await pc' => cases pc' <;> first | exact hv.elim | exact hend.elim
  | _ => cases hv

theorem quiet_status {A : Activities} {context : ExecutionContext} (hwf : dsl.WellFormed)
    (h : Run A dsl context (PassesOnQuietly dsl) st) (t : Task)
    (hv : (st.flow.status t).VisitsAll) : ¬ dsl.hasErrorEdge t.ref := by
  refine Run.status_invariant (P := fun t s => s.VisitsAll → ¬ dsl.hasErrorEdge t.ref) hwf h
    (fun _ hv => hv.elim) (fun _ _ hv => hv.elim) ?_ t hv
  intro st st' t pc st1 ending hcore hok hres hP hv
  rcases hres.cases.passesOn hv with hp | hp
  · refine hok ?_
    rw [Flow.mem_pending_of_status hres.before]
    exact hp
  · exact hP t (hres.before ▸ hp)

theorem Core.stream_called (h : Core dsl st) {t : Task} {outcome : Outcome} {s : StreamID}
    (hst : st.flow.status t = .ended outcome)
    (herr : ∀ exc, outcome = .failed exc → dsl.hasErrorEdge t.ref)
    (hs : s ∈ st.queueStreams dsl t outcome) : (⟨t.ref,s⟩,t) ∈ st.flow.queued := by
  rw [h.mem_calls, hst]
  cases outcome with
  | success =>
    obtain rfl := List.mem_singleton.mp hs
    exact List.mem_singleton_self _
  | skipped =>
    obtain rfl := List.mem_singleton.mp hs
    simp only [Status.calls]
    split
    · exact List.mem_singleton_self _
    · exact List.mem_singleton_self _
  | failed exc =>
    obtain rfl := List.mem_singleton.mp hs
    have hcall : ¬ (t.streamId = .root ∧ ¬ dsl.hasErrorEdge t.ref) :=
      fun hno => hno.2 (herr exc rfl)
    rw [Status.calls, if_neg hcall]
    exact List.mem_singleton_self _
  | scattered => exact List.mem_map_of_mem hs
  | emptied =>
    obtain rfl := List.mem_singleton.mp hs
    exact List.mem_singleton_self _
  | closed => cases hs
  | published => exact List.mem_map_of_mem hs

theorem hasErrorEdge_of_mem {r d : String} (h : (d,EdgeType.error) ∈ dsl.adj r) :
    dsl.hasErrorEdge r := ⟨_,h,rfl⟩

theorem marker_of_outcome {t : Task} {outcome : Outcome} {d : String} {type : EdgeType}
    (hquiet : (Status.ended outcome).VisitsAll → ¬ dsl.hasErrorEdge t.ref)
    (herr : ∀ exc, outcome = .failed exc → dsl.hasErrorEdge t.ref)
    (hd : (d,type) ∈ dsl.adj t.ref) :
    (Status.ended outcome).marker dsl t type = outcome.marker type := by
  have hsuccess : ¬ dsl.hasErrorEdge t.ref → type = .success := by
    intro hno
    cases type with
    | success => rfl
    | error => exact absurd (hasErrorEdge_of_mem hd) hno
  cases outcome with
  | failed exc => simp only [Status.marker, Outcome.marker, herr exc rfl, true_and]
  | scattered => rw [Outcome.marker, if_pos (hsuccess (hquiet trivial))]; rfl
  | published => rw [Outcome.marker, if_pos (hsuccess (hquiet trivial))]; rfl
  | _ => rfl

/-- In runs that pass on no scatter or gather with an error edge, the markers agree with the
outcomes. -/
theorem edges_consistent {A : Activities} {context : ExecutionContext} (hacc : dsl.Accepted)
    (h : Run A dsl context (PassesOnQuietly dsl) st) : EdgesConsistent dsl st := by
  have hwf := wellFormed_of_accepted hacc
  have hcore := h.core hwf
  refine ⟨fun t outcome ho herr s hs d type hd => ?_,fun r d s hd hv => ?_⟩
  · have hst := Flow.status_of_outcome hcore.counted ho
    have hmark := hcore.marks _ t (hcore.stream_called hst herr hs) d type hd
    rw [hmark, hst]
    exact marker_of_outcome (fun hv => quiet_status hwf h t (hst ▸ hv)) herr hd
  · -- a visited edge was marked by a call, and only a failed caller visits an error edge
    have harg : (⟨r,s⟩ : Task) ∈ st.flow.args := by
      by_contra hno
      have hpend := hcore.counted.unmarked ⟨r,d,.error,s⟩ hno
      rw [hv] at hpend
      cases hpend
    obtain ⟨⟨u,t⟩,hq,he⟩ := List.mem_map.mp harg
    dsimp only at he
    subst he
    have hmark := hcore.marks _ t hq d .error hd
    have hquiet := quiet_status hwf h t
    have href : t.ref = r := by
      rcases hcore.call_cases hq with ⟨he,-⟩ | ⟨-,i,he⟩ | ⟨-,-,p,x,i,-,he⟩
      · rw [← he]
      · exact (Task.mk.inj he).1.symm
      · exact (Task.mk.inj he).1.symm
    have hedge : dsl.hasErrorEdge t.ref := href ▸ hasErrorEdge_of_mem hd
    rw [hv] at hmark
    cases hst : st.flow.status t with
    | idle => rw [hst] at hmark; cases hmark
    | pending pc =>
      rw [hst] at hmark hquiet
      cases pc <;> first | exact absurd hedge (hquiet trivial) | cases hmark
    | ended outcome =>
      have hcalls := hcore.mem_calls.mp hq
      rw [hst] at hmark hquiet hcalls
      cases outcome with
      | failed exc =>
        rw [Status.calls, if_neg fun hno => hno.2 hedge] at hcalls
        obtain rfl := List.mem_singleton.mp hcalls
        exact ⟨exc,Flow.outcomes_of_status hst⟩
      | _ => first | exact absurd hedge (hquiet trivial) | cases hmark

end

/-- A scatter `x` over one item, its gather `g`, and an action `h` after `dep`. -/
def handlerDSL (dep : String) : DSLInput where
  actions := [
    { ref := "x", action := .transformScatter,
      args := { scatter := some { collection := .none } } },
    { ref := "g", action := .transformGather, dependsOn := ["x"],
      args := { gather := some { items := "x" } } },
    { ref := "h", action := .udf "h", dependsOn := [dep] }]

def oneItem : Oracle where
  collection := fun _ => .ok [.int 1]

/-- The choices up to the publication of the gather. -/
def gatherChoices : List Choice :=
  let x : Task := ⟨"x",.root⟩
  let g : Task := ⟨"g",.child .root "x" (.item 0)⟩
  [.dequeue,.resume x,.resume x,.resume x,.dequeue,.resume g,.resume g,.resume g,.resume g]

def Outcome.isPublished : Outcome → Bool
  | .published => true
  | _ => false

/-- The gather published its result, and the marker on its edge of a type to `h`. -/
def publishedEdge (type : EdgeType) (st : State) : Bool × EdgeMarker :=
  ((st.flow.outcomes ⟨"g",.child .root "x" (.item 0)⟩).any Outcome.isPublished,
    st.flow.edges ⟨"g","h",type,.root⟩)

instance (dsl : DSLInput) (st : State) : DecidablePred (PassesOnQuietly dsl st) := by
  intro choice
  cases choice <;> unfold PassesOnQuietly <;> infer_instance

theorem edges_consistent_one_item : ∃ st,
    Run oneItem.activities (handlerDSL "g") .empty (PassesOnQuietly (handlerDSL "g")) st ∧
      publishedEdge .success st = (true,.visited) ∧ EdgesConsistent (handlerDSL "g") st := by
  have hrun : (Runs.followOk (step oneItem.activities (handlerDSL "g"))
      (fun st a => decide (PassesOnQuietly (handlerDSL "g") st a))
      (State.init (handlerDSL "g") .empty) gatherChoices).map (publishedEdge .success) =
        some (true,.visited) := by decide +kernel
  obtain ⟨st,hst,hobs⟩ := Runs.reaches_of_observed hrun
  have hquiet : Run oneItem.activities (handlerDSL "g") .empty
      (PassesOnQuietly (handlerDSL "g")) st := hst.weaken fun _ _ ha => of_decide_eq_true ha
  exact ⟨st,hquiet,hobs,edges_consistent (by decide) hquiet⟩

/-- The error handler `h` of the gather `g` runs although `g` published its result. -/
theorem error_edge_visited_on_success : ¬ ∀ (A : Activities) (dsl : DSLInput)
    (context : ExecutionContext) (st : State), dsl.Accepted →
      Run A dsl context (fun _ _ => True) st → EdgesConsistent dsl st := by
  intro hclaim
  have hrun : (Runs.follow (step oneItem.activities (handlerDSL "g.error"))
      (State.init (handlerDSL "g.error") .empty) gatherChoices).map (publishedEdge .error) =
        some (true,.visited) := by decide +kernel
  obtain ⟨st,hst,hobs⟩ := Runs.reachable_of_observed hrun
  obtain ⟨hpub,hedge⟩ := Prod.mk.inj hobs
  obtain ⟨outcome,ho,hpub⟩ := (Option.any_eq_true _ _).mp hpub
  obtain rfl : outcome = .published := by
    cases outcome <;> first | rfl | cases hpub
  have hcons := (hclaim _ _ _ st (by decide) hst).ended _ _ ho (by simp) .root
    (List.mem_singleton_self _) "h" .error (by decide)
  rw [hedge] at hcons
  cases hcons

end Allama
