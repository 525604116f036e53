import Allama.GatherEntries
import Allama.RunLedger
import Allama.StreamReads

/-! The streams of a scatter reach its gather in any order. -/
namespace Allama
open Function

def StreamOutcome.entry : StreamOutcome → Option GatherEntry
  | .value item => some (.value item.data)
  | .skipped => none
  | .error info => some (.error info.details)

def StreamOutcome.item? : StreamOutcome → Option StoredObject
  | .value item => some item
  | .skipped => none
  | .error info => some ⟨false,info.details.dump⟩

section
variable (st : State) (g x : String) (p : StreamID)

def State.outcomeOf (s : StreamID) : Option StreamOutcome :=
  (st.closed.find? fun c => c.1.streamId = s).map Prod.snd

def State.slots (y : Task) : List GatherItem :=
  (st.taskStreams y).map fun s => (st.outcomeOf s).elim .unset StreamOutcome.slot

/-- The streams of the scatter `x` of `p`, and they only, come to the gather `g`. -/
structure GatheredBy : Prop where
  closed : ∀ c ∈ st.closed,
    c.1.streamId.opener = some ⟨x,p⟩ ↔ c.1.ref = g ∧ c.1.streamId.parent = some p
  skipped : ∀ y, st.flow.status ⟨g,.child p y .skip⟩ ≠ .ended .published

/-- What the parent stream holds for the gather while it waits for streams: nothing so far, or
their slots. -/
def Slotted : Prop :=
  (st.contexts.entry g p = none ∧
    ∀ c ∈ st.closed, c.1.streamId.opener = some ⟨x,p⟩ → c.2.slot = .unset) ∨
  (st.contexts.entry g p = some { result := .items (st.slots ⟨x,p⟩) } ∧
    (st.openStreams ⟨x,p⟩).isSome)

end

/-- The entries of the streams in the order of the collection. -/
def entriesOf (n : ℕ) (o : ℕ → StreamOutcome) : List GatherEntry :=
  (List.range n).filterMap fun i => (o i).entry

/-- What the strategy of the gather makes of its entries. -/
def GatherArgs.finalized (args : GatherArgs) (entries : List GatherEntry) :
    List Value × List ActionErrorInfo :=
  match args.errorStrategy with
  | .partition | .raise => (keptValues args.dropNulls entries,entries.filterMap GatherEntry.error?)
  | .drop => (keptValues args.dropNulls entries,[])
  | .include => ((entries.filter (GatherEntry.kept args.dropNulls)).map GatherEntry.data,[])

/-- What `finalize_gather_activity` gives for the data of the stored items. -/
def Activities.finalized (A : Activities) (t : Task) (args : GatherArgs) (data : List Value) :
    Except Exc (StoredObject × List ActionErrorInfo) :=
  match A.finalizeFailure t with
  | some exc => .error exc
  | none =>
    let (results,errors) := finalizeGather A.parseInt data args.dropNulls args.errorStrategy
    .ok (⟨A.resultExternalizationEnabled,.list results⟩,errors)

/-- The gather instance `t` is in its activity, which was given the slots of all streams. -/
structure HandsOver (A : Activities) (dsl : DSLInput) (st : State) (t y : Task) (r : TaskResult)
    (fin : Except Exc (StoredObject × List ActionErrorInfo)) : Prop where
  closed : st.openStreams y = some 0
  given : ∃ args items, (dsl.task t.ref).args.gather = some args ∧
    r.items.bind storedItems = .ok items ∧ storedItems (st.slots y) = .ok items ∧
    fin = A.finalized t args (items.map StoredObject.data)

/-- The invariant of the gathers: they keep the slots, and hand them over with the last one. -/
structure SlotsKept (A : Activities) (dsl : DSLInput) (st : State) : Prop where
  logged : ∀ t r fin, st.flow.status t = .pending (.gatherFinalize r fin) → ∃ o, (t,o) ∈ st.closed
  slotted : ∀ g x p, dsl.IsGather g → GatheredBy st g x p → st.openStreams ⟨x,p⟩ ≠ some 0 →
    Slotted st g x p
  finalizes : ∀ t x p i r fin, t.streamId = .child p x (.item i) →
    st.flow.status t = .pending (.gatherFinalize r fin) → GatheredBy st t.ref x p →
    HandsOver A dsl st t ⟨x,p⟩ r fin

section
variable {A : Activities} {dsl : DSLInput} {st st' st1 st2 st3 : State} {context : ExecutionContext}
  {ok : State → Choice → Prop} {t u : Task} {pc : Pc} {ending : BlockEnd} {g x : String}
  {p q : StreamID} {o : StreamOutcome} {i : ℕ}

/-! What writes the entry of a gather in a stream. -/

theorem Contexts.entry_setAction_ne (c : Contexts) {ref : String} (r : TaskResult)
    (hne : ¬ (ref = g ∧ q = p)) : (c.setAction q ref r).entry g p = c.entry g p := by
  simp only [Contexts.entry, Contexts.setAction, update_apply]
  split
  · rename_i hp
    have hg : g ≠ ref := fun he => hne ⟨he.symm,hp.symm⟩
    rw [hp]
    cases c.streams q with
    | none => rfl
    | some ctx => simp only [Option.map_some, Option.bind_some, update_of_ne hg]
  · rfl

theorem Contexts.entry_setAction_self {c : Contexts} {ctx : ExecutionContext}
    (hctx : c.streams p = some ctx) (r : TaskResult) : (c.setAction p g r).entry g p = some r := by
  simp only [Contexts.entry, Contexts.setAction, update_self, hctx, Option.map_some,
    Option.bind_some]

theorem Contexts.entry_setLogicalTime (c : Contexts) (time : ℤ) :
    (c.setLogicalTime time).entry g p = c.entry g p := by
  simp only [Contexts.entry, Contexts.setLogicalTime, update_apply]
  split
  · rename_i hp
    rw [hp]
    cases c.streams .root <;> rfl
  · rfl

theorem Contexts.entry_openStream {c : Contexts} {b : StreamID} {ctx : ExecutionContext}
    (hnew : c.streams q = none) (hctx : ctx.actions g = none) :
    (c.openStream q b ctx).entry g p = c.entry g p := by
  simp only [Contexts.entry, Contexts.openStream, update_apply]
  split
  · rename_i hp
    rw [hp, hnew, Option.bind_some, hctx, Option.bind_none]
  · rfl

theorem entry_writes {ref : String} (hne : ref ≠ g) :
    RespectsWrites (fun c c' : Contexts => c'.entry g p = c.entry g p) ref where
  refl := fun _ => rfl
  trans := fun h h' => h'.trans h
  setAction := fun c _ result => c.entry_setAction_ne result fun h => hne h.1
  setLogicalTime := fun c time => c.entry_setLogicalTime time

theorem Contexts.Sets.entry_ne {c c' : Contexts} {ref : String} (h : c.Sets q ref c')
    (hne : ¬ (ref = g ∧ q = p)) : c'.entry g p = c.entry g p :=
  h.respects (R := fun c c' => c'.entry g p = c.entry g p) (fun _ => rfl) fun c1 result h1 =>
    (c1.entry_setAction_ne result hne).trans h1

theorem Core.fresh_stream (h : Core dsl st) (hwf : dsl.WellFormed) {j : StreamIndex}
    (hnew : (⟨t.ref,.child t.streamId t.ref j⟩ : Task) ∉
      (st.flow.status t).calls dsl t (st.taskStreams t)) :
    st.contexts.streams (.child t.streamId t.ref j) = none := by
  rw [← Option.not_isSome_iff_eq_none, h.registered.context]
  intro hs
  exact h.fresh_opened hwf hnew (List.mem_map_of_mem (h.openers t.streamId t.ref j hs))

/-! The slots. -/

theorem mem_of_outcomeOf {s : StreamID} (h : st.outcomeOf s = some o) :
    ∃ c ∈ st.closed, c.1.streamId = s ∧ c.2 = o := by
  obtain ⟨c,hc,rfl⟩ := Option.map_eq_some_iff.mp h
  exact ⟨c,List.mem_of_find?_eq_some hc,by simpa using List.find?_some hc,rfl⟩

theorem outcomeOf_concat (hclosed : st'.closed = st.closed ++ [(t,o)]) (s : StreamID) :
    st'.outcomeOf s = (st.outcomeOf s).or (if t.streamId = s then some o else none) := by
  rw [State.outcomeOf, hclosed, List.find?_append, State.outcomeOf]
  cases st.closed.find? fun c => c.1.streamId = s with
  | some c => rfl
  | none =>
    rw [Option.none_or, List.find?_singleton]
    by_cases hs : t.streamId = s
    · simp only [hs, decide_true, if_true, Option.map_some, Option.map_none, Option.none_or]
    · simp only [hs, decide_false, Bool.false_eq_true, if_false, Option.map_none, Option.none_or]

theorem slots_congr {y : Task} (hstreams : st'.taskStreams y = st.taskStreams y)
    (hof : ∀ s ∈ st.taskStreams y, (st'.outcomeOf s).elim .unset StreamOutcome.slot =
      (st.outcomeOf s).elim .unset StreamOutcome.slot) : st'.slots y = st.slots y := by
  rw [State.slots, hstreams]
  exact List.map_congr_left hof

theorem slots_books {y : Task} (hb : SameBooks st st') : st'.slots y = st.slots y := by
  refine slots_congr (congrFun hb.taskStreams y) fun s _ => ?_
  rw [State.outcomeOf, hb.closed]
  rfl

theorem slots_concat_ne {y : Task} (htallied : Tallied st) (hclosed : st'.closed = st.closed ++ [(t,o)])
    (hstreams : st'.taskStreams y = st.taskStreams y) (hne : t.streamId.opener ≠ some y) :
    st'.slots y = st.slots y := by
  refine slots_congr hstreams fun s hs => ?_
  have hts : t.streamId ≠ s := by
    rintro rfl
    exact hne (htallied.streams y _ hs)
  rw [outcomeOf_concat hclosed, if_neg hts, Option.or_none]

theorem slots_set {n : ℕ} (hclosed : st'.closed = st.closed ++ [(⟨g,.child p x (.item i)⟩,o)])
    (hstreams : st'.taskStreams ⟨x,p⟩ = st.taskStreams ⟨x,p⟩)
    (hrange : st.taskStreams ⟨x,p⟩ = (List.range n).map fun k => .child p x (.item k))
    (hnew : st.outcomeOf (.child p x (.item i)) = none) :
    st'.slots ⟨x,p⟩ = (st.slots ⟨x,p⟩).set i o.slot := by
  refine List.ext_getElem (by simp [State.slots, hstreams]) fun j hj hj' => ?_
  rw [List.getElem_set]
  simp only [State.slots, hstreams, hrange, List.getElem_map, List.getElem_range]
  rw [outcomeOf_concat hclosed]
  by_cases hij : i = j
  · subst hij
    simp only [hnew, if_true, Option.none_or, Option.elim_some]
  · have hne : StreamID.child p x (.item i) ≠ .child p x (.item j) := by
      simpa using hij
    rw [if_neg hij, if_neg hne, Option.or_none]

theorem storedItems_map (l : List StreamID) (f : StreamID → Option StreamOutcome) :
    storedItems (l.map fun s => (f s).elim .unset StreamOutcome.slot) =
      .ok (l.filterMap fun s => (f s).bind StreamOutcome.item?) := by
  induction l with
  | nil => rfl
  | cons s l ih =>
    rw [List.map_cons, List.filterMap_cons]
    cases f s with
    | none => rw [Option.elim_none, storedItems, ih]; rfl
    | some o =>
      cases o with
      | value item => rw [Option.elim_some, StreamOutcome.slot, storedItems, ih]; rfl
      | skipped => rw [Option.elim_some, StreamOutcome.slot, storedItems, ih]; rfl
      | error info => rw [Option.elim_some, StreamOutcome.slot, storedItems, ih]; rfl

theorem Slotted.getD (h : Slotted st g x p) (htallied : Tallied st) :
    (st.contexts.entry g p).getD (st.unsetSlots ⟨x,p⟩) = { result := .items (st.slots ⟨x,p⟩) } := by
  rcases h with ⟨hnone,hunset⟩ | ⟨hsome,-⟩
  · have hslots : st.slots ⟨x,p⟩ = List.replicate (st.taskStreams ⟨x,p⟩).length .unset := by
      rw [State.slots, List.map_eq_replicate_iff]
      intro s hs
      cases hof : st.outcomeOf s with
      | none => rfl
      | some o =>
        obtain ⟨c,hc,rfl,rfl⟩ := mem_of_outcomeOf hof
        exact hunset c hc (htallied.streams _ _ hs)
    rw [hnone, Option.getD_none, State.unsetSlots, hslots]
  · rw [hsome, Option.getD_some]

/-- Storing the slot of a stream that was just closed. -/
theorem Slotted.store {n : ℕ} (h : Slotted st g x p) (htallied : Tallied st)
    (hctx : (st.contexts.streams p).isSome) (hcontexts : st'.contexts = st.contexts)
    (hstreams : st'.taskStreams = st.taskStreams)
    (hclosed : st'.closed = st.closed ++ [(⟨g,.child p x (.item i)⟩,o)])
    (hopen : (st'.openStreams ⟨x,p⟩).isSome) (hi : i < n)
    (hrange : st.taskStreams ⟨x,p⟩ = (List.range n).map fun k => .child p x (.item k))
    (hnew : st.outcomeOf (.child p x (.item i)) = none) :
    ∃ c, st'.storeSlot g p ⟨x,p⟩ i o = .ok { st' with contexts := c } ∧ (c.streams p).isSome ∧
      Slotted { st' with contexts := c } g x p := by
  obtain ⟨ctx,hctx⟩ := Option.isSome_iff_exists.mp hctx
  have hslots := slots_set hclosed (congrFun hstreams _) hrange hnew
  unfold State.storeSlot
  cases hslot : o.slot with
  | stored item =>
    have hlen : i < (st.slots ⟨x,p⟩).length := by
      rw [State.slots, List.length_map, hrange, List.length_map, List.length_range]
      exact hi
    have hset : ((ctx.actions g).getD (st'.unsetSlots ⟨x,p⟩)).setItem i (.stored item) =
        .ok { result := .items ((st.slots ⟨x,p⟩).set i (.stored item)) } := by
      have hentry := h.getD htallied
      rw [Contexts.entry, hctx, Option.bind_some] at hentry
      rw [State.unsetSlots, hstreams]
      change ((ctx.actions g).getD (st.unsetSlots ⟨x,p⟩)).setItem i (.stored item) = _
      rw [hentry, TaskResult.setItem]
      exact if_pos hlen
    refine ⟨st'.contexts.setAction p g { result := .items ((st.slots ⟨x,p⟩).set i (.stored item)) },
      ?_,?_,.inr ⟨?_,hopen⟩⟩
    · simp only [State.setSlot, State.context, hcontexts, hctx, hset]
    · simp only [Contexts.setAction, update_self, hcontexts, hctx]
      rfl
    · dsimp only
      rw [Contexts.entry_setAction_self (by rw [hcontexts, hctx])]
      rw [hslot] at hslots
      exact congrArg (fun l => some ({ result := .items l } : TaskResult)) hslots.symm
  | unset =>
    refine ⟨st'.contexts,rfl,by rw [hcontexts, hctx]; rfl,?_⟩
    rcases h with ⟨hnone,hunset⟩ | ⟨hsome,-⟩
    · refine .inl ⟨by rw [hcontexts, hnone],?_⟩
      intro c hc hy
      dsimp only at hc
      rw [hclosed] at hc
      rcases List.mem_append.mp hc with hc | hc
      · exact hunset c hc hy
      · rw [List.mem_singleton.mp hc]
        exact hslot
    · refine .inr ⟨?_,hopen⟩
      dsimp only
      rw [hcontexts, hsome]
      have hsame : st'.slots ⟨x,p⟩ = st.slots ⟨x,p⟩ := by
        refine slots_congr (congrFun hstreams _) fun s hs => ?_
        rw [outcomeOf_concat hclosed]
        split
        · rename_i hst
          rw [← hst, hnew, Option.none_or, Option.elim_some, Option.elim_none, hslot]
        · rw [Option.or_none]
      exact congrArg (fun l => some ({ result := .items l } : TaskResult)) hsame.symm
  | raw v => cases o <;> cases hslot

theorem Slotted.result (h : Slotted st g x p) (hctx : (st.contexts.streams p).isSome)
    (htallied : ∀ s ∈ st.taskStreams ⟨x,p⟩, s.opener = some ⟨x,p⟩) (ht : t.ref = g)
    (args : GatherArgs) :
    ∃ r items, (handleGatherResult A st t p args).2 =
        .await (.gatherFinalize r (A.finalized t args (items.map StoredObject.data))) ∧
      r.items.bind storedItems = .ok items ∧ storedItems (st.slots ⟨x,p⟩) = .ok items := by
  obtain ⟨ctx,hctx⟩ := Option.isSome_iff_exists.mp hctx
  have hitems := @storedItems_map (st.taskStreams ⟨x,p⟩) st.outcomeOf
  have hentry : st.contexts.entry g p = ctx.actions t.ref := by
    rw [Contexts.entry, hctx, Option.bind_some, ht]
  have hfound : (((ctx.actions t.ref).getD { result := .items [] }).items.bind storedItems) =
      storedItems (st.slots ⟨x,p⟩) := by
    rcases h with ⟨hnone,hunset⟩ | ⟨hsome,-⟩
    · -- all streams were skipped
      rw [← hentry, hnone, Option.getD_none, State.slots, hitems]
      have hall : ((st.taskStreams ⟨x,p⟩).filterMap fun s => (st.outcomeOf s).bind StreamOutcome.item?) = [] := by
        refine List.filterMap_eq_nil_iff.mpr fun s hs => ?_
        cases hof : st.outcomeOf s with
        | none => rfl
        | some o =>
          obtain ⟨c,hc,rfl,rfl⟩ := mem_of_outcomeOf hof
          have hslot := hunset c hc (htallied _ hs)
          cases ho : c.2 with
          | skipped => rfl
          | value item => rw [ho] at hslot; cases hslot
          | error info => rw [ho] at hslot; cases hslot
      rw [hall]
      rfl
    · rw [← hentry, hsome]
      rfl
  rw [State.slots, hitems] at hfound
  refine ⟨(ctx.actions t.ref).getD { result := .items [] },_,?_,hfound,hitems⟩
  unfold handleGatherResult
  simp only [State.context, hctx, hfound]
  rfl

/-! What a step does to them. -/

theorem GatheredBy.one (h : GatheredBy st g x p) : ∀ c ∈ st.closed, ∀ c' ∈ st.closed,
    c.1.streamId.opener = some ⟨x,p⟩ → c'.1.streamId.opener = some ⟨x,p⟩ → c.1.ref = c'.1.ref := by
  intro c hc c' hc' hy hy'
  rw [((h.closed c hc).mp hy).1, ((h.closed c' hc').mp hy').1]

theorem GatheredBy.of_resume (h : GatheredBy st' g x p) (hres : Resumes A dsl st st' t pc st1 ending)
    (hsub : ∀ c ∈ st.closed, c ∈ st'.closed) : GatheredBy st g x p := by
  refine ⟨fun c hc => h.closed c (hsub c hc),fun y hst => h.skipped y ?_⟩
  have hne : (⟨g,.child p y .skip⟩ : Task) ≠ t := by
    rintro rfl
    rw [hres.before] at hst
    cases hst
  rw [hres.others _ hne, hst]

theorem Slotted.uncounted (h : Slotted st g x p) (hopen : st.openStreams ⟨x,p⟩ = none)
    (hclosed : st'.closed = st.closed) (hentry : st'.contexts.entry g p = st.contexts.entry g p) :
    Slotted st' g x p := by
  rcases h with ⟨hnone,hunset⟩ | ⟨-,hsome⟩
  · refine .inl ⟨hentry.trans hnone,?_⟩
    rw [hclosed]
    exact hunset
  · rw [hopen] at hsome
    cases hsome

theorem Slotted.same (h : Slotted st g x p) (hslots : st'.slots ⟨x,p⟩ = st.slots ⟨x,p⟩)
    (hopen : st'.openStreams ⟨x,p⟩ = st.openStreams ⟨x,p⟩)
    (hclosed : ∀ c ∈ st'.closed, c.1.streamId.opener = some ⟨x,p⟩ → c ∈ st.closed)
    (hentry : st'.contexts.entry g p = st.contexts.entry g p) : Slotted st' g x p := by
  rcases h with ⟨hnone,hunset⟩ | ⟨hsome,hcount⟩
  · exact .inl ⟨hentry.trans hnone,fun c hc hy => hunset c (hclosed c hc hy) hy⟩
  · refine .inr ⟨?_,by rwa [hopen]⟩
    rw [hentry, hsome, hslots]

theorem Slotted.transport (h : Slotted st g x p) (hb : SameBooks st st')
    (hctx : st'.contexts = st.contexts) : Slotted st' g x p :=
  h.same (slots_books hb) (congrFun hb.openStreams _) (fun _ hc _ => hb.closed ▸ hc)
    (congrArg (Contexts.entry · g p) hctx)

theorem HandsOver.same {y : Task} {r : TaskResult} {fin : Except Exc (StoredObject × List ActionErrorInfo)}
    (h : HandsOver A dsl st t y r fin) (hopen : st'.openStreams y = st.openStreams y)
    (hslots : st'.slots y = st.slots y) : HandsOver A dsl st' t y r fin :=
  ⟨hopen.trans h.closed,by rw [hslots]; exact h.given⟩

theorem Stores.books {y : String} (h : Stores A dsl st t q y i o st1 ending) : SameBooks st st1 := by
  obtain ⟨c,-,rfl⟩ := h.sets
  exact ⟨rfl,rfl,rfl⟩

/-- A step in which no stream is closed. -/
theorem SlotsKept.quiet (h : SlotsKept A dsl st) (hcore : Core dsl st)
    (hres : Resumes A dsl st st' t pc st1 ending) (hclosed : st1.closed = st.closed)
    (hbooks : ∀ y, y ≠ t → st1.openStreams y = st.openStreams y ∧ st1.taskStreams y = st.taskStreams y)
    (hend : ∀ r fin, ending ≠ .await (.gatherFinalize r fin))
    (hentry : ∀ g x p, dsl.IsGather g → GatheredBy st' g x p → st.openStreams ⟨x,p⟩ ≠ some 0 →
      st1.contexts.entry g p = st.contexts.entry g p) : SlotsKept A dsl st' := by
  have hfinish := sameBooks_finish dsl st1 t ending
  rw [← hres.next] at hfinish
  have hcl : st'.closed = st.closed := hfinish.closed.trans hclosed
  have hctx : st'.contexts = st1.contexts := by rw [hres.next, finish_contexts]
  have hnone : st.openStreams t = none := hcore.uncounted hres.before
  have hstep : ∀ u r fin, st'.flow.status u = .pending (.gatherFinalize r fin) → u ≠ t := by
    rintro u r fin hst rfl
    rw [hres.self] at hst
    cases ending with
    | await pc' => exact hend r fin (congrArg BlockEnd.await (Status.pending.inj hst))
    | done outcome => cases hst
    | raised exc => cases hst
  have hold : ∀ {g x p}, GatheredBy st' g x p → GatheredBy st g x p :=
    fun hby => hby.of_resume hres fun _ hc => hcl ▸ hc
  have hslots : ∀ {y}, y ≠ t → st'.slots y = st.slots y := by
    intro y hy
    refine slots_congr (by rw [hfinish.taskStreams, (hbooks y hy).2]) fun s _ => ?_
    rw [State.outcomeOf, hcl]
    rfl
  refine ⟨?_,?_,?_⟩
  · intro u r fin hst
    rw [hres.others u (hstep u r fin hst)] at hst
    rw [hcl]
    exact h.logged u r fin hst
  · intro g x p hg hby hopen
    by_cases hy : (⟨x,p⟩ : Task) = t
    · subst hy
      have hne : st.openStreams ⟨x,p⟩ ≠ some 0 := by rw [hnone]; simp
      exact (h.slotted g x p hg (hold hby) hne).uncounted hnone hcl
        ((congrArg (Contexts.entry · g p) hctx).trans (hentry g x p hg hby hne))
    · have hcount := (hbooks _ hy).1
      rw [hfinish.openStreams, hcount] at hopen
      exact (h.slotted g x p hg (hold hby) hopen).same (hslots hy) (by rw [hfinish.openStreams, hcount])
        (fun c hc _ => hcl ▸ hc) ((congrArg (Contexts.entry · g p) hctx).trans (hentry g x p hg hby hopen))
  · intro u x p i r fin hu hst hby
    rw [hres.others u (hstep u r fin hst)] at hst
    have hover := h.finalizes u x p i r fin hu hst (hold hby)
    have hy : (⟨x,p⟩ : Task) ≠ t := by
      rintro rfl
      have hzero := hover.closed
      rw [hnone] at hzero
      cases hzero
    exact hover.same (by rw [hfinish.openStreams, (hbooks _ hy).1]) (hslots hy)

/-- The facts about a step in which `t` closes the stream `i`. -/
structure Closes (A : Activities) (dsl : DSLInput) (st st' : State) (t : Task) (ending : BlockEnd)
    (p : StreamID) (x : String) (i : ℕ) (o : StreamOutcome) (st1 st2 : State) : Prop where
  gather : dsl.IsGather t.ref
  stream : t.streamId = .child p x (.item i)
  stores : Stores A dsl st1 t p x i o st2 ending
  contexts : st1.contexts = st.contexts
  taskStreams : st1.taskStreams = st.taskStreams
  closed : st1.closed = st.closed ++ [(t,o)]
  counter : ∃ n, st.openStreams ⟨x,p⟩ = some n ∧
    st1.openStreams = update st.openStreams ⟨x,p⟩ (some (n-1))
  books : SameBooks st1 st'
  result : st'.contexts = st2.contexts

section
variable (hc : Closes A dsl st st' t ending p x i o st1 st2)
include hc

theorem Closes.closed_eq :
    st'.closed = st.closed ++ [(t,o)] := hc.books.closed.trans hc.closed

theorem Closes.streams_eq :
    st'.taskStreams = st.taskStreams := hc.books.taskStreams.trans hc.taskStreams

theorem Closes.mem : (t,o) ∈ st'.closed :=
  hc.closed_eq ▸ List.mem_append_right _ (List.mem_singleton_self _)

theorem Closes.sub :
    ∀ c ∈ st.closed, c ∈ st'.closed := fun _ h => hc.closed_eq ▸ List.mem_append_left _ h

theorem Closes.opener : t.streamId.opener = some ⟨x,p⟩ := by
  rw [hc.stream]
  rfl

theorem Closes.positive (hcore' : Core dsl st') (htallied' : Tallied st') (hby : GatheredBy st' g x p) :
    st.openStreams ⟨x,p⟩ ≠ some 0 := by
  obtain ⟨n,hn,hopen⟩ := hc.counter
  have hself : st'.openStreams ⟨x,p⟩ = some (n-1) := by
    rw [hc.books.openStreams, hopen, update_self]
  have hle := (htallied'.zero_iff hcore' hself hby.one).1
  rw [hn]
  intro he
  have := Option.some.inj he
  omega

end

section
variable (hcore : Core dsl st) (hcore' : Core dsl st') (htallied' : Tallied st')
  (hres : Resumes A dsl st st' t pc st3 ending) (hc : Closes A dsl st st' t ending p x i o st1 st2)
include hcore hcore' htallied' hres hc

/-- The stream that is closed is one of those of the scatter, and was open. -/
theorem Closes.fresh (hby : GatheredBy st' t.ref x p) : ∃ n, i < n ∧
    st.taskStreams ⟨x,p⟩ = (List.range n).map (fun k => .child p x (.item k)) ∧
    st.outcomeOf (.child p x (.item i)) = none ∧ (st.contexts.streams p).isSome := by
  obtain ⟨hend,hstream⟩ := htallied'.mem_taskStreams hcore' hc.mem hc.opener
  obtain ⟨-,n,-,hrange⟩ := hcore'.ended _ _ hend
  rw [hrange, hc.stream] at hstream
  rw [hc.streams_eq] at hrange
  obtain ⟨j,hj,he⟩ := List.mem_map.mp hstream
  obtain rfl : j = i := by simpa using he
  refine ⟨n,List.mem_range.mp hj,hrange,?_,?_⟩
  · refine Option.eq_none_iff_forall_ne_some.mpr fun o' ho' => ?_
    obtain ⟨c,hmem,hs,-⟩ := mem_of_outcomeOf ho'
    have hg := ((hby.closed c (hc.sub c hmem)).mp (by rw [hs]; rfl)).1
    have hnodup := htallied'.nodup
    rw [hc.closed_eq, List.map_append, List.nodup_append] at hnodup
    exact hnodup.2.2 _ (List.mem_map_of_mem hmem) _ (List.mem_singleton_self _)
      (Task.mk.injEq .. ▸ ⟨hg,hs.trans hc.stream.symm⟩)
  · rw [hcore.registered.context]
    exact hcore.registered.up p x _ (hc.stream ▸ hcore.started _ (hcore.started_of_pending hres.before))

variable (h : SlotsKept A dsl st) (htallied : Tallied st)
include h htallied

/-- A step in which `t` closes a stream of its scatter keeps the slots, or hands them over. -/
theorem SlotsKept.closing_cases (hby : GatheredBy st' t.ref x p) :
    (ending = .done .closed ∧ st'.openStreams ⟨x,p⟩ ≠ some 0 ∧ Slotted st' t.ref x p) ∨
    ((dsl.task t.ref).args.gather = none ∧ (∃ exc, ending = .raised exc) ∧ Slotted st' t.ref x p) ∨
    ∃ r args items, st'.openStreams ⟨x,p⟩ = some 0 ∧ (dsl.task t.ref).args.gather = some args ∧
      ending = .await (.gatherFinalize r (A.finalized t args (items.map StoredObject.data))) ∧
      r.items.bind storedItems = .ok items ∧ storedItems (st'.slots ⟨x,p⟩) = .ok items := by
  obtain ⟨n,-,hopen⟩ := hc.counter
  obtain ⟨m,hi,hrange,hnew,hctx⟩ := hc.fresh hcore hcore' htallied' hres hby
  have ht : t = ⟨t.ref,.child p x (.item i)⟩ := by rw [← hc.stream]
  have hslotted := h.slotted t.ref x p hc.gather (hby.of_resume hres hc.sub)
    (hc.positive hcore' htallied' hby)
  obtain ⟨c,hslot,hctx',hslotted⟩ := hslotted.store htallied hctx hc.contexts hc.taskStreams
    (by rw [← ht]; exact hc.closed) (by rw [hopen, update_self]; rfl) hi hrange hnew
  have hback : Slotted st2 t.ref x p → Slotted st' t.ref x p := fun hs =>
    hs.transport (hc.stores.books.symm.trans hc.books) hc.result
  have hopener : ∀ s ∈ ({ st1 with contexts := c } : State).taskStreams ⟨x,p⟩, s.opener = some ⟨x,p⟩ := by
    dsimp only
    rw [hc.taskStreams]
    exact htallied.streams _
  rw [hc.books.openStreams, slots_books hc.books]
  cases hc.stores with
  | refuses hslot' =>
    rw [hslot] at hslot'
    cases hslot'
  | stays hslot' hopen' =>
    obtain rfl := Except.ok.inj (hslot.symm.trans hslot')
    exact .inl ⟨rfl,hopen',hback hslotted⟩
  | lacks hslot' hargs exc =>
    obtain rfl := Except.ok.inj (hslot.symm.trans hslot')
    exact .inr (.inl ⟨hargs,⟨exc,rfl⟩,hback hslotted⟩)
  | gathers hslot' hopen' hargs hresult =>
    obtain rfl := Except.ok.inj (hslot.symm.trans hslot')
    rename_i args
    obtain ⟨r,items,hend,hitems,hslots⟩ := hslotted.result (A := A) (t := t) hctx' hopener rfl args
    rw [hresult] at hend
    exact .inr (.inr ⟨r,args,items,hopen',hargs,hend,hitems,hslots⟩)

theorem SlotsKept.closing : SlotsKept A dsl st' := by
  obtain ⟨n,-,hopen⟩ := hc.counter
  have hparent : t.streamId.parent = some p := by rw [hc.stream]; rfl
  have hother : ∀ {y}, y ≠ (⟨x,p⟩ : Task) → st'.openStreams y = st.openStreams y :=
    fun hy => by rw [hc.books.openStreams, hopen, update_of_ne hy]
  have hkept : ∀ {y}, y ≠ (⟨x,p⟩ : Task) → st'.slots y = st.slots y := by
    intro y hy
    refine slots_concat_ne htallied hc.closed_eq (congrFun hc.streams_eq y) ?_
    rw [hc.opener]
    exact fun he => hy (Option.some.inj he).symm
  have hcases := h.closing_cases hcore hcore' htallied' hres hc htallied
  refine ⟨?_,?_,?_⟩
  · intro u r fin hst
    by_cases hu : u = t
    · exact ⟨o,hu ▸ hc.mem⟩
    · rw [hres.others u hu] at hst
      obtain ⟨o',ho'⟩ := h.logged u r fin hst
      exact ⟨o',hc.sub _ ho'⟩
  · intro g' x' q hg hby hne
    by_cases hy : (⟨x',q⟩ : Task) = ⟨x,p⟩
    · obtain ⟨rfl,rfl⟩ := Task.mk.inj hy
      obtain rfl := ((hby.closed _ hc.mem).mp hc.opener).1
      rcases hcases hby with ⟨-,-,hs⟩ | ⟨-,-,hs⟩ | ⟨r,args,items,hzero,-⟩
      · exact hs
      · exact hs
      · exact absurd hzero hne
    · have hneq : ¬ (t.ref = g' ∧ p = q) := by
        rintro ⟨hr,rfl⟩
        have he := (hby.closed _ hc.mem).mpr ⟨hr,hparent⟩
        exact hy (Option.some.inj (he.symm.trans hc.opener))
      rw [hother hy] at hne
      refine (h.slotted g' x' q hg (hby.of_resume hres hc.sub) hne).same (hkept hy) (hother hy) ?_ ?_
      · intro c hc' hyc
        rw [hc.closed_eq] at hc'
        rcases List.mem_append.mp hc' with hc' | hc'
        · exact hc'
        · rw [List.mem_singleton.mp hc'] at hyc
          exact absurd (Option.some.inj (hyc.symm.trans hc.opener)) hy
      · obtain ⟨c,hsets,hst2⟩ := hc.stores.sets
        rw [hc.result, hst2, hsets.entry_ne hneq, hc.contexts]
  · intro u x' q j r fin hu hst hby
    by_cases hut : u = t
    · subst hut
      obtain ⟨rfl,rfl,-⟩ := StreamID.child.inj (hu.symm.trans hc.stream)
      rw [hres.self] at hst
      rcases hcases hby with
        ⟨rfl,-⟩ | ⟨-,⟨exc,rfl⟩,-⟩ | ⟨r',args,items,hzero,hargs,rfl,hitems,hstored⟩
      · cases hst
      · cases hst
      · obtain ⟨rfl,rfl⟩ := Pc.gatherFinalize.inj (Status.pending.inj hst)
        exact ⟨hzero,args,items,hargs,hitems,hstored,rfl⟩
    · rw [hres.others u hut] at hst
      have hold := h.finalizes u x' q j r fin hu hst (hby.of_resume hres hc.sub)
      have hy : (⟨x',q⟩ : Task) ≠ ⟨x,p⟩ := by
        intro he
        obtain ⟨rfl,rfl⟩ := Task.mk.inj he
        exact hc.positive hcore' htallied' hby hold.closed
      exact hold.same (hother hy) (hkept hy)

end

theorem Resumes.closed_cases (hres : Resumes A dsl st st' t pc st1 ending) :
    st'.closed = st.closed ∨ ∃ p x i o st2 st3, Closes A dsl st st' t ending p x i o st2 st3 := by
  have hfinish := sameBooks_finish dsl st1 t ending
  have hctx : st'.contexts = st1.contexts := by rw [hres.next, finish_contexts]
  rw [← hres.next] at hfinish
  cases hres.cases with
  | closes harr hg ht o hn hc hend hstores =>
    exact .inr ⟨_,_,_,o,_,_,hg,ht,hstores,rfl,rfl,rfl,⟨_,hn,rfl⟩,hstores.books.trans hfinish,hctx⟩
  | _ => exact .inl hfinish.closed

theorem SlotsKept.resume (hwf : dsl.WellFormed) (h : SlotsKept A dsl st) (hcore : Core dsl st)
    (htallied : Tallied st) (hcore' : Core dsl st') (htallied' : Tallied st')
    (hres : Resumes A dsl st st' t pc st1 ending) : SlotsKept A dsl st' := by
  have hfinish := sameBooks_finish dsl st1 t ending
  have hctx : st'.contexts = st1.contexts := by rw [hres.next, finish_contexts]
  rw [← hres.next] at hfinish
  have hcalls := hres.before
  have hnone := hcore.uncounted hres.before
  -- the new stream of a scatter
  have hfresh : ∀ {j}, (⟨t.ref,.child t.streamId t.ref j⟩ : Task) ∉
      (Status.pending pc).calls dsl t (st.taskStreams t) →
      st.contexts.streams (.child t.streamId t.ref j) = none := by
    intro j hnew
    rw [← hres.before] at hnew
    exact hcore.fresh_stream hwf hnew
  have hscatter : dsl.IsScatter t.ref → ∀ g, dsl.IsGather g → g ≠ t.ref := by
    rintro hs g hg rfl
    exact DSLInput.not_scatter_of_gather hg hs
  have hplain : ¬ dsl.IsGather t.ref → ∀ c, Executes A dsl t st.contexts c →
      ∀ g p, dsl.IsGather g → c.entry g p = st.contexts.entry g p := by
    intro hng c hc g p hg
    exact hc.respects (entry_writes fun he => hng (he ▸ hg))
  cases hres.cases with
  | closes harr hg ht o hn hc hend hstores =>
    exact h.closing hcore hcore' htallied' hres
      ⟨hg,ht,hstores,rfl,rfl,rfl,⟨_,hn,rfl⟩,hstores.books.trans hfinish,hctx⟩ htallied
  | waits hpc hw hfits =>
    refine h.quiet hcore hres rfl (fun _ _ => ⟨rfl,rfl⟩) ?_ fun _ _ _ _ _ _ => rfl
    rintro r fin he
    rw [BlockEnd.await.inj he] at hw
    exact hw
  | executes hs hg hc =>
    exact h.quiet hcore hres rfl (fun _ _ => ⟨rfl,rfl⟩) (by simp) fun g x p hg' _ _ => hplain hg _ hc g p hg'
  | succeeds hs hg hc =>
    exact h.quiet hcore hres rfl (fun _ _ => ⟨rfl,rfl⟩) (by simp) fun g x p hg' _ _ => hplain hg _ hc g p hg'
  | fails exc hs hg hc =>
    exact h.quiet hcore hres rfl (fun _ _ => ⟨rfl,rfl⟩) (by simp) fun g x p hg' _ _ => hplain hg _ hc g p hg'
  | skipsScatter hearly hs =>
    refine h.quiet hcore hres rfl (fun _ _ => ⟨rfl,rfl⟩) (by simp) fun g x p hg _ _ => ?_
    exact Contexts.entry_openStream (hfresh (by simp [hearly.notScattering.calls])) rfl
  | empties hs =>
    refine h.quiet hcore hres rfl (fun y hy => ⟨update_of_ne hy _ _,update_of_ne hy _ _⟩)
      (by simp) fun g x p hg _ _ => ?_
    exact Contexts.entry_openStream (hfresh (by simp [Status.calls])) rfl
  | opensFirst hs args hlen =>
    refine h.quiet hcore hres rfl (fun y hy => ⟨rfl,?_⟩) (by simp) fun g x p hg _ _ => ?_
    · simp [openExecutionStream, State.queueTasks, update_of_ne hy]
    · exact Contexts.entry_openStream (hfresh (by simp [Status.calls]))
        (update_of_ne (hscatter hs g hg) _ _)
  | opensNext hs args hlen =>
    rename_i collection opened
    have hts := (hcore.fits t _ hres.before).2.2.2
    refine h.quiet hcore hres rfl (fun y hy => ⟨rfl,?_⟩) (by simp) fun g x p hg _ _ => ?_
    · simp [openExecutionStream, State.queueTasks, update_of_ne hy]
    · exact Contexts.entry_openStream (hfresh (by simp [Status.calls, hts]))
        (update_of_ne (hscatter hs g hg) _ _)
  | scatters hs hlen =>
    exact h.quiet hcore hres rfl (fun y hy => ⟨update_of_ne hy _ _,rfl⟩) (by simp)
      fun _ _ _ _ _ _ => rfl
  | skipPublishes hg ht result =>
    rename_i q y
    refine h.quiet hcore hres rfl (fun _ _ => ⟨rfl,rfl⟩) (by simp) fun g x p _ hby _ => ?_
    refine st.contexts.entry_setAction_ne result ?_
    rintro ⟨rfl,rfl⟩
    refine hby.skipped y ?_
    rw [← ht]
    exact hres.self
  | finalizes hg ht result =>
    rename_i r fin noop q y i
    refine h.quiet hcore hres rfl (fun _ _ => ⟨rfl,rfl⟩) (by simp) fun g x p _ hby hne => ?_
    refine st.contexts.entry_setAction_ne result ?_
    rintro ⟨rfl,rfl⟩
    -- the gather closed the last stream of this scatter before
    obtain ⟨o,ho⟩ := h.logged t r fin hres.before
    have hopener := (hby.closed _ (hfinish.closed ▸ ho)).mpr ⟨rfl,by rw [ht]; rfl⟩
    rw [ht] at hopener
    obtain ⟨rfl,-⟩ := Task.mk.inj (Option.some.inj hopener)
    obtain ⟨m,hm,hle⟩ := hcore.closer_open (g := t.ref) (x := y) (p := q) (k := i) (by
      rw [← ht, show (⟨t.ref,t.streamId⟩ : Task) = t from rfl, hres.before]
      trivial)
    have hzero := (htallied.zero_iff hcore hm
      (hby.of_resume hres fun _ hc => hfinish.closed ▸ hc).one).1
    obtain rfl : m = 0 := by omega
    exact hne hm
  | _ => exact h.quiet hcore hres rfl (fun _ _ => ⟨rfl,rfl⟩) (by simp) fun _ _ _ _ _ _ => rfl

theorem SlotsKept.dequeue {delay : ℚ} {queue : List (Task × ℚ)} (h : SlotsKept A dsl st)
    (hdeq : Dequeues st st' t delay queue) : SlotsKept A dsl st' := by
  have hbooks : SameBooks st st' := by
    rw [hdeq.next]
    exact ⟨rfl,rfl,rfl⟩
  have hctx : st'.contexts = st.contexts := by rw [hdeq.next]
  have hstatus : ∀ {u s}, s ≠ .pending (.created delay) → st'.flow.status u = s →
      st.flow.status u = s := by
    intro u s hs hst
    by_cases hut : u = t
    · rw [hut, hdeq.self] at hst
      exact absurd hst.symm hs
    · rw [← hdeq.others u hut, hst]
  have hold : ∀ {g x p}, GatheredBy st' g x p → GatheredBy st g x p := by
    intro g x p hby
    refine ⟨hbooks.closed ▸ hby.closed,fun y hst => hby.skipped y ?_⟩
    have hne : (⟨g,.child p y .skip⟩ : Task) ≠ t := by
      rintro rfl
      rw [hdeq.idle] at hst
      cases hst
    rw [hdeq.others _ hne, hst]
  refine ⟨?_,?_,?_⟩
  · intro u r fin hst
    rw [hbooks.closed]
    exact h.logged u r fin (hstatus (by simp) hst)
  · intro g x p hg hby hopen
    rw [hbooks.openStreams] at hopen
    exact (h.slotted g x p hg (hold hby) hopen).transport hbooks hctx
  · intro u x p i r fin hu hst hby
    exact (h.finalizes u x p i r fin hu (hstatus (by simp) hst) (hold hby)).same (congrFun hbooks.openStreams _)
      (slots_books hbooks)

theorem slotsKept_of_run (hwf : dsl.WellFormed) (hstart : context.actions = fun _ => none)
    (h : Run A dsl context ok st) : SlotsKept A dsl st := by
  refine h.invariant (P := SlotsKept A dsl) ⟨?_,?_,?_⟩ ?_
  · intro t r fin hst
    cases hst
  · intro g x p hg hby hopen
    refine .inl ⟨?_,fun c hc => by cases hc⟩
    simp only [State.init, Contexts.init, Contexts.entry, update_apply]
    split
    · rw [Option.bind_some, hstart]
    · rfl
  · intro t x p i r fin ht hst
    cases hst
  · intro st choice st' hr hkept hok hs
    have hcore := Run.core hwf hr
    cases choice with
    | dequeue =>
      obtain ⟨t,delay,queue,hdeq⟩ := dequeue_cases hcore hs
      exact hkept.dequeue hdeq
    | resume t =>
      have hr' : Run A dsl context ok st' := .step hr hok hs
      obtain ⟨pc,st1,ending,hres⟩ := resume_cases hwf hcore hs
      exact hkept.resume hwf hcore (tallied_of_run hwf hr) (Run.core hwf hr') (tallied_of_run hwf hr') hres

/-- The outcome of the stream `i`, and `skipped` as long as it has none. -/
def State.outcomes (st : State) (x : String) (p : StreamID) (i : ℕ) : StreamOutcome :=
  (st.outcomeOf (.child p x (.item i))).getD .skipped

theorem storedItems_slots {n : ℕ} (hrange : st.taskStreams ⟨x,p⟩ =
    (List.range n).map fun k => .child p x (.item k))
    (hall : ∀ s ∈ st.taskStreams ⟨x,p⟩, ∃ c ∈ st.closed, c.1.streamId = s) {items : List StoredObject}
    (h : storedItems (st.slots ⟨x,p⟩) = .ok items) :
    items.map StoredObject.data = (entriesOf n (st.outcomes x p)).map GatherEntry.data := by
  rw [State.slots, storedItems_map, hrange, List.filterMap_map] at h
  cases h
  rw [entriesOf, List.map_filterMap, List.map_filterMap]
  refine List.filterMap_congr fun i hi => ?_
  have hsome : (st.outcomeOf (.child p x (.item i))).isSome := by
    obtain ⟨c,hc,hs⟩ := hall _ (by rw [hrange]; exact List.mem_map_of_mem hi)
    rw [State.outcomeOf, Option.isSome_map, List.find?_isSome]
    exact ⟨c,hc,by simpa using hs⟩
  obtain ⟨o,ho⟩ := Option.isSome_iff_exists.mp hsome
  simp only [Function.comp_apply, State.outcomes, ho, Option.bind_some, Option.getD_some]
  cases o <;> rfl

theorem outcomeOf_of_mem (htallied : Tallied st) (hby : GatheredBy st g x p)
    {c : Task × StreamOutcome} (hc : c ∈ st.closed) (hy : c.1.streamId.opener = some ⟨x,p⟩) :
    st.outcomeOf c.1.streamId = some c.2 := by
  have hsome : (st.outcomeOf c.1.streamId).isSome := by
    rw [State.outcomeOf, Option.isSome_map, List.find?_isSome]
    exact ⟨c,hc,by simp⟩
  obtain ⟨o,ho⟩ := Option.isSome_iff_exists.mp hsome
  obtain ⟨d,hd,hs,rfl⟩ := mem_of_outcomeOf ho
  have hrefs := hby.one d hd c hc (by rw [hs, hy]) hy
  rw [ho, List.inj_on_of_nodup_map htallied.nodup hd hc (Task.mk.injEq .. ▸ ⟨hrefs,hs⟩)]

theorem closed_perm {n : ℕ} (hcore : Core dsl st) (htallied : Tallied st) (hby : GatheredBy st g x p)
    (hrange : st.taskStreams ⟨x,p⟩ = (List.range n).map fun k => .child p x (.item k))
    (hall : ∀ s ∈ st.taskStreams ⟨x,p⟩, ∃ c ∈ st.closed, c.1.streamId = s) :
    (st.closed.filter fun c => c.1.streamId.opener = some ⟨x,p⟩).Perm
      ((List.range n).map fun k => (⟨g,.child p x (.item k)⟩,st.outcomes x p k)) := by
  have hone : ∀ c ∈ st.closed, c.1.streamId.opener = some ⟨x,p⟩ → ∀ k,
      c.1.streamId = .child p x (.item k) → c = (⟨g,.child p x (.item k)⟩,st.outcomes x p k) := by
    intro c hc hy k hk
    have ho := outcomeOf_of_mem htallied hby hc hy
    rw [hk] at ho
    refine Prod.ext (Task.mk.injEq .. ▸ ⟨((hby.closed c hc).mp hy).1,hk⟩) ?_
    rw [State.outcomes, ho, Option.getD_some]
  refine (List.perm_ext_iff_of_nodup ((List.Nodup.of_map _ htallied.nodup).filter _)
    (List.nodup_range.map fun i j he => by simpa using congrArg Prod.fst he)).mpr fun c => ?_
  simp only [List.mem_filter, decide_eq_true_eq, List.mem_map]
  constructor
  · rintro ⟨hc,hy⟩
    have hs := (htallied.mem_taskStreams hcore hc hy).2
    rw [hrange] at hs
    obtain ⟨k,hk,he⟩ := List.mem_map.mp hs
    exact ⟨k,hk,(hone c hc hy k he.symm).symm⟩
  · rintro ⟨k,hk,rfl⟩
    obtain ⟨d,hd,hs⟩ := hall _ (by rw [hrange]; exact List.mem_map_of_mem hk)
    have hy : d.1.streamId.opener = some ⟨x,p⟩ := by rw [hs]; rfl
    exact hone d hd hy k hs ▸ ⟨hd,hy⟩

/-- Where the streams of a scatter come to one gather, which gets no others: in every run each
comes to it once, in any order; all but the last are over with that, and the last one hands the
entries to `finalize_gather_activity` in the order of the collection. The strategy of the gather
makes its results and errors of them, where no value has the shape of an error. -/
theorem gathered_in_order (hacc : dsl.Accepted) (hstart : context.actions = fun _ => none)
    (h : Run A dsl context ok st) (hby : GatheredBy st t.ref x p) (ht : t.streamId = .child p x (.item i)) :
    (∀ r fin, st.flow.status t = .pending (.gatherFinalize r fin) →
      ∃ n args items, (dsl.task t.ref).args.gather = some args ∧
        st.taskStreams ⟨x,p⟩ = (List.range n).map (fun k => .child p x (.item k)) ∧
        (st.closed.filter fun c => c.1.streamId.opener = some ⟨x,p⟩).Perm
          ((List.range n).map fun k => (⟨t.ref,.child p x (.item k)⟩,st.outcomes x p k)) ∧
        r.items.bind storedItems = .ok items ∧
        items.map StoredObject.data = (entriesOf n (st.outcomes x p)).map GatherEntry.data ∧
        fin = A.finalized t args ((entriesOf n (st.outcomes x p)).map GatherEntry.data) ∧
        (ValuesPlain A.parseInt (entriesOf n (st.outcomes x p)) →
          finalizeGather A.parseInt ((entriesOf n (st.outcomes x p)).map GatherEntry.data)
            args.dropNulls args.errorStrategy = args.finalized (entriesOf n (st.outcomes x p)))) ∧
    (∀ st0 o, Run A dsl context ok st0 → step A dsl st0 (.resume t) = some st →
      st.closed = st0.closed ++ [(t,o)] → (dsl.task t.ref).args.gather.isSome →
      (st.openStreams ⟨x,p⟩ ≠ some 0 ∧ st.flow.status t = .ended .closed) ∨
      (st.openStreams ⟨x,p⟩ = some 0 ∧
        ∃ r fin, st.flow.status t = .pending (.gatherFinalize r fin))) := by
  have hwf := wellFormed_of_accepted hacc
  have hcore := Run.core hwf h
  have htallied := tallied_of_run hwf h
  refine ⟨?_,?_⟩
  · intro r fin hst
    obtain ⟨hzero,args,items,hargs,hitems,hslots,hfin⟩ :=
      (slotsKept_of_run hwf hstart h).finalizes t x p i r fin ht hst hby
    have hall := (htallied.zero_iff hcore hzero hby.one).2.mp rfl
    obtain ⟨o,ho⟩ := (slotsKept_of_run hwf hstart h).logged t r fin hst
    obtain ⟨hend,-⟩ := htallied.mem_taskStreams hcore ho (y := ⟨x,p⟩) (by rw [ht]; rfl)
    obtain ⟨-,n,-,hrange⟩ := hcore.ended _ _ hend
    have hdata := storedItems_slots hrange hall hslots
    rw [hdata] at hfin
    exact ⟨n,args,items,hargs,hrange,closed_perm hcore htallied hby hrange hall,hitems,hdata,hfin,fun hplain =>
      finalizeGather_entries hplain args.dropNulls args.errorStrategy⟩
  · intro st0 o h0 hs hclosed hsome
    have hcore0 := Run.core hwf h0
    obtain ⟨pc,st1,ending,hres⟩ := resume_cases hwf hcore0 hs
    rcases hres.closed_cases with hsame | ⟨q,y,j,o',st2,st3,hc⟩
    · rw [hsame] at hclosed
      simp at hclosed
    obtain ⟨rfl,rfl,-⟩ := StreamID.child.inj (hc.stream.symm.trans ht)
    rw [hres.self]
    rcases (slotsKept_of_run hwf hstart h0).closing_cases hcore0 hcore htallied hres hc
      (tallied_of_run hwf h0) hby with ⟨rfl,hne,-⟩ | ⟨hnone,-⟩ | ⟨r,args,items,hzero,-,rfl,-⟩
    · exact .inl ⟨hne,rfl⟩
    · rw [hnone] at hsome
      cases hsome
    · exact .inr ⟨hzero,r,_,rfl⟩

end

/-- A scatter, an action in its scope and a gather. -/
def gatheringDSL (errorStrategy : StreamErrorHandlingStrategy) : DSLInput where
  actions := [
    { ref := "x", action := .transformScatter,
      args := { scatter := some { collection := .none } } },
    { ref := "a", action := .udf "a", dependsOn := ["x"] },
    { ref := "g", action := .transformGather, dependsOn := ["a"],
      args := { gather := some { items := "a", errorStrategy := errorStrategy } } }]

/-- The action fails in the first stream, and the gather finds `item` in the others. -/
def gatheringOracle (collection : List Value) (item : Value) : Oracle where
  collection := fun _ => .ok collection
  items := fun _ => .ok ⟨false,item⟩
  action := fun t =>
    if t.streamId = itemStream then .error (.ofType "ApplicationError" "boom") else .ok ⟨false,.int 1⟩

/-- Both streams are opened, and the second one is through before the action runs in the first. -/
def mixedChoices : List Choice :=
  let x : Task := ⟨"x",.root⟩
  let a : Task := ⟨"a",itemStream⟩
  let g : Task := ⟨"g",itemStream⟩
  let a' : Task := ⟨"a",.child .root "x" (.item 1)⟩
  let g' : Task := ⟨"g",.child .root "x" (.item 1)⟩
  [.dequeue,.resume x,.resume x,.resume x,.resume x,.dequeue,.dequeue,.resume a',.resume a',
    .dequeue,.resume g',.resume g',.resume a,.resume a,.dequeue,.resume g]

def Status.isFinalizing : Status → Bool
  | .pending (.gatherFinalize _ _) => true
  | _ => false

/-- Whether the gather of the first stream is in its activity, all was closed by `g` and no skip
stream is over; the indices that were closed; and whether no item reads as an error. -/
def arrivalsOf (st : State) : Bool × List StreamIndex × Bool :=
  ((st.flow.status ⟨"g",itemStream⟩).isFinalizing &&
    (st.closed.all fun c => decide (c.1.streamId.opener = some ⟨"x",.root⟩ ↔
      c.1.ref = "g" ∧ c.1.streamId.parent = some .root)) &&
    decide (∀ t ∈ st.flow.completedTasks, t.streamId.leaf.2 ≠ .skip),
    st.closed.map fun c => c.1.streamId.leaf.2,
    st.closed.all fun c =>
      match c.2 with
      | .value item => (asErrorInfo (fun _ => none) item.data).isNone
      | _ => true)

theorem gathered_in_order_mixed : ∃ st n r,
    Run (gatheringOracle [.int 0,.int 1] (.int 7)).activities (gatheringDSL .partition) .empty
      (fun _ _ => True) st ∧
    st.closed.map (fun c => c.1.streamId.leaf.2) = [.item 1,.item 0] ∧
    let entries := entriesOf n (st.outcomes "x" .root)
    st.flow.status ⟨"g",itemStream⟩ = .pending (.gatherFinalize r (.ok
      (⟨false,.list (keptValues false entries)⟩,entries.filterMap GatherEntry.error?))) := by
  have hrun : (Runs.follow (step (gatheringOracle [.int 0,.int 1] (.int 7)).activities
      (gatheringDSL .partition)) (State.init (gatheringDSL .partition) .empty) mixedChoices).map
        arrivalsOf = some (true,[.item 1,.item 0],true) := by decide +kernel
  obtain ⟨st,hst,hobs⟩ := Runs.reachable_of_observed hrun
  obtain ⟨hstate,hobs⟩ := Prod.mk.inj hobs
  obtain ⟨horder,hplain⟩ := Prod.mk.inj hobs
  simp only [Bool.and_eq_true, List.all_eq_true, decide_eq_true_eq] at hstate hplain
  obtain ⟨⟨hfinalizing,hclosed⟩,hover⟩ := hstate
  have hacc : (gatheringDSL .partition).Accepted := by decide
  have hcore := Run.core (wellFormed_of_accepted hacc) hst
  have hby : GatheredBy st "g" "x" .root := by
    refine ⟨hclosed,fun y hy => ?_⟩
    exact hover _ (hcore.completed_of_ended hy) rfl
  cases hstatus : st.flow.status ⟨"g",itemStream⟩ with
  | idle => rw [hstatus] at hfinalizing; cases hfinalizing
  | ended outcome => rw [hstatus] at hfinalizing; cases hfinalizing
  | pending pc =>
    rw [hstatus] at hfinalizing
    cases pc <;> cases hfinalizing
    rename_i r fin
    obtain ⟨n,args,items,hargs,-,hperm,-,-,hfin,hresult⟩ :=
      (gathered_in_order (t := ⟨"g",itemStream⟩) hacc rfl hst hby rfl).1 r fin hstatus
    obtain rfl : ({ items := "a" } : GatherArgs) = args := by
      simpa [DSLInput.task, gatheringDSL] using hargs
    refine ⟨st,n,r,hst,horder,?_⟩
    rw [hstatus, hfin]
    have hentries : ValuesPlain (gatheringOracle [.int 0,.int 1] (.int 7)).activities.parseInt
        (entriesOf n (st.outcomes "x" .root)) := by
      intro v hv
      obtain ⟨k,hk,he⟩ := List.mem_filterMap.mp hv
      have hmem := hperm.symm.subset (List.mem_map_of_mem hk)
      have hitem := hplain _ (List.mem_filter.mp hmem).1
      cases ho : st.outcomes "x" .root k with
      | value item =>
        rw [ho] at he hitem
        obtain rfl := GatherEntry.value.inj (Option.some.inj he)
        exact Option.isNone_iff_eq_none.mp hitem
      | skipped => rw [ho] at he; cases he
      | error info => rw [ho] at he; cases he
    have hstrategy := hresult hentries
    simp only [Activities.finalized, gatheringOracle, Oracle.activities] at hstrategy ⊢
    rw [hstrategy]
    rfl

/-- The errors of the gather are those of its streams, in every run. -/
def ErrorsExact (errorStrategy : StreamErrorHandlingStrategy) : Prop :=
  ∀ (o : Oracle) (st : State), Run o.activities (gatheringDSL errorStrategy) .empty (fun _ _ => True) st →
    ∀ r stored errors, st.flow.status ⟨"g",itemStream⟩ = .pending (.gatherFinalize r (.ok (stored,errors))) →
      errors = (entriesOf (st.taskStreams ⟨"x",.root⟩).length (st.outcomes "x" .root)).filterMap
        GatherEntry.error?

/-- How many errors the gather has, and how many of its streams have failed. -/
def errorCounts (st : State) : Option (ℕ × ℕ) :=
  match st.flow.status ⟨"g",itemStream⟩ with
  | .pending (.gatherFinalize _ (.ok (_,errors))) => some (errors.length,
      ((entriesOf (st.taskStreams ⟨"x",.root⟩).length (st.outcomes "x" .root)).filterMap
        GatherEntry.error?).length)
  | _ => none

theorem ErrorsExact.of_run {errorStrategy : StreamErrorHandlingStrategy} (h : ErrorsExact errorStrategy)
    {o : Oracle} {choices : List Choice} {m n : ℕ}
    (hrun : (Runs.follow (step o.activities (gatheringDSL errorStrategy))
      (State.init (gatheringDSL errorStrategy) .empty) choices).map errorCounts = some (some (m,n))) :
    m = n := by
  obtain ⟨st,hst,hobs⟩ := Runs.reachable_of_observed hrun
  unfold errorCounts at hobs
  split at hobs
  · rename_i r stored errors hstatus
    cases hobs
    rw [← h o st hst r stored errors hstatus]
  · cases hobs

def failedItem : ActionErrorInfo := .mk "a" "boom" "ApplicationError" .actions 1 .none none

/-- The run of one item: the action fails in its stream, or the gather finds its item. -/
def oneChoices (fails : Bool) : List Choice :=
  let x : Task := ⟨"x",.root⟩
  let a : Task := ⟨"a",.child .root "x" (.item 0)⟩
  let g : Task := ⟨"g",.child .root "x" (.item 0)⟩
  [.dequeue,.resume x,.resume x,.resume x,.dequeue,.resume a,.resume a,.dequeue,.resume g] ++
    if fails then [] else [.resume g]

/-- Under `drop` a gather has no errors, and under `partition` a value that reads as an error info
is one of its errors. -/
theorem gather_misses_errors : ¬ ErrorsExact .drop ∧ ¬ ErrorsExact .partition := by
  refine ⟨fun h => ?_,fun h => ?_⟩
  · have herrors := @ErrorsExact.of_run _ h (gatheringOracle [.int 0] .none) (oneChoices true) 0 1
      (by decide +kernel)
    cases herrors
  · have herrors := @ErrorsExact.of_run _ h
      { collection := fun _ => .ok [.int 0], items := fun _ => .ok ⟨false,failedItem.dump⟩ }
      (oneChoices false) 1 0 (by decide +kernel)
    cases herrors

end Allama
