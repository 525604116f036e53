import Allama.LambdaSafety

/-! Guarded evaluations read no attribute between double underscores and call no function that is denied. -/
namespace Allama
namespace SafeLambdas
open Behaviours FormatFields
section
variable {D E H : Type} {R : Runtime D E H} {st st' : State D E H}
variable {α : Type} {p : α → Prop} {loop : Loop D}

theorem forall_nil {α : Type} {p : α → Prop} : ∀ a ∈ ([] : List α), p a := List.forall_mem_nil p

theorem forall_one {a : α} (h : p a) : ∀ b ∈ [a], p b := List.forall_mem_singleton.2 h

theorem forall_two {a b : α} (ha : p a) (hb : p b) : ∀ c ∈ [a,b], p c :=
  List.forall_mem_cons.2 ⟨ha,forall_one hb⟩

theorem forall_concat {as : List α} {a : α} (has : ∀ a ∈ as, p a) (ha : p a) :
    ∀ b ∈ as ++ [a], p b :=
  List.forall_mem_append.2 ⟨has,forall_one ha⟩

/-- Evaluating an expression that passes goes on with its operands, which pass. -/
theorem evaluate_sound (h : st.Kept R) {e : Expr} {env : Env} (he : e.Passes) (hst : evaluate R st e env = some st') :
    st'.Sound R := by
  cases e with
  | constant c =>
    cases hst
    exact h.goto trivial
  | name id =>
    unfold evaluate at hst
    dsimp only at hst
    split at hst
    · rename_i v hv
      cases hst
      exact h.goto (h.lookup hv)
    · cases hst
      exact h.goto trivial
  | attr value attr =>
    cases hst
    obtain ⟨hdunder,hdenied,hvalue⟩ := passes_attr he
    exact h.goto ⟨forall_nil,forall_one hvalue,hdunder,hdenied⟩
  | operation kind operands =>
    cases hst
    exact h.goto ⟨forall_nil,passes_operation he,trivial⟩
  | dict unpacked keys values =>
    cases hst
    obtain ⟨hkeys,hvalues⟩ := passes_dict he
    have hoperands : ∀ e ∈ dictOperands unpacked keys values, e.Passes :=
      fun e hmem => (mem_dictOperands hmem).elim (hkeys e) (hvalues e)
    exact h.goto ⟨forall_nil,hoperands,trivial⟩
  | boolOp op values =>
    cases values with
    | nil => cases hst
    | cons value values =>
      cases hst
      obtain ⟨hvalue,hvalues⟩ := List.forall_mem_cons.1 (passes_boolOp he)
      exact h.goto ⟨forall_nil,forall_one hvalue,hvalues⟩
  | compare left ops comparators =>
    cases comparators with
    | nil => cases hst
    | cons right comparators =>
      cases hst
      obtain ⟨hleft,hall⟩ := passes_compare he
      obtain ⟨hright,hcomparators⟩ := List.forall_mem_cons.1 hall
      exact h.goto ⟨forall_nil,forall_two hleft hright,hcomparators⟩
  | ifExp test body orelse =>
    cases hst
    obtain ⟨htest,hbody,horelse⟩ := passes_ifExp he
    exact h.goto ⟨forall_nil,forall_one htest,hbody,horelse⟩
  | lambda params kw_defaults defaults body =>
    cases hst
    obtain ⟨hkeywords,hdefaults,hbody⟩ := passes_lambda he
    exact h.goto ⟨forall_nil,List.forall_mem_append.2 ⟨hdefaults,hkeywords⟩,hbody⟩
  | comprehension kind elts generators =>
    cases generators with
    | nil => cases hst
    | cons generator generators =>
      obtain ⟨target,iter,ifs,is_async⟩ := generator
      cases hst
      obtain ⟨helts,hall⟩ := passes_comprehension he
      obtain ⟨hgenerator,hgenerators⟩ := List.forall_mem_cons.1 hall
      obtain ⟨_,hiter,_⟩ := passes_generator hgenerator
      exact h.goto ⟨forall_nil,forall_one hiter,helts,hgenerator,hgenerators⟩
  | call func args keywords values =>
    cases hst
    obtain ⟨hfunc,hargs,hvalues⟩ := passes_call he
    have hoperands : ∀ e ∈ func :: (args ++ values), e.Passes :=
      List.forall_mem_cons.2 ⟨hfunc,List.forall_mem_append.2 ⟨hargs,hvalues⟩⟩
    exact h.goto ⟨forall_nil,hoperands,trivial⟩
  | other kind children => cases hst

theorem apply_sound (hlaw : R.Lawful) (h : st.Kept R) {operands : List (Value D)} {env : Env} {after : After}
    (hoperands : ∀ v ∈ operands, v.Safe) (hafter : after.Sound)
    (hguard : ∀ attr v, after = .getattr attr → operands = [v] → introspective v attr = false)
    (hst : apply R st operands env after = some st') : st'.Sound R := by
  unfold apply at hst
  split at hst
  · cases hst
    exact h.perform hlaw trivial hoperands
  · cases hst
    exact h.perform hlaw trivial hoperands
  · rename_i attr v
    cases hst
    obtain ⟨hdunder,hdenied⟩ := hafter
    have hv : v.Safe := hoperands v List.mem_cons_self
    have hplain : introspective v attr = false := hguard attr v rfl rfl
    have htold : (st.tell (.reads attr)).Kept R := h.tell _ hdunder
    -- the method that the attribute names is neither denied nor introspection
    apply htold.goto
    exact htold.confined hlaw (forall_one ⟨hplain,hdenied,hplain,hv⟩) hoperands forall_nil
  · rename_i args keywords f vs
    cases hst
    obtain ⟨hf,hvs⟩ := List.forall_mem_cons.1 hoperands
    refine h.goto ⟨hf,fun v hmem => hvs v (List.mem_of_mem_take hmem),?_⟩
    intro keyword hmem
    exact hvs _ (List.mem_of_mem_drop (List.of_mem_zip hmem).2)
  · rename_i params defaults body
    cases hst
    refine ⟨⟨h.frames,h.cells,?_,h.generators,h.heap,h.events⟩,trivial⟩
    exact forall_concat h.functions ⟨fun v hmem => hoperands v (List.mem_of_mem_take hmem),
      fun v hmem => hoperands v (List.mem_of_mem_drop hmem),hafter⟩
  · cases hst
    exact h.ask hlaw hafter trivial hoperands
  · cases hst
    exact h.goto (hoperands _ List.mem_cons_self)
  · cases hst
    exact h.ask hlaw ⟨hoperands _ List.mem_cons_self,hafter⟩ trivial hoperands
  · cases hst
    exact h.perform hlaw trivial hoperands
  · rename_i left right
    cases hst
    have hright : right.Safe := hoperands right (List.mem_cons_of_mem _ List.mem_cons_self)
    exact h.ask hlaw ⟨hright,hafter⟩ trivial hoperands
  · cases hst
    exact h.ask hlaw hafter trivial hoperands
  · cases hst

theorem name_allowed {f : Value D} (hf : f.Safe) {name : Text} (hname : f.name R = some name) : (Event.calls name).Allowed := by
  cases f with
  | data d => cases hname
  | generator id => cases hname
  | builtin name => exact Option.some.inj hname ▸ hf
  | method name self => exact Option.some.inj hname ▸ hf.1
  | function id =>
    have hlambda : "<lambda>".toList ∉ DENYLISTED_SYMBOLS := by decide
    exact Option.some.inj hname ▸ hlambda
  | foreign d => exact hf.elim

theorem call_sound (hlaw : R.Lawful) (h : st.Kept R) {f : Value D} {args : List (Value D)} {keywords : Keywords D}
    (hf : f.Safe) (hargs : ∀ v ∈ args, v.Safe) (hkeywords : keywords.All Value.Safe)
    (hguard : ∀ attr ∈ fieldsRead R st.heap f args, isDunder attr = false)
    (hst : call R st f args keywords = some st') : st'.Sound R := by
  have hperform : (∀ name self, f = .method name self → introspective self name = false) →
      (st.perform R (.call f keywords) args).Sound R :=
    fun hplain => h.goto (h.confined hlaw ⟨hf,hkeywords,hplain⟩ hargs hguard)
  cases f with
  | data d =>
    cases hst
    exact h.goto trivial
  | generator id =>
    cases hst
    exact h.goto trivial
  | builtin name =>
    cases hst
    exact hperform fun _ _ heq => by cases heq
  | method name self =>
    cases hst
    refine hperform fun name' self' heq => ?_
    obtain ⟨rfl,rfl⟩ := Value.method.inj heq
    exact hf.2.1
  | foreign d => exact hf.elim
  | function id =>
    obtain ⟨c,hc,hst⟩ := Option.map_eq_some_iff.1 hst
    obtain ⟨hdefaults,hkw_defaults,hbody⟩ := h.functions c (List.mem_of_getElem? hc)
    obtain ⟨hheap,hbindings⟩ := hlaw.bind _ c.params c.defaults c.kw_defaults args keywords st.heap ordinary_safe hdefaults
      hkw_defaults hargs hkeywords h.heap
    rcases hbind : R.bind c.params c.defaults c.kw_defaults args keywords st.heap with ⟨e | bindings,heap⟩
    · simp only [hbind] at hst hheap
      subst hst
      exact (h.setHeap hheap).goto trivial
    · simp only [hbind] at hst hheap hbindings
      subst hst
      have hvalues : ∀ v, some v ∈ bindings.map (fun b => some b.2) → v.Safe := by
        intro v hmem
        obtain ⟨b,hb,heq⟩ := List.mem_map.1 hmem
        exact Option.some.inj heq ▸ hbindings bindings rfl b hb
      exact ((h.bind (bindings.map Prod.fst) c.env hvalues).setHeap hheap).goto hbody

theorem run_sound (h : st.Kept R) {computation : Computation D E H} (hc : Confined (safeBounds R) computation) :
    (run R st computation).Sound R := by
  cases computation with
  | returns v heap =>
    obtain ⟨hv,hheap⟩ := hc.of_returns
    exact (h.setHeap hheap).goto hv
  | raises e heap => exact (h.setHeap hc.of_raises).goto trivial
  | asks request heap answer =>
    obtain ⟨hrequest,hheap,hanswer⟩ := hc.of_asks
    cases request with
    | call f args keywords => exact (h.setHeap hheap).push hanswer hrequest
    | resume id => exact (h.setHeap hheap).push hanswer trivial
    | close id =>
      unfold run
      dsimp only
      split
      · exact (h.setHeap hheap).goto (hanswer _ heap (fun v hv => by cases hv) hheap)
      · refine ((h.setGenerator id .finished trivial).setHeap hheap).goto (hanswer _ heap (fun v hv => ?_) hheap)
        cases hv
        exact trivial
  | tells attr next =>
    obtain ⟨hattr,hnext⟩ := hc.of_tells
    exact (h.tell (.reads attr) hattr).goto hnext

theorem resume_sound (h : st.Kept R) {id : ℕ} (hst : resume R st id = some st') : st'.Sound R := by
  obtain ⟨state,hstate,rfl⟩ := Option.map_eq_some_iff.1 hst
  cases state with
  | suspended loop => exact (h.setGenerator id .executing trivial).goto (h.generators _ (List.mem_of_getElem? hstate))
  | executing => exact h.goto trivial
  | finished => exact h.goto trivial

theorem advance_sound (hlaw : R.Lawful) (h : st.Kept R) (hloop : loop.Sound) :
    (advance R st loop).Sound R := by
  unfold advance
  split
  · rename_i iterator _ _ _ is_async begun heq
    have hiterator := (hloop.begun (iterator,_) (heq ▸ List.mem_cons_self)).1
    exact h.ask hlaw ⟨hloop,trivial⟩ trivial (forall_one hiterator)
  · rename_i kind elements _ heq
    have helements : (Sink.collection kind elements).Sound := heq ▸ hloop.sink
    exact h.goto helements
  · exact (h.setGenerator _ .finished trivial).goto trivial

theorem assign_sound (hlaw : R.Lawful) (h : st.Kept R) {targets : List (Expr × Value D)}
    (htargets : Targets targets) (hloop : loop.Sound) (hst : assign R st targets loop = some st') :
    st'.Sound R := by
  unfold assign at hst
  split at hst
  · split at hst
    · rename_i iterator _ _ ifs _ begun heq
      cases hst
      obtain ⟨_,_,hifs⟩ := passes_generator (hloop.begun _ (heq ▸ List.mem_cons_self)).2
      exact h.goto ⟨hifs,hloop⟩
    · cases hst
  · rename_i id v rest
    obtain ⟨⟨_,hv⟩,hrest⟩ := List.forall_mem_cons.1 htargets
    obtain ⟨cell,_,rfl⟩ := Option.map_eq_some_iff.1 hst
    refine ⟨⟨h.frames,?_,h.functions,h.generators,h.heap,h.events⟩,hrest,hloop⟩
    intro w hmem
    rcases List.mem_or_eq_of_mem_set hmem with hmem | heq
    · exact h.cells w hmem
    · exact Option.some.inj heq ▸ hv
  · obtain ⟨⟨htarget,hv⟩,hrest⟩ := List.forall_mem_cons.1 htargets
    cases hst
    exact h.ask hlaw ⟨hloop,passes_operation htarget,hrest⟩ trivial (forall_one hv)
  · obtain ⟨⟨htarget,hv⟩,hrest⟩ := List.forall_mem_cons.1 htargets
    cases hst
    exact h.ask hlaw ⟨hloop,passes_operation htarget,hrest⟩ trivial (forall_one hv)
  · obtain ⟨⟨htarget,hv⟩,hrest⟩ := List.forall_mem_cons.1 htargets
    cases hst
    exact h.push ⟨hloop,hv,hrest⟩ (passes_attr htarget).2.2
  · obtain ⟨⟨htarget,hv⟩,hrest⟩ := List.forall_mem_cons.1 htargets
    cases hst
    obtain ⟨hobject,hindex⟩ := List.forall_mem_cons.1 (passes_operation htarget)
    exact h.push ⟨hloop,hindex _ List.mem_cons_self,hv,hrest⟩ hobject
  · cases hst

theorem tests_sound (h : st.Kept R) {ifs : List Expr} {loop : Loop D} (hifs : ∀ e ∈ ifs, e.Passes) (hloop : loop.Sound) :
    (tests st ifs loop).Sound R := by
  unfold tests
  split
  · obtain ⟨he,hifs⟩ := List.forall_mem_cons.1 hifs
    exact h.push ⟨hloop,hifs⟩ he
  · exact h.goto ⟨forall_nil,hloop.elts,hloop⟩
  · rename_i target iter ifs is_async generators heq
    obtain ⟨hgenerator,hgenerators⟩ := List.forall_mem_cons.1 (heq ▸ hloop.pending)
    have hloop' : Loop.Sound { loop with pending := generators } := ⟨hloop.sink,hloop.elts,hloop.begun,hgenerators⟩
    exact h.push ⟨hloop',hgenerator⟩ (passes_generator hgenerator).2.1

theorem elements_sound (hlaw : R.Lawful) (h : st.Kept R) {done : List (Value D)} {todo : List Expr}
    (hdone : ∀ v ∈ done, v.Safe) (htodo : ∀ e ∈ todo, e.Passes) (hloop : loop.Sound)
    (hst : elements R st done todo loop = some st') : st'.Sound R := by
  unfold elements at hst
  split at hst
  · cases hst
    obtain ⟨he,htodo⟩ := List.forall_mem_cons.1 htodo
    exact h.push ⟨hloop,hdone,htodo⟩ he
  · rename_i kind elements heq
    cases hst
    have helements : (Sink.collection kind elements).Sound := heq ▸ hloop.sink
    exact h.ask hlaw ⟨hloop,trivial⟩ trivial (List.forall_mem_cons.2 ⟨helements,hdone⟩)
  · rename_i id v _
    cases hst
    exact (h.setGenerator id (.suspended loop) hloop).goto (hdone v List.mem_cons_self)
  · cases hst

theorem takeItem_sound (hlaw : R.Lawful) (h : st.Kept R) {items : Value D} {index : ℕ}
    {targets : List Expr} {taken rest : List (Expr × Value D)} (hitems : items.Safe)
    (htargets : ∀ e ∈ targets, e.Passes) (htaken : Targets taken) (hrest : Targets rest)
    (hloop : loop.Sound) : (takeItem R st items index targets taken rest loop).Sound R := by
  cases targets with
  | nil => exact h.goto ⟨List.forall_mem_append.2 ⟨htaken,hrest⟩,hloop⟩
  | cons target targets =>
    obtain ⟨htarget,htargets⟩ := List.forall_mem_cons.1 htargets
    exact h.ask hlaw ⟨hloop,hitems,htarget,htargets,htaken,hrest⟩ trivial (forall_one hitems)

theorem proceed_sound (hlaw : R.Lawful) (h : st.Kept R) {v : Value D} {loop : Loop D} {point : Point D} (hv : v.Safe)
    (hloop : loop.Sound) (hpoint : point.Sound) (hst : proceed R st v loop point = some st') : st'.Sound R := by
  cases point with
  | iterable generator =>
    obtain ⟨target,iter,ifs,is_async⟩ := generator
    cases hst
    exact h.ask hlaw ⟨hloop,hpoint⟩ trivial (forall_one hv)
  | iterator generator =>
    cases hst
    exact h.goto ⟨hloop.sink,hloop.elts,List.forall_mem_cons.2 ⟨⟨hv,hpoint⟩,hloop.begun⟩,hloop.pending⟩
  | next =>
    unfold proceed at hst
    dsimp only at hst
    split at hst
    · rename_i heq
      cases hst
      have hgenerator := (hloop.begun _ (heq ▸ List.mem_cons_self)).2
      exact h.goto ⟨forall_one ⟨(passes_generator hgenerator).1,hv⟩,hloop⟩
    · cases hst
  | items targets rest =>
    cases hst
    exact takeItem_sound hlaw h hv hpoint.1 forall_nil hpoint.2 hloop
  | item items index target targets taken rest =>
    cases hst
    obtain ⟨hitems,htarget,htargets,htaken,hrest⟩ := hpoint
    exact takeItem_sound hlaw h hitems htargets (forall_concat htaken ⟨htarget,hv⟩) hrest hloop
  | attrObject attr w rest =>
    cases hst
    exact h.ask hlaw ⟨hloop,hpoint.2⟩ trivial (forall_two hv hpoint.1)
  | itemObject index w rest =>
    cases hst
    exact h.push ⟨hloop,hv,hpoint.2⟩ hpoint.1
  | itemIndex object w rest =>
    cases hst
    obtain ⟨hobject,hw,hrest⟩ := hpoint
    exact h.ask hlaw ⟨hloop,hrest⟩ trivial (List.forall_mem_cons.2 ⟨hobject,forall_two hv hw⟩)
  | stored rest =>
    cases hst
    exact h.goto ⟨hpoint,hloop⟩
  | condition ifs =>
    cases hst
    exact h.ask hlaw ⟨hloop,hpoint⟩ trivial (forall_one hv)
  | tested ifs =>
    cases hst
    apply h.goto
    cases R.isTrue v with
    | true => exact ⟨hpoint,hloop⟩
    | false => exact hloop
  | element done todo =>
    cases hst
    exact h.goto ⟨forall_concat hpoint.1 hv,hpoint.2,hloop⟩
  | added =>
    cases hst
    exact h.goto hloop

theorem begin_sound (h : st.Kept R) (sink : Sink D) {v : Value D} {elts : List Expr} (env : Env) {generator : Generator}
    {generators : List Generator} (hsink : sink.Sound) (hv : v.Safe) (helts : ∀ e ∈ elts, e.Passes)
    (hgenerator : generator.Passes) (hgenerators : ∀ g ∈ generators, g.Passes) :
    (begin st sink v elts env generator generators).1.Kept R ∧ (begin st sink v elts env generator generators).2.Sound := by
  have hvalues : ∀ w : Value D, some w ∈ (boundNames (generator :: generators)).map (fun _ => none) → w.Safe := by
    intro w hmem
    obtain ⟨_,_,heq⟩ := List.mem_map.1 hmem
    cases heq
  exact ⟨h.bind (boundNames (generator :: generators)) env hvalues,hsink,helts,forall_one ⟨hv,hgenerator⟩,hgenerators⟩

/-- A safe value that comes back to a frame leads to a sound state. -/
theorem comeBack_sound (hlaw : R.Lawful) (h : st.Kept R) {v : Value D} {frame : Frame D E H} (hv : v.Safe)
    (hframe : frame.Sound R) (hst : comeBack R st v frame = some st') : st'.Sound R := by
  cases frame with
  | operand done todo env after =>
    cases hst
    obtain ⟨hdone,htodo,hafter⟩ := hframe
    exact h.goto ⟨forall_concat hdone hv,htodo,hafter⟩
  | answer answer =>
    cases hst
    exact h.goto (hframe _ _ (fun w hw => Except.ok.inj hw ▸ hv) h.heap)
  | branch body orelse env =>
    cases hst
    apply h.goto
    show (if R.isTrue v then body else orelse).Passes
    split
    · exact hframe.1
    · exact hframe.2
  | shortCircuit op w es env =>
    cases es with
    | nil => cases hst
    | cons e es =>
      cases hst
      obtain ⟨hw,hall⟩ := hframe
      obtain ⟨he,hes⟩ := List.forall_mem_cons.1 hall
      apply h.goto
      split
      · exact ⟨forall_nil,forall_one he,hes⟩
      · exact hw
  | compared right ops es env =>
    cases hst
    exact h.ask hlaw ⟨hv,hframe⟩ trivial (forall_one hv)
  | chained result right ops es env =>
    cases es with
    | nil => cases hst
    | cons e es =>
      cases hst
      obtain ⟨hresult,hright,hall⟩ := hframe
      obtain ⟨he,hes⟩ := List.forall_mem_cons.1 hall
      apply h.goto
      split
      · exact ⟨forall_one hright,forall_one he,hes⟩
      · exact hresult
  | iterated kind elts env generator generators =>
    obtain ⟨helts,hgenerator,hgenerators⟩ := hframe
    have hask : kind ≠ .GeneratorExp → st'.Sound R := by
      intro hkind
      obtain rfl : st.ask R (.displayed v kind elts env generator generators) (.display kind) [] = st' := by
        cases kind <;> first | exact Option.some.inj hst | exact absurd rfl hkind
      exact h.ask hlaw ⟨hv,helts,hgenerator,hgenerators⟩ trivial forall_nil
    cases kind with
    | GeneratorExp =>
      cases hst
      obtain ⟨hkept,hloop⟩ := begin_sound h (.generator st.generators.length) env trivial hv helts hgenerator hgenerators
      refine ⟨⟨hkept.frames,hkept.cells,hkept.functions,?_,hkept.heap,hkept.events⟩,trivial⟩
      exact forall_concat h.generators hloop
    | ListComp => exact hask (by decide)
    | SetComp => exact hask (by decide)
    | DictComp => exact hask (by decide)
  | displayed iterator kind elts env generator generators =>
    cases hst
    obtain ⟨hiterator,helts,hgenerator,hgenerators⟩ := hframe
    obtain ⟨hkept,hloop⟩ := begin_sound h (.collection kind v) env hv hiterator helts hgenerator hgenerators
    exact hkept.goto hloop
  | loop loop point => exact proceed_sound hlaw h hv hframe.1 hframe.2 hst
  | built x =>
    cases hst
    exact h.ask hlaw hv trivial (forall_one hframe)
  | copied f =>
    cases hst
    exact h.push trivial ⟨hframe,forall_one hv,forall_nil⟩
  | result =>
    cases hst
    apply h.goto
    split
    · exact hv
    · exact trivial

theorem unwind_sound (h : st.Kept R) {e : E} {frame : Frame D E H} (hframe : frame.Sound R) : (unwind R st e frame).Sound R := by
  cases frame with
  | answer answer => exact h.goto (hframe _ _ (fun w hw => by cases hw) h.heap)
  | loop loop point =>
    obtain ⟨hloop,_⟩ := hframe
    unfold unwind
    dsimp only
    split
    · rename_i iterator generator begun _ _ heq
      have hall := heq ▸ hloop.begun
      obtain ⟨hfirst,hbegun⟩ := List.forall_mem_cons.1 hall
      exact h.goto ⟨hloop.sink,hloop.elts,hbegun,List.forall_mem_cons.2 ⟨hfirst.2,hloop.pending⟩⟩
    · exact (h.setGenerator _ .finished trivial).goto trivial
    · exact h.goto trivial
  | operand | branch | shortCircuit | compared | chained | iterated | displayed | built | copied | result => exact h.goto trivial

theorem step_sound (hlaw : R.Lawful) (h : st.Sound R) (hguard : Guarded R st ()) (hst : step R st = some st') : st'.Sound R := by
  have hcontrol := h.control
  have hkept := h.toKept
  -- one case for each control; the guard speaks of attributes that are read and of calls
  unfold step at hst
  unfold Guarded isGuarded at hguard
  cases hc : st.control with
  | eval e env =>
    rw [hc] at hst hcontrol
    exact evaluate_sound hkept hcontrol hst
  | collect done todo env after =>
    rw [hc] at hst hcontrol hguard
    obtain ⟨hdone,htodo,hafter⟩ := hcontrol
    cases todo with
    | nil =>
      refine apply_sound hlaw hkept hdone hafter ?_ hst
      rintro attr v rfl rfl
      exact (Bool.not_eq_true' _).mp hguard
    | cons e todo =>
      cases hst
      obtain ⟨he,htodo⟩ := List.forall_mem_cons.1 htodo
      exact hkept.push ⟨hdone,htodo,hafter⟩ he
  | run computation =>
    rw [hc] at hst hcontrol
    cases hst
    exact run_sound hkept hcontrol
  | call f args keywords =>
    rw [hc] at hst hcontrol hguard
    obtain ⟨hf,hargs,hkeywords⟩ := hcontrol
    have hfields : ∀ attr ∈ fieldsRead R st.heap f args, isDunder attr = false :=
      fun attr hmem => (Bool.not_eq_true' _).mp (List.all_eq_true.1 hguard attr hmem)
    dsimp only at hst
    cases hname : f.name R with
    | none =>
      rw [hname] at hst
      exact call_sound hlaw hkept hf hargs hkeywords hfields hst
    | some name =>
      rw [hname] at hst
      exact call_sound hlaw (hkept.tell (.calls name) (name_allowed hf hname)) hf hargs hkeywords hfields hst
  | resume id =>
    rw [hc] at hst
    exact resume_sound hkept hst
  | advance loop =>
    rw [hc] at hst hcontrol
    cases hst
    exact advance_sound hlaw hkept hcontrol
  | assign targets loop =>
    rw [hc] at hst hcontrol
    exact assign_sound hlaw hkept hcontrol.1 hcontrol.2 hst
  | tests ifs loop =>
    rw [hc] at hst hcontrol
    cases hst
    exact tests_sound hkept hcontrol.1 hcontrol.2
  | elements done todo loop =>
    rw [hc] at hst hcontrol
    obtain ⟨hdone,htodo,hloop⟩ := hcontrol
    exact elements_sound hlaw hkept hdone htodo hloop hst
  | value v =>
    rw [hc] at hst hcontrol
    dsimp only at hst
    split at hst
    · rename_i frame frames heq
      obtain ⟨hframe,hframes⟩ := List.forall_mem_cons.1 (heq ▸ hkept.frames)
      have hpopped : State.Kept R { st with frames := frames } :=
        ⟨hframes,hkept.cells,hkept.functions,hkept.generators,hkept.heap,hkept.events⟩
      exact comeBack_sound hlaw hpopped hcontrol hframe hst
    · cases hst
  | error e =>
    rw [hc] at hst
    dsimp only at hst
    split at hst
    · rename_i frame frames heq
      cases hst
      obtain ⟨hframe,hframes⟩ := List.forall_mem_cons.1 (heq ▸ hkept.frames)
      have hpopped : State.Kept R { st with frames := frames } :=
        ⟨hframes,hkept.cells,hkept.functions,hkept.generators,hkept.heap,hkept.events⟩
      exact unwind_sound hpopped hframe
    · cases hst

theorem start_sound {tree : Expr} (htree : tree.Passes) {x : Value D} {h : H} (hx : x.IsData)
    (hdata : ∀ v, R.holds h v → v.IsData) : (start tree x h : State D E H).Sound R := by
  have hsafe : ∀ v : Value D, v.IsData → v.Safe := by
    rintro v ⟨d,rfl⟩
    exact trivial
  refine ⟨⟨forall_one (hsafe x hx),?_,forall_nil,forall_nil,fun v hv => hsafe v (hdata v hv),forall_nil⟩,htree⟩
  intro v hmem
  cases hmem

/-- A lambda that was accepted, called with an argument of built-in types: in every evaluation whose steps are all guarded, no
attribute between double underscores is read and no function is called that is denied. -/
theorem events_allowed (hlaw : R.Lawful) {py : Python} {lambda_expr : Text} {tree : Expr}
    (haccepted : buildSafeLambda py lambda_expr = .ok tree) {x : Value D} {h : H} (hx : x.IsData)
    (hdata : ∀ v, R.holds h v → v.IsData) (hrun : Runs.Reaches (next R) (Guarded R) (start tree x h) st) :
    ∀ event ∈ st.events, event.Allowed := by
  have hsound : st.Sound R := hrun.invariant (start_sound (passes_of_accepted haccepted) hx hdata)
    fun _ _ _ _ hsound hguard hst => step_sound hlaw hsound hguard hst
  exact hsound.events

end

/-! A part of the runtime: strings that are joined and formatted, and the base classes of a class. -/

inductive Datum
  | none | int (n : ℤ) | str (s : Text) | bases | object | plainObject
deriving DecidableEq, Repr

/-- Whether the base classes are in a list is all that the heap of the sample tells. -/
abbrev SampleComputation := Computation Datum Unit Bool

def sampleRendered (s : Text) : List (Value Datum) → Option Text
  | [.data .none] => if s = "\x7b0.__class__\x7d".toList then some "<class 'NoneType'>".toList else none
  | [.data (.str t)] => if s = "\x7b0\x7d".toList then some t else none
  | _ => none

def sampleGetattr (attr : Text) (v : Value Datum) (h : Bool) : SampleComputation :=
  match v with
  | .data (.str _) => if attr = "format".toList then .returns (.method attr v) h else .raises () h
  | .builtin _ => if attr = "mro".toList then .returns (.method attr v) h else .raises () h
  | _ => .raises () h

def sampleCall (f : Value Datum) (args : List (Value Datum)) (h : Bool) : SampleComputation :=
  match f with
  | .method name (.data (.str s)) =>
    if name = "format".toList then
      (formatAttributes s).foldr .tells
        (match sampleRendered s args with
        | some t => .returns (.data (.str t)) h
        | none => .raises () h)
    else .raises () h
  | .method name (.builtin _) => if name = "mro".toList then .returns (.data .bases) true else .raises () h
  | .foreign .object => .returns (.data .plainObject) h
  | _ => .raises () h

def samplePerform (op : Operation Datum) (args : List (Value Datum)) (h : Bool) : SampleComputation :=
  match op, args with
  | .expression (.binOp .Add), [.data (.str a),.data (.str b)] => .returns (.data (.str (a ++ b))) h
  | .expression .subscript, [.data .bases,.data (.int 1)] => if h then .returns (.foreign .object) h else .raises () h
  | .getattr attr, [v] => sampleGetattr attr v h
  | .call f [], args => sampleCall f args h
  | .guarded, [v] => .returns v h
  | _, _ => .raises () h

def sampleRuntime : Runtime Datum Unit Bool where
  constant
    | .str s => .str s
    | .int n => .int n
    | _ => .none
  perform := samplePerform
  isTrue _ := true
  bind params _ _ args _ h := if params.args.length = args.length then (.ok (params.args.zip args),h) else (.error (),h)
  str _
    | .data (.str s) => some s
    | _ => none
  holds h v := h = true ∧ (v = .builtin "str".toList ∨ v = .foreign .object)
  nameOf
    | .object => "object".toList
    | _ => []
  isSafeReturn _ := true
  NameError _ := ()
  TypeError := ()
  UnsafeType := ()
  StopIteration := ()
  isStop _ := false
  AlreadyExecuting := ()
  leaving := id

theorem sampleRuntime_lawful : sampleRuntime.Lawful where
  perform := by
    intro S A op args h hS hop hargs hheap hreads
    show Confined _ (samplePerform op args h)
    unfold samplePerform
    split
    · exact .returns (hS.data _) hheap
    · split
      · -- no set of ordinary values holds the class in the list
        rename_i hlisted
        exact (hS.foreign .object (hheap _ ⟨hlisted,.inr rfl⟩)).elim
      · exact .raises hheap
    · rename_i attr v
      have hmethod : S (.method attr v) := (hop v List.mem_cons_self).2
      unfold sampleGetattr
      split
      · split
        · exact .returns hmethod hheap
        · exact .raises hheap
      · split
        · exact .returns hmethod hheap
        · exact .raises hheap
      · exact .raises hheap
    · rename_i f
      unfold sampleCall
      split
      · rename_i name s
        split
        · rename_i hname
          refine Confined.tellAll (fun attr hattr => hreads attr ?_) ?_
          · show attr ∈ fieldsRead sampleRuntime h (.method name (.data (.str s))) args
            rw [hname]
            exact hattr
          · split
            · exact .returns (hS.data _) hheap
            · exact .raises hheap
        · exact .raises hheap
      · rename_i name class_name
        split
        · rename_i hname
          -- base classes are nothing that an operation within ordinary values is asked for
          have hplain : introspective (.builtin class_name : Value Datum) name = false := hop.2.2 _ _ rfl
          rw [hname] at hplain
          cases hplain
        · exact .raises hheap
      · exact .returns (hS.data _) hheap
      · exact .raises hheap
    · exact .returns (hargs _ List.mem_cons_self) hheap
    · exact .raises hheap
  bind := by
    intro S params defaults kw_defaults args keywords h hS hdefaults hkw_defaults hargs hkeywords hheap
    refine ⟨?_,?_⟩
    · show ∀ v, sampleRuntime.holds (if params.args.length = args.length then
          ((.ok (params.args.zip args) : Except Unit (List (Text × Value Datum))),h) else (.error (),h)).2 v → S v
      split <;> exact hheap
    · intro bindings heq b hb
      change (if params.args.length = args.length then
          ((.ok (params.args.zip args) : Except Unit (List (Text × Value Datum))),h) else (.error (),h)).1 = _ at heq
      split at heq
      · cases heq
        exact hargs _ (List.of_mem_zip hb).2
      · cases heq

/-- `lambda x: ...`. -/
def lambdaOf (body : Expr) : Expr := .lambda ⟨[],["x".toList],none,[],none⟩ [] [] body

def formatOf (format : Expr) : Expr := lambdaOf (.call (.attr format "format".toList) [.name "x".toList] [] [])

def textOf (s : String) : Expr := .constant (.str s.toList)

def joined (left right : Expr) : Expr := .operation (.binOp .Add) [left,right]

def formats : Text × Expr :=
  ("lambda x: ('\x7b' + '0\x7d').format(x)".toList,formatOf (joined (textOf "\x7b") (textOf "0\x7d")))

/-- The name of the attribute is in no text that is checked. -/
def readsClass : Text × Expr :=
  ("lambda x: ('\x7b0._' + '_class_' + '_\x7d').format(x)".toList,
    formatOf (joined (joined (textOf "\x7b0._") (textOf "_class_")) (textOf "_\x7d")))

/-- The name of the function is in no text at all. -/
def callsBase : Text × Expr :=
  ("lambda x: str.mro()[1]()".toList,
    lambdaOf (.call (.operation .subscript [.call (.attr (.name "str".toList) "mro".toList) [] [] [],.constant (.int 1)])
      [] [] []))

def samplePython : Python where
  parse text := [formats,readsClass,callsBase].lookup text
  compile _ := true

/-- The text that only formats its argument, to the end of its evaluation. -/
theorem events_allowed_format :
    buildSafeLambda samplePython formats.1 = .ok formats.2 ∧
    ∃ st, Runs.Reaches (next sampleRuntime) (Guarded sampleRuntime) (start formats.2 (.data (.str "a".toList)) false) st ∧
      st.events = [.calls "<lambda>".toList,.reads "format".toList,.calls "format".toList] ∧
      ∀ event ∈ st.events, event.Allowed := by
  have haccepted : buildSafeLambda samplePython formats.1 = .ok formats.2 := rfl
  have hdata : ∀ v, sampleRuntime.holds false v → v.IsData := fun v hv => by cases hv.1
  have hobserved : ((Runs.followOk (next sampleRuntime) (fun st _ => isGuarded sampleRuntime st)
      (start formats.2 (.data (.str "a".toList)) false) (List.replicate 30 ())).map fun st => st.events) =
      some [.calls "<lambda>".toList,.reads "format".toList,.calls "format".toList] := by decide
  obtain ⟨st,hrun,hevents⟩ := Runs.reaches_of_observed hobserved
  exact ⟨haccepted,st,hrun,hevents,events_allowed sampleRuntime_lawful haccepted ⟨_,rfl⟩ hdata hrun⟩

/-- The class of the argument is read by the field of a string that no text holds, and the base class of a class is called. -/
theorem not_events_allowed :
    (buildSafeLambda samplePython readsClass.1 = .ok readsClass.2 ∧
      ∃ st, Runs.Reachable (next sampleRuntime) (start readsClass.2 (.data .none) false) st ∧
        st.events = [.calls "<lambda>".toList,.reads "format".toList,.calls "format".toList,.reads "__class__".toList] ∧
        ¬∀ event ∈ st.events, event.Allowed) ∧
    buildSafeLambda samplePython callsBase.1 = .ok callsBase.2 ∧
      ∃ st, Runs.Reachable (next sampleRuntime) (start callsBase.2 (.data .none) false) st ∧
        st.events = [.calls "<lambda>".toList,.reads "mro".toList,.calls "mro".toList,.calls "object".toList] ∧
        ¬∀ event ∈ st.events, event.Allowed := by
  have hreads : ((Runs.follow (next sampleRuntime) (start readsClass.2 (.data .none) false) (List.replicate 37 ())).map
      fun st => st.events) =
      some [.calls "<lambda>".toList,.reads "format".toList,.calls "format".toList,.reads "__class__".toList] := by decide
  have hcalls : ((Runs.follow (next sampleRuntime) (start callsBase.2 (.data .none) false) (List.replicate 31 ())).map
      fun st => st.events) =
      some [.calls "<lambda>".toList,.reads "mro".toList,.calls "mro".toList,.calls "object".toList] := by decide
  obtain ⟨st,hrun,hevents⟩ := Runs.reachable_of_observed hreads
  obtain ⟨st',hrun',hevents'⟩ := Runs.reachable_of_observed hcalls
  refine ⟨⟨rfl,st,hrun,hevents,fun hall => ?_⟩,rfl,st',hrun',hevents',fun hall => ?_⟩
  · have hdunder : isDunder "__class__".toList = false := hall (.reads _) (by simp [hevents])
    exact absurd hdunder (by decide)
  · have hdenied : "object".toList ∉ DENYLISTED_SYMBOLS := hall (.calls _) (by simp [hevents'])
    exact hdenied (by decide)

end SafeLambdas
end Allama
