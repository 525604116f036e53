import Allama.BlockFrames
import Allama.Checked

/-! Which blocks of a well-bracketed sequence come out as themselves. -/
namespace Allama
open Function
namespace AgentStream
variable {i : ℤ} {natives : List NativeEvent} {p : ℕ} {native : NativeEvent} {frames : List Frame}
section Between
variable {uuid4 : ℕ → String} {loads : String → Option Value} {opened : OpenBlocks} {part : ℤ → ℕ} {ctx : Context}

def partAfter (native : NativeEvent) (part : ℤ → ℕ) (drawn : ℕ) : ℤ → ℕ :=
  match native with
  | .contentBlockStart i _ => update part i drawn
  | _ => part

theorem Tracks.step (h : Tracks opened part ctx) (hallowed : Allowed native opened) :
    ∃ ctx', nativeStep uuid4 loads native ctx = .ok (ctx',blockFrames opened part ctx.drawn native) ∧
      Tracks (openedAfter native opened) (partAfter native part ctx.drawn) ctx' := by
  cases native with
  | contentBlockStart i block =>
    obtain ⟨hi,hknown,hcalls⟩ := hallowed
    exact h.start hi hknown hcalls
  | contentBlockDelta i delta =>
    obtain ⟨block,hi,hdelta⟩ := hallowed
    refine ⟨ctx,(h.delta hi hdelta).trans ?_,h⟩
    rw [blockFrames, hi]
    rfl
  | contentBlockStop i =>
    obtain ⟨block,hi⟩ := Option.ne_none_iff_exists'.mp hallowed
    obtain ⟨ctx',hstep,htracks⟩ := h.stop hi
    refine ⟨ctx',hstep.trans ?_,htracks⟩
    rw [blockFrames, hi]
    rfl
  | messageStart =>
    have hforward : forwardEvent loads .messageStart = .ok {type := .messageStart} := rfl
    exact ⟨ctx,h.forwarded hforward,h⟩
  | messageDelta =>
    have hforward : forwardEvent loads .messageDelta = .ok {type := .messageStop} := rfl
    exact ⟨ctx,h.forwarded hforward,h⟩
  | messageStop =>
    have hforward : forwardEvent loads .messageStop = .ok {type := .messageStop} := rfl
    exact ⟨ctx,h.forwarded hforward,h⟩
  | error _ _ => exact hallowed.elim
  | unknown _ => exact hallowed.elim

theorem nativeRun_cons {ctx' ctx'' : Context} {frames' : List Frame}
    (hstep : nativeStep uuid4 loads native ctx = .ok (ctx',frames))
    (hrun : nativeRun uuid4 loads natives ctx' = .ok (ctx'',frames')) :
    nativeRun uuid4 loads (native :: natives) ctx = .ok (ctx'',frames ++ frames') := by
  rw [nativeRun, hstep]
  change (nativeRun uuid4 loads natives ctx' >>= _) = _
  rw [hrun]
  rfl

theorem partFrames_append (part : ℕ) (frames frames' : List Frame) :
    partFrames part (frames ++ frames') = partFrames part frames ++ partFrames part frames' := List.filter_append ..

theorem inputsFor_append (id : String) (frames frames' : List Frame) :
    inputsFor id (frames ++ frames') = inputsFor id frames ++ inputsFor id frames' := List.filterMap_append ..

theorem deltaTexts_cons (i : ℤ) (native : NativeEvent) (natives : List NativeEvent) :
    deltaTexts i (native :: natives) = deltaTexts i [native] ++ deltaTexts i natives := by
  rw [deltaTexts, deltaTexts, deltaTexts, ← List.filter_append, ← List.filterMap_append]
  rfl

/-- What the frames of a stretch say of a block that stays open. -/
def MidFrames (i : ℤ) (block : ContentBlock) (part : ℕ) (mid : List NativeEvent) (frames : List Frame) : Prop :=
  match block.type with
  | .text => partFrames part frames = (deltaTexts i mid).map (Frame.textDelta part)
  | .thinking => partFrames part frames = (deltaTexts i mid).map (Frame.reasoningDelta part)
  | .toolUse => inputsFor (block.id.getD "") frames = []
  | .unknown => True

theorem MidFrames.nil (i : ℤ) (block : ContentBlock) (part : ℕ) : MidFrames i block part [] [] := by
  unfold MidFrames
  split <;> first | rfl | trivial

theorem MidFrames.cons {block : ContentBlock} {frames' : List Frame}
    (h : MidFrames i block p [native] frames) (h' : MidFrames i block p natives frames') :
    MidFrames i block p (native :: natives) (frames ++ frames') := by
  unfold MidFrames at h h' ⊢
  cases htype : block.type with
  | text =>
    rw [htype] at h h'
    dsimp only at h h' ⊢
    rw [partFrames_append, deltaTexts_cons, List.map_append, h, h']
  | thinking =>
    rw [htype] at h h'
    dsimp only at h h' ⊢
    rw [partFrames_append, deltaTexts_cons, List.map_append, h, h']
  | toolUse =>
    rw [htype] at h h'
    dsimp only at h h' ⊢
    rw [inputsFor_append, h, h']
    rfl
  | unknown => trivial

theorem MidFrames.other {block : ContentBlock} (hdelta : deltaTexts i [native] = [])
    (hparts : partFrames p frames = [])
    (hinputs : block.type = .toolUse → inputsFor (block.id.getD "") frames = []) :
    MidFrames i block p [native] frames := by
  unfold MidFrames
  cases htype : block.type with
  | text =>
    dsimp only
    rw [hdelta, hparts]
    rfl
  | thinking =>
    dsimp only
    rw [hdelta, hparts]
    rfl
  | toolUse => exact hinputs htype
  | unknown => trivial

theorem partFrames_startFrames {drawn : ℕ} (hne : drawn ≠ p) (block : ContentBlock) :
    partFrames p (startFrames drawn block) = [] := by
  cases htype : block.type <;> simp [partFrames, startFrames, htype, Frame.part, hne]

theorem partFrames_stopFrames {q : ℕ} (hne : q ≠ p) (block : ContentBlock) :
    partFrames p (stopFrames q block) = [] := by
  cases htype : block.type <;> simp [partFrames, stopFrames, htype, Frame.part, hne]

theorem partFrames_blockDeltaFrames {q : ℕ} (hne : q ≠ p) (block : ContentBlock) (delta : Delta) :
    partFrames p (blockDeltaFrames q block delta) = [] := by
  cases delta <;> simp only [blockDeltaFrames, deltaFrames_some] <;> first | rfl | (split <;> simp [partFrames, Frame.part, hne])

theorem inputsFor_startFrames (id : String) (drawn : ℕ) (block : ContentBlock) : inputsFor id (startFrames drawn block) = [] := by
  cases htype : block.type <;> simp [inputsFor, startFrames, htype, Frame.inputFor]

theorem inputsFor_blockDeltaFrames (id : String) (p : ℕ) (block : ContentBlock) (delta : Delta) :
    inputsFor id (blockDeltaFrames p block delta) = [] := by
  cases delta <;> simp only [blockDeltaFrames, deltaFrames_some] <;> first | rfl | (split <;> simp [inputsFor, Frame.inputFor])

theorem inputsFor_stopFrames {id : String} {block : ContentBlock} (hne : block.type = .toolUse → block.id.getD "" ≠ id) (p : ℕ) :
    inputsFor id (stopFrames p block) = [] := by
  cases htype : block.type <;> simp_all [inputsFor, stopFrames, Frame.inputFor]

theorem MidFrames.own (i : ℤ) {block : ContentBlock} (p : ℕ) {delta : Delta} (hdelta : delta.type = block.type) :
    MidFrames i block p [.contentBlockDelta i delta] (blockDeltaFrames p block delta) := by
  unfold MidFrames
  rw [← hdelta]
  cases delta with
  | text text =>
    change partFrames p (deltaFrames (.textDelta p) (some text)) = _
    by_cases htext : text = "" <;> simp [deltaFrames, partFrames, deltaTexts, deltaText, htext, Frame.part]
  | thinking thinking =>
    change partFrames p (deltaFrames (.reasoningDelta p) (some thinking)) = _
    by_cases hthinking : thinking = "" <;>
      simp [deltaFrames, partFrames, deltaTexts, deltaText, hthinking, Frame.part]
  | inputJson partialJson => exact inputsFor_blockDeltaFrames ..
  | unknown => trivial

/-- While a block stays open, its part is the same, and the frames about it are its deltas. -/
theorem Tracks.between (h : Tracks opened part ctx) {block : ContentBlock}
    (hi : opened i = some block) (hallowed : Allowed native opened)
    (hstop : native ≠ .contentBlockStop i) :
    openedAfter native opened i = some block ∧ partAfter native part ctx.drawn i = part i ∧
      MidFrames i block (part i) [native] (blockFrames opened part ctx.drawn native) := by
  have hiopen : opened i ≠ none := by
    rw [hi]
    nofun
  cases native with
  | contentBlockStart j other =>
    have hij : i ≠ j := by
      rintro rfl
      exact hiopen hallowed.1
    refine ⟨(update_of_ne hij ..).trans hi,update_of_ne hij ..,?_⟩
    apply MidFrames.other rfl
    · exact partFrames_startFrames (Nat.ne_of_gt (h.below i hiopen)) other
    · exact fun _ => inputsFor_startFrames ..
  | contentBlockDelta j delta =>
    obtain ⟨other,hj,hdelta⟩ := hallowed
    refine ⟨hi,rfl,?_⟩
    have hframes : blockFrames opened part ctx.drawn (.contentBlockDelta j delta) = blockDeltaFrames (part j) other delta := by
      rw [blockFrames, hj]
      rfl
    rw [hframes]
    by_cases hij : j = i
    · subst hij
      have hother : other = block := Option.some.inj (hj.symm.trans hi)
      rw [hother] at hdelta ⊢
      exact .own j (part j) hdelta
    · apply MidFrames.other
      · cases delta <;> simp [deltaTexts, deltaText, hij]
      · refine partFrames_blockDeltaFrames (fun heq => hij ?_) other delta
        exact h.distinct j i (by rw [hj]; nofun) hiopen heq
      · exact fun _ => inputsFor_blockDeltaFrames ..
  | contentBlockStop j =>
    have hij : i ≠ j := by
      rintro rfl
      exact hstop rfl
    obtain ⟨other,hj⟩ := Option.ne_none_iff_exists'.mp hallowed
    refine ⟨(update_of_ne hij ..).trans hi,rfl,?_⟩
    have hframes : blockFrames opened part ctx.drawn (.contentBlockStop j) = stopFrames (part j) other := by
      rw [blockFrames, hj]
      rfl
    rw [hframes]
    apply MidFrames.other rfl
    · refine partFrames_stopFrames (fun heq => hij ?_) other
      exact (h.distinct j i (by rw [hj]; nofun) hiopen heq).symm
    · intro htype
      refine inputsFor_stopFrames (fun hother heq => hij ?_) _
      obtain ⟨id,hid,-⟩ := (h.known i block hi).id htype
      obtain ⟨id',hid',-⟩ := (h.known j other hj).id hother
      rw [hid, hid'] at heq
      exact h.calls i j block other hi hj htype hother (by rw [hid, hid']; exact congrArg some heq.symm)
  | messageStart => exact ⟨hi,rfl,.other rfl rfl fun _ => rfl⟩
  | messageDelta => exact ⟨hi,rfl,.other rfl rfl fun _ => rfl⟩
  | messageStop => exact ⟨hi,rfl,.other rfl rfl fun _ => rfl⟩
  | error _ _ => exact hallowed.elim
  | unknown _ => exact hallowed.elim

end Between

section Runs
variable {uuid4 : ℕ → String} {loads : String → Option Value}

theorem Tracks.run (natives rest : List NativeEvent) : ∀ {opened : OpenBlocks} {part : ℤ → ℕ} {ctx : Context},
    Tracks opened part ctx → WellBracketed (natives ++ rest) opened →
    ∃ opened' part' ctx' frames, nativeRun uuid4 loads natives ctx = .ok (ctx',frames) ∧ Tracks opened' part' ctx' ∧
      WellBracketed rest opened' := by
  induction natives with
  | nil => exact fun {opened part ctx} h hrest => ⟨opened,part,ctx,[],rfl,h,hrest⟩
  | cons native natives ih =>
    intro opened part ctx h hbracketed
    obtain ⟨ctx₁,hstep,h₁⟩ := h.step hbracketed.1
    obtain ⟨opened',part',ctx',frames,hrun,h',hrest⟩ := ih h₁ hbracketed.2
    exact ⟨opened',part',ctx',_,nativeRun_cons hstep hrun,h',hrest⟩

theorem Tracks.mid {block : ContentBlock} (rest : List NativeEvent) (natives : List NativeEvent) :
    ∀ {opened : OpenBlocks} {part : ℤ → ℕ} {ctx : Context}, Tracks opened part ctx → opened i = some block → part i = p →
      WellBracketed (natives ++ rest) opened → .contentBlockStop i ∉ natives →
      ∃ opened' part' ctx' frames, nativeRun uuid4 loads natives ctx = .ok (ctx',frames) ∧ Tracks opened' part' ctx' ∧
        opened' i = some block ∧ part' i = p ∧ MidFrames i block p natives frames := by
  induction natives with
  | nil => exact fun {opened part ctx} h hi hp _ _ => ⟨opened,part,ctx,[],rfl,h,hi,hp,.nil ..⟩
  | cons native natives ih =>
    intro opened part ctx h hi hp hbracketed hstop
    obtain ⟨ctx₁,hstep,h₁⟩ := h.step hbracketed.1
    have hne : native ≠ .contentBlockStop i := fun heq => hstop (heq ▸ List.mem_cons_self)
    obtain ⟨hi₁,hp₁,hframes₁⟩ := h.between hi hbracketed.1 hne
    obtain ⟨opened',part',ctx',frames,hrun,h',hi',hp',hframes'⟩ :=
      ih h₁ hi₁ (hp₁.trans hp) hbracketed.2 fun hmem => hstop (List.mem_cons_of_mem _ hmem)
    rw [hp] at hframes₁
    exact ⟨opened',part',ctx',_,nativeRun_cons hstep hrun,h',hi',hp',hframes₁.cons hframes'⟩

theorem nativeRun_append {natives' : List NativeEvent} :
    ∀ {ctx ctx' ctx'' : Context} {frames frames' : List Frame},
    nativeRun uuid4 loads natives ctx = .ok (ctx',frames) → nativeRun uuid4 loads natives' ctx' = .ok (ctx'',frames') →
    nativeRun uuid4 loads (natives ++ natives') ctx = .ok (ctx'',frames ++ frames') := by
  induction natives with
  | nil =>
    intro ctx ctx' ctx'' frames frames' h h'
    cases h
    exact h'
  | cons native natives ih =>
    intro ctx ctx' ctx'' frames frames' h h'
    rw [nativeRun] at h
    obtain ⟨⟨ctx₁,frames₁⟩,hstep,h⟩ := Checked.bind_eq_ok.mp h
    obtain ⟨⟨ctx₂,frames₂⟩,hrun,h⟩ := Checked.bind_eq_ok.mp h
    cases h
    rw [List.append_assoc]
    exact nativeRun_cons hstep (ih hrun h')

theorem framesOf_iff {block : ContentBlock} (hknown : block.Known) {mid : List NativeEvent}
    (hmid : MidFrames i block p mid frames) :
    FramesOf loads i block mid p (startFrames p block ++ (frames ++ (stopFrames p block ++ []))) ↔
      (block.type = .toolUse → parseArgs loads (jsonText i mid) = .dict []) := by
  unfold MidFrames at hmid
  unfold FramesOf
  cases htype : block.type with
  | text =>
    rw [htype] at hmid
    dsimp only at hmid ⊢
    refine iff_of_true ?_ fun htool => ?_
    swap
    · cases htool
    rw [partFrames_append, partFrames_append, hmid, startFrames, stopFrames, htype]
    simp [partFrames, Frame.part]
  | thinking =>
    rw [htype] at hmid
    dsimp only at hmid ⊢
    refine iff_of_true ?_ fun htool => ?_
    swap
    · cases htool
    rw [partFrames_append, partFrames_append, hmid, startFrames, stopFrames, htype]
    simp [partFrames, Frame.part]
  | toolUse =>
    obtain ⟨id,hid,-⟩ := hknown.id htype
    rw [htype] at hmid
    dsimp only at hmid ⊢
    have hinputs : inputsFor id (startFrames p block ++ (frames ++ (stopFrames p block ++ []))) = [.dict []] := by
      rw [hid] at hmid
      rw [inputsFor_append, inputsFor_append, inputsFor_startFrames, ← Option.getD_some (a := id) (b := ""), hmid]
      simp [inputsFor, stopFrames, htype, hid, Frame.inputFor]
    rw [hid]
    constructor
    · intro h _
      have hframes := h id rfl
      rw [hinputs] at hframes
      exact (List.singleton_inj.mp hframes).symm
    · intro h id' hid'
      cases hid'
      rw [hinputs, h rfl]
  | unknown => exact absurd htype hknown.type

theorem blockTranslated_iff {before mid : List NativeEvent} {block : ContentBlock}
    (hbracketed : WellBracketed natives fun _ => none) (hat : BlockAt natives before i block mid) :
    BlockTranslated uuid4 loads before i block mid ↔
      (block.type = .toolUse → parseArgs loads (jsonText i mid) = .dict []) := by
  obtain ⟨after,rfl,hstop⟩ := hat
  obtain ⟨opened,part,ctx,frames,hbefore,htracks,hbracketed⟩ := (tracks_empty fun _ => 0).run _ _ hbracketed
  obtain ⟨⟨hi,hknown,hcalls⟩,hbracketed⟩ := hbracketed
  obtain ⟨ctx₁,hstart,h₁⟩ := htracks.start hi hknown hcalls
  obtain ⟨opened₂,part₂,ctx₂,frames₂,hmid,h₂,hi₂,hp₂,hframes₂⟩ :=
    h₁.mid _ mid (update_self ..) (update_self ..) hbracketed hstop
  obtain ⟨ctx₃,hstopped,-⟩ := h₂.stop hi₂
  rw [hp₂] at hstopped
  have hend : nativeRun uuid4 loads [] ctx₃ = .ok (ctx₃,[]) := rfl
  have hrun := nativeRun_cons hstart (nativeRun_append hmid (nativeRun_cons hstopped hend))
  rw [← framesOf_iff hknown hframes₂]
  constructor
  · rintro ⟨ctx',frames',ctx'',frames'',hbefore',hrun',hframes⟩
    cases hbefore.symm.trans hbefore'
    cases hrun.symm.trans hrun'
    exact hframes
  · exact fun hframes => ⟨ctx,frames,ctx₃,_,hbefore,hrun,hframes⟩

/-- The blocks of a well-bracketed sequence all come out as themselves if and only if the input of each tool use is the
empty one. -/
theorem blocksTranslated_iff {natives : List NativeEvent} (hbracketed : WellBracketed natives fun _ => none) :
    (∀ before i block mid, BlockAt natives before i block mid → BlockTranslated uuid4 loads before i block mid) ↔
      ∀ before i block mid, BlockAt natives before i block mid → block.type = .toolUse →
        parseArgs loads (jsonText i mid) = .dict [] := by
  constructor
  · exact fun h before i block mid hat => (blockTranslated_iff hbracketed hat).mp (h before i block mid hat)
  · exact fun h before i block mid hat => (blockTranslated_iff hbracketed hat).mpr (h before i block mid hat)

end Runs

/-- `json.loads` of two texts. -/
def sampleLoads (text : String) : Option Value :=
  if text = "\x7b\x7d" then some (.dict [])
  else if text = "\x7b\"url\": 1\x7d" then some (.dict [("url",.int 1)])
  else none

def fetchBlock : ContentBlock := ⟨.toolUse,some "toolu_1",some "fetch"⟩

def fetchDeltas (first second : String) : List NativeEvent :=
  [.contentBlockDelta 1 (.inputJson first),.contentBlockDelta 0 (.text "Let me look."),.contentBlockStop 0,
    .contentBlockDelta 1 (.inputJson second)]

/-- A text at index 0 and a tool use at index 1, one in the other. -/
def interleaved (first second : String) : List NativeEvent :=
  [.messageStart,.contentBlockStart 0 ⟨.text,none,none⟩] ++
    .contentBlockStart 1 fetchBlock :: (fetchDeltas first second ++ [.contentBlockStop 1,.messageDelta,.messageStop])

theorem interleaved_wellBracketed (first second : String) : WellBracketed (interleaved first second) fun _ => none := by
  have htext : (⟨.text,none,none⟩ : ContentBlock).Known := ⟨nofun,nofun⟩
  have hfetch : fetchBlock.Known := ⟨nofun,fun _ => ⟨"toolu_1",rfl,by decide⟩⟩
  refine ⟨trivial,⟨rfl,htext,?_⟩,⟨rfl,hfetch,?_⟩,⟨fetchBlock,rfl,rfl⟩,⟨_,rfl,rfl⟩,nofun,⟨fetchBlock,rfl,rfl⟩,nofun,trivial,
    trivial,?_⟩
  · intro i j block other hi hj hblock
    by_cases h0 : i = 0
    · rw [h0] at hi
      cases hi
      cases hblock
    · rw [update_of_ne h0] at hi
      cases hi
  · have hone : ∀ (i : ℤ) block, update (update (fun _ => none) 0 (some ⟨.text,none,none⟩)) 1 (some fetchBlock) i =
        some block → block.type = .toolUse → i = 1 := by
      intro i block hi hblock
      by_contra h1
      rw [update_of_ne h1] at hi
      by_cases h0 : i = 0
      · rw [h0] at hi
        cases hi
        cases hblock
      · rw [update_of_ne h0] at hi
        cases hi
    intro i j block other hi hj hblock hother _
    rw [hone i block hi hblock, hone j other hj hother]
  · intro i
    simp only [openedAfter]
    by_cases h1 : i = 1
    · rw [h1, update_self]
    · rw [update_of_ne h1]
      by_cases h0 : i = 0
      · rw [h0, update_self]
      · rw [update_of_ne h0, update_of_ne h1, update_of_ne h0]

theorem interleaved_toolUse {first second : String} {before mid : List NativeEvent}
    {block : ContentBlock} (hat : BlockAt (interleaved first second) before i block mid)
    (htype : block.type = .toolUse) : i = 1 ∧ mid = fetchDeltas first second := by
  obtain ⟨after,hnatives,hstop⟩ := hat
  have hmem : NativeEvent.contentBlockStart i block ∈ interleaved first second := by
    rw [hnatives]
    exact List.mem_append_right _ List.mem_cons_self
  obtain ⟨rfl,rfl⟩ : i = 1 ∧ block = fetchBlock := by
    simp only [interleaved, fetchDeltas, List.mem_append, List.mem_cons, NativeEvent.contentBlockStart.injEq,
      List.not_mem_nil, reduceCtorEq, or_false, false_or] at hmem
    rcases hmem with ⟨-,rfl⟩ | h
    · cases htype
    · exact h
  obtain ⟨-,-,hrest⟩ := (List.append_cons_inj_of_notMem (by simp [fetchBlock]) (by simp [fetchDeltas])).mp hnatives
  obtain ⟨rfl,-⟩ := (List.append_cons_inj_of_notMem (by simp [fetchDeltas]) (by simp)).mp hrest
  exact ⟨rfl,rfl⟩

theorem interleaved_translated : WellBracketed (interleaved "\x7b" "\x7d") (fun _ => none) ∧
    ∀ before i block mid, BlockAt (interleaved "\x7b" "\x7d") before i block mid →
      BlockTranslated (fun _ => "u") sampleLoads before i block mid := by
  refine ⟨interleaved_wellBracketed _ _,
    (blocksTranslated_iff (interleaved_wellBracketed _ _)).mpr fun before i block mid hat htype => ?_⟩
  obtain ⟨rfl,rfl⟩ := interleaved_toolUse hat htype
  rfl

/-- The input of a tool use is lost. -/
theorem input_lost : ¬ ∀ (uuid4 : ℕ → String) (loads : String → Option Value) (natives : List NativeEvent),
    WellBracketed natives (fun _ => none) → ∀ before i block mid, BlockAt natives before i block mid →
      BlockTranslated uuid4 loads before i block mid := by
  intro h
  have hat : BlockAt (interleaved "\x7b\"url\"" ": 1\x7d") _ 1 fetchBlock (fetchDeltas "\x7b\"url\"" ": 1\x7d") :=
    ⟨_,rfl,by simp [fetchDeltas]⟩
  have hbracketed := interleaved_wellBracketed "\x7b\"url\"" ": 1\x7d"
  have htranslated := h (fun _ => "u") sampleLoads _ hbracketed _ _ _ _ hat
  have hempty := (blockTranslated_iff hbracketed hat).mp htranslated rfl
  have hvalue : parseArgs sampleLoads (jsonText 1 (fetchDeltas "\x7b\"url\"" ": 1\x7d")) = .dict [("url",.int 1)] := rfl
  rw [hvalue] at hempty
  cases hempty

end AgentStream
end Allama
