import Allama.SessionHistory

/-! Which histories the rewrite repairs. -/
namespace Allama
namespace SessionHistory
section LastUse
variable {toolCallIds : List String}

theorem lastUse_none {history : List HistoryLine} (h : lastUse toolCallIds history = none) :
    ∀ line ∈ history, usesTool toolCallIds line = false := by
  induction history with
  | nil => nofun
  | cons line lines ih =>
    rw [lastUse] at h
    split at h
    · cases h
    · rename_i hnone
      split at h
      · cases h
      · rename_i huse
        intro other hother
        rcases List.mem_cons.mp hother with rfl | hother
        · exact Bool.eq_false_iff.mpr huse
        · exact ih hnone other hother

theorem lastUse_some {history before after : List HistoryLine} {anchor : HistoryLine}
    (h : lastUse toolCallIds history = some (before,anchor,after)) :
    history = before ++ anchor :: after ∧ usesTool toolCallIds anchor = true := by
  induction history generalizing before with
  | nil => cases h
  | cons line lines ih =>
    rw [lastUse] at h
    split at h
    · rename_i rest hrest
      cases h
      obtain ⟨hlines,huse⟩ := ih hrest
      exact ⟨congrArg (line :: ·) hlines,huse⟩
    · split at h
      · rename_i huse
        cases h
        exact ⟨rfl,huse⟩
      · cases h

theorem usesTool_mono {ids : List String} {line : HistoryLine} (hids : ∀ id ∈ toolCallIds, id ∈ ids)
    (h : usesTool toolCallIds line = true) : usesTool ids line = true := by
  unfold usesTool at h ⊢
  rw [Bool.and_eq_true] at h ⊢
  refine ⟨h.1,?_⟩
  have huses := h.2
  split at huses
  · cases huses
  · rename_i blocks _
    obtain ⟨block,hblock,huse⟩ := List.any_eq_true.mp huses
    refine List.any_eq_true.mpr ⟨block,hblock,?_⟩
    cases block with
    | toolUse id => exact decide_eq_true (hids id (of_decide_eq_true huse))
    | _ => cases huse

theorem usesTool_nil (line : HistoryLine) : usesTool [] line = false := by
  unfold usesTool
  split
  · exact Bool.and_false _
  · rename_i blocks _
    have hnone : blocks.any (·.usesOne []) = false := by
      rw [List.any_eq_false]
      intro block _
      cases block <;> simp [Block.usesOne]
    rw [hnone, Bool.and_false]

end LastUse

section Parts
variable {toolCallIds : List String}

theorem resultCount_append (id : String) (lines lines' : List HistoryLine) :
    resultCount id (lines ++ lines') = resultCount id lines + resultCount id lines' := by
  rw [resultCount, List.flatMap_append, List.countP_append]
  rfl

theorem resultCount_eq_zero {id : String} {lines : List HistoryLine} :
    resultCount id lines = 0 ↔ ∀ line ∈ lines, ∀ block ∈ line.blocks, block.resultOf id = false := by
  rw [resultCount, List.countP_eq_zero]
  constructor
  · intro h line hline block hblock
    exact Bool.eq_false_iff.mpr (h block (List.mem_flatMap.mpr ⟨line,hline,hblock⟩))
  · intro h block hblock
    obtain ⟨line,hline,hblock⟩ := List.mem_flatMap.mp hblock
    exact Bool.eq_false_iff.mp (h line hline block hblock)

theorem resultCount_resultLine {dumps : Value → String} {uuid parentUuid : String} {results : List ToolResult}
    (hdistinct : (results.map ToolResult.toolCallId).Nodup) {result : ToolResult} (hresult : result ∈ results) :
    resultCount result.toolCallId [resultLine dumps uuid parentUuid results] = 1 := by
  have hblocks : [resultLine dumps uuid parentUuid results].flatMap HistoryLine.blocks =
      results.map fun r => .toolResult r.toolCallId (serializeToolResult dumps r.result) r.isError := List.append_nil _
  have hcount : (results.map ToolResult.toolCallId).count result.toolCallId = 1 :=
    List.count_eq_one_of_mem hdistinct (List.mem_map_of_mem hresult)
  rw [resultCount, hblocks, List.countP_map, ← hcount, List.count, List.countP_map]
  apply List.countP_congr
  intro r _
  simp [Block.resultOf]

theorem noInterruptAfterUse_append {lines lines' : List HistoryLine}
    (h : ∀ line ∈ lines', isInterrupt toolCallIds line = false) :
    NoInterruptAfterUse toolCallIds (lines ++ lines') ↔ NoInterruptAfterUse toolCallIds lines := by
  constructor
  · rintro hall before line after rfl huse
    exact hall before line (after ++ lines') (by simp) huse
  · intro hall before line after heq huse
    rcases List.append_eq_append_iff.mp heq with ⟨rest,rfl,hlines'⟩ | ⟨rest,rfl,hafter⟩
    · exact h line (by rw [hlines']; simp)
    · cases rest with
      | nil => exact h line (by rw [List.nil_append] at hafter; rw [← hafter]; exact List.mem_cons_self)
      | cons first rest =>
        cases hafter
        exact hall before line rest rfl huse

theorem flatMap_filter {lines : List HistoryLine} {f : HistoryLine → List Block} {p : HistoryLine → Bool} :
    (lines.flatMap f).Sublist ((lines.filter p).flatMap f) ↔ ∀ line ∈ lines, p line = false → f line = [] := by
  have hlength : ∀ lines : List HistoryLine, (lines.flatMap f).length =
      ((lines.filter p).flatMap f).length + ((lines.filter (! p ·)).flatMap f).length := by
    intro lines
    induction lines with
    | nil => rfl
    | cons line lines ih =>
      cases hp : p line <;> simp [hp] at ih ⊢ <;> omega
  constructor
  · intro hsub line hline hp
    have hle := hsub.length_le
    rw [hlength] at hle
    have hnil : (lines.filter (! p ·)).flatMap f = [] := List.eq_nil_of_length_eq_zero (by omega)
    exact List.flatMap_eq_nil_iff.mp hnil line (List.mem_filter.mpr ⟨hline,by rw [hp]; rfl⟩)
  · intro h
    have heq : lines.flatMap f = (lines.filter p).flatMap f := by
      induction lines with
      | nil => rfl
      | cons line lines ih =>
        have ih := ih fun other hother => h other (List.mem_cons_of_mem _ hother)
        cases hp : p line with
        | false =>
          rw [List.filter_cons_of_neg (by rw [hp]; decide), List.flatMap_cons, h line List.mem_cons_self hp, ih]
          rfl
        | true => rw [List.filter_cons_of_pos hp, List.flatMap_cons, List.flatMap_cons, ih]
    rw [heq]

end Parts

section Uuids

theorem eq_of_uuid {lines : List HistoryLine} (h : (lines.filterMap HistoryLine.uuid).Nodup) {line other : HistoryLine}
    (hline : line ∈ lines) (hother : other ∈ lines) {uuid : String} (hu : line.uuid = some uuid) (hu' : other.uuid = some uuid) :
    line = other := by
  induction lines with
  | nil => cases hline
  | cons first lines ih =>
    have htail : (lines.filterMap HistoryLine.uuid).Nodup := by
      cases hfirst : first.uuid with
      | none => rwa [List.filterMap_cons_none hfirst] at h
      | some _ =>
        rw [List.filterMap_cons_some hfirst] at h
        exact (List.nodup_cons.mp h).2
    have hfirst : first.uuid = some uuid → ∀ l ∈ lines, l.uuid ≠ some uuid := by
      intro hfirst l hl hlu
      rw [List.filterMap_cons_some hfirst] at h
      exact (List.nodup_cons.mp h).1 (List.mem_filterMap.mpr ⟨l,hl,hlu⟩)
    rcases List.mem_cons.mp hline with rfl | hlater
    · rcases List.mem_cons.mp hother with rfl | hlater
      · rfl
      · exact absurd hu' (hfirst hu other hlater)
    · rcases List.mem_cons.mp hother with rfl | hlater'
      · exact absurd hu (hfirst hu' line hlater)
      · exact ih htail hlater hlater'

theorem uuid_disjoint {lines lines' : List HistoryLine} (h : ((lines ++ lines').filterMap HistoryLine.uuid).Nodup)
    {line other : HistoryLine} (hline : line ∈ lines) (hother : other ∈ lines') {uuid : String} (hu : line.uuid = some uuid) :
    other.uuid ≠ some uuid := by
  intro hu'
  rw [List.filterMap_append] at h
  exact List.disjoint_of_nodup_append h (List.mem_filterMap.mpr ⟨line,hline,hu⟩) (List.mem_filterMap.mpr ⟨other,hother,hu'⟩)

end Uuids

section Repair
variable {dumps : Value → String} {uuid : String} {results : List ToolResult} {history : List HistoryLine}

def keptLines (toolCallIds : List String) (before : List HistoryLine) (anchor : HistoryLine) (after : List HistoryLine) :
    List HistoryLine := before ++ anchor :: after.filter (! isInterrupt toolCallIds ·)

theorem mem_keptLines {toolCallIds : List String} {before after : List HistoryLine} {anchor line : HistoryLine} :
    line ∈ keptLines toolCallIds before anchor after ↔
      line ∈ before ++ [anchor] ∨ (line ∈ after ∧ isInterrupt toolCallIds line = false) := by
  simp [keptLines, or_assoc]

section Around
variable {toolCallIds : List String} {before after : List HistoryLine} {anchor : HistoryLine} {anchorUuid : String}

theorem once_iff (hdistinct : (results.map ToolResult.toolCallId).Nodup) :
    (∀ result ∈ results, resultCount result.toolCallId
      (keptLines (results.map ToolResult.toolCallId) before anchor after ++ [resultLine dumps uuid anchorUuid results]) = 1) ↔
      (∀ id ∈ results.map ToolResult.toolCallId, ∀ line ∈ before ++ [anchor], ∀ block ∈ line.blocks, block.resultOf id = false) ∧
      ∀ id ∈ results.map ToolResult.toolCallId, ∀ line ∈ after, isInterrupt (results.map ToolResult.toolCallId) line = false →
        ∀ block ∈ line.blocks, block.resultOf id = false := by
  have hzero : ∀ result ∈ results, resultCount result.toolCallId
      (keptLines (results.map ToolResult.toolCallId) before anchor after ++ [resultLine dumps uuid anchorUuid results]) = 1 ↔
      ∀ line ∈ keptLines (results.map ToolResult.toolCallId) before anchor after, ∀ block ∈ line.blocks,
        block.resultOf result.toolCallId = false := by
    intro result hresult
    rw [resultCount_append, resultCount_resultLine hdistinct hresult, ← resultCount_eq_zero]
    omega
  constructor
  · intro h
    constructor
    · intro id hid line hline
      obtain ⟨result,hresult,rfl⟩ := List.mem_map.mp hid
      exact (hzero result hresult).mp (h result hresult) line (mem_keptLines.mpr (.inl hline))
    · intro id hid line hline hkept
      obtain ⟨result,hresult,rfl⟩ := List.mem_map.mp hid
      exact (hzero result hresult).mp (h result hresult) line (mem_keptLines.mpr (.inr ⟨hline,hkept⟩))
  · rintro ⟨hbefore,hafter⟩ result hresult
    apply (hzero result hresult).mpr
    intro line hline
    have hid : result.toolCallId ∈ results.map ToolResult.toolCallId := List.mem_map_of_mem hresult
    rcases mem_keptLines.mp hline with hline | ⟨hline,hkept⟩
    · exact hbefore _ hid line hline
    · exact hafter _ hid line hline hkept

theorem kept_iff : ((before ++ anchor :: after).flatMap (foreignBlocks toolCallIds)).Sublist
    ((keptLines toolCallIds before anchor after).flatMap (foreignBlocks toolCallIds)) ↔
      ∀ line ∈ after, isInterrupt toolCallIds line = true → foreignBlocks toolCallIds line = [] := by
  rw [keptLines, List.flatMap_append, List.flatMap_append, List.flatMap_cons, List.flatMap_cons,
    List.append_sublist_append_left, List.append_sublist_append_left, flatMap_filter]
  constructor
  · exact fun h line hline hinterrupt => h line hline (by rw [hinterrupt]; rfl)
  · exact fun h line hline hinterrupt => h line hline (by simpa using hinterrupt)

theorem gone_iff : NoInterruptAfterUse toolCallIds (keptLines toolCallIds before anchor after) ↔
    NoInterruptAfterUse toolCallIds (before ++ [anchor]) := by
  have hkept : keptLines toolCallIds before anchor after =
      (before ++ [anchor]) ++ after.filter (! isInterrupt toolCallIds ·) := by simp [keptLines]
  rw [hkept]
  apply noInterruptAfterUse_append
  intro line hline
  simpa using (List.mem_filter.mp hline).2

theorem parents_iff (hc : Coherent uuid (before ++ anchor :: after)) (hanchor : anchor.uuid = some anchorUuid) :
    ParentsNamed (keptLines toolCallIds before anchor after ++ [resultLine dumps uuid anchorUuid results]) ↔
      ∀ line ∈ keptLines toolCallIds before anchor after, ∀ interrupt ∈ after, isInterrupt toolCallIds interrupt = true →
        line.parentUuid = none ∨ line.parentUuid ≠ interrupt.uuid := by
  have hsplit : before ++ anchor :: after = (before ++ [anchor]) ++ after := by simp
  have hhistory : ∀ line ∈ keptLines toolCallIds before anchor after, line ∈ before ++ anchor :: after := by
    intro line hline
    rw [hsplit]
    exact List.mem_append.mpr ((mem_keptLines.mp hline).imp_right And.left)
  constructor
  · intro h line hline interrupt hinterrupt hdeleted
    cases hparent : line.parentUuid with
    | none => exact .inl rfl
    | some parent =>
      refine .inr fun huuid => ?_
      have hinterruptMem : interrupt ∈ before ++ anchor :: after :=
        List.mem_append_right _ (List.mem_cons_of_mem _ hinterrupt)
      obtain ⟨other,hother,hotherUuid⟩ := h line (List.mem_append_left _ hline) parent hparent
      rcases List.mem_append.mp hother with hother | hother
      · -- the parent is kept, and has the uuid of a line that is not
        rcases mem_keptLines.mp hother with hother | ⟨hother,hkept⟩
        · have hdistinct := hc.distinct
          rw [hsplit] at hdistinct
          exact uuid_disjoint hdistinct hother hinterrupt hotherUuid huuid.symm
        · have hsame := eq_of_uuid hc.distinct (hhistory other (mem_keptLines.mpr (.inr ⟨hother,hkept⟩))) hinterruptMem
            hotherUuid huuid.symm
          rw [hsame, hdeleted] at hkept
          cases hkept
      · rw [List.mem_singleton.mp hother] at hotherUuid
        cases hotherUuid
        exact hc.fresh interrupt hinterruptMem huuid.symm
  · intro h line hline parent hparent
    rcases List.mem_append.mp hline with hline | hline
    · obtain ⟨other,hother,hotherUuid⟩ := hc.parents line (hhistory line hline) parent hparent
      rw [hsplit] at hother
      refine ⟨other,List.mem_append_left _ (mem_keptLines.mpr ?_),hotherUuid⟩
      rcases List.mem_append.mp hother with hother | hother
      · exact .inl hother
      · refine .inr ⟨hother,Bool.eq_false_iff.mpr fun hdeleted => ?_⟩
        rcases h line hline other hother hdeleted with hnone | hne
        · rw [hparent] at hnone
          cases hnone
        · exact hne (hparent.trans hotherUuid.symm)
    · rw [List.mem_singleton.mp hline] at hparent
      cases hparent
      exact ⟨anchor,List.mem_append_left _ (mem_keptLines.mpr (.inl (by simp))),hanchor⟩

end Around

variable (dumps) in
theorem replaceInterrupt_eq (hc : Coherent uuid history) {result : ToolResult} (hresult : result ∈ results)
    (hused : ∃ line ∈ history, usesTool [result.toolCallId] line = true) :
    ∃ before anchor after anchorUuid, lastUse (results.map ToolResult.toolCallId) history = some (before,anchor,after) ∧
      history = before ++ anchor :: after ∧ anchor.uuid = some anchorUuid ∧
      replaceInterrupt dumps uuid results history =
        ⟨keptLines (results.map ToolResult.toolCallId) before anchor after,some (resultLine dumps uuid anchorUuid results)⟩ := by
  cases hlast : lastUse (results.map ToolResult.toolCallId) history with
  | none =>
    obtain ⟨line,hline,huse⟩ := hused
    have hmono : usesTool (results.map ToolResult.toolCallId) line = true :=
      usesTool_mono (by simpa using ⟨result,hresult,rfl⟩) huse
    rw [lastUse_none hlast line hline] at hmono
    cases hmono
  | some parts =>
    obtain ⟨before,anchor,after⟩ := parts
    obtain ⟨rfl,huse⟩ := lastUse_some hlast
    have hassistant : anchor.type = .assistant := by
      unfold usesTool at huse
      exact of_decide_eq_true (Bool.and_eq_true_iff.mp huse).1
    obtain ⟨anchorUuid,hanchor⟩ := Option.ne_none_iff_exists'.mp (hc.assistants anchor (by simp) hassistant)
    refine ⟨before,anchor,after,anchorUuid,rfl,rfl,hanchor,?_⟩
    rw [replaceInterrupt, if_neg (List.ne_nil_of_mem hresult)]
    dsimp only
    rw [hlast]
    dsimp only
    rw [hanchor]
    rfl

/-- The rewrite repairs a history if and only if it is tidy around the last use of the calls. -/
theorem repaired_iff (hc : Coherent uuid history) (ha : Awaited results history) :
    Repaired results history (replaceInterrupt dumps uuid results history) ↔
      ∀ before anchor after, lastUse (results.map ToolResult.toolCallId) history = some (before,anchor,after) →
        Tidy (results.map ToolResult.toolCallId) before anchor after := by
  by_cases hnil : results = []
  · have hsame : replaceInterrupt dumps uuid results history = ⟨history,none⟩ := if_pos hnil
    rw [hsame, hnil]
    have hnever : ∀ history before anchor after, lastUse [] history ≠ some (before,anchor,after) := by
      intro history before anchor after h
      have huse := (lastUse_some h).2
      rw [usesTool_nil] at huse
      cases huse
    refine iff_of_true ⟨nofun,List.Sublist.refl _,?_,?_⟩ fun before anchor after h => absurd h (hnever _ _ _ _)
    · rintro before line after - ⟨use,-,huse⟩
      change usesTool [] use = true at huse
      rw [usesTool_nil] at huse
      cases huse
    · rw [Rewritten.history]
      simpa using hc.parents
  · obtain ⟨result,hresult⟩ := List.exists_mem_of_ne_nil _ hnil
    obtain ⟨before,anchor,after,anchorUuid,hlast,rfl,hanchor,hrewrite⟩ :=
      replaceInterrupt_eq dumps hc hresult (ha.used result hresult)
    rw [hrewrite, hlast]
    constructor
    · rintro h before' anchor' after' heq
      cases heq
      obtain ⟨hbefore,hafter⟩ := (once_iff ha.distinct).mp h.once
      exact ⟨hbefore,hafter,gone_iff.mp h.gone,kept_iff.mp h.kept,(parents_iff hc hanchor).mp h.parents⟩
    · intro h
      have htidy := h before anchor after rfl
      exact ⟨(once_iff ha.distinct).mpr ⟨htidy.resultsBefore,htidy.resultsAfter⟩,kept_iff.mpr htidy.pure,
        gone_iff.mpr htidy.interrupts,(parents_iff hc hanchor).mpr htidy.parents⟩

end Repair

def promptLine : HistoryLine := ⟨.user,some "u0",none,none,.text "fetch both pages"⟩

def callLine (id uuid parentUuid : String) : HistoryLine := ⟨.assistant,some uuid,some parentUuid,none,.blocks [.toolUse id]⟩

def denialLine (id uuid parentUuid : String) : HistoryLine :=
  ⟨.user,some uuid,some parentUuid,none,.blocks [.toolResult id "denied" true]⟩

/-- One call, and its interrupt. -/
def interruptedHistory : List HistoryLine :=
  [promptLine,callLine "toolu_1" "a1" "u0",denialLine "toolu_1" "u1" "a1",
    ⟨.user,some "u2",some "u1",none,.blocks [.text "[Request interrupted by user for tool use]"]⟩]

def parallelHistory : List HistoryLine :=
  [promptLine,callLine "toolu_1" "a1" "u0",denialLine "toolu_1" "u1" "a1",callLine "toolu_2" "a2" "u1",
    denialLine "toolu_2" "u2" "a2"]

def okResult (id : String) : ToolResult := ⟨id,"core.http_request",.str "ok",false⟩

theorem interruptedHistory_coherent : Coherent "r1" interruptedHistory where
  distinct := by decide
  parents := by decide
  assistants := by decide
  fresh := by decide

theorem parallelHistory_coherent : Coherent "r1" parallelHistory where
  distinct := by decide
  parents := by decide
  assistants := by decide
  fresh := by decide

theorem interruptedHistory_repaired :
    Repaired [okResult "toolu_1"] interruptedHistory (replaceInterrupt (fun _ => "") "r1" [okResult "toolu_1"] interruptedHistory) := by
  refine (repaired_iff interruptedHistory_coherent ⟨by decide,by decide⟩).mpr ?_
  intro before anchor after hlast
  cases hlast
  refine ⟨by decide,by decide,?_,by decide,by decide⟩
  rintro before line after heq ⟨use,huse,huses⟩
  have hprompt : usesTool ["toolu_1"] promptLine = false := by decide
  rcases before with _ | ⟨first,_ | ⟨second,before⟩⟩
  · cases huse
  · cases heq
    rw [List.mem_singleton.mp huse] at huses
    exact absurd (hprompt.symm.trans huses) nofun
  · simp at heq

/-- The first of two calls keeps its denial beside its result. -/
theorem parallelHistory_unrepaired : ¬ ∀ (dumps : Value → String) (uuid : String) (results : List ToolResult)
    (history : List HistoryLine), Coherent uuid history → Awaited results history →
      Repaired results history (replaceInterrupt dumps uuid results history) := by
  intro h
  have hrepaired := h (fun _ => "") "r1" [okResult "toolu_1",okResult "toolu_2"] parallelHistory
    parallelHistory_coherent ⟨by decide,by decide⟩
  have honce := hrepaired.once (okResult "toolu_1") (by simp)
  exact absurd honce (by decide)

end SessionHistory
end Allama
