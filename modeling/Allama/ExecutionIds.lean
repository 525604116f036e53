import Mathlib.Data.List.TakeWhile
import Allama.Backtracking
import Allama.IdClasses

/-! The ids of workflow executions (`allama/identifiers/workflow.py`). -/
namespace Allama
open Backtracking
section Patterns
variable {β : Type}

/-- `[0-9a-zA-Z]`. -/
def isBase62 (c : Char) : Bool := c.isAlphanum

/-- `[0-9a-f]`. -/
def isHex (c : Char) : Bool := c.isDigit || ('a' ≤ c && c ≤ 'f')

def plus (p : Char → Bool) (k : Text → Option β) : Text → Option β
  | [] => none
  | c :: s => if p c then greedyStar p k s else none

/-- `[0-9a-f]{n}`. -/
def hexRun (n : ℕ) (k : Text → Option β) (s : Text) : Option β :=
  if (s.take n).length = n ∧ (s.take n).all isHex then k (s.drop n) else none

/-- `WF_ID_SHORT_PATTERN`. -/
def wfIdShort (k : Text → Option β) : Text → Option β := literal "wf_".toList (plus isBase62 k)

/-- `LEGACY_WF_ID_PATTERN`. -/
def legacyWfId (k : Text → Option β) : Text → Option β := literal "wf-".toList (hexRun 32 k)

/-- `EXEC_ID_SHORT_PATTERN`. -/
def execIdShort (k : Text → Option β) : Text → Option β := literal "exec_".toList (plus isBase62 k)

/-- `[\w-]`; `isAlnum` tells the characters of `\w` but for the underscore. -/
def isWordOrDash (isAlnum : Char → Bool) (c : Char) : Bool := isAlnum c || c = '_' || c = '-'

/-- `LEGACY_EXEC_ID_PATTERN`. -/
def legacyExecId (isAlnum : Char → Bool) (k : Text → Option β) : Text → Option β :=
  literal "exec-".toList (plus (isWordOrDash isAlnum) k)

/-- `_LEGACY_SCHEDULE_ID_PATTERN`. -/
def legacyScheduleId (k : Text → Option β) : Text → Option β := literal "sch-".toList (hexRun 32 k)

/-- `_UUID_PATTERN`. -/
def uuidPattern (k : Text → Option β) : Text → Option β :=
  hexRun 8 (literal ['-'] (hexRun 4 (literal ['-'] (hexRun 4 (literal ['-'] (hexRun 4 (literal ['-'] (hexRun 12 k))))))))

/-- `SCHEDULE_EXEC_ID_PATTERN`. -/
def scheduleExecId (k : Text → Option β) (s : Text) : Option β :=
  let tail := literal ['-'] (greedyStar (fun c => c ≠ '\n') k)
  (legacyScheduleId tail s).or (uuidPattern tail s)

/-- `WF_EXEC_SUFFIX_PATTERN`. -/
def wfExecSuffix (isAlnum : Char → Bool) (k : Text → Option β) (s : Text) : Option β :=
  (execIdShort k s).or ((legacyExecId isAlnum k s).or (scheduleExecId k s))

/-- `[:/]`. -/
def delimiter (k : Text → Option β) : Text → Option β
  | [] => none
  | c :: s => if c = ':' ∨ c = '/' then k s else none

def consumed (s rest : Text) : Text := s.take (s.length-rest.length)

/-- `re.match(WF_EXEC_ID_PATTERN, _)`: the groups `workflow_id` and `execution_id`. Nothing has to end where they end. -/
def wfExecIdMatch (isAlnum : Char → Bool) (s : Text) : Option (Text × Text) :=
  let afterId := delimiter fun t => wfExecSuffix isAlnum (fun rest => some (consumed t rest)) t
  let continued := fun t => (afterId t).map (consumed s t,·)
  (legacyWfId continued s).or (wfIdShort continued s)

end Patterns

section Parts
variable (isAlnum : Char → Bool)

/-- `exec_id_to_parts`; `none` is its `ValueError`. -/
def execIdToParts (wfExecId : Text) : Option (Uuid × Text) :=
  match wfExecIdMatch isAlnum wfExecId with
  | none => none
  | some (wfId,execId) => (IdClass.WorkflowUUID.new (.text wfId)).map (·,execId)

/-- A workflow id as `exec_id_from_parts` is given it: the UUID, or a text that names it. -/
inductive WfIdArg
  | uuid (id : Uuid)
  | short (id : Uuid)
  | legacy (id : Uuid)
deriving DecidableEq

def WfIdArg.isText : WfIdArg → Bool
  | .uuid _ => false
  | .short _ | .legacy _ => true

def WfIdArg.id : WfIdArg → Uuid
  | .uuid id | .short id | .legacy id => id

/-- `str` of it; a subclass of `UUID` keeps its hyphenated form. -/
def WfIdArg.str : WfIdArg → Text
  | .uuid id => id.chars
  | .short id => IdClass.WorkflowUUID.short id
  | .legacy id => "wf-".toList ++ id.hex

def execIdFromParts (wfId : WfIdArg) (execSuffixId : Text) : Text := wfId.str ++ ':' :: execSuffixId

/-- `generate_exec_id` of the UUID that it draws. -/
def generateExecId (delimiter : Char) (wfId execId : Uuid) : Text :=
  IdClass.WorkflowUUID.short wfId ++ delimiter :: IdClass.ExecutionUUID.short execId

/-- The id that `create_schedule` gives its workflow, with the time that the scheduler appends for a run. -/
def scheduledExecId (wfId scheduleId : Uuid) (time : Text) : Text :=
  IdClass.WorkflowUUID.short wfId ++ '/' :: ("sch-".toList ++ scheduleId.hex ++ '-' :: time)

/-- What the scheduler appends to the id of a schedule: the time of the run, on one line. -/
structure RunTime where
  text : Text
  oneLine : '\n' ∉ text

/-- The execution ids that are generated: the short one, that of `exec_suffix_id`, and those of a schedule's run. -/
inductive ExecSuffix
  | short (id : Uuid)
  | legacy (id : Uuid)
  | scheduled (id : Uuid) (time : RunTime)
  | scheduledUuid (id : Uuid) (time : RunTime)

def ExecSuffix.text : ExecSuffix → Text
  | .short id => IdClass.ExecutionUUID.short id
  | .legacy id => "exec-".toList ++ id.hex
  | .scheduled id time => "sch-".toList ++ id.hex ++ '-' :: time.text
  | .scheduledUuid id time => id.chars ++ '-' :: time.text

end Parts

section Forms

/-- `n` lower-case hexadecimal digits. -/
def Hex (n : ℕ) (s : Text) : Prop := s.length = n ∧ s.all isHex = true

def IsUuidText (s : Text) : Prop := ∃ a b c d e, s = a ++ '-' :: (b ++ '-' :: (c ++ '-' :: (d ++ '-' :: e))) ∧
  Hex 8 a ∧ Hex 4 b ∧ Hex 4 c ∧ Hex 4 d ∧ Hex 12 e

def IsWfId (s : Text) : Prop := (∃ h, s = "wf-".toList ++ h ∧ Hex 32 h) ∨
  ∃ b, s = "wf_".toList ++ b ∧ b ≠ [] ∧ b.all isBase62 = true

/-- An execution id, by its pattern. -/
inductive IsExecId (isAlnum : Char → Bool) : Text → Prop
  | short {b : Text} (hne : b ≠ []) (hall : b.all isBase62 = true) : IsExecId isAlnum ("exec_".toList ++ b)
  | legacy {b : Text} (hne : b ≠ []) (hall : b.all (isWordOrDash isAlnum) = true) : IsExecId isAlnum ("exec-".toList ++ b)
  | scheduled {h x : Text} (hhex : Hex 32 h) (hline : '\n' ∉ x) : IsExecId isAlnum ("sch-".toList ++ h ++ '-' :: x)
  | scheduledUuid {u x : Text} (huuid : IsUuidText u) (hline : '\n' ∉ x) : IsExecId isAlnum (u ++ '-' :: x)

def isDelimiter (c : Char) : Bool := c = ':' || c = '/'

/-- The text is a workflow id, a delimiter and an execution id, and nothing else. -/
def IsWfExecId (isAlnum : Char → Bool) (s : Text) : Prop :=
  ∃ w c e, s = w ++ c :: e ∧ IsWfId w ∧ isDelimiter c = true ∧ IsExecId isAlnum e

/-- What stands after the first delimiter. -/
def afterDelimiter (s : Text) : Text := (s.dropWhile fun c => !isDelimiter c).tail

/-- No character is foreign to the kind of execution id that the text starts like. -/
def isClean (isAlnum : Char → Bool) (s : Text) : Bool :=
  if "exec_".toList.isPrefixOf s then (s.drop 5).all isBase62
  else if "exec-".toList.isPrefixOf s then (s.drop 5).all (isWordOrDash isAlnum)
  else s.all (· ≠ '\n')

end Forms

section Matching
variable {β : Type} {k : Text → Option β}

theorem plus_eq_some {p : Char → Bool} {s : Text} {b : β} (h : plus p k s = some b) :
    ∃ c r, s = c :: r ∧ p c = true := by
  cases s with
  | nil => cases h
  | cons c r =>
    refine ⟨c,r,rfl,?_⟩
    by_contra hc
    rw [plus, if_neg hc] at h
    cases h

theorem hexRun_append {n : ℕ} {h : Text} (hh : Hex n h) (s : Text) : hexRun n k (h ++ s) = k s := by
  rw [hexRun, List.take_left' hh.1, List.drop_left' hh.1, if_pos ⟨hh.1,hh.2⟩]

theorem hexRun_eq_some {n : ℕ} {s : Text} {b : β} (h : hexRun n k s = some b) :
    ∃ g r, s = g ++ r ∧ Hex n g ∧ k r = some b := by
  rw [hexRun] at h
  split at h
  · rename_i hh
    exact ⟨s.take n,s.drop n,(List.take_append_drop n s).symm,⟨hh.1,hh.2⟩,h⟩
  · cases h

theorem uuidPattern_append {u : Text} (hu : IsUuidText u) (s : Text) : uuidPattern k (u ++ s) = k s := by
  obtain ⟨a,b,c,d,e,rfl,ha,hb,hc,hd,he⟩ := hu
  have hdash : ∀ (k' : Text → Option β) r, literal ['-'] k' ('-' :: r) = k' r := fun k' r => literal_append ['-'] k' r
  simp only [uuidPattern, List.append_assoc, List.cons_append]
  rw [hexRun_append ha, hdash, hexRun_append hb, hdash, hexRun_append hc, hdash, hexRun_append hd, hdash, hexRun_append he]

theorem uuidPattern_eq_some {s : Text} {b : β} (h : uuidPattern k s = some b) :
    ∃ u r, s = u ++ r ∧ IsUuidText u ∧ k r = some b := by
  obtain ⟨a,_,rfl,ha,h⟩ := hexRun_eq_some h
  obtain ⟨_,rfl,h⟩ := literal_eq_some.mp h
  obtain ⟨b,_,rfl,hb,h⟩ := hexRun_eq_some h
  obtain ⟨_,rfl,h⟩ := literal_eq_some.mp h
  obtain ⟨c,_,rfl,hc,h⟩ := hexRun_eq_some h
  obtain ⟨_,rfl,h⟩ := literal_eq_some.mp h
  obtain ⟨d,_,rfl,hd,h⟩ := hexRun_eq_some h
  obtain ⟨_,rfl,h⟩ := literal_eq_some.mp h
  obtain ⟨e,r,rfl,he,h⟩ := hexRun_eq_some h
  refine ⟨_,r,?_,⟨a,b,c,d,e,rfl,ha,hb,hc,hd,he⟩,h⟩
  simp only [List.append_assoc, List.cons_append, List.nil_append]

theorem literal_of_hex {word g s : Text} {c : Char} (hg : Hex 8 g) (hc : c ∈ word.take 8) (hhex : isHex c = false) :
    literal word k (g ++ s) = none := by
  cases h : literal word k (g ++ s) with
  | none => rfl
  | some b =>
    obtain ⟨t,ht,_⟩ := literal_eq_some.mp h
    have hmem : c ∈ g := by
      have hc' : c ∈ (word ++ t).take 8 := by
        rw [List.take_append]
        exact List.mem_append_left _ hc
      rwa [← ht, List.take_left' hg.1] at hc'
    have := List.all_eq_true.mp hg.2 c hmem
    rw [hhex] at this
    cases this

theorem isBase62_not_delimiter {c : Char} (h : isBase62 c = true) : isDelimiter c = false := by
  by_contra hd
  rw [Bool.not_eq_false, isDelimiter, Bool.or_eq_true, decide_eq_true_eq, decide_eq_true_eq] at hd
  rcases hd with rfl | rfl <;> cases h

theorem delimiter_cons (c : Char) (s : Text) : delimiter k (c :: s) = if isDelimiter c then k s else none := by
  simp only [delimiter, isDelimiter, Bool.or_eq_true, decide_eq_true_eq]

theorem delimiter_eq_some {s : Text} {b : β} (h : delimiter k s = some b) :
    ∃ c t, s = c :: t ∧ isDelimiter c = true ∧ k t = some b := by
  cases s with
  | nil => cases h
  | cons c t =>
    rw [delimiter_cons] at h
    split at h
    · rename_i hc
      exact ⟨c,t,rfl,hc,h⟩
    · cases h

theorem consumed_append (s rest : Text) : consumed (s ++ rest) rest = s := by
  have hlen : (s ++ rest).length-rest.length = s.length := by
    rw [List.length_append]
    omega
  rw [consumed, hlen, List.take_left]

end Matching

section Recognition
variable {isAlnum : Char → Bool}
variable {u : Text} {β : Type} {s : Text} {k : Text → Option β} {c : Char}

theorem plus_all {p : Char → Bool} (hk : ∀ t, (k t).isSome = true) (hne : s ≠ [])
    (h : s.all p = true) : plus p k s = k [] := by
  cases s with
  | nil => exact absurd rfl hne
  | cons c s =>
    rw [List.all_cons, Bool.and_eq_true] at h
    rw [plus, if_pos h.1, greedyStar_of_isSome hk, List.dropWhile_eq_nil_iff.mpr (List.all_eq_true.mp h.2)]

/-- An execution id is matched as a whole. -/
theorem wfExecSuffix_form {e : Text} (hk : ∀ t, (k t).isSome = true) (h : IsExecId isAlnum e) :
    wfExecSuffix isAlnum k e = k [] := by
  have hstar : ∀ {x : Text}, '\n' ∉ x → literal ['-'] (greedyStar (fun c => c ≠ '\n') k) ('-' :: x) = k [] := by
    intro x hx
    have hall : x.all (fun c => decide (c ≠ '\n')) = true := by
      apply List.all_eq_true.mpr
      intro c hc
      exact decide_eq_true fun he => hx (he ▸ hc)
    calc literal ['-'] (greedyStar (fun c => c ≠ '\n') k) ('-' :: x)
        = greedyStar (fun c => c ≠ '\n') k x := literal_append ['-'] _ x
      _ = k (x.dropWhile fun c => c ≠ '\n') := greedyStar_of_isSome hk x
      _ = k [] := by rw [List.dropWhile_eq_nil_iff.mpr (List.all_eq_true.mp hall)]
  cases h with
  | short hne hall =>
    rw [wfExecSuffix, execIdShort, literal_append, plus_all hk hne hall, Option.or_of_isSome (hk [])]
  | @legacy b hne hall =>
    have hshort : execIdShort k ("exec-".toList ++ b) = none := rfl
    rw [wfExecSuffix, hshort, Option.none_or, legacyExecId, literal_append, plus_all hk hne hall,
      Option.or_of_isSome (hk [])]
  | @scheduled h x hhex hline =>
    have hshort : execIdShort k ("sch-".toList ++ h ++ '-' :: x) = none := rfl
    have hlegacy : legacyExecId isAlnum k ("sch-".toList ++ h ++ '-' :: x) = none := rfl
    rw [wfExecSuffix, hshort, hlegacy, Option.none_or, Option.none_or, scheduleExecId, legacyScheduleId,
      List.append_assoc, literal_append, hexRun_append hhex, hstar hline, Option.or_of_isSome (hk [])]
  | @scheduledUuid u x huuid hline =>
    -- the first group of a UUID is hexadecimal, and every other pattern starts with a word that is not
    have hfirst := huuid
    obtain ⟨a,b,c,d,f,rfl,ha,_⟩ := hfirst
    have hnone : ∀ {word : Text} {ch : Char} (k' : Text → Option β), ch ∈ word.take 8 → isHex ch = false →
        literal word k' (a ++ '-' :: (b ++ '-' :: (c ++ '-' :: (d ++ '-' :: f))) ++ '-' :: x) = none := by
      intro word ch k' hc hhex
      rw [List.append_assoc]
      exact literal_of_hex ha hc hhex
    have hx : 'x' ∈ ("exec_".toList).take 8 := by decide
    have hx' : 'x' ∈ ("exec-".toList).take 8 := by decide
    have hs : 's' ∈ ("sch-".toList).take 8 := by decide
    rw [wfExecSuffix, execIdShort, legacyExecId, hnone _ hx rfl, hnone _ hx' rfl, Option.none_or, Option.none_or,
      scheduleExecId, legacyScheduleId, hnone _ hs rfl, Option.none_or, uuidPattern_append huuid, hstar hline]

theorem wfExecIdMatch_form {w t : Text} (hw : IsWfId w) (hc : isDelimiter c = true) :
    wfExecIdMatch isAlnum (w ++ c :: t) =
      (wfExecSuffix isAlnum (fun rest => some (consumed t rest)) t).map (w,·) := by
  have hdelim : ∀ {k : Text → Option Text}, delimiter k (c :: t) = k t := by
    intro k
    rw [delimiter_cons, if_pos hc]
  rcases hw with ⟨h,rfl,hhex⟩ | ⟨b,rfl,hne,hall⟩
  · have hshort : ∀ k : Text → Option (Text × Text), wfIdShort k ("wf-".toList ++ h ++ c :: t) = none := fun _ => rfl
    rw [wfExecIdMatch, hshort, Option.or_none, legacyWfId, List.append_assoc, literal_append, hexRun_append hhex, hdelim,
      ← List.append_assoc, consumed_append]
  · have hlegacy : ∀ k : Text → Option (Text × Text), legacyWfId k ("wf_".toList ++ b ++ c :: t) = none := fun _ => rfl
    rw [wfExecIdMatch, hlegacy, Option.none_or, wfIdShort, List.append_assoc, literal_append]
    cases b with
    | nil => exact absurd rfl hne
    | cons d b =>
      rw [List.all_cons, Bool.and_eq_true] at hall
      rw [List.cons_append, plus, if_pos hall.1, greedyStar_of_stops]
      · -- the star stops at the delimiter
        have hstop : ¬ isBase62 c = true := by
          intro h
          rw [isBase62_not_delimiter h] at hc
          cases hc
        rw [List.dropWhile_append_of_pos (List.all_eq_true.mp hall.2), List.dropWhile_cons_of_neg hstop, hdelim,
          ← List.cons_append, ← List.append_assoc, consumed_append]
      · intro a s ha
        rw [delimiter_cons, isBase62_not_delimiter ha, if_neg Bool.false_ne_true, Option.map_none]

theorem wfExecIdMatch_sound {r : Text × Text} (h : wfExecIdMatch isAlnum s = some r) :
    ∃ w c t, s = w ++ c :: t ∧ IsWfId w ∧ isDelimiter c = true := by
  rw [wfExecIdMatch, Option.or_eq_some_iff] at h
  rcases h with h | ⟨_,h⟩
  · obtain ⟨_,rfl,h⟩ := literal_eq_some.mp h
    obtain ⟨g,_,rfl,hg,h⟩ := hexRun_eq_some h
    obtain ⟨_,h,_⟩ := Option.map_eq_some_iff.mp h
    obtain ⟨c,t,rfl,hc,_⟩ := delimiter_eq_some h
    exact ⟨"wf-".toList ++ g,c,t,by rw [List.append_assoc],.inl ⟨g,rfl,hg⟩,hc⟩
  · obtain ⟨_,rfl,h⟩ := literal_eq_some.mp h
    obtain ⟨d,r,rfl,hd⟩ := plus_eq_some h
    rw [plus, if_pos hd] at h
    obtain ⟨u,_,rfl,hu,h,_⟩ := greedyStar_eq_some.mp h
    obtain ⟨_,h,_⟩ := Option.map_eq_some_iff.mp h
    obtain ⟨c,t,rfl,hc,_⟩ := delimiter_eq_some h
    have hall : (d :: u).all isBase62 = true := by
      rw [List.all_cons, hd, List.all_eq_true.mpr hu]
      rfl
    exact ⟨"wf_".toList ++ d :: u,c,t,by rw [List.append_assoc]; rfl,.inr ⟨d :: u,rfl,List.cons_ne_nil _ _,hall⟩,hc⟩

theorem afterDelimiter_form {w t : Text} (hw : IsWfId w) (hc : isDelimiter c = true) :
    afterDelimiter (w ++ c :: t) = t := by
  have hnone : ∀ a ∈ w, (!isDelimiter a) = true := by
    have hdash : ∀ a ∈ "wf-".toList, (!isDelimiter a) = true := List.all_eq_true.mp (by decide)
    have hbar : ∀ a ∈ "wf_".toList, (!isDelimiter a) = true := List.all_eq_true.mp (by decide)
    intro a ha
    rcases hw with ⟨h,rfl,hhex⟩ | ⟨b,rfl,_,hall⟩
    · rcases List.mem_append.mp ha with ha | ha
      · exact hdash a ha
      · have hhex' := List.all_eq_true.mp hhex.2 a ha
        by_contra hd
        rw [Bool.not_eq_true, Bool.not_eq_false', isDelimiter, Bool.or_eq_true, decide_eq_true_eq, decide_eq_true_eq] at hd
        rcases hd with rfl | rfl <;> cases hhex'
    · rcases List.mem_append.mp ha with ha | ha
      · exact hbar a ha
      · rw [isBase62_not_delimiter (List.all_eq_true.mp hall a ha)]
        rfl
  have hstop : ¬ (!isDelimiter c) = true := by
    rw [hc]
    decide
  rw [afterDelimiter, List.dropWhile_append_of_pos hnone, List.dropWhile_cons_of_neg (p := fun a => !isDelimiter a) hstop]
  rfl

theorem not_prefix_of_uuid {x word : Text} (hu : IsUuidText u) (hc : c ∈ word.take 8)
    (hhex : isHex c = false) : word.isPrefixOf (u ++ x) = false := by
  obtain ⟨a,b,d,e,f,rfl,ha,_⟩ := hu
  have hnone := @literal_of_hex Unit (fun _ => some ()) word a ('-' :: (b ++ '-' :: (d ++ '-' :: (e ++ '-' :: f))) ++ x) c
    ha hc hhex
  rw [literal, ← List.append_assoc] at hnone
  by_contra hp
  rw [if_pos (Bool.not_eq_false _ ▸ hp)] at hnone
  cases hnone

theorem not_mem_hex {n : ℕ} {h : Text} (hh : Hex n h) (hc : isHex c = false) : c ∉ h := by
  intro hmem
  have := List.all_eq_true.mp hh.2 c hmem
  rw [hc] at this
  cases this

theorem not_newline_uuid (hu : IsUuidText u) : '\n' ∉ u := by
  obtain ⟨a,b,c,d,e,rfl,ha,hb,hc,hd,he⟩ := hu
  simp only [List.mem_append, List.mem_cons, not_or]
  exact ⟨not_mem_hex ha rfl,by decide,not_mem_hex hb rfl,by decide,not_mem_hex hc rfl,by decide,not_mem_hex hd rfl,
    by decide,not_mem_hex he rfl⟩

theorem all_ne_newline : s.all (· ≠ '\n') = true ↔ '\n' ∉ s := by
  rw [List.all_eq_true]
  constructor
  · intro h hmem
    exact of_decide_eq_true (h _ hmem) rfl
  · intro h c hc
    exact decide_eq_true fun he => h (he ▸ hc)

theorem isClean_short (b : Text) : isClean isAlnum ("exec_".toList ++ b) = b.all isBase62 := rfl

theorem isClean_legacy (b : Text) : isClean isAlnum ("exec-".toList ++ b) = b.all (isWordOrDash isAlnum) := rfl

theorem isClean_scheduled (s : Text) : isClean isAlnum ("sch-".toList ++ s) = s.all (· ≠ '\n') := rfl

theorem isClean_uuid (hu : IsUuidText u) (x : Text) :
    isClean isAlnum (u ++ x) = (u ++ x).all (· ≠ '\n') := by
  have hx : 'x' ∈ ("exec_".toList).take 8 := by decide
  have hx' : 'x' ∈ ("exec-".toList).take 8 := by decide
  rw [isClean, not_prefix_of_uuid hu hx rfl, if_neg Bool.false_ne_true, not_prefix_of_uuid hu hx' rfl,
    if_neg Bool.false_ne_true]

theorem isClean_of_form {e : Text} (h : IsExecId isAlnum e) : isClean isAlnum e = true := by
  cases h with
  | short _ hall => rwa [isClean_short]
  | legacy _ hall => rwa [isClean_legacy]
  | @scheduled h x hhex hline =>
    rw [List.append_assoc, isClean_scheduled, all_ne_newline, List.mem_append, List.mem_cons, not_or, not_or]
    exact ⟨not_mem_hex hhex rfl,by decide,hline⟩
  | @scheduledUuid u x huuid hline =>
    rw [isClean_uuid huuid, all_ne_newline, List.mem_append, List.mem_cons, not_or, not_or]
    exact ⟨not_newline_uuid huuid,by decide,hline⟩

theorem form_of_isClean {t : Text} {r : β} (h : wfExecSuffix isAlnum k t = some r)
    (hclean : isClean isAlnum t = true) : IsExecId isAlnum t := by
  have hne : ∀ {b : Text}, (∃ c r, b = c :: r) → b ≠ [] := by
    rintro b ⟨c,r,rfl⟩
    exact List.cons_ne_nil c r
  rw [wfExecSuffix, Option.or_eq_some_iff, Option.or_eq_some_iff] at h
  rcases h with h | ⟨_,h | ⟨_,h⟩⟩
  · obtain ⟨b,rfl,h⟩ := literal_eq_some.mp h
    obtain ⟨c,r,hb,_⟩ := plus_eq_some h
    rw [isClean_short] at hclean
    exact .short (hne ⟨c,r,hb⟩) hclean
  · obtain ⟨b,rfl,h⟩ := literal_eq_some.mp h
    obtain ⟨c,r,hb,_⟩ := plus_eq_some h
    rw [isClean_legacy] at hclean
    exact .legacy (hne ⟨c,r,hb⟩) hclean
  · rw [scheduleExecId, Option.or_eq_some_iff] at h
    rcases h with h | ⟨_,h⟩
    · obtain ⟨_,rfl,h⟩ := literal_eq_some.mp h
      obtain ⟨g,_,rfl,hg,h⟩ := hexRun_eq_some h
      obtain ⟨x,rfl,_⟩ := literal_eq_some.mp h
      rw [isClean_scheduled, all_ne_newline, List.mem_append, not_or] at hclean
      have hline : '\n' ∉ x := fun hx => hclean.2 (List.mem_cons_of_mem _ hx)
      have hform : IsExecId isAlnum ("sch-".toList ++ g ++ '-' :: x) := .scheduled hg hline
      rwa [List.append_assoc] at hform
    · obtain ⟨u,_,rfl,hu,h⟩ := uuidPattern_eq_some h
      obtain ⟨x,rfl,_⟩ := literal_eq_some.mp h
      rw [isClean_uuid hu, all_ne_newline, List.mem_append, not_or] at hclean
      exact .scheduledUuid hu fun hx => hclean.2 (List.mem_cons_of_mem _ hx)

theorem isWfExecId_iff (h : (execIdToParts isAlnum s).isSome = true) :
    IsWfExecId isAlnum s ↔ isClean isAlnum (afterDelimiter s) = true := by
  constructor
  · rintro ⟨w,c,e,rfl,hw,hc,he⟩
    rw [afterDelimiter_form hw hc]
    exact isClean_of_form he
  · intro hclean
    have hmatch : (wfExecIdMatch isAlnum s).isSome = true := by
      unfold execIdToParts at h
      cases hm : wfExecIdMatch isAlnum s with
      | none =>
        rw [hm] at h
        cases h
      | some _ => rfl
    obtain ⟨r,hr⟩ := Option.isSome_iff_exists.mp hmatch
    obtain ⟨w,c,t,rfl,hw,hc⟩ := wfExecIdMatch_sound hr
    rw [afterDelimiter_form hw hc] at hclean
    rw [wfExecIdMatch_form hw hc] at hr
    obtain ⟨e,he,_⟩ := Option.map_eq_some_iff.mp hr
    exact ⟨w,c,t,rfl,hw,hc,form_of_isClean he hclean⟩

end Recognition

section RoundTrip
variable {isAlnum : Char → Bool}

theorem hex_of_digits (ds : List (Fin 16)) : (ds.map hexDigit).all isHex = true := by
  have hdigit : ∀ d, isHex (hexDigit d) = true := by decide
  rw [List.all_map]
  exact List.all_eq_true.mpr fun d _ => hdigit d

theorem hex_hex (u : Uuid) : Hex 32 u.hex := by
  refine ⟨?_,hex_of_digits u.digits⟩
  rw [Uuid.hex, List.length_map, u.length_eq]

theorem hex_take_drop (u : Uuid) {m n : ℕ} (h : m+n ≤ 32) : Hex n ((u.hex.drop m).take n) := by
  constructor
  · rw [List.length_take, List.length_drop, (hex_hex u).1]
    omega
  · apply List.all_eq_true.mpr
    intro c hc
    exact List.all_eq_true.mp (hex_hex u).2 c (List.mem_of_mem_drop (List.mem_of_mem_take hc))

theorem isUuidText_chars (u : Uuid) : IsUuidText u.chars := by
  have hlast : Hex 12 (u.hex.drop 20) := by
    have h := hex_take_drop u (m := 20) (n := 12) (by omega)
    rwa [List.take_of_length_le] at h
    rw [List.length_drop, (hex_hex u).1]
  have hfirst : Hex 8 (u.hex.take 8) := hex_take_drop u (m := 0) (n := 8) (by omega)
  exact ⟨_,_,_,_,_,rfl,hfirst,hex_take_drop u (by omega),hex_take_drop u (by omega),hex_take_drop u (by omega),hlast⟩

theorem short_form (cls : IdClass) (u : Uuid) :
    ∃ b, cls.short u = cls.word ++ b ∧ b ≠ [] ∧ b.all isBase62 = true := by
  obtain ⟨b,hb,hlen,hall⟩ := ((IdClass.short_width cls) u)
  refine ⟨b,hb,?_,?_⟩
  · rintro rfl
    cases hlen
  · have hchars : ∀ c ∈ base62Chars, isBase62 c = true := List.all_eq_true.mp (by decide)
    exact List.all_eq_true.mpr fun c hc => hchars c (hall c hc)

theorem ExecSuffix.form (hq : ∀ c, c.isAlphanum = true → isAlnum c = true) (s : ExecSuffix) : IsExecId isAlnum s.text := by
  cases s with
  | short id =>
    obtain ⟨b,hb,hne,hall⟩ := short_form .ExecutionUUID id
    rw [text, hb]
    exact .short hne hall
  | legacy id =>
    have hdigit : ∀ d, (hexDigit d).isAlphanum = true := by decide
    refine .legacy ?_ (List.all_eq_true.mpr ?_)
    · intro hnil
      have := (hex_hex id).1
      rw [hnil] at this
      cases this
    · intro c hc
      obtain ⟨d,_,rfl⟩ := List.mem_map.mp hc
      rw [isWordOrDash, hq _ (hdigit d)]
      rfl
  | scheduled id time => exact .scheduled (hex_hex id) time.oneLine
  | scheduledUuid id time => exact .scheduledUuid (isUuidText_chars id) time.oneLine

theorem execIdToParts_form {w e : Text} {c : Char} {id : Uuid} (hw : IsWfId w) (hc : isDelimiter c = true)
    (he : IsExecId isAlnum e) (hid : IdClass.WorkflowUUID.new (.text w) = some id) :
    execIdToParts isAlnum (w ++ c :: e) = some (id,e) := by
  have hall : consumed e [] = e := by
    have := consumed_append e []
    rwa [List.append_nil] at this
  rw [execIdToParts, wfExecIdMatch_form hw hc, wfExecSuffix_form (fun _ => rfl) he, hall, Option.map_some]
  dsimp only
  rw [hid, Option.map_some]

theorem isWfId_short (id : Uuid) : IsWfId (IdClass.WorkflowUUID.short id) := .inr (short_form .WorkflowUUID id)

theorem execIdToParts_uuid (id : Uuid) (s : Text) : execIdToParts isAlnum (id.chars ++ s) = none := by
  have hnone : wfExecIdMatch isAlnum (id.chars ++ s) = none := by
    cases h : wfExecIdMatch isAlnum (id.chars ++ s) with
    | none => rfl
    | some r =>
      obtain ⟨w,c,t,hs,hw,_⟩ := wfExecIdMatch_sound h
      have hw' : ∃ r, w = 'w' :: r := by
        rcases hw with ⟨g,rfl,_⟩ | ⟨b,rfl,_⟩
        · exact ⟨_,rfl⟩
        · exact ⟨_,rfl⟩
      obtain ⟨r,rfl⟩ := hw'
      cases hchars : id.chars with
      | nil => exact absurd hchars (List.append_ne_nil_of_right_ne_nil _ (List.cons_ne_nil _ _))
      | cons d ds =>
        -- the first character would be a `w`, and no UUID has one
        rw [hchars] at hs
        have hd : d = 'w' := (List.cons.inj hs).1
        have hmem : 'w' ∈ id.chars := by
          rw [hchars, hd]
          exact List.mem_cons_self
        exact absurd hmem (notMem_chars (by decide) (by decide) id)
  rw [execIdToParts, hnone]

theorem execIdFromParts_iff (hq : ∀ c, c.isAlphanum = true → isAlnum c = true) (w : WfIdArg) (s : ExecSuffix) :
    execIdToParts isAlnum (execIdFromParts w s.text) = some (w.id,s.text) ↔ w.isText = true := by
  cases w with
  | uuid id =>
    rw [execIdFromParts, WfIdArg.str, execIdToParts_uuid]
    exact ⟨fun h => (by cases h),fun h => (by cases h)⟩
  | short id =>
    have h := execIdToParts_form (isWfId_short id) (c := ':') rfl (s.form hq) (IdClass.new_short .WorkflowUUID id)
    exact ⟨fun _ => rfl,fun _ => h⟩
  | legacy id =>
    have hid : IdClass.WorkflowUUID.new (.text ("wf-".toList ++ id.hex)) = some id :=
      @IdClass.new_legacy .WorkflowUUID id _ rfl
    have h := execIdToParts_form (.inl ⟨_,rfl,hex_hex id⟩) (c := ':') rfl (s.form hq) hid
    exact ⟨fun _ => rfl,fun _ => h⟩

/-- The ids that are written with the short workflow id are read back; those of `exec_id_from_parts` are so if and only if it
is given a text; and an accepted text has nothing after the execution id if and only if it is clean. -/
theorem execution_ids_iff (hq : ∀ c, c.isAlphanum = true → isAlnum c = true) :
    (∀ w s, execIdToParts isAlnum (execIdFromParts w (ExecSuffix.text s)) = some (w.id,s.text) ↔ w.isText = true) ∧
    (∀ c w e, isDelimiter c = true →
      execIdToParts isAlnum (generateExecId c w e) = some (w,IdClass.ExecutionUUID.short e)) ∧
    (∀ w id (time : RunTime), execIdToParts isAlnum (scheduledExecId w id time.text) =
      some (w,(ExecSuffix.scheduled id time).text)) ∧
    ∀ s, (execIdToParts isAlnum s).isSome = true →
      (IsWfExecId isAlnum s ↔ isClean isAlnum (afterDelimiter s) = true) := by
  refine ⟨execIdFromParts_iff hq,?_,?_,fun s => isWfExecId_iff⟩
  · intro c w e hc
    exact execIdToParts_form (isWfId_short w) hc (ExecSuffix.form hq (.short e)) (IdClass.new_short .WorkflowUUID w)
  · intro w id time
    exact execIdToParts_form (isWfId_short w) (by decide) (ExecSuffix.form hq (.scheduled id time))
      (IdClass.new_short .WorkflowUUID w)

theorem execution_ids_iff_ascii : execIdToParts Char.isAlphanum (execIdFromParts (.short (Uuid.ofDigit 7))
    (ExecSuffix.short (Uuid.ofDigit 3)).text) = some (Uuid.ofDigit 7,(ExecSuffix.short (Uuid.ofDigit 3)).text) :=
  ((execution_ids_iff fun _ h => h).1 (.short (Uuid.ofDigit 7)) (.short (Uuid.ofDigit 3))).mpr rfl

/-- The id of a workflow itself is not read back, and a text with a character after the execution id is accepted. -/
theorem not_execution_ids : execIdToParts Char.isAlphanum (execIdFromParts (.uuid (Uuid.ofDigit 0))
      (ExecSuffix.short (Uuid.ofDigit 0)).text) = none ∧
    (execIdToParts Char.isAlphanum "wf_0:exec_1!".toList).isSome = true ∧
    ¬ IsWfExecId Char.isAlphanum "wf_0:exec_1!".toList := by
  have haccepted : (execIdToParts Char.isAlphanum "wf_0:exec_1!".toList).isSome = true := by decide
  refine ⟨execIdToParts_uuid _ _,haccepted,?_⟩
  rw [isWfExecId_iff haccepted]
  decide

end RoundTrip
end Allama
