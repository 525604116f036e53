import Allama.SessionLines

/-! Which turns have each line of the session file sent and stored once. -/
namespace Allama
namespace SessionFile
open TextLines
section Lines
variable (loads : Text → Option Value) (str : Value → String)

/-- A line as the SDK writes it: an object, no proper part of which is JSON, without a newline. -/
structure JsonLine (line : Text) : Prop where
  object : (lineInfo loads str line).isSome
  uuid : ∀ lineData uuid, loads line = some (.dict lineData) → lineData.lookup "uuid" = some uuid → ∃ s, uuid = .str s
  start : line.head? = some '\x7b'
  newline : '\n' ∉ line
  parts : ∀ p, PartOf p line → loads p = none

def internalOf (line : Text) : Bool := ((lineInfo loads str line).map Prod.snd).getD true

def userLine (line : Text) : Bool := ((lineInfo loads str line).map fun info => isUser info.1).getD false

/-- Every line once, in order. The prompt of a continuation, the first line of the user, is internal. -/
def expectedLines : Bool → List Text → List SessionLine
  | _, [] => []
  | continuation, line :: lines =>
    let marked := continuation && userLine loads str line
    ⟨line,internalOf loads str line || marked⟩ :: expectedLines (continuation && !marked) lines

def entryOf (line : SessionLine) : HistoryEntry := ⟨(loads line.line).getD .none,line.internal⟩

def lineUuid (line : Text) : Option String := (loads line).bind uuidOf

/-- A turn over a session file: what the file holds when the turn begins, the lines that the SDK appends, and the
messages that it sends meanwhile, each with how much is appended by then. The last message ends the turn. -/
structure Turn where
  earlier : Text
  resumed : Bool
  continuation : Bool
  lines : List Text
  reads : List (Read × ℕ)
  fresh : resumed = false → earlier = []
  json : ∀ line ∈ lines, JsonLine loads str line
  growing : reads.Pairwise fun a b => a.2 ≤ b.2
  complete : reads.getLast? = some (.emit,(textOf lines).length)

namespace Turn
variable {loads str} (turn : Turn loads str)

def sent : List SessionLine :=
  (readAll loads str turn.resumed turn.earlier (textOf turn.lines) turn.reads {isContinuation := turn.continuation}).2

def stored : List HistoryEntry := persistSessionLines loads turn.sent []

def expected : List SessionLine := expectedLines loads str turn.continuation turn.lines

/-- Every line is sent once, in order, and so stored. -/
def SentOnce : Prop := turn.sent = turn.expected ∧ turn.stored = turn.expected.map (entryOf loads)

/-- What the lines and the messages have to keep to. -/
structure Clean : Prop where
  unbroken : ∀ line ∈ turn.lines, ∀ c ∈ line, isLineBreak c = false
  captured : ∃ m, turn.reads.find? (·.1 = .streamEvent) = some (.streamEvent,m) ∧
    (turn.resumed = true → m = 0 ∧ Terminated turn.earlier)
  uuids : (turn.lines.filterMap (lineUuid loads)).Nodup

end Turn
end Lines

variable {s : ReaderState} {m : ℕ}

section Passes
variable {loads : Text → Option Value} {str : Value → String}

-- one equation for each kind of line
attribute [local simp] expectedLines emitLines

theorem expectedLines_length (lines : List Text) (c : Bool) : (expectedLines loads str c lines).length = lines.length := by
  induction lines generalizing c with
  | nil => rfl
  | cons line lines ih => exact congrArg Nat.succ (ih _)

theorem expectedLines_line (lines : List Text) (c : Bool) : (expectedLines loads str c lines).map SessionLine.line = lines := by
  induction lines generalizing c with
  | nil => rfl
  | cons line lines ih => exact congrArg (line :: ·) (ih _)

def flagAfter (loads : Text → Option Value) (str : Value → String) (c : Bool) (lines : List Text) : Bool :=
  c && !lines.any (userLine loads str)

theorem expectedLines_append (lines lines' : List Text) (c : Bool) : expectedLines loads str c (lines ++ lines') =
    expectedLines loads str c lines ++ expectedLines loads str (flagAfter loads str c lines) lines' := by
  induction lines generalizing c with
  | nil => simp [flagAfter]
  | cons line lines ih =>
    rw [List.cons_append, expectedLines, ih, expectedLines, List.cons_append]
    have hflag : flagAfter loads str (c && !(c && userLine loads str line)) lines = flagAfter loads str c (line :: lines) := by
      unfold flagAfter
      rw [List.any_cons]
      cases c <;> cases userLine loads str line <;> rfl
    rw [hflag]

theorem strip_ne_nil {line : Text} (h : line.head? = some '\x7b') : strip line ≠ [] := by
  obtain ⟨rest,rfl⟩ : ∃ rest, line = '\x7b' :: rest := by
    cases line with
    | nil => cases h
    | cons c rest =>
      cases h
      exact ⟨rest,rfl⟩
  intro hnil
  have hspace : isSpace '\x7b' = false := by decide
  rw [strip, List.dropWhile_cons_of_neg (by rw [hspace]; decide), List.rdropWhile_eq_nil_iff] at hnil
  exact absurd (hnil _ List.mem_cons_self) (by rw [hspace]; decide)

theorem emitLines_append {lines : List Text} (hlines : ∀ line ∈ lines, JsonLine loads str line) (rest : List Text)
    (s : ReaderState) : emitLines loads str (lines ++ rest) s =
      let s' : ReaderState := ⟨s.lastSeenLineIndex + lines.length,s.captured,flagAfter loads str s.isContinuation lines⟩
      ((emitLines loads str rest s').1,
        expectedLines loads str s.isContinuation lines ++ (emitLines loads str rest s').2) := by
  induction lines generalizing s with
  | nil => simp [flagAfter]
  | cons line lines ih =>
    have hline := hlines line List.mem_cons_self
    obtain ⟨⟨lineData,internal⟩,hinfo⟩ := Option.isSome_iff_exists.mp hline.object
    have hinternal : internalOf loads str line = internal := by rw [internalOf, hinfo]; rfl
    have huser : userLine loads str line = isUser lineData := by rw [userLine, hinfo]; rfl
    have hflag : flagAfter loads str (s.isContinuation && !(s.isContinuation && userLine loads str line)) lines =
        flagAfter loads str s.isContinuation (line :: lines) := by
      unfold flagAfter
      rw [List.any_cons]
      cases s.isContinuation <;> cases userLine loads str line <;> rfl
    rw [List.cons_append, emitLines, if_neg (strip_ne_nil hline.start), hinfo]
    dsimp only
    rw [ih (fun other hother => hlines other (List.mem_cons_of_mem _ hother)), ← huser, hflag, expectedLines, hinternal]
    dsimp only
    rw [List.length_cons, Nat.add_right_comm, Nat.add_assoc]
    rfl

theorem emitLines_last {lines last : List Text} (hlines : ∀ line ∈ lines, JsonLine loads str line) {k : ℕ}
    (hlast : last = [] ∨ ∃ p line, last = [p] ∧ lines[k]? = some line ∧ PartOf p line) (s : ReaderState) :
    emitLines loads str last s = (s,[]) := by
  rcases hlast with rfl | ⟨p,line,rfl,hline,hpart⟩
  · rfl
  · have hjson := hlines line (List.mem_of_getElem? hline)
    have hstart : p.head? = some '\x7b' := by
      obtain ⟨⟨rest,rfl⟩,-,hne⟩ := hpart
      rw [← hjson.start]
      cases p with
      | nil => exact absurd rfl hne
      | cons c p => rfl
    have hinfo : lineInfo loads str p = none := by rw [lineInfo, hjson.parts p hpart]
    rw [emitLines, if_neg (strip_ne_nil hstart), hinfo]

theorem emitLines_count (loads : Text → Option Value) (str : Value → String) (lines : List Text) (s : ReaderState) :
    (emitLines loads str lines s).2.length + s.lastSeenLineIndex ≤ (emitLines loads str lines s).1.lastSeenLineIndex ∧
      (emitLines loads str lines s).1.lastSeenLineIndex ≤ s.lastSeenLineIndex + lines.length ∧
      (emitLines loads str lines s).1.captured = s.captured := by
  induction lines generalizing s with
  | nil => simp
  | cons line lines ih =>
    rw [emitLines]
    split
    · have h := ih {s with lastSeenLineIndex := s.lastSeenLineIndex+1}
      simp only [List.length_cons]
      dsimp only at h
      exact ⟨by omega,by omega,h.2.2⟩
    · split
      · simp
      · rename_i lineData internal _
        have h := ih
          {s with
            lastSeenLineIndex := s.lastSeenLineIndex+1
            isContinuation := s.isContinuation && !(s.isContinuation && isUser lineData)}
        dsimp only at h ⊢
        simp only [List.length_cons]
        exact ⟨by omega,by omega,h.2.2⟩

theorem mem_emitLines {lines : List Text} {line : SessionLine}
    (h : line ∈ (emitLines loads str lines s).2) : line.line ∈ lines := by
  induction lines generalizing s with
  | nil => cases h
  | cons other lines ih =>
    rw [emitLines] at h
    split at h
    · exact List.mem_cons_of_mem _ (ih h)
    · split at h
      · cases h
      · rcases List.mem_cons.mp h with rfl | h
        · exact List.mem_cons_self
        · exact List.mem_cons_of_mem _ (ih h)

end Passes

section Reads
variable {loads : Text → Option Value} {str : Value → String} {resumed : Bool} {earlier appended : Text}

-- one equation for each kind of message
attribute [local simp] readAll readStep

theorem readAll_append (reads reads' : List (Read × ℕ)) (s : ReaderState) :
    readAll loads str resumed earlier appended (reads ++ reads') s =
      let first := readAll loads str resumed earlier appended reads s
      let second := readAll loads str resumed earlier appended reads' first.1
      (second.1,first.2 ++ second.2) := by
  induction reads generalizing s with
  | nil => rfl
  | cons read reads ih =>
    simp only [List.cons_append, readAll, ih, List.append_assoc]

theorem readAll_uncaptured {reads : List (Read × ℕ)}
    (hreads : ∀ read ∈ reads, read.1 ≠ .streamEvent) (hs : s.captured = false) :
    readAll loads str resumed earlier appended reads s = (s,[]) := by
  induction reads with
  | nil => rfl
  | cons read reads ih =>
    obtain ⟨kind,seen⟩ := read
    have hstep : readStep loads str resumed (earlier ++ appended.take seen) s kind = (s,[]) := by
      cases kind with
      | streamEvent => exact absurd rfl (hreads _ List.mem_cons_self)
      | emit => exact if_neg (by rw [hs]; decide)
    rw [readAll, hstep]
    dsimp only
    rw [ih fun other hother => hreads other (List.mem_cons_of_mem _ hother)]
    rfl

theorem readStep_captured (hs : s.captured = true) (content : Text) :
    readStep loads str resumed content s .streamEvent = (s,[]) := if_pos hs

theorem emitNewSessionLines_captured (hs : s.captured = true) (content : Text) :
    emitNewSessionLines loads str content s = emitLines loads str ((splitLines content).drop s.lastSeenLineIndex) s :=
  if_pos hs

theorem readAll_count (loads : Text → Option Value) (str : Value → String) (resumed : Bool) (earlier appended : Text)
    (reads : List (Read × ℕ)) (s : ReaderState) (hs : s.captured = true) :
    let after := readAll loads str resumed earlier appended reads s
    after.2.length + s.lastSeenLineIndex ≤ after.1.lastSeenLineIndex ∧
      after.1.lastSeenLineIndex ≤ max s.lastSeenLineIndex (splitLines (earlier ++ appended)).length := by
  induction reads generalizing s with
  | nil => exact ⟨by simp,le_max_left _ _⟩
  | cons read reads ih =>
    obtain ⟨kind,seen⟩ := read
    rw [readAll]
    cases kind with
    | streamEvent =>
      rw [readStep_captured hs]
      simpa using ih s hs
    | emit =>
      have hprefix : (splitLines (earlier ++ appended.take seen)).length ≤ (splitLines (earlier ++ appended)).length := by
        have h := length_splitLines_append (earlier ++ appended.take seen) (appended.drop seen)
        rwa [List.append_assoc, List.take_append_drop] at h
      have hcount := emitLines_count loads str ((splitLines (earlier ++ appended.take seen)).drop s.lastSeenLineIndex) s
      rw [List.length_drop] at hcount
      rw [readStep, emitNewSessionLines_captured hs]
      generalize emitLines loads str ((splitLines (earlier ++ appended.take seen)).drop s.lastSeenLineIndex) s = pass at hcount ⊢
      have hrest := ih pass.1 (hcount.2.2.trans hs)
      dsimp only at hrest ⊢
      rw [List.length_append]
      omega

theorem mem_readAll {reads : List (Read × ℕ)} {line : SessionLine}
    (h : line ∈ (readAll loads str resumed earlier appended reads s).2) :
    ∀ c ∈ line.line, isLineBreak c = false := by
  induction reads generalizing s with
  | nil => cases h
  | cons read reads ih =>
    obtain ⟨kind,seen⟩ := read
    rw [readAll] at h
    rcases List.mem_append.mp h with h | h
    · cases kind with
      | streamEvent =>
        rw [readStep] at h
        split at h <;> cases h
      | emit =>
        rw [readStep, emitNewSessionLines] at h
        split at h
        · exact unbroken_splitLines _ _ (List.mem_of_mem_drop (mem_emitLines h))
        · cases h
    · exact ih h

end Reads

section Runs
variable {loads : Text → Option Value} {str : Value → String} {resumed : Bool} {earlier : Text} {lines : List Text}

theorem Turn.whole (turn : Turn loads str) (h : ∀ line ∈ turn.lines, ∀ c ∈ line, isLineBreak c = false) :
    ∀ line ∈ turn.lines, Whole line := by
  intro line hline
  refine ⟨?_,h line hline⟩
  rintro rfl
  exact nomatch (turn.json [] hline).start

theorem emit_pass (hjson : ∀ line ∈ lines, JsonLine loads str line)
    (hwhole : ∀ line ∈ lines, Whole line) (hearlier : Terminated earlier) {k : ℕ}
    (hk : k ≤ visible lines m) (hs : s.captured = true)
    (hindex : s.lastSeenLineIndex = (splitLines earlier).length + k) :
    emitNewSessionLines loads str (earlier ++ (textOf lines).take m) s =
      let new := (lines.take (visible lines m)).drop k
      (⟨(splitLines earlier).length + visible lines m,true,flagAfter loads str s.isContinuation new⟩,
        expectedLines loads str s.isContinuation new) := by
  have hcurrent := (current_run_iff earlier).1.mpr hearlier
  have hpieces : splitLines earlier = (Scan.run {} earlier).complete := if_pos hcurrent
  obtain ⟨last,hlast,hpart⟩ := lines_take hwhole hcurrent m
  have hvisible : visible lines m ≤ lines.length := visible_le lines m
  have hlength : (lines.take (visible lines m)).length = visible lines m := by
    rw [List.length_take]
    omega
  have hnew : ∀ line ∈ (lines.take (visible lines m)).drop k, JsonLine loads str line :=
    fun line hline => hjson line (List.mem_of_mem_take (List.mem_of_mem_drop hline))
  have hdrop : (splitLines (earlier ++ (textOf lines).take m)).drop s.lastSeenLineIndex =
      (lines.take (visible lines m)).drop k ++ last := by
    rw [splitLines, Scan.run_append, hlast, hindex, ← hpieces, List.append_assoc, List.drop_length_add_append,
      List.drop_append_of_le_length (by omega)]
  rw [emitNewSessionLines_captured hs, hdrop, emitLines_append hnew]
  dsimp only
  rw [emitLines_last hjson hpart]
  dsimp only
  rw [List.length_drop, hlength, hindex, hs, List.append_nil, Nat.add_assoc, Nat.add_sub_cancel' hk]

theorem take_drop_append {α : Type} (xs : List α) {k l : ℕ} (hkl : k ≤ l) (hlm : l ≤ m) :
    (xs.take l).drop k ++ (xs.take m).drop l = (xs.take m).drop k := by
  have hsplit : xs.take m = xs.take l ++ (xs.take m).drop l := by
    have h := List.take_append_drop l (xs.take m)
    rwa [List.take_take, Nat.min_eq_left hlm, eq_comm] at h
  by_cases hl : l ≤ xs.length
  · conv_rhs => rw [hsplit, List.drop_append_of_le_length (by rw [List.length_take]; omega)]
  · have hnil : (xs.take m).drop l = [] := List.drop_eq_nil_of_le (by rw [List.length_take]; omega)
    rw [hnil, List.append_nil] at hsplit ⊢
    rw [hsplit]

/-- The passes of a turn, once the session is known: each goes on from where the last one ended. -/
theorem readAll_captured (hjson : ∀ line ∈ lines, JsonLine loads str line) (hwhole : ∀ line ∈ lines, Whole line)
    (hearlier : Terminated earlier) (reads : List (Read × ℕ)) :
    ∀ {k : ℕ} {s : ReaderState}, reads.Pairwise (fun a b => a.2 ≤ b.2) → (∀ read ∈ reads, k ≤ visible lines read.2) →
      s.captured = true → s.lastSeenLineIndex = (splitLines earlier).length + k →
      ∃ k', k ≤ k' ∧ (k' = k ∨ ∃ m, (.emit,m) ∈ reads ∧ k' = visible lines m) ∧ (∀ m, (.emit,m) ∈ reads → visible lines m ≤ k') ∧
        (readAll loads str resumed earlier (textOf lines) reads s).2 =
          expectedLines loads str s.isContinuation ((lines.take k').drop k) := by
  induction reads with
  | nil =>
    intro k s _ _ _ _
    refine ⟨k,le_rfl,.inl rfl,nofun,?_⟩
    rw [List.drop_eq_nil_of_le (by rw [List.length_take]; omega)]
    rfl
  | cons read reads ih =>
    intro k s hgrowing hk hs hindex
    obtain ⟨kind,m⟩ := read
    obtain ⟨hhead,htail⟩ := List.pairwise_cons.mp hgrowing
    rw [readAll]
    cases kind with
    | streamEvent =>
      obtain ⟨k',hkk',horigin,hemits,hsent⟩ := ih htail (fun read hread => hk read (List.mem_cons_of_mem _ hread)) hs hindex
      refine ⟨k',hkk',?_,?_,?_⟩
      · rcases horigin with hsame | ⟨n,hn,hvisible⟩
        · exact .inl hsame
        · exact .inr ⟨n,List.mem_cons_of_mem _ hn,hvisible⟩
      · intro n hn
        rcases List.mem_cons.mp hn with heq | hn
        · cases heq
        · exact hemits n hn
      · rw [readStep_captured hs]
        exact hsent
    | emit =>
      have hkm : k ≤ visible lines m := hk _ List.mem_cons_self
      obtain ⟨k',hkk',horigin,hemits,hsent⟩ := ih (k := visible lines m)
        (s := ⟨(splitLines earlier).length + visible lines m,true,
          flagAfter loads str s.isContinuation ((lines.take (visible lines m)).drop k)⟩) htail
        (fun read hread => visible_mono lines (hhead read hread)) rfl rfl
      refine ⟨k',hkm.trans hkk',.inr ?_,?_,?_⟩
      · rcases horigin with rfl | ⟨n,hn,hvisible⟩
        · exact ⟨m,List.mem_cons_self,rfl⟩
        · exact ⟨n,List.mem_cons_of_mem _ hn,hvisible⟩
      · intro n hn
        rcases List.mem_cons.mp hn with heq | hn
        · cases heq
          exact hkk'
        · exact hemits n hn
      · rw [readStep, emit_pass hjson hwhole hearlier hkm hs hindex]
        dsimp only at hsent ⊢
        rw [hsent, ← expectedLines_append, take_drop_append lines hkm hkk']

end Runs

section Stored
variable {loads : Text → Option Value}

theorem length_persistSessionLines (lines : List SessionLine) (persisted : List String) :
    (persistSessionLines loads lines persisted).length ≤ lines.length := by
  induction lines generalizing persisted with
  | nil => exact le_rfl
  | cons line lines ih =>
    rw [persistSessionLines]
    split
    · exact Nat.zero_le _
    · split
      · exact Nat.succ_le_succ (ih _)
      · split
        · exact (ih _).trans (Nat.le_succ _)
        · exact Nat.succ_le_succ (ih _)

/-- Every line is stored, if and only if no uuid comes twice. -/
theorem persistSessionLines_eq_iff {lines : List SessionLine} (hjson : ∀ line ∈ lines, (loads line.line).isSome)
    (persisted : List String) : persistSessionLines loads lines persisted = lines.map (entryOf loads) ↔
      ((lines.map SessionLine.line).filterMap (lineUuid loads)).Nodup ∧
        ∀ uuid ∈ (lines.map SessionLine.line).filterMap (lineUuid loads), uuid ∉ persisted := by
  induction lines generalizing persisted with
  | nil => simp [persistSessionLines]
  | cons line lines ih =>
    obtain ⟨content,hcontent⟩ := Option.isSome_iff_exists.mp (hjson line List.mem_cons_self)
    have ih := ih fun other hother => hjson other (List.mem_cons_of_mem _ hother)
    have hentry : entryOf loads line = ⟨content,line.internal⟩ := by rw [entryOf, hcontent]; rfl
    have hline : lineUuid loads line.line = uuidOf content := by rw [lineUuid, hcontent]; rfl
    rw [persistSessionLines, hcontent, List.map_cons, List.map_cons, List.filterMap_cons, hentry, hline]
    dsimp only
    cases huuid : uuidOf content with
    | none =>
      dsimp only
      rw [List.cons_inj_right, ih]
    | some uuid =>
      dsimp only
      by_cases hmem : uuid ∈ persisted
      · rw [if_pos hmem]
        constructor
        · intro heq
          have hlength : (persistSessionLines loads lines persisted).length ≤ lines.length := length_persistSessionLines ..
          have hcount := congrArg List.length heq
          rw [List.length_cons, List.length_map] at hcount
          omega
        · exact fun h => absurd hmem (h.2 uuid List.mem_cons_self)
      · rw [if_neg hmem, List.cons_inj_right, ih, List.nodup_cons]
        constructor
        · rintro ⟨hnodup,hfresh⟩
          refine ⟨⟨fun hin => hfresh uuid hin List.mem_cons_self,hnodup⟩,?_⟩
          intro other hother
          rcases List.mem_cons.mp hother with rfl | hother
          · exact hmem
          · exact fun hin => hfresh other hother (List.mem_cons_of_mem _ hin)
        · rintro ⟨⟨hnot,hnodup⟩,hfresh⟩
          refine ⟨hnodup,?_⟩
          intro other hother hin
          rcases List.mem_cons.mp hin with rfl | hin
          · exact hnot hother
          · exact hfresh other (List.mem_cons_of_mem _ hother) hin

end Stored

namespace Turn
variable {loads : Text → Option Value} {str : Value → String} (turn : Turn loads str)

theorem expected_nil (h : turn.lines = []) : turn.expected = [] := by rw [expected, h]; rfl

theorem sent_uncaptured (h : turn.reads.find? (·.1 = .streamEvent) = none) : turn.sent = [] := by
  have hreads : ∀ read ∈ turn.reads, read.1 ≠ .streamEvent :=
    fun read hread heq => List.find?_eq_none.mp h read hread (decide_eq_true heq)
  rw [sent, readAll_uncaptured hreads rfl]

/-- Where the reader starts, when the first stream event finds `m` characters of the turn. -/
def startIndex (m : ℕ) : ℕ :=
  if turn.resumed then (splitLines (turn.earlier ++ (textOf turn.lines).take m)).length else 0

theorem sent_captured (h : turn.reads.find? (·.1 = .streamEvent) = some (.streamEvent,m)) :
    ∃ before after, turn.reads = before ++ (.streamEvent,m) :: after ∧
      turn.sent = (readAll loads str turn.resumed turn.earlier (textOf turn.lines) after
        ⟨turn.startIndex m,true,turn.continuation⟩).2 := by
  obtain ⟨-,before,after,hreads,hbefore⟩ := List.find?_eq_some_iff_append.mp h
  refine ⟨before,after,hreads,?_⟩
  have hnone : ∀ read ∈ before, read.1 ≠ .streamEvent := by
    intro read hread heq
    have := hbefore read hread
    rw [heq] at this
    exact absurd this (by decide)
  rw [sent, hreads, readAll_append, readAll_uncaptured hnone rfl]
  rfl

theorem startIndex_clean (hclean : turn.resumed = true → m = 0 ∧ Terminated turn.earlier) :
    turn.startIndex m = (splitLines turn.earlier).length ∧ Terminated turn.earlier := by
  unfold startIndex
  cases hresumed : turn.resumed with
  | false =>
    rw [turn.fresh hresumed]
    exact ⟨rfl,nofun⟩
  | true =>
    obtain ⟨rfl,hterminated⟩ := hclean hresumed
    rw [List.take_zero, List.append_nil]
    exact ⟨if_pos rfl,hterminated⟩

theorem length_sent (h : turn.reads.find? (·.1 = .streamEvent) = some (.streamEvent,m)) :
    turn.sent.length + turn.startIndex m ≤
      max (turn.startIndex m) (splitLines (turn.earlier ++ textOf turn.lines)).length := by
  obtain ⟨before,after,-,hsent⟩ := turn.sent_captured h
  rw [hsent]
  have hcount := readAll_count loads str turn.resumed turn.earlier (textOf turn.lines) after
    ⟨turn.startIndex m,true,turn.continuation⟩ rfl
  dsimp only at hcount
  omega

theorem clean_sent (h : turn.Clean) : turn.sent = turn.expected := by
  obtain ⟨m,hfind,hresumed⟩ := h.captured
  obtain ⟨before,after,hreads,hsent⟩ := turn.sent_captured hfind
  obtain ⟨hindex,hearlier⟩ := turn.startIndex_clean hresumed
  have hwhole := turn.whole h.unbroken
  have hafter : after ≠ [] := by
    rintro rfl
    have hlast := turn.complete
    rw [hreads, List.getLast?_append_of_ne_nil _ (by simp)] at hlast
    cases hlast
  have hlast : (.emit,(textOf turn.lines).length) ∈ after := by
    have hcomplete := turn.complete
    rw [hreads, List.getLast?_append_of_ne_nil _ (by simp), List.getLast?_cons_of_ne_nil hafter] at hcomplete
    exact List.mem_of_getLast? hcomplete
  have hgrowing : after.Pairwise fun a b => a.2 ≤ b.2 := by
    have hsorted := turn.growing
    rw [hreads] at hsorted
    exact (List.pairwise_cons.mp (List.pairwise_append.mp hsorted).2.1).2
  obtain ⟨k,-,horigin,hemits,hlines⟩ := readAll_captured turn.json hwhole hearlier after
    (s := ⟨turn.startIndex m,true,turn.continuation⟩) hgrowing (fun _ _ => Nat.zero_le _) rfl hindex
  have hk : k = turn.lines.length := by
    apply le_antisymm
    · rcases horigin with rfl | ⟨n,-,rfl⟩
      · exact Nat.zero_le _
      · exact visible_le _ _
    · rw [← visible_full turn.lines]
      exact hemits _ hlast
  rw [hsent, hlines, hk, List.drop_zero, List.take_length]
  rfl

theorem sent_unbroken (h : turn.sent = turn.expected) : ∀ line ∈ turn.lines, ∀ c ∈ line, isLineBreak c = false := by
  intro line hline
  rw [← expectedLines_line turn.lines turn.continuation] at hline
  obtain ⟨sentLine,hmem,rfl⟩ := List.mem_map.mp hline
  have hsent : sentLine ∈ turn.sent := by
    rw [h]
    exact hmem
  exact mem_readAll hsent

/-- A resumed turn whose lines are all sent starts with nothing appended, after a text that is terminated. -/
theorem sent_start (h : turn.sent = turn.expected) (hne : turn.lines ≠ [])
    (hfind : turn.reads.find? (·.1 = .streamEvent) = some (.streamEvent,m))
    (hresumed : turn.resumed = true) : m = 0 ∧ Terminated turn.earlier := by
  have hwhole := turn.whole (turn.sent_unbroken h)
  have hpos := List.length_pos_of_ne_nil hne
  have hlength : turn.sent.length = turn.lines.length := by rw [h]; exact expectedLines_length ..
  have hcount := turn.length_sent hfind
  have hstart : turn.startIndex m = (splitLines (turn.earlier ++ (textOf turn.lines).take m)).length := if_pos hresumed
  have hle := length_splitLines_append turn.earlier ((textOf turn.lines).take m)
  have hcurrent : (Scan.run {} turn.earlier).current = [] := by
    by_contra hopen
    have hglued := length_lines_glued hwhole hne hopen
    rw [← Scan.run_append] at hglued
    change (splitLines (turn.earlier ++ textOf turn.lines)).length+1 = (splitLines turn.earlier).length + _ at hglued
    omega
  refine ⟨?_,(current_run_iff turn.earlier).1.mp hcurrent⟩
  by_contra hm
  have hfull : splitLines (turn.earlier ++ textOf turn.lines) = splitLines turn.earlier ++ turn.lines := by
    have hpieces : splitLines turn.earlier = (Scan.run {} turn.earlier).complete := if_pos hcurrent
    rw [splitLines, Scan.run_append, lines_textOf hwhole hcurrent, hpieces]
  have hmore : (splitLines turn.earlier).length < (splitLines (turn.earlier ++ (textOf turn.lines).take m)).length := by
    obtain ⟨line,lines,hlines⟩ := List.exists_cons_of_ne_nil hne
    have hline := hwhole line (by rw [hlines]; exact List.mem_cons_self)
    obtain ⟨c,rest,rfl⟩ := List.exists_cons_of_ne_nil hline.1
    obtain ⟨m,rfl⟩ := Nat.exists_eq_succ_of_ne_zero hm
    have htake : (textOf turn.lines).take (m+1) = c :: (rest ++ ['\n'] ++ textOf lines).take m := by
      rw [hlines]
      rfl
    rw [htake, splitLines, splitLines, Scan.run_append]
    exact Scan.length_lines_run_cons hcurrent (hline.2 c List.mem_cons_self) _
  rw [hfull, List.length_append] at hcount
  omega

theorem sent_nil (h : turn.lines = []) : turn.sent = [] := by
  cases hfind : turn.reads.find? (·.1 = .streamEvent) with
  | none => exact turn.sent_uncaptured hfind
  | some read =>
    obtain ⟨kind,m⟩ := read
    have hdecide := List.find?_some hfind
    have hkind : kind = .streamEvent := of_decide_eq_true hdecide
    subst hkind
    have hcount := turn.length_sent hfind
    have htext : textOf turn.lines = [] := by rw [h]; rfl
    have hstart : turn.startIndex m = (splitLines turn.earlier).length := by
      cases hresumed : turn.resumed with
      | false =>
        rw [turn.fresh hresumed]
        exact if_neg (by rw [hresumed]; decide)
      | true =>
        rw [startIndex, if_pos hresumed, htext, List.take_nil, List.append_nil]
    rw [htext, List.append_nil, hstart, max_self] at hcount
    exact List.eq_nil_of_length_eq_zero (by omega)

theorem stored_iff (h : turn.sent = turn.expected) : turn.stored = turn.expected.map (entryOf loads) ↔
    (turn.lines.filterMap (lineUuid loads)).Nodup := by
  have hjson : ∀ line ∈ turn.expected, (loads line.line).isSome := by
    intro line hline
    have hmem : line.line ∈ turn.lines := by
      rw [← expectedLines_line turn.lines turn.continuation]
      exact List.mem_map_of_mem hline
    have hobject := (turn.json _ hmem).object
    unfold lineInfo at hobject
    cases hloads : loads line.line with
    | none =>
      rw [hloads] at hobject
      cases hobject
    | some content => rfl
  have hlines : turn.expected.map SessionLine.line = turn.lines := expectedLines_line ..
  rw [stored, h, persistSessionLines_eq_iff hjson, hlines]
  exact and_iff_left (fun _ _ => List.not_mem_nil)

/-- Every line of the turn is sent and stored once, if and only if there is none or the turn is clean. -/
theorem sentOnce_iff : turn.SentOnce ↔ turn.lines = [] ∨ turn.Clean := by
  constructor
  · rintro ⟨hsent,hstored⟩
    by_cases hne : turn.lines = []
    · exact .inl hne
    · refine .inr ⟨turn.sent_unbroken hsent,?_,(turn.stored_iff hsent).mp hstored⟩
      cases hfind : turn.reads.find? (·.1 = .streamEvent) with
      | none =>
        rw [turn.sent_uncaptured hfind] at hsent
        have hlength : turn.expected.length = turn.lines.length := expectedLines_length ..
        rw [← hsent] at hlength
        exact absurd (List.eq_nil_of_length_eq_zero hlength.symm) hne
      | some read =>
        obtain ⟨kind,m⟩ := read
        have hdecide := List.find?_some hfind
        have hkind : kind = .streamEvent := of_decide_eq_true hdecide
        subst hkind
        exact ⟨m,rfl,turn.sent_start hsent hne hfind⟩
  · rintro (hnil | hclean)
    · have hsent : turn.sent = turn.expected := by rw [turn.sent_nil hnil, turn.expected_nil hnil]
      refine ⟨hsent,(turn.stored_iff hsent).mpr ?_⟩
      rw [hnil]
      exact List.nodup_nil
    · have hsent := turn.clean_sent hclean
      exact ⟨hsent,(turn.stored_iff hsent).mpr hclean.uuids⟩

end Turn

def separatedLine : Text := "\x7b\"type\": \"user\", \"message\": \x7b\"content\": \"one\u2028two\"\x7d\x7d".toList

/-- `json.loads` of that line. -/
def separatedLoads (text : Text) : Option Value :=
  if text = separatedLine then
    some (.dict [("type",.str "user"),("message",.dict [("content",.str "one\u2028two")])])
  else none

/-- A new session, whose only line holds a line separator in a string. -/
def separatedTurn : Turn separatedLoads (fun _ => "") where
  earlier := []
  resumed := false
  continuation := false
  lines := [separatedLine]
  reads := [(.streamEvent,0),(.emit,(textOf [separatedLine]).length)]
  fresh _ := rfl
  json := by
    intro line hline
    rw [List.mem_singleton.mp hline]
    refine ⟨rfl,?_,by decide,by decide,fun p hp => if_neg hp.2.1⟩
    intro lineData uuid hloads huuid
    cases hloads
    cases huuid
  growing := by simp
  complete := rfl

/-- That line is never sent. -/
theorem separatedTurn_lost :
    ¬ ∀ (loads : Text → Option Value) (str : Value → String) (turn : Turn loads str), turn.SentOnce := by
  intro h
  have hunbroken := separatedTurn.sent_unbroken (h _ _ separatedTurn).1
  have hbreak := hunbroken separatedLine List.mem_cons_self '\u2028' (by decide)
  exact absurd hbreak (by decide)

end SessionFile
end Allama
