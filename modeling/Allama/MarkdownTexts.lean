import Allama.Checked
import Allama.HtmlTexts
import Allama.RecordFields
import Allama.WordCuts

/-! Tables that are written as Markdown and read again. -/
namespace Allama
namespace TableTexts
section Pieces

-- both read a backslash with the character after it
attribute [local simp] pieces openEscape

theorem pieces_escape (c : Char) (s : Text) :
    pieces ('\\' :: c :: s) = glue (if c = '|' then ['|'] else ['\\',c]) (pieces s) := by
  rw [pieces]

theorem pieces_pipe (s : Text) : pieces ('|' :: s) = [] :: pieces s := by
  rw [pieces]

theorem pieces_other {c : Char} (hpipe : c ≠ '|') (hback : c ≠ '\\') (s : Text) : pieces (c :: s) = glue [c] (pieces s) := by
  rw [pieces]
  · rintro _ _ rfl
    exact absurd rfl hback
  · rintro rfl
    exact absurd rfl hpipe

def firstPiece (s : Text) : Text := (pieces s).headD []

theorem headD_glue (u : Text) (ps : List Text) : (glue u ps).headD [] = u ++ ps.headD [] := by
  cases ps with
  | nil => exact (List.append_nil u).symm
  | cons p ps => rfl

def IsClosed (w : Text) : Prop := '|' ∉ w ∧ openEscape w = false

theorem pieces_closed {w : Text} (h : IsClosed w) (s : Text) : pieces (w ++ '|' :: s) = w :: pieces s := by
  obtain ⟨hpipe,hopen⟩ := h
  induction w using openEscape.induct with
  | case1 => exact pieces_pipe s
  | case2 => cases hopen
  | case3 c w ih =>
    rw [List.mem_cons, List.mem_cons, not_or, not_or] at hpipe
    have hc : ¬ c = '|' := fun hc => hpipe.2.1 hc.symm
    have hrest := ih hpipe.2.2 (by rwa [openEscape] at hopen)
    rw [List.cons_append, List.cons_append, pieces_escape, hrest, if_neg hc]
    rfl
  | case4 c w hlone hpair ih =>
    rw [List.mem_cons, not_or] at hpipe
    have hback : c ≠ '\\' := by
      rintro rfl
      cases w with
      | nil => exact hlone rfl rfl
      | cons d w => exact hpair d w rfl rfl
    have hrest := ih hpipe.2 (by rwa [openEscape] at hopen <;> assumption)
    rw [List.cons_append, pieces_other (fun hc => hpipe.1 hc.symm) hback, hrest]
    rfl

theorem firstPiece_of_not_closed {w : Text} (h : ¬ IsClosed w) (s : Text) :
    ∃ u, (∃ z, w = u ++ '|' :: z ∧ firstPiece (w ++ '|' :: s) = u) ∨
      ∃ y z, w = u ++ '\\' :: z ∧ firstPiece (w ++ '|' :: s) = u ++ '|' :: y := by
  unfold firstPiece
  induction w using openEscape.induct with
  | case1 => exact absurd ⟨List.not_mem_nil,rfl⟩ h
  | case2 =>
    refine ⟨[],.inr ⟨(pieces s).headD [],[],rfl,?_⟩⟩
    rw [List.singleton_append, pieces_escape, headD_glue]
    rfl
  | case3 c w ih =>
    rw [List.cons_append, List.cons_append, pieces_escape, headD_glue]
    by_cases hc : c = '|'
    · rw [if_pos hc]
      exact ⟨[],.inr ⟨_,c :: w,rfl,rfl⟩⟩
    · rw [if_neg hc]
      have hw : ¬ IsClosed w := by
        rintro ⟨hpipe,hopen⟩
        refine h ⟨?_,by rwa [openEscape]⟩
        rw [List.mem_cons, List.mem_cons, not_or, not_or]
        exact ⟨by decide,fun he => hc he.symm,hpipe⟩
      obtain ⟨u,⟨z,hz,hfirst⟩ | ⟨y,z,hz,hfirst⟩⟩ := ih hw
      · exact ⟨'\\' :: c :: u,.inl ⟨z,by rw [hz]; rfl,by rw [hfirst]; rfl⟩⟩
      · exact ⟨'\\' :: c :: u,.inr ⟨y,z,by rw [hz]; rfl,by rw [hfirst]; rfl⟩⟩
  | case4 c w hlone hpair ih =>
    have hback : c ≠ '\\' := by
      rintro rfl
      cases w with
      | nil => exact hlone rfl rfl
      | cons d w => exact hpair d w rfl rfl
    by_cases hc : c = '|'
    · rw [hc, List.cons_append, pieces_pipe]
      exact ⟨[],.inl ⟨w,rfl,rfl⟩⟩
    · rw [List.cons_append, pieces_other hc hback, headD_glue]
      have hw : ¬ IsClosed w := by
        rintro ⟨hpipe,hopen⟩
        refine h ⟨?_,by rwa [openEscape] <;> assumption⟩
        rw [List.mem_cons, not_or]
        exact ⟨fun he => hc he.symm,hpipe⟩
      obtain ⟨u,⟨z,hz,hfirst⟩ | ⟨y,z,hz,hfirst⟩⟩ := ih hw
      · exact ⟨c :: u,.inl ⟨z,by rw [hz]; rfl,by rw [hfirst]; rfl⟩⟩
      · exact ⟨c :: u,.inr ⟨y,z,by rw [hz]; rfl,by rw [hfirst]; rfl⟩⟩

theorem trimPad_eq (s : Text) : trimPad s = WordCuts.trim isPad s := rfl

theorem trimPad_trimPad (s : Text) : trimPad (trimPad s) = trimPad s := WordCuts.trim_trim isPad s

theorem length_trimPad_le (s : Text) : (trimPad s).length ≤ s.length := by
  obtain ⟨u,v,hs,_,_⟩ := WordCuts.exists_trim isPad s
  have hlen := congrArg List.length hs
  rw [List.length_append, List.length_append, ← trimPad_eq] at hlen
  omega

theorem not_isPad_of_trimmed {c : Char} {s : Text} (h : trimPad (c :: s) = c :: s) : isPad c = false := by
  by_contra hc
  rw [Bool.not_eq_false] at hc
  have hdrop : trimPad (c :: s) = trimPad s := by
    have hall : ∀ a ∈ [c], isPad a = true := fun a ha => by rwa [List.mem_singleton.mp ha]
    exact WordCuts.trim_append_left hall s
  have hle := length_trimPad_le s
  rw [← hdrop, h, List.length_cons] at hle
  omega

theorem trimPad_firstPiece_iff (w s : Text) :
    trimPad (firstPiece (w ++ '|' :: s)) = w ↔ IsClosed w ∧ trimPad w = w := by
  constructor
  · intro hread
    have htrimmed : trimPad w = w := by
      have hidem := trimPad_trimPad (firstPiece (w ++ '|' :: s))
      rwa [hread] at hidem
    refine ⟨?_,htrimmed⟩
    by_contra hclosed
    obtain ⟨u,⟨z,hw,hfirst⟩ | ⟨y,z,hw,hfirst⟩⟩ := firstPiece_of_not_closed hclosed s
    · -- what is read is shorter than the text
      have hle := length_trimPad_le u
      rw [← hfirst, hread, hfirst] at hle
      have hlen := congrArg List.length hw
      rw [List.length_append, List.length_cons] at hlen
      omega
    · -- a pipe is read where the text has a backslash, and nothing before it can be trimmed away
      obtain ⟨a,b,hsplit,ha,_⟩ := WordCuts.exists_trim isPad (firstPiece (w ++ '|' :: s))
      rw [← trimPad_eq, hread, hfirst] at hsplit
      cases a with
      | nil =>
        rw [List.nil_append, hw, List.append_assoc] at hsplit
        have hchar := (List.cons.inj (List.append_cancel_left hsplit)).1
        cases hchar
      | cons p a =>
        have hp : isPad p = true := ha p List.mem_cons_self
        cases u with
        | nil =>
          have hchar : '|' = p := (List.cons.inj hsplit).1
          rw [← hchar] at hp
          cases hp
        | cons c u =>
          have hchar : c = p := (List.cons.inj hsplit).1
          rw [hw, List.cons_append] at htrimmed
          rw [← hchar, not_isPad_of_trimmed htrimmed] at hp
          cases hp
  · rintro ⟨hclosed,htrimmed⟩
    rw [firstPiece, pieces_closed hclosed]
    exact htrimmed

end Pieces

section Rows

theorem fit_cons (n : ℕ) (cells : List Text) : fit (n+1) cells = cells.headD [] :: fit n cells.tail := by
  cases cells <;> rfl

theorem fit_append_nil (n : ℕ) (cells : List Text) : fit n (cells ++ [[]]) = fit n cells := by
  induction n generalizing cells with
  | zero => rfl
  | succ n ih =>
    cases cells with
    | nil =>
      have hnil : fit n [] = fit n [] := rfl
      exact congrArg ([] :: ·) hnil
    | cons cell cells => exact congrArg (cell :: ·) (ih cells)

theorem fit_length (cells : List Text) : fit cells.length cells = cells := by
  induction cells with
  | nil => rfl
  | cons cell cells ih => exact congrArg (cell :: ·) ih

def afterPipe (parts : List Text) : Text := parts.flatMap (· ++ ['|'])

theorem afterPipe_cons (part : Text) (parts : List Text) : afterPipe (part :: parts) = part ++ '|' :: afterPipe parts := by
  rw [afterPipe, List.flatMap_cons, List.append_assoc]
  rfl

theorem pipeRow_eq {parts : List Text} (hne : parts ≠ []) : pipeRow parts = '|' :: afterPipe parts := by
  have hjoin : ∀ (part : Text) (parts : List Text), join ['|'] (part :: parts) ++ ['|'] = afterPipe (part :: parts) := by
    intro part parts
    induction parts generalizing part with
    | nil =>
      rw [join_singleton, afterPipe_cons]
      rfl
    | cons part' parts ih =>
      rw [join_cons_cons, List.append_assoc, List.append_assoc, ih, afterPipe_cons part]
      rfl
  cases parts with
  | nil => exact absurd rfl hne
  | cons part parts =>
    rw [pipeRow, List.append_assoc, hjoin]
    rfl

def dropBlank (cells : List Text) : List Text := if cells.getLast? = some [] then cells.dropLast else cells

theorem fit_dropBlank (n : ℕ) (cells : List Text) : fit n (dropBlank cells) = fit n cells := by
  unfold dropBlank
  split
  · rename_i hlast
    obtain ⟨init,rfl⟩ := List.getLast?_eq_some_iff.mp hlast
    rw [List.dropLast_concat, fit_append_nil]
  · rfl

theorem rowCells_pipe (s : Text) : rowCells ('|' :: s) = dropBlank ((pieces s).map trimPad) := by
  rw [rowCells, pieces_pipe, List.map_cons]
  have hhead : (trimPad [] :: (pieces s).map trimPad).head? = some [] := rfl
  simp only [hhead, List.tail_cons, if_pos]
  rfl

theorem pieces_afterPipe {parts : List Text} (h : ∀ w ∈ parts, IsClosed w) : pieces (afterPipe parts) = parts ++ [[]] := by
  induction parts with
  | nil => rfl
  | cons w parts ih =>
    rw [afterPipe_cons, pieces_closed (h w List.mem_cons_self), ih fun v hv => h v (List.mem_cons_of_mem w hv)]
    rfl

theorem rowCells_pipeRow {parts : List Text} (hne : parts ≠ []) (h : ∀ w ∈ parts, IsClosed w ∧ trimPad w = w) :
    rowCells (pipeRow parts) = parts := by
  have htrim : parts.map trimPad = parts := by
    calc parts.map trimPad = parts.map id := List.map_congr_left fun w hw => (h w hw).2
      _ = parts := List.map_id parts
  rw [pipeRow_eq hne, rowCells_pipe, pieces_afterPipe fun w hw => (h w hw).1, List.map_append, htrim]
  have hlast : (parts ++ [[]].map trimPad).getLast? = some [] := List.getLast?_concat
  rw [dropBlank, if_pos hlast]
  exact List.dropLast_concat

theorem forall₂_fit_iff {A : Type} {w : A → Text} {R : A → Text → Prop} {G : A → Prop}
    (hread : ∀ a s, R a (trimPad (firstPiece (w a ++ '|' :: s))) ↔ G a) (hclosed : ∀ a, G a → IsClosed (w a)) (l : List A) :
    List.Forall₂ R l (fit l.length ((pieces (afterPipe (l.map w))).map trimPad)) ↔ ∀ a ∈ l, G a := by
  induction l with
  | nil =>
    refine ⟨fun _ a ha => (by cases ha),fun _ => ?_⟩
    exact List.Forall₂.nil
  | cons a l ih =>
    have hhead : ∀ ps : List Text, (ps.map trimPad).headD [] = trimPad (ps.headD []) := by
      intro ps
      cases ps <;> rfl
    rw [List.map_cons, afterPipe_cons, List.length_cons, fit_cons, List.forall₂_cons, hhead, List.forall_mem_cons]
    change R a (trimPad (firstPiece _)) ∧ _ ↔ _
    rw [hread]
    apply and_congr_right
    intro ha
    rw [pieces_closed (hclosed a ha), List.map_cons, List.tail_cons]
    exact ih

theorem fit_rowCells {parts : List Text} (hne : parts ≠ []) (n : ℕ) :
    fit n (rowCells (pipeRow parts)) = fit n ((pieces (afterPipe parts)).map trimPad) := by
  rw [pipeRow_eq hne, rowCells_pipe, fit_dropBlank]

theorem rowCells_eq_iff {parts : List Text} (hne : parts ≠ []) :
    rowCells (pipeRow parts) = parts ↔ ∀ w ∈ parts, IsClosed w ∧ trimPad w = w := by
  constructor
  · intro hread
    have hfit : fit parts.length ((pieces (afterPipe (parts.map id))).map trimPad) = parts := by
      rw [List.map_id, ← fit_rowCells hne, hread, fit_length]
    have hall := (@forall₂_fit_iff Text id (fun w cell => cell = w) (fun w => IsClosed w ∧ trimPad w = w)
      trimPad_firstPiece_iff (fun _ h => h.1) parts).mp
    rw [hfit] at hall
    exact hall (List.forall₂_same.mpr fun _ _ => rfl)
  · exact rowCells_pipeRow hne

end Rows

section Lines

-- a carriage return and a newline end one line
attribute [local simp] textLines

def IsOneLine (s : Text) : Prop := '\n' ∉ s ∧ '\r' ∉ s

theorem IsOneLine.append {s t : Text} (hs : IsOneLine s) (ht : IsOneLine t) : IsOneLine (s ++ t) := by
  refine ⟨?_,?_⟩
  · rw [List.mem_append, not_or]
    exact ⟨hs.1,ht.1⟩
  · rw [List.mem_append, not_or]
    exact ⟨hs.2,ht.2⟩

theorem mem_glue {u line : Text} {ps : List Text} (h : line ∈ glue u ps) : line = u ∨ (∃ p ∈ ps, line = u ++ p) ∨ line ∈ ps := by
  cases ps with
  | nil => exact .inl (List.mem_singleton.mp h)
  | cons p ps =>
    rcases List.mem_cons.mp h with rfl | h
    · exact .inr (.inl ⟨p,List.mem_cons_self,rfl⟩)
    · exact .inr (.inr (List.mem_cons_of_mem p h))

theorem isOneLine_of_mem_textLines {s line : Text} (h : line ∈ textLines s) : IsOneLine line := by
  have hnil : IsOneLine [] := ⟨List.not_mem_nil,List.not_mem_nil⟩
  induction s using textLines.induct generalizing line with
  | case1 =>
    rw [textLines, List.mem_singleton] at h
    rw [h]
    exact hnil
  | case2 s ih =>
    rw [textLines, List.mem_cons] at h
    rcases h with rfl | h
    · exact hnil
    · exact ih h
  | case3 c s hpair hc ih =>
    rw [textLines, if_pos hc, List.mem_cons] at h
    · rcases h with rfl | h
      · exact hnil
      · exact ih h
    · exact hpair
  | case4 c s hpair hc ih =>
    rw [textLines, if_neg hc] at h
    · have hchar : IsOneLine [c] := by
        rw [not_or] at hc
        exact ⟨fun hm => hc.1 (List.mem_singleton.mp hm).symm,fun hm => hc.2 (List.mem_singleton.mp hm).symm⟩
      rcases mem_glue h with rfl | ⟨p,hp,rfl⟩ | hp
      · exact hchar
      · exact hchar.append (ih hp)
      · exact ih hp
    · exact hpair

theorem textLines_ne_nil (s : Text) : textLines s ≠ [] := by
  induction s using textLines.induct with
  | case1 => exact List.cons_ne_nil _ _
  | case2 s => exact List.cons_ne_nil _ _
  | case3 c s hpair hc =>
    rw [textLines, if_pos hc]
    · exact List.cons_ne_nil _ _
    · exact hpair
  | case4 c s hpair hc =>
    rw [textLines, if_neg hc]
    · cases textLines s <;> exact List.cons_ne_nil _ _
    · exact hpair

theorem textLines_newline (s : Text) : textLines ('\n' :: s) = [] :: textLines s := by
  rw [textLines, if_pos (.inl rfl)]
  intro _ h
  cases h

theorem textLines_cons {c : Char} (hn : c ≠ '\n') (hr : c ≠ '\r') (s : Text) : textLines (c :: s) = glue [c] (textLines s) := by
  rw [textLines, if_neg (not_or.mpr ⟨hn,hr⟩)]
  intro _ h
  exact absurd h hr

theorem glue_append (u v : Text) (ps : List Text) (hne : ps ≠ []) : glue u (glue v ps) = glue (u ++ v) ps := by
  cases ps with
  | nil => exact absurd rfl hne
  | cons p ps =>
    rw [glue, glue, glue, List.append_assoc]

theorem textLines_append {a : Text} (ha : IsOneLine a) (s : Text) : textLines (a ++ s) = glue a (textLines s) := by
  induction a with
  | nil =>
    cases hs : textLines s with
    | nil => exact absurd hs (textLines_ne_nil s)
    | cons line lines => exact hs
  | cons c a ih =>
    obtain ⟨hn,hr⟩ := ha
    rw [List.mem_cons, not_or] at hn hr
    rw [List.cons_append, textLines_cons (fun h => hn.1 h.symm) (fun h => hr.1 h.symm), ih ⟨hn.2,hr.2⟩,
      glue_append _ _ _ (textLines_ne_nil s), List.singleton_append]

theorem textLines_join {lines : List Text} (hne : lines ≠ []) (h : ∀ line ∈ lines, IsOneLine line) :
    textLines (join ['\n'] lines) = lines := by
  induction lines with
  | nil => exact absurd rfl hne
  | cons line lines ih =>
    cases lines with
    | nil =>
      have hline := textLines_append (h line List.mem_cons_self) []
      rw [List.append_nil] at hline
      rw [join_singleton, hline]
      exact congrArg (fun l => [l]) (List.append_nil line)
    | cons line' lines =>
      rw [join_cons_cons, textLines_append (h line List.mem_cons_self), List.singleton_append, textLines_newline,
        ih (List.cons_ne_nil _ _) fun l hl => h l (List.mem_cons_of_mem line hl), glue, List.append_nil]

end Lines

section Contents

theorem mem_pieces {c : Char} {s piece : Text} (h : piece ∈ pieces s) (hc : c ∈ piece) : c ∈ s := by
  have hglue : ∀ {u : Text} {s : Text}, (∀ piece ∈ pieces s, c ∈ piece → c ∈ s) → ∀ piece ∈ glue u (pieces s), c ∈ piece →
      c ∈ u ∨ c ∈ s := by
    intro u s ih piece h hc
    rcases mem_glue h with rfl | ⟨p,hp,rfl⟩ | hp
    · exact .inl hc
    · exact (List.mem_append.mp hc).imp_right (ih p hp)
    · exact .inr (ih piece hp hc)
  induction s using pieces.induct generalizing piece with
  | case1 =>
    rw [pieces, List.mem_singleton] at h
    rwa [h] at hc
  | case2 d s ih =>
    rw [pieces_escape] at h
    rcases hglue (fun p hp hcp => ih hp hcp) piece h hc with hd | hs
    · split at hd
      · rename_i hpipe
        rw [hpipe, ← List.mem_singleton.mp hd]
        exact List.mem_cons_of_mem _ List.mem_cons_self
      · rcases List.mem_cons.mp hd with rfl | hd
        · exact List.mem_cons_self
        · exact List.mem_cons_of_mem _ (List.mem_cons.mpr (.inl (List.mem_singleton.mp hd)))
    · exact List.mem_cons_of_mem _ (List.mem_cons_of_mem _ hs)
  | case3 s ih =>
    rw [pieces_pipe, List.mem_cons] at h
    rcases h with rfl | h
    · cases hc
    · exact List.mem_cons_of_mem _ (ih h hc)
  | case4 d s hpair hpipe ih =>
    rw [pieces] at h
    · rcases hglue (fun p hp hcp => ih hp hcp) piece h hc with hd | hs
      · exact List.mem_cons.mpr (.inl (List.mem_singleton.mp hd))
      · exact List.mem_cons_of_mem _ hs
    · exact hpair
    · exact hpipe

theorem mem_trimPad {c : Char} {s : Text} (hc : c ∈ trimPad s) : c ∈ s := by
  obtain ⟨u,v,hs,_,_⟩ := WordCuts.exists_trim isPad s
  rw [hs]
  exact List.mem_append_right _ (List.mem_append_left _ hc)

theorem mem_rowCells {c : Char} {line cell : Text} (h : cell ∈ rowCells line) (hc : c ∈ cell) : c ∈ line := by
  have hcells : ∀ cell ∈ (pieces line).map trimPad, c ∈ cell → c ∈ line := by
    intro cell h hc
    obtain ⟨piece,hpiece,rfl⟩ := List.mem_map.mp h
    exact mem_pieces hpiece (mem_trimPad hc)
  have hdrop : ∀ {cells : List Text}, cell ∈ dropBlank cells → cell ∈ cells := by
    intro cells h
    unfold dropBlank at h
    split at h
    · exact List.mem_of_mem_dropLast h
    · exact h
  have hrow := hdrop h
  split at hrow
  · exact hcells cell (List.mem_of_mem_tail hrow) hc
  · exact hcells cell hrow hc

theorem mem_fit {n : ℕ} {cells : List Text} {cell : Text} (h : cell ∈ fit n cells) : cell = [] ∨ cell ∈ cells := by
  induction n generalizing cells with
  | zero => cases h
  | succ n ih =>
    cases cells with
    | nil =>
      rcases List.mem_cons.mp h with rfl | h
      · exact .inl rfl
      · exact ih h
    | cons d cells =>
      rcases List.mem_cons.mp h with rfl | h
      · exact .inr List.mem_cons_self
      · exact (ih h).imp_right (List.mem_cons_of_mem d)

theorem isOneLine_of_cell {line cell : Text} (hline : IsOneLine line) (h : cell ∈ rowCells line) : IsOneLine cell :=
  ⟨fun hc => hline.1 (mem_rowCells h hc),fun hc => hline.2 (mem_rowCells h hc)⟩

theorem isOneLine_pipeRow {parts : List Text} (hne : parts ≠ []) (h : ∀ w ∈ parts, IsOneLine w) : IsOneLine (pipeRow parts) := by
  have hpipe : IsOneLine ['|'] := ⟨by decide,by decide⟩
  have hafter : ∀ parts : List Text, (∀ w ∈ parts, IsOneLine w) → IsOneLine (afterPipe parts) := by
    intro parts h
    induction parts with
    | nil => exact ⟨List.not_mem_nil,List.not_mem_nil⟩
    | cons w parts ih =>
      rw [afterPipe_cons]
      exact (h w List.mem_cons_self).append (hpipe.append (ih fun v hv => h v (List.mem_cons_of_mem w hv)))
  rw [pipeRow_eq hne]
  exact hpipe.append (hafter parts h)

theorem not_blank_pipeRow {parts : List Text} (hne : parts ≠ []) : (!(trimPad (pipeRow parts)).isEmpty) = true := by
  have hmem : '|' ∈ trimPad (pipeRow parts) := by
    rw [pipeRow_eq hne]
    exact WordCuts.mem_trim List.mem_cons_self (by decide)
  rw [Bool.not_eq_true', List.isEmpty_eq_false_iff]
  exact List.ne_nil_of_mem hmem

theorem isPlain_iff {s : Text} : IsPlain s ↔ (IsClosed s ∧ trimPad s = s) ∧ IsOneLine s := by
  constructor
  · rintro ⟨hpipe,hn,hr,htrim,hopen⟩
    exact ⟨⟨⟨hpipe,hopen⟩,htrim⟩,hn,hr⟩
  · rintro ⟨⟨⟨hpipe,hopen⟩,htrim⟩,hn,hr⟩
    exact ⟨hpipe,hn,hr,htrim,hopen⟩

end Contents

section Tables
variable {V : Type} (toStr : V → Text)

def itemCells (x : List (Item V)) (item : Item V) : List Text := (headers x).map fun key => markdownCell toStr (item.get? key)

def bodyLines (x : List (Item V)) : List Text := x.map fun item => pipeRow (itemCells toStr x item)

def delimiterLine (x : List (Item V)) : Text := pipeRow ((headers x).map fun _ => ['-'])

variable {x : List (Item V)}

theorem itemCells_ne_nil (hne : headers x ≠ []) (item : Item V) : itemCells toStr x item ≠ [] := fun h => hne (List.map_eq_nil_iff.mp h)

theorem rowCells_delimiterLine (hne : headers x ≠ []) : rowCells (delimiterLine x) = (headers x).map fun _ => ['-'] := by
  refine rowCells_pipeRow (fun h => hne (List.map_eq_nil_iff.mp h)) ?_
  intro w hw
  obtain ⟨_,_,rfl⟩ := List.mem_map.mp hw
  exact ⟨⟨by decide,rfl⟩,by decide⟩

theorem textLines_formatMarkdown (hne : headers x ≠ []) (hheader : ∀ key ∈ headers x, IsOneLine key)
    (hcells : ∀ item ∈ x, ∀ w ∈ itemCells toStr x item, IsOneLine w) :
    textLines (formatMarkdown toStr x) = pipeRow (headers x) :: delimiterLine x :: bodyLines toStr x := by
  rw [formatMarkdown, if_neg hne]
  refine textLines_join (List.cons_ne_nil _ _) ?_
  intro line hline
  rcases List.mem_cons.mp hline with rfl | hline
  · exact isOneLine_pipeRow hne hheader
  · rcases List.mem_cons.mp hline with rfl | hline
    · refine isOneLine_pipeRow (fun h => hne (List.map_eq_nil_iff.mp h)) ?_
      intro w hw
      obtain ⟨_,_,rfl⟩ := List.mem_map.mp hw
      exact ⟨by decide,by decide⟩
    · obtain ⟨item,hitem,rfl⟩ := List.mem_map.mp hline
      exact isOneLine_pipeRow (itemCells_ne_nil toStr hne item) (hcells item hitem)

theorem readMarkdown_of_lines (hne : headers x ≠ [])
    (hlines : textLines (formatMarkdown toStr x) = pipeRow (headers x) :: delimiterLine x :: bodyLines toStr x)
    (hkeys : rowCells (pipeRow (headers x)) = headers x) : readMarkdown (formatMarkdown toStr x) =
    some (headers x,(bodyLines toStr x).map fun line => fit (headers x).length (rowCells line)) := by
  have hdelimiter := rowCells_delimiterLine hne
  have hbody : (bodyLines toStr x).takeWhile (fun line => !(trimPad line).isEmpty) = bodyLines toStr x := by
    apply List.takeWhile_eq_self_iff.mpr
    intro line hline
    obtain ⟨item,_,rfl⟩ := List.mem_map.mp hline
    exact not_blank_pipeRow (itemCells_ne_nil toStr hne item)
  have hrecognised : (rowCells (delimiterLine x)).length = (rowCells (pipeRow (headers x))).length ∧
      (rowCells (delimiterLine x)).all isDelimiterCell = true := by
    rw [hdelimiter, hkeys]
    refine ⟨List.length_map _,?_⟩
    rw [List.all_map]
    exact List.all_eq_true.mpr fun _ _ => rfl
  rw [readMarkdown, hlines]
  dsimp only
  rw [if_pos hrecognised, hbody, hkeys]

theorem readMarkdown_eq_some {s : Text} {keys : List Text} {rows : List (List Text)} (h : readMarkdown s = some (keys,rows)) :
    ∃ header delimiter body, textLines s = header :: delimiter :: body ∧ rowCells header = keys ∧
      ∀ row ∈ rows, ∃ line ∈ body, row = fit keys.length (rowCells line) := by
  unfold readMarkdown at h
  split at h
  · rename_i header delimiter body hlines
    split at h
    · obtain ⟨hkeys,hrows⟩ := Prod.mk.inj (Option.some.inj h)
      refine ⟨header,delimiter,body,hlines,hkeys,?_⟩
      intro row hrow
      rw [← hrows] at hrow
      obtain ⟨line,hline,rfl⟩ := List.mem_map.mp hrow
      exact ⟨line,List.takeWhile_subset _ hline,by rw [hkeys]⟩
    · cases h
  · cases h

def CellRead (item : Item V) (key cell : Text) : Prop := ∀ value, item.get? key = some value → cell = value.str toStr

/-- The value is not `None`, and nothing in its string form is taken for markup of the row. -/
def CellSafe (item : Item V) (key : Text) : Prop := ∀ value, item.get? key = some value →
  value ≠ .none ∧ IsClosed (value.str toStr) ∧ trimPad (value.str toStr) = value.str toStr

theorem cellRead_iff (item : Item V) (key s : Text) :
    CellRead toStr item key (trimPad (firstPiece (markdownCell toStr (item.get? key) ++ '|' :: s))) ↔ CellSafe toStr item key := by
  unfold CellRead CellSafe markdownCell
  cases item.get? key with
  | none => exact ⟨fun _ _ h => (by cases h),fun _ _ h => (by cases h)⟩
  | some value =>
    have hone : ∀ P : Cell V → Prop, (∀ v, some value = some v → P v) ↔ P value :=
      fun P => ⟨fun h => h value rfl,fun h v hv => Option.some.inj hv ▸ h⟩
    rw [hone, hone]
    by_cases hnone : value = .none
    · -- nothing is written for it
      rw [hnone]
      have hempty : trimPad (firstPiece (blankNone toStr (some .none) ++ '|' :: s)) = [] := by
        rw [blankNone, List.nil_append, firstPiece, pieces_pipe]
        rfl
      rw [hempty]
      exact ⟨fun h => (by cases h),fun h => absurd rfl h.1⟩
    · rw [(blankNone_eq_iff toStr value).mpr hnone, trimPad_firstPiece_iff]
      exact ⟨fun h => ⟨hnone,h⟩,fun h => h.2⟩

theorem isClosed_of_safe {item : Item V} {key : Text} (h : CellSafe toStr item key) :
    IsClosed (markdownCell toStr (item.get? key)) := by
  unfold CellSafe at h
  unfold markdownCell
  cases hvalue : item.get? key with
  | none => exact ⟨List.not_mem_nil,rfl⟩
  | some value =>
    obtain ⟨hnone,hclosed,_⟩ := h value hvalue
    rwa [(blankNone_eq_iff toStr value).mpr hnone]

theorem forall₂_rows_iff (hne : headers x ≠ []) : List.Forall₂ (fun item row => List.Forall₂ (CellRead toStr item) (headers x) row) x
    ((bodyLines toStr x).map fun line => fit (headers x).length (rowCells line)) ↔
    ∀ item ∈ x, ∀ key ∈ headers x, CellSafe toStr item key := by
  rw [bodyLines, List.map_map, List.forall₂_map_right_iff, List.forall₂_same]
  refine forall₂_congr fun item _ => ?_
  change List.Forall₂ _ _ (fit _ (rowCells (pipeRow (itemCells toStr x item)))) ↔ _
  rw [fit_rowCells (itemCells_ne_nil toStr hne item)]
  exact forall₂_fit_iff (cellRead_iff toStr item) (fun _ => isClosed_of_safe toStr) (headers x)

/-- What is read is faithful if and only if every key and every value stands for itself, and no value is `None`. -/
theorem markdown_faithful_iff (hne : headers x ≠ []) :
    Faithful toStr x (readMarkdown (formatMarkdown toStr x)) ↔ MarkdownPlain toStr x := by
  constructor
  · rintro ⟨rows,hread,hrows⟩
    obtain ⟨header,delimiter,body,htext,hkeys,hbody⟩ := readMarkdown_eq_some hread
    have hline : ∀ line ∈ header :: body, IsOneLine line := by
      intro line hmem
      apply isOneLine_of_mem_textLines (s := formatMarkdown toStr x)
      rw [htext]
      rcases List.mem_cons.mp hmem with rfl | hmem
      · exact List.mem_cons_self
      · exact List.mem_cons_of_mem _ (List.mem_cons_of_mem _ hmem)
    -- the keys and the values are cells of lines, so there is no line break in them
    have hheader : ∀ key ∈ headers x, IsOneLine key := by
      intro key hkey
      rw [← hkeys] at hkey
      exact isOneLine_of_cell (hline header List.mem_cons_self) hkey
    have hvalue : ∀ item ∈ x, ∀ key ∈ headers x, ∀ value, Item.get? item key = some value → IsOneLine (value.str toStr) := by
      intro item hitem key hkey value hget
      obtain ⟨row,hrow,hcells⟩ := Checked.exists_of_forall₂ hrows hitem
      obtain ⟨cell,hcell,hstr⟩ := Checked.exists_of_forall₂ hcells hkey
      obtain ⟨line,hmem,rfl⟩ := hbody row hrow
      rw [← hstr value hget]
      rcases mem_fit hcell with rfl | hcell
      · exact ⟨List.not_mem_nil,List.not_mem_nil⟩
      · exact isOneLine_of_cell (hline line (List.mem_cons_of_mem _ hmem)) hcell
    have hcells : ∀ item ∈ x, ∀ w ∈ itemCells toStr x item, IsOneLine w := by
      intro item hitem w hw
      obtain ⟨key,hkey,rfl⟩ := List.mem_map.mp hw
      unfold markdownCell
      cases hget : item.get? key with
      | none => exact ⟨List.not_mem_nil,List.not_mem_nil⟩
      | some value =>
        by_cases hnone : value = .none
        · rw [hnone]
          exact ⟨List.not_mem_nil,List.not_mem_nil⟩
        · rw [(blankNone_eq_iff toStr value).mpr hnone]
          exact hvalue item hitem key hkey value hget
    have hlines := textLines_formatMarkdown toStr hne hheader hcells
    have hself : rowCells (pipeRow (headers x)) = headers x := by
      have hfirst := (List.cons.inj (hlines.symm.trans htext)).1
      rw [hfirst, hkeys]
    have hparts := (rowCells_eq_iff hne).mp hself
    rw [readMarkdown_of_lines toStr hne hlines hself] at hread
    obtain ⟨-,rfl⟩ := Prod.mk.inj (Option.some.inj hread)
    have hsafe := (forall₂_rows_iff toStr hne).mp hrows
    refine ⟨fun key hkey => isPlain_iff.mpr ⟨hparts key hkey,hheader key hkey⟩,?_⟩
    intro item hitem key hkey value hget
    obtain ⟨hnone,hplain⟩ := hsafe item hitem key hkey value hget
    exact ⟨hnone,isPlain_iff.mpr ⟨hplain,hvalue item hitem key hkey value hget⟩⟩
  · rintro ⟨hkeys,hvalues⟩
    have hheader : ∀ key ∈ headers x, IsOneLine key := fun key hkey => (isPlain_iff.mp (hkeys key hkey)).2
    have hcells : ∀ item ∈ x, ∀ w ∈ itemCells toStr x item, IsOneLine w := by
      intro item hitem w hw
      obtain ⟨key,hkey,rfl⟩ := List.mem_map.mp hw
      unfold markdownCell
      cases hget : item.get? key with
      | none => exact ⟨List.not_mem_nil,List.not_mem_nil⟩
      | some value =>
        obtain ⟨hnone,hplain⟩ := hvalues item hitem key hkey value hget
        rw [(blankNone_eq_iff toStr value).mpr hnone]
        exact (isPlain_iff.mp hplain).2
    have hself := (rowCells_eq_iff hne).mpr fun key hkey => (isPlain_iff.mp (hkeys key hkey)).1
    refine ⟨_,readMarkdown_of_lines toStr hne (textLines_formatMarkdown toStr hne hheader hcells) hself,?_⟩
    apply (forall₂_rows_iff toStr hne).mpr
    intro item hitem key hkey value hget
    obtain ⟨hnone,hplain⟩ := hvalues item hitem key hkey value hget
    exact ⟨hnone,(isPlain_iff.mp hplain).1⟩

end Tables

section Formats
variable {V : Type} (toStr : V → Text) (formatXml : List (Item V) → Text)

theorem mem_headers {x : List (Item V)} {key : Text} : key ∈ headers x ↔ ∃ item ∈ x, key ∈ item.map Prod.fst := by
  rw [headers, Finset.mem_sort, List.mem_toFinset, List.mem_flatMap]

theorem headers_sorted (x : List (Item V)) : (headers x).SortedLT := Finset.sortedLT_sort _

/-- The tables are read back: that of HTML always, that of CSV if and only if no value is `None`, and that of Markdown if and
only if moreover every key and every string form stands for itself there. -/
theorem tables_iff {x : List (Item V)} (hkeys : ∃ item ∈ x, item ≠ []) :
    ((headers x).SortedLT ∧ ∀ key, key ∈ headers x ↔ ∃ item ∈ x, key ∈ item.map Prod.fst) ∧
    (Faithful toStr x (readMarkdown (tabulate toStr formatXml x .markdown)) ↔ MarkdownPlain toStr x) ∧
    Faithful toStr x (readHtml (tabulate toStr formatXml x .html)) ∧
    (Faithful toStr x (readCsv (tabulate toStr formatXml x .csv)) ↔ NoneFree x) := by
  obtain ⟨item,hitem,hitem'⟩ := hkeys
  have hx : x ≠ [] := List.ne_nil_of_mem hitem
  have hne : headers x ≠ [] := by
    cases item with
    | nil => exact absurd rfl hitem'
    | cons entry item => exact List.ne_nil_of_mem (mem_headers.mpr ⟨_,hitem,List.mem_map.mpr ⟨entry,List.mem_cons_self,rfl⟩⟩)
  exact ⟨⟨headers_sorted x,fun _ => mem_headers⟩,markdown_faithful_iff toStr hne,html_faithful toStr hx,
    csv_faithful_iff toStr hx hne⟩

/-- A table of one cell. -/
def oneCell (value : Cell Unit) : List (Item Unit) := [[("a".toList,value)]]

theorem mem_headers_oneCell (value : Cell Unit) : "a".toList ∈ headers (oneCell value) :=
  mem_headers.mpr ⟨_,List.mem_cons_self,List.mem_cons_self⟩

/-- Two rows, each without a key of the other. -/
def twoRows : List (Item Unit) :=
  [[("b".toList,.text "<b>, \"q\"".toList),("a".toList,.text "1".toList)],[("c".toList,.text "x\\y".toList)]]

theorem mem_of_mem_headers_twoRows {key : Text} (h : key ∈ headers twoRows) :
    key ∈ ["b".toList,"a".toList,"c".toList] := by
  obtain ⟨item,hitem,hkey⟩ := mem_headers.mp h
  exact List.mem_flatMap.mpr ⟨item,hitem,hkey⟩

theorem plain_of_get?_twoRows {item : Item Unit} (hitem : item ∈ twoRows) {key : Text} {value : Cell Unit}
    (h : Item.get? item key = some value) : value ≠ .none ∧ IsPlain (value.str fun _ => []) := by
  have hplain : ∀ item ∈ twoRows, ∀ entry ∈ item, entry.2 ≠ .none ∧ IsPlain (entry.2.str fun _ => []) := by decide
  exact hplain item hitem (key,value) (RecordFields.mem_of_lookup h)

theorem tables_iff_twoRows :
    Faithful (fun _ => []) twoRows (readMarkdown (tabulate (fun _ => []) (fun _ => []) twoRows .markdown)) ∧
    Faithful (fun _ => []) twoRows (readHtml (tabulate (fun _ => []) (fun _ => []) twoRows .html)) ∧
    Faithful (fun _ => []) twoRows (readCsv (tabulate (fun _ => []) (fun _ => []) twoRows .csv)) := by
  have hkeys : ∃ item ∈ twoRows, item ≠ [] := ⟨_,List.mem_cons_self,List.cons_ne_nil _ _⟩
  obtain ⟨-,hmarkdown,hhtml,hcsv⟩ := tables_iff (fun _ => []) (fun _ => []) hkeys
  refine ⟨hmarkdown.mpr ⟨?_,?_⟩,hhtml,hcsv.mpr ?_⟩
  · have hplain : ∀ key ∈ ["b".toList,"a".toList,"c".toList], IsPlain key := by decide
    exact fun key hkey => hplain key (mem_of_mem_headers_twoRows hkey)
  · exact fun item hitem key _ value => plain_of_get?_twoRows hitem
  · exact fun item hitem key _ hnone => (plain_of_get?_twoRows hitem hnone).1 rfl

/-- A pipe within a value, and in CSV the value `None`, are not read back. -/
theorem not_tables : ¬ Faithful (fun _ => []) (oneCell (.text "1|2".toList))
      (readMarkdown (tabulate (fun _ => []) (fun _ => []) (oneCell (.text "1|2".toList)) .markdown)) ∧
    ¬ Faithful (fun _ => []) (oneCell .none) (readCsv (tabulate (fun _ => []) (fun _ => []) (oneCell .none) .csv)) := by
  have hne : ∀ value, headers (oneCell value) ≠ [] := fun value => List.ne_nil_of_mem (mem_headers_oneCell value)
  refine ⟨fun h => ?_,fun h => ?_⟩
  · have hplain := ((markdown_faithful_iff (fun _ => []) (hne _)).mp h).2 _ List.mem_cons_self _ (mem_headers_oneCell _) _ rfl
    have hpipe : '|' ∈ (Cell.text "1|2".toList).str fun _ : Unit => [] := by decide
    exact hplain.2.1 hpipe
  · exact (csv_faithful_iff (fun _ => []) (List.cons_ne_nil _ _) (hne _)).mp h _ List.mem_cons_self _ (mem_headers_oneCell _) rfl

end Formats
end TableTexts
end Allama
