import Mathlib.Data.List.Infix
import Mathlib.Tactic.ByContra

/-! The lines of a text, at every line boundary of Unicode, and what they are of a text that grows. -/
namespace TextLines

abbrev Text := List Char

def lineBreakCodes : List ℕ := [0x0a,0x0b,0x0c,0x0d,0x1c,0x1d,0x1e,0x85,0x2028,0x2029]

def isLineBreak (c : Char) : Bool := lineBreakCodes.contains c.toNat

/-- The lines that are complete, the line that is being read, and whether the last character was a carriage return. -/
structure Scan where
  complete : List Text := []
  current : Text := []
  afterReturn : Bool := false

namespace Scan

def feed (s : Scan) (c : Char) : Scan :=
  if s.afterReturn ∧ c = '\n' then {s with afterReturn := false}
  else if isLineBreak c then ⟨s.complete ++ [s.current],[],c = '\r'⟩
  else ⟨s.complete,s.current ++ [c],false⟩

def run (s : Scan) (text : Text) : Scan := text.foldl feed s

def lines (s : Scan) : List Text := if s.current = [] then s.complete else s.complete ++ [s.current]

theorem run_append (s : Scan) (a b : Text) : s.run (a ++ b) = (s.run a).run b := List.foldl_append

theorem length_lines_feed (s : Scan) (c : Char) : s.lines.length ≤ (s.feed c).lines.length := by
  unfold feed
  split
  · exact le_rfl
  · split <;> simp only [lines] <;> split <;> simp

theorem length_lines_run (text : Text) (s : Scan) : s.lines.length ≤ (s.run text).lines.length := by
  induction text generalizing s with
  | nil => exact le_rfl
  | cons c text ih => exact (s.length_lines_feed c).trans (ih _)

theorem length_lines_run_cons {s : Scan} (hs : s.current = []) {c : Char} (hc : isLineBreak c = false) (text : Text) :
    s.lines.length < (s.run (c :: text)).lines.length := by
  have hnewline : c ≠ '\n' := by
    rintro rfl
    exact absurd hc (by decide)
  have hfeed : s.feed c = ⟨s.complete,s.current ++ [c],false⟩ := by
    rw [feed, if_neg (fun h => hnewline h.2), if_neg (by rw [hc]; decide)]
  refine lt_of_lt_of_le ?_ (length_lines_run text (s.feed c))
  rw [hfeed]
  simp [lines, hs]

def Unbroken (s : Scan) : Prop := ∀ line ∈ s.current :: s.complete, ∀ c ∈ line, isLineBreak c = false

theorem Unbroken.feed {s : Scan} (h : s.Unbroken) (c : Char) : (s.feed c).Unbroken := by
  unfold Scan.feed
  split
  · exact h
  · split
    · intro line hline d hd
      rcases List.mem_cons.mp hline with rfl | hline
      · cases hd
      · rcases List.mem_append.mp hline with hline | hline
        · exact h line (List.mem_cons_of_mem _ hline) d hd
        · exact h line (List.mem_cons.mpr (.inl (List.mem_singleton.mp hline))) d hd
    · rename_i hc
      intro line hline d hd
      rcases List.mem_cons.mp hline with rfl | hline
      · rcases List.mem_append.mp hd with hd | hd
        · exact h _ List.mem_cons_self d hd
        · rw [List.mem_singleton.mp hd]
          exact Bool.eq_false_iff.mpr hc
      · exact h line (List.mem_cons_of_mem _ hline) d hd

theorem Unbroken.run {s : Scan} (h : s.Unbroken) (text : Text) : (s.run text).Unbroken := by
  induction text generalizing s with
  | nil => exact h
  | cons c text ih => exact ih (h.feed c)

theorem Unbroken.lines {s : Scan} (h : s.Unbroken) : ∀ line ∈ s.lines, ∀ c ∈ line, isLineBreak c = false := by
  intro line hline
  unfold Scan.lines at hline
  split at hline
  · exact h line (List.mem_cons_of_mem _ hline)
  · rcases List.mem_append.mp hline with hline | hline
    · exact h line (List.mem_cons_of_mem _ hline)
    · exact h line (List.mem_cons.mpr (.inl (List.mem_singleton.mp hline)))

end Scan

/-- `str.splitlines`. -/
def splitLines (text : Text) : List Text := (Scan.run {} text).lines

theorem unbroken_splitLines (text : Text) : ∀ line ∈ splitLines text, ∀ c ∈ line, isLineBreak c = false := by
  have hempty : Scan.Unbroken {} := by
    intro line hline c hc
    rw [List.mem_singleton.mp hline] at hc
    cases hc
  exact (hempty.run text).lines

theorem length_splitLines_append (a b : Text) : (splitLines a).length ≤ (splitLines (a ++ b)).length := by
  rw [splitLines, splitLines, Scan.run_append]
  exact Scan.length_lines_run b _

def Terminated (text : Text) : Prop := ∀ c, text.getLast? = some c → isLineBreak c = true

theorem current_run_iff (text : Text) : ((Scan.run {} text).current = [] ↔ Terminated text) ∧
    ((Scan.run {} text).afterReturn = true → (Scan.run {} text).current = []) := by
  induction text using List.reverseRecOn with
  | nil => exact ⟨⟨fun _ => nofun,fun _ => rfl⟩,nofun⟩
  | append_singleton text c ih =>
    rw [Scan.run_append]
    change ((Scan.feed _ c).current = [] ↔ _) ∧ ((Scan.feed _ c).afterReturn = true → (Scan.feed _ c).current = [])
    have hlast : Terminated (text ++ [c]) ↔ isLineBreak c = true := by simp [Terminated]
    rw [hlast]
    unfold Scan.feed
    split
    · rename_i hreturn
      have hcurrent := ih.2 hreturn.1
      exact ⟨iff_of_true hcurrent (by rw [hreturn.2]; decide),fun _ => hcurrent⟩
    · split
      · rename_i hc
        exact ⟨iff_of_true rfl hc,fun _ => rfl⟩
      · rename_i hc
        exact ⟨iff_of_false (by simp) hc,nofun⟩

def Whole (line : Text) : Prop := line ≠ [] ∧ ∀ c ∈ line, isLineBreak c = false

theorem run_unbroken {line : Text} (hne : line ≠ []) (hline : ∀ c ∈ line, isLineBreak c = false) (s : Scan) :
    s.run line = ⟨s.complete,s.current ++ line,false⟩ := by
  induction line generalizing s with
  | nil => exact absurd rfl hne
  | cons c line ih =>
    have hc := hline c List.mem_cons_self
    have hfeed : s.feed c = ⟨s.complete,s.current ++ [c],false⟩ := by
      have hnewline : c ≠ '\n' := by
        rintro rfl
        exact absurd hc (by decide)
      rw [Scan.feed, if_neg (fun h => hnewline h.2), if_neg (by rw [hc]; decide)]
    change (s.feed c).run line = _
    rw [hfeed]
    by_cases hnil : line = []
    · rw [hnil]
      rfl
    · rw [ih hnil fun d hd => hline d (List.mem_cons_of_mem _ hd)]
      simp

theorem run_line {line : Text} (hline : Whole line) (s : Scan) :
    s.run (line ++ ['\n']) = ⟨s.complete ++ [s.current ++ line],[],false⟩ := by
  rw [Scan.run_append, run_unbroken hline.1 hline.2]
  rfl

def textOf (lines : List Text) : Text := lines.flatMap (· ++ ['\n'])

def visible : List Text → ℕ → ℕ
  | [], _ => 0
  | line :: lines, m => if line.length ≤ m then visible lines (m - (line.length+1))+1 else 0

theorem visible_zero {lines : List Text} (hlines : ∀ line ∈ lines, Whole line) : visible lines 0 = 0 := by
  cases lines with
  | nil => rfl
  | cons line lines =>
    have hline := List.length_pos_of_ne_nil (hlines line List.mem_cons_self).1
    rw [visible, if_neg (by omega)]

theorem visible_mono (lines : List Text) {m n : ℕ} (h : m ≤ n) : visible lines m ≤ visible lines n := by
  induction lines generalizing m n with
  | nil => exact le_rfl
  | cons line lines ih =>
    rw [visible, visible]
    split
    · rename_i hm
      rw [if_pos (hm.trans h)]
      exact Nat.succ_le_succ (ih (Nat.sub_le_sub_right h _))
    · exact Nat.zero_le _

theorem visible_le (lines : List Text) (m : ℕ) : visible lines m ≤ lines.length := by
  induction lines generalizing m with
  | nil => exact le_rfl
  | cons line lines ih =>
    rw [visible]
    split
    · exact Nat.succ_le_succ (ih _)
    · exact Nat.zero_le _

theorem visible_full (lines : List Text) : visible lines (textOf lines).length = lines.length := by
  induction lines with
  | nil => rfl
  | cons line lines ih =>
    have hlength : (textOf (line :: lines)).length = line.length+1+(textOf lines).length := by
      simp [textOf]
      omega
    rw [visible, if_pos (by omega), hlength, Nat.add_sub_cancel_left, ih]
    rfl

theorem run_textOf_cons {line : Text} {lines : List Text} (hline : Whole line) (s : Scan) (m : ℕ)
    (hm : line.length+1 ≤ m) : s.run ((textOf (line :: lines)).take m) =
      Scan.run ⟨s.complete ++ [s.current ++ line],[],false⟩ ((textOf lines).take (m - (line.length+1))) := by
  have htext : textOf (line :: lines) = (line ++ ['\n']) ++ textOf lines := rfl
  have hlength : (line ++ ['\n']).length = line.length+1 := by simp
  rw [htext, List.take_append, hlength, List.take_of_length_le (by omega), Scan.run_append, run_line hline]

def PartOf (p line : Text) : Prop := p <+: line ∧ p ≠ line ∧ p ≠ []

/-- The lines of a part of a text: those that are there in full, and a part of the next. -/
theorem lines_take {lines : List Text} (hlines : ∀ line ∈ lines, Whole line) {s : Scan} (hs : s.current = []) (m : ℕ) :
    ∃ last, (s.run ((textOf lines).take m)).lines = s.complete ++ lines.take (visible lines m) ++ last ∧
      (last = [] ∨ ∃ p line, last = [p] ∧ lines[visible lines m]? = some line ∧ PartOf p line) := by
  induction lines generalizing s m with
  | nil =>
    refine ⟨[],?_,.inl rfl⟩
    simp [textOf, visible, Scan.run, Scan.lines, hs]
  | cons line lines ih =>
    have hline := hlines line List.mem_cons_self
    have hrest : ∀ line ∈ lines, Whole line := fun other hother => hlines other (List.mem_cons_of_mem _ hother)
    have hpos := List.length_pos_of_ne_nil hline.1
    rw [visible]
    by_cases hlt : line.length < m
    · obtain ⟨last,hlast,hpart⟩ := ih hrest (s := ⟨s.complete ++ [line],[],false⟩) rfl (m - (line.length+1))
      rw [run_textOf_cons hline s m hlt, hs, List.nil_append, if_pos hlt.le]
      refine ⟨last,?_,hpart⟩
      rw [hlast]
      simp
    · have htext : (textOf (line :: lines)).take m = line.take m := by
        have hcons : textOf (line :: lines) = line ++ (['\n'] ++ textOf lines) := by simp [textOf]
        rw [hcons, List.take_append_of_le_length (by omega)]
      rw [htext]
      by_cases hzero : m = 0
      · refine ⟨[],?_,.inl rfl⟩
        rw [if_neg (by omega), hzero]
        simp [Scan.run, Scan.lines, hs]
      · have hne : line.take m ≠ [] := by
          intro hnil
          rcases List.take_eq_nil_iff.mp hnil with h | h
          · exact hzero h
          · exact hline.1 h
        have hrun := run_unbroken hne (fun c hc => hline.2 c (List.mem_of_mem_take hc)) s
        rw [hrun, hs, List.nil_append]
        by_cases heq : line.length ≤ m
        · have hm : m - (line.length+1) = 0 := by omega
          refine ⟨[],?_,.inl rfl⟩
          rw [if_pos heq, hm, visible_zero hrest, List.take_of_length_le heq]
          simp [Scan.lines, hline.1]
        · refine ⟨[line.take m],?_,.inr ⟨line.take m,line,rfl,?_,List.take_prefix _ _,?_,hne⟩⟩
          · rw [if_neg heq]
            simp [Scan.lines, hne]
          · rw [if_neg heq]
            rfl
          · intro hsame
            have := congrArg List.length hsame
            rw [List.length_take] at this
            omega

theorem lines_textOf {lines : List Text} (hlines : ∀ line ∈ lines, Whole line) {s : Scan} (hs : s.current = []) :
    (s.run (textOf lines)).lines = s.complete ++ lines := by
  obtain ⟨last,hlast,hpart⟩ := lines_take hlines hs (textOf lines).length
  rw [List.take_length, visible_full, List.take_length] at hlast
  rcases hpart with rfl | ⟨p,line,-,hnone,-⟩
  · rwa [List.append_nil] at hlast
  · rw [visible_full, List.getElem?_eq_none le_rfl] at hnone
    cases hnone

theorem length_lines_glued {lines : List Text} (hlines : ∀ line ∈ lines, Whole line) (hne : lines ≠ []) {s : Scan}
    (hs : s.current ≠ []) : (s.run (textOf lines)).lines.length+1 = s.lines.length + lines.length := by
  cases lines with
  | nil => exact absurd rfl hne
  | cons line lines =>
    have htext : textOf (line :: lines) = (line ++ ['\n']) ++ textOf lines := rfl
    rw [htext, Scan.run_append, run_line (hlines line List.mem_cons_self),
      lines_textOf (fun other hother => hlines other (List.mem_cons_of_mem _ hother)) rfl]
    simp only [Scan.lines, if_neg hs, List.length_append, List.length_cons, List.length_nil]
    omega

end TextLines
