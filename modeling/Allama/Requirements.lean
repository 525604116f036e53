import Mathlib
import Allama.Expressions
import Allama.WordCuts

/-! The package names of dependency specifiers (`sandbox/safe_executor.py`). -/
namespace Allama
namespace Requirements
open WordCuts
variable {s : Text}

/-- The separators of `_extract_dependency_base_name` but for the last, in its order. -/
def operators : List Text := ["==".toList,">=".toList,"<=".toList,">".toList,"<".toList,"~=".toList,"!=".toList]

def separators : List Text := operators ++ ["[".toList]

def cutSeparator (name : Text) : Text :=
  match separators.find? (occurs · name) with
  | some sep => strip (before sep name)
  | none => name

def extractDependencyBaseName (dependency : Text) : Text :=
  let name := strip dependency
  let name := if occurs [';'] name then strip (before [';'] name) else name
  let name := if occurs ['@'] name then strip (before ['@'] name) else name
  strip (cutSeparator name)

/-- `re.sub(r"[-_.]+", "-", _)`; the flag tells that a run has begun. -/
def joinRuns : Bool → Text → Text
  | _, [] => []
  | inRun, c :: s =>
    if c = '-' ∨ c = '_' ∨ c = '.' then (if inRun then joinRuns true s else '-' :: joinRuns true s)
    else c :: joinRuns false s

/-- `str.lower`, of an ASCII text. -/
def lower (s : Text) : Text := s.map Char.toLower

def normalizeDistributionName (name : Text) : Text := lower (joinRuns false name)

/-- `name.replace("-", "_")`. -/
def underscored (name : Text) : Text := name.map fun c => if c = '-' then '_' else c

def extractPackageName (dependency : Text) : Text := underscored (extractDependencyBaseName dependency)

/-- The names that one package may be imported by. -/
def spellings (name : Text) : List Text :=
  if name = [] then [] else [name,lower name,underscored name,lower (underscored name)]

/-- `_get_allowed_modules`, of dependencies without an environment. -/
def getAllowedModules (dependencies : List Text) : List Text :=
  dependencies.flatMap fun dep => spellings (extractDependencyBaseName dep)

/-- `normalized_deps` of `_get_dependency_import_names`: the distributions whose modules are allowed. -/
def normalizedDeps (dependencies : List Text) : List Text :=
  (dependencies.map fun dep => normalizeDistributionName (extractDependencyBaseName dep)).filter (· ≠ [])

section Grammar

def isBlank (c : Char) : Bool := c = ' ' || c = '\t'

def isNameChar (c : Char) : Bool := c.isAlphanum || c = '-' || c = '_' || c = '.'

def isVersionChar (c : Char) : Bool := isNameChar c || c = '*' || c = '+' || c = '!'

/-- Blanks, where a requirement may have them. -/
structure Blanks where
  text : Text
  blank : ∀ c ∈ text, isBlank c = true

/-- The name of a distribution or of an extra: it starts and ends with a letter or a digit. -/
structure Identifier where
  text : Text
  first : text.head?.any Char.isAlphanum = true
  last : text.getLast?.any Char.isAlphanum = true
  chars : ∀ c ∈ text, isNameChar c = true

inductive VersionCmp
  | le | lt | ne | arbitrary | eq | ge | gt | compatible
deriving DecidableEq, Repr

def VersionCmp.text : VersionCmp → Text
  | .le => "<=".toList
  | .lt => "<".toList
  | .ne => "!=".toList
  | .arbitrary => "===".toList
  | .eq => "==".toList
  | .ge => ">=".toList
  | .gt => ">".toList
  | .compatible => "~=".toList

/-- A version clause, with the blanks before its operator, before its version and behind it. -/
structure VersionOne where
  gap : Blanks
  op : VersionCmp
  gap' : Blanks
  version : Text
  nonempty : version ≠ []
  chars : ∀ c ∈ version, isVersionChar c = true
  gap'' : Blanks

def VersionOne.rest (v : VersionOne) : Text := v.gap'.text ++ (v.version ++ v.gap''.text)

def VersionOne.text (v : VersionOne) : Text := v.gap.text ++ (v.op.text ++ v.rest)

/-- Version clauses with commas between them, perhaps one behind them, and perhaps parentheses around them. -/
structure Versionspec where
  parenthesised : Bool
  first : VersionOne
  others : List VersionOne
  comma : Option Blanks

def Versionspec.opening (v : Versionspec) : Text := if v.parenthesised then ['('] else []

def Versionspec.closing (v : Versionspec) : Text :=
  (v.comma.elim [] fun gap => ',' :: gap.text) ++ if v.parenthesised then [')'] else []

def Versionspec.text (v : Versionspec) : Text :=
  v.opening ++ (v.first.text ++ ((v.others.flatMap fun c => ',' :: c.text) ++ v.closing))

/-- `[a, b]`. -/
structure Extras where
  gap : Blanks
  names : Option (Identifier × List (Blanks × Blanks × Identifier))
  gap' : Blanks

def Extras.inner (e : Extras) : Text :=
  e.names.elim [] fun (name,names) => name.text ++ names.flatMap fun (g,g',n) => g.text ++ (',' :: (g'.text ++ n.text))

def Extras.text (e : Extras) : Text := '[' :: (e.gap.text ++ (e.inner ++ (e.gap'.text ++ [']'])))

/-- What a requirement asks for: any version, some versions, or what stands at an address. -/
inductive Wanted
  | anyVersion
  | versions (v : Versionspec)
  | url (address : Text)

def Wanted.text : Wanted → Text
  | .anyVersion => []
  | .versions v => v.text
  | .url address => '@' :: address

/-- A requirement by the grammar of dependency specifiers. Of addresses and of what follows the semicolon any text is taken. -/
structure Requirement where
  lead : Blanks
  name : Identifier
  gap : Blanks
  extras : Option Extras
  gap' : Blanks
  wanted : Wanted
  gap'' : Blanks
  marker : Option Text

def Requirement.front (r : Requirement) : Text :=
  r.lead.text ++ (r.name.text ++ (r.gap.text ++ ((r.extras.elim [] Extras.text) ++ r.gap'.text)))

def Requirement.back (r : Requirement) : Text := r.gap''.text ++ r.marker.elim [] (';' :: ·)

def Requirement.text (r : Requirement) : Text := r.front ++ (r.wanted.text ++ r.back)

def VersionCmp.rank : VersionCmp → ℕ
  | .arbitrary | .eq => 0
  | .ge => 1
  | .le => 2
  | .gt => 3
  | .lt => 4
  | .compatible => 5
  | .ne => 6

def Versionspec.firstLeads (v : Versionspec) : Bool :=
  !v.parenthesised && v.others.all fun c => v.first.op.rank ≤ c.op.rank

/-- The cut leaves the name alone. -/
def Requirement.cuttable (r : Requirement) : Bool :=
  match r.wanted with
  | .anyVersion | .url _ => true
  | .versions v => r.extras.isNone && v.firstLeads

end Grammar

variable (op : VersionCmp) {c : Char}

section Cutting

theorem strip_strip (s : Text) : strip (strip s) = strip s := trim_trim isSpace s

theorem strip_cut {word : Text} (hne : word ≠ []) (h : ∀ c ∈ word, isSpace c = false) (s : Text) :
    (if occurs word (strip s) then strip (before word (strip s)) else strip s) = strip (before word s) := by
  have hbefore : strip (before word (strip s)) = strip (before word s) := trim_before_trim hne h s
  split
  · exact hbefore
  · rename_i hno
    rw [← hbefore, before_eq_self (Bool.eq_false_iff.mpr hno), strip_strip]

theorem separators_ne_nil : ∀ sep ∈ separators, sep ≠ [] := by decide

theorem separators_space : ∀ sep ∈ separators, ∀ c ∈ sep, isSpace c = false := by
  have h : ∀ sep ∈ separators, (sep.all fun c => !isSpace c) = true := by decide
  intro sep hsep c hc
  have hc := List.all_eq_true.mp (h sep hsep) c hc
  rwa [Bool.not_eq_true'] at hc

def cutText (s : Text) : Text :=
  match separators.find? (occurs · s) with
  | some sep => before sep s
  | none => s

theorem strip_cutSeparator (s : Text) : strip (cutSeparator (strip s)) = strip (cutText s) := by
  have hfind : separators.find? (occurs · (strip s)) = separators.find? (occurs · s) :=
    List.find?_congr fun sep hsep => occurs_trim (separators_ne_nil sep hsep) (separators_space sep hsep) s
  unfold cutSeparator cutText
  rw [hfind]
  cases h : separators.find? (occurs · s) with
  | none => exact strip_strip s
  | some sep =>
    have hmem := List.mem_of_find?_eq_some h
    have hcut : strip (before sep (strip s)) = strip (before sep s) :=
      trim_before_trim (separators_ne_nil sep hmem) (separators_space sep hmem) s
    dsimp only
    rw [strip_strip, hcut]

theorem extractDependencyBaseName_eq (dependency : Text) :
    extractDependencyBaseName dependency = strip (cutText (before ['@'] (before [';'] dependency))) := by
  have hsemicolon := @strip_cut [';'] (by decide) (List.forall_mem_singleton.mpr rfl) dependency
  have hat := @strip_cut ['@'] (by decide) (List.forall_mem_singleton.mpr rfl) (before [';'] dependency)
  unfold extractDependencyBaseName
  dsimp only
  rw [hsemicolon, hat, strip_cutSeparator]

end Cutting

section Characters

def isForeign (c : Char) : Bool := c = '[' || c = '(' || c = '<' || c = '>' || c = '=' || c = '!' || c = '~'

def isFront (c : Char) : Bool := isNameChar c || isBlank c || c = '[' || c = ']' || c = ','

theorem toNat_lt_of_alphanum (h : c.isAlphanum = true) : c.toNat < 128 := by
  simp only [Char.isAlphanum, Char.isAlpha, Char.isUpper, Char.isLower, Char.isDigit, Bool.or_eq_true, Bool.and_eq_true,
    decide_eq_true_eq, ge_iff_le, UInt32.le_iff_toNat_le] at h
  change c.val.toNat < 128
  rcases h with (h | h) | h
  · exact Nat.lt_of_le_of_lt h.2 (by decide)
  · exact Nat.lt_of_le_of_lt h.2 (by decide)
  · exact Nat.lt_of_le_of_lt h.2 (by decide)

theorem of_isNameChar {P : Char → Bool}
    (hP : ∀ n : Fin 128, isNameChar (Char.ofNat n) = true → P (Char.ofNat n) = true)
    (h : isNameChar c = true) : P c = true := by
  have hlt : c.toNat < 128 := by
    simp only [isNameChar, Bool.or_eq_true, decide_eq_true_eq] at h
    rcases h with ((h | rfl) | rfl) | rfl
    · exact toNat_lt_of_alphanum h
    · decide
    · decide
    · decide
  have hchar := hP ⟨c.toNat,hlt⟩
  rw [Char.ofNat_toNat] at hchar
  exact hchar h

theorem isNameChar_facts (h : isNameChar c = true) :
    (!isForeign c && !isForeign c.toLower && !isSpace c && c != ';' && c != '@') = true :=
  of_isNameChar (P := fun c => !isForeign c && !isForeign c.toLower && !isSpace c && c != ';' && c != '@') (by decide) h

theorem isBlank_iff : isBlank c = true ↔ c = ' ' ∨ c = '\t' := by
  rw [isBlank, Bool.or_eq_true, decide_eq_true_eq, decide_eq_true_eq]

theorem isSpace_of_isBlank (h : isBlank c = true) : isSpace c = true := by
  rcases isBlank_iff.mp h with rfl | rfl <;> decide

theorem isFront_facts (h : isFront c = true) :
    c ≠ '=' ∧ c ≠ '<' ∧ c ≠ '>' ∧ c ≠ '!' ∧ c ≠ '~' ∧ c ≠ '(' ∧ c ≠ ';' ∧ c ≠ '@' := by
  have hfar : ∀ d : Char, isFront d = false → c ≠ d := by
    rintro d hd rfl
    rw [h] at hd
    cases hd
  exact ⟨hfar _ (by decide),hfar _ (by decide),hfar _ (by decide),hfar _ (by decide),hfar _ (by decide),hfar _ (by decide),
    hfar _ (by decide),hfar _ (by decide)⟩

theorem isFront_of_name (h : isNameChar c = true) : isFront c = true := by
  rw [isFront, h]
  rfl

theorem isFront_of_blank (h : isBlank c = true) : isFront c = true := by
  rw [isFront, h, Bool.or_true]
  rfl

theorem Extras.front (e : Extras) : ∀ c ∈ e.text, isFront c = true := by
  have hcomma : isFront ',' = true := by decide
  have hclose : isFront ']' = true := by decide
  have hinner : ∀ c ∈ e.inner, isFront c = true := by
    intro c hc
    unfold inner at hc
    cases hnames : e.names with
    | none =>
      rw [hnames] at hc
      cases hc
    | some names =>
      rw [hnames] at hc
      rcases List.mem_append.mp hc with hc | hc
      · exact isFront_of_name (names.1.chars c hc)
      · obtain ⟨⟨g,g',n⟩,_,hc⟩ := List.mem_flatMap.mp hc
        simp only [List.mem_append, List.mem_cons] at hc
        rcases hc with hc | rfl | hc | hc
        · exact isFront_of_blank (g.blank c hc)
        · exact hcomma
        · exact isFront_of_blank (g'.blank c hc)
        · exact isFront_of_name (n.chars c hc)
  intro c hc
  simp only [text, List.mem_cons, List.mem_append, List.not_mem_nil, or_false] at hc
  rcases hc with rfl | hc | hc | hc | rfl
  · decide
  · exact isFront_of_blank (e.gap.blank c hc)
  · exact hinner c hc
  · exact isFront_of_blank (e.gap'.blank c hc)
  · exact hclose

theorem Requirement.isFront (r : Requirement) : ∀ c ∈ r.front, isFront c = true := by
  intro c hc
  simp only [front, List.mem_append] at hc
  rcases hc with hc | hc | hc | hc | hc
  · exact isFront_of_blank (r.lead.blank c hc)
  · exact isFront_of_name (r.name.chars c hc)
  · exact isFront_of_blank (r.gap.blank c hc)
  · cases hextras : r.extras with
    | none =>
      rw [hextras] at hc
      cases hc
    | some e =>
      rw [hextras] at hc
      exact e.front c hc
  · exact isFront_of_blank (r.gap'.blank c hc)

def isRest (c : Char) : Bool := isVersionChar c || isBlank c

theorem VersionOne.isRest (v : VersionOne) : ∀ c ∈ v.rest, isRest c = true := by
  intro c hc
  simp only [rest, List.mem_append] at hc
  unfold Requirements.isRest
  rcases hc with hc | hc | hc
  · rw [v.gap'.blank c hc, Bool.or_true]
  · rw [v.chars c hc]
    rfl
  · rw [v.gap''.blank c hc, Bool.or_true]

theorem isRest_facts (h : isRest c = true) : c ≠ '=' ∧ c ≠ '<' ∧ c ≠ '>' ∧ c ≠ ';' ∧ c ≠ '@' := by
  have hfar : ∀ d : Char, isRest d = false → c ≠ d := by
    rintro d hd rfl
    rw [h] at hd
    cases hd
  exact ⟨hfar _ (by decide),hfar _ (by decide),hfar _ (by decide),hfar _ (by decide),hfar _ (by decide)⟩

def IsPlain (s : Text) : Prop := ';' ∉ s ∧ '@' ∉ s

theorem IsPlain.append {t : Text} (hs : IsPlain s) (ht : IsPlain t) : IsPlain (s ++ t) := by
  refine ⟨?_,?_⟩
  · rw [List.mem_append, not_or]
    exact ⟨hs.1,ht.1⟩
  · rw [List.mem_append, not_or]
    exact ⟨hs.2,ht.2⟩

theorem isPlain_of_all {p : Char → Bool} (hs : ∀ c ∈ s, p c = true) (hp : p ';' = false)
    (hp' : p '@' = false) : IsPlain s := by
  refine ⟨fun h => ?_,fun h => ?_⟩
  · rw [hs _ h] at hp
    cases hp
  · rw [hs _ h] at hp'
    cases hp'

theorem Blanks.isPlain (b : Blanks) : IsPlain b.text := isPlain_of_all b.blank (by decide) (by decide)

theorem VersionOne.isPlain (v : VersionOne) : IsPlain v.text := by
  have hop : IsPlain v.op.text := by
    cases v.op <;> exact ⟨by decide,by decide⟩
  exact v.gap.isPlain.append (hop.append (isPlain_of_all v.isRest (by decide) (by decide)))

theorem Versionspec.isPlain (v : Versionspec) : IsPlain v.text := by
  have hopen : IsPlain v.opening := by
    unfold opening
    split <;> exact ⟨by decide,by decide⟩
  have hparen : IsPlain (if v.parenthesised = true then [')'] else []) := by
    split <;> exact ⟨by decide,by decide⟩
  have hcomma : IsPlain (v.comma.elim [] fun gap => ',' :: gap.text) := by
    cases v.comma with
    | none => exact ⟨by decide,by decide⟩
    | some gap => exact IsPlain.append (s := [',']) ⟨by decide,by decide⟩ gap.isPlain
  have hothers : ∀ l : List VersionOne, IsPlain (l.flatMap fun c => ',' :: c.text) := by
    intro l
    induction l with
    | nil => exact ⟨by decide,by decide⟩
    | cons c l ih =>
      rw [List.flatMap_cons]
      exact (IsPlain.append (s := [',']) ⟨by decide,by decide⟩ c.isPlain).append ih
  exact hopen.append (v.first.isPlain.append ((hothers v.others).append (hcomma.append hparen)))

theorem Requirement.isPlain_front (r : Requirement) : IsPlain r.front := isPlain_of_all r.isFront (by decide) (by decide)

/-- What is left of a requirement after the first two cuts. -/
def Requirement.body (r : Requirement) : Text :=
  match r.wanted with
  | .anyVersion => r.front ++ r.gap''.text
  | .versions v => r.front ++ (v.text ++ r.gap''.text)
  | .url _ => r.front

theorem head_ne (h : c ∉ s) : ∀ a ∈ s, [c].head? ≠ some a := by
  intro a ha he
  exact h (Option.some.inj he ▸ ha)

theorem before_plain (hs : IsPlain s) (marker : Option Text) :
    before ['@'] (before [';'] (s ++ marker.elim [] (';' :: ·))) = s := by
  have hmarker : before [';'] (marker.elim [] (';' :: ·)) = [] := by
    cases marker with
    | none => rfl
    | some m => exact before_self (by decide) m
  rw [before_append (by decide) (head_ne hs.1), hmarker, List.append_nil, before_eq_self]
  exact occurs_of_missing (List.mem_singleton.mpr rfl) hs.2

theorem Requirement.cuts_text (r : Requirement) : before ['@'] (before [';'] r.text) = r.body := by
  cases hwanted : r.wanted with
  | anyVersion =>
    have htext : r.text = (r.front ++ r.gap''.text) ++ r.marker.elim [] (';' :: ·) := by
      rw [text, back, hwanted, Wanted.text, List.nil_append, List.append_assoc]
    rw [htext, before_plain (r.isPlain_front.append r.gap''.isPlain), body, hwanted]
  | versions v =>
    have htext : r.text = (r.front ++ (v.text ++ r.gap''.text)) ++ r.marker.elim [] (';' :: ·) := by
      rw [text, back, hwanted, Wanted.text, List.append_assoc, List.append_assoc]
    rw [htext, before_plain (r.isPlain_front.append (v.isPlain.append r.gap''.isPlain)), body, hwanted]
  | url address =>
    have hat : ∀ s, before [';'] ('@' :: s) = '@' :: before [';'] s := fun s => rfl
    rw [text, hwanted, Wanted.text, List.cons_append, before_append (by decide) (head_ne r.isPlain_front.1), hat,
      before_append (by decide) (head_ne r.isPlain_front.2)]
    have hself := @before_self Char _ ['@'] (by decide) (before [';'] (address ++ r.back))
    rw [List.singleton_append] at hself
    rw [hself, List.append_nil, body, hwanted]

end Characters

section Clauses

theorem operators_ne_nil : ∀ sep ∈ operators, sep ≠ [] := by decide

theorem operators_head : ∀ sep ∈ operators, sep.head?.all (fun c => c = '=' || c = '<' || c = '>' || c = '!' || c = '~') = true := by
  decide

theorem operators_tail : ∀ sep ∈ operators, ∀ b ∈ sep.tail, b = '=' := by
  have h : ∀ sep ∈ operators, (sep.tail.all fun b => b == '=') = true := by decide
  intro sep hsep b hb
  exact eq_of_beq (List.all_eq_true.mp (h sep hsep) b hb)

theorem operators_mem : ∀ sep ∈ operators, '=' ∈ sep ∨ '<' ∈ sep ∨ '>' ∈ sep := by decide

theorem operator_head_ne {sep : Text} (hsep : sep ∈ operators) {a : Char}
    (h : a ≠ '=' ∧ a ≠ '<' ∧ a ≠ '>' ∧ a ≠ '!' ∧ a ≠ '~') : sep.head? ≠ some a := by
  intro he
  have hhead := operators_head sep hsep
  rw [he, Option.all_some] at hhead
  simp only [Bool.or_eq_true, decide_eq_true_eq] at hhead
  rcases hhead with (((rfl | rfl) | rfl) | rfl) | rfl
  · exact h.1 rfl
  · exact h.2.1 rfl
  · exact h.2.2.1 rfl
  · exact h.2.2.2.1 rfl
  · exact h.2.2.2.2 rfl

theorem isFront_head {sep : Text} (hsep : sep ∈ operators) (hs : ∀ c ∈ s, isFront c = true) :
    ∀ a ∈ s, sep.head? ≠ some a := by
  intro a ha
  obtain ⟨heq,hlt,hgt,hne,hcompatible,_⟩ := isFront_facts (hs a ha)
  exact operator_head_ne hsep ⟨heq,hlt,hgt,hne,hcompatible⟩

theorem tail_ne {sep v : Text} (hsep : sep ∈ operators) (hv : v.head? ≠ some '=') : ∀ b ∈ sep.tail, v.head? ≠ some b := by
  intro b hb
  rwa [operators_tail sep hsep b hb]

def IsQuiet (s : Text) : Prop := ∀ c ∈ s, c ≠ '=' ∧ c ≠ '<' ∧ c ≠ '>'

theorem IsQuiet.occurs {sep : Text} (h : IsQuiet s) (hsep : sep ∈ operators) :
    occurs sep s = false := by
  rcases operators_mem sep hsep with hmem | hmem | hmem
  · exact occurs_of_missing hmem fun hc => (h _ hc).1 rfl
  · exact occurs_of_missing hmem fun hc => (h _ hc).2.1 rfl
  · exact occurs_of_missing hmem fun hc => (h _ hc).2.2 rfl

theorem IsQuiet.head (h : IsQuiet s) :
    s.head? ≠ some '=' := fun he => (h _ (List.mem_of_mem_head? he)).1 rfl

theorem VersionOne.isQuiet_rest (v : VersionOne) : IsQuiet v.rest := by
  intro c hc
  obtain ⟨heq,hlt,hgt,_⟩ := isRest_facts (v.isRest c hc)
  exact ⟨heq,hlt,hgt⟩

theorem VersionOne.rest_head (v : VersionOne) (s : Text) : (v.rest ++ s).head? ≠ some '=' := by
  have hne : v.rest ≠ [] := by
    unfold rest
    exact List.append_ne_nil_of_right_ne_nil _ (List.append_ne_nil_of_left_ne_nil v.nonempty _)
  rw [List.head?_append_of_ne_nil _ hne]
  exact v.isQuiet_rest.head

theorem Blanks.head {sep : Text} (hsep : sep ∈ operators) (b : Blanks) : ∀ a ∈ b.text, sep.head? ≠ some a :=
  isFront_head hsep fun c hc => isFront_of_blank (b.blank c hc)

theorem occurs_clause {sep : Text} (hsep : sep ∈ operators) (v : VersionOne)
    (hs : s.head? ≠ some '=') :
    occurs sep (v.text ++ s) = (occurs sep v.op.text || occurs sep s) := by
  have htext : v.text ++ s = v.gap.text ++ (v.op.text ++ (v.rest ++ s)) := by
    rw [VersionOne.text, List.append_assoc, List.append_assoc]
  calc occurs sep (v.text ++ s) = occurs sep (v.op.text ++ (v.rest ++ s)) := by
        rw [htext, occurs_append (operators_ne_nil sep hsep) (v.gap.head hsep)]
    _ = (occurs sep v.op.text || occurs sep (v.rest ++ s)) := occurs_split (tail_ne hsep (v.rest_head s)) _
    _ = (occurs sep v.op.text || occurs sep s) := by
        rw [occurs_split (tail_ne hsep hs), v.isQuiet_rest.occurs hsep, Bool.false_or]

theorem others_head (l : List VersionOne) (hs : s.head? ≠ some '=') :
    ((l.flatMap fun c => ',' :: c.text) ++ s).head? ≠ some '=' := by
  cases l with
  | nil => exact hs
  | cons c l =>
    intro he
    cases he

theorem occurs_others {sep : Text} (hsep : sep ∈ operators) (hs : s.head? ≠ some '=')
    (l : List VersionOne) :
    occurs sep ((l.flatMap fun c => ',' :: c.text) ++ s) = (l.any (fun c => occurs sep c.op.text) || occurs sep s) := by
  induction l with
  | nil => rfl
  | cons c l ih =>
    have hcomma : ∀ a ∈ [','], sep.head? ≠ some a := isFront_head hsep (List.forall_mem_singleton.mpr rfl)
    have htext : ((c :: l).flatMap fun c => ',' :: c.text) ++ s = [','] ++ (c.text ++ ((l.flatMap fun c => ',' :: c.text) ++ s)) := by
      rw [List.flatMap_cons, List.append_assoc]
      rfl
    rw [htext, occurs_append (operators_ne_nil sep hsep) hcomma, occurs_clause hsep c (others_head l hs), ih, List.any_cons,
      Bool.or_assoc]

theorem Versionspec.isQuiet_closing (v : Versionspec) (b : Blanks) : IsQuiet (v.closing ++ b.text) := by
  have hblank : ∀ b : Blanks, IsQuiet b.text := by
    intro b c hc
    obtain ⟨heq,hlt,hgt,_⟩ := isFront_facts (isFront_of_blank (b.blank c hc))
    exact ⟨heq,hlt,hgt⟩
  intro c hc
  simp only [closing, List.mem_append] at hc
  rcases hc with (hc | hc) | hc
  · cases hcomma : v.comma with
    | none =>
      rw [hcomma] at hc
      cases hc
    | some gap =>
      rw [hcomma] at hc
      rcases List.mem_cons.mp hc with rfl | hc
      · decide
      · exact hblank gap c hc
  · split at hc
    · rw [List.mem_singleton.mp hc]
      decide
    · cases hc
  · exact hblank b c hc

theorem Versionspec.opening_head {sep : Text} (hsep : sep ∈ operators) (v : Versionspec) : ∀ a ∈ v.opening, sep.head? ≠ some a := by
  intro a ha
  unfold opening at ha
  split at ha
  · rw [List.mem_singleton.mp ha]
    exact operator_head_ne hsep (by decide)
  · cases ha

def Versionspec.later (v : Versionspec) (b : Blanks) : Text :=
  (v.others.flatMap fun c => ',' :: c.text) ++ (v.closing ++ b.text)

theorem Versionspec.text_append (v : Versionspec) (b : Blanks) :
    v.text ++ b.text = v.opening ++ (v.first.text ++ v.later b) := by
  simp only [text, later, List.append_assoc]

variable (r : Requirement) (v : Versionspec)

theorem occurs_versions {sep : Text} (hsep : sep ∈ operators) : occurs sep (r.front ++ (v.text ++ r.gap''.text)) =
    (v.first :: v.others).any fun c => occurs sep c.op.text := by
  have hquiet := v.isQuiet_closing r.gap''
  rw [occurs_append (operators_ne_nil sep hsep) (isFront_head hsep r.isFront), v.text_append,
    occurs_append (operators_ne_nil sep hsep) (v.opening_head hsep), Versionspec.later,
    occurs_clause hsep v.first (others_head v.others hquiet.head), occurs_others hsep hquiet.head,
    hquiet.occurs hsep, Bool.or_false, List.any_cons]

theorem before_op : ∀ op : VersionCmp, ∀ sep ∈ operators, occurs sep op.text = true → before sep op.text = [] := by
  intro op
  cases op <;> decide

theorem before_versions {sep : Text} (hsep : sep ∈ operators) : ∃ t, before sep (r.front ++ (v.text ++ r.gap''.text)) =
    r.front ++ (v.opening ++ (v.first.gap.text ++ if occurs sep v.first.op.text then [] else v.first.op.text ++ t)) := by
  have hne := operators_ne_nil sep hsep
  refine ⟨before sep (v.first.rest ++ v.later r.gap''),?_⟩
  rw [before_append hne (isFront_head hsep r.isFront), v.text_append, before_append hne (v.opening_head hsep),
    VersionOne.text, List.append_assoc, List.append_assoc, before_append hne (v.first.gap.head hsep),
    before_split (tail_ne hsep (v.first.rest_head _))]
  split
  · rename_i hocc
    rw [before_op v.first.op sep hsep hocc]
  · rfl

end Clauses

section Order

def VersionCmp.sep : VersionCmp → Text
  | .arbitrary | .eq => "==".toList
  | op => op.text

theorem sep_mem : op.sep ∈ operators := by
  cases op <;> decide

theorem idxOf_sep : operators.idxOf op.sep = op.rank := by
  cases op <;> decide

theorem occurs_sep : occurs op.sep op.text = true := by
  cases op <;> decide

theorem rank_le : ∀ sep ∈ operators, occurs sep op.text = true → op.rank ≤ operators.idxOf sep := by
  cases op <;> decide

theorem occurs_of_idxOf :
    ∀ sep ∈ operators, operators.idxOf sep = op.rank → occurs sep op.text = true := by
  cases op <;> decide

theorem found_in_first {first : VersionOne} {others : List VersionOne} {sep : Text}
    (h : operators.find? (fun sep => (first :: others).any fun c => occurs sep c.op.text) = some sep) :
    occurs sep first.op.text = true ↔ others.all (fun c => first.op.rank ≤ c.op.rank) = true := by
  have hsep := List.mem_of_find?_eq_some h
  have hle : ∀ c ∈ first :: others, operators.idxOf sep ≤ c.op.rank := by
    intro c hc
    rw [← idxOf_sep]
    exact idxOf_find?_le h (List.any_eq_true.mpr ⟨c,hc,occurs_sep c.op⟩)
  rw [List.all_eq_true]
  constructor
  · intro hocc c hc
    have hfirst := rank_le first.op sep hsep hocc
    have hother := hle c (List.mem_cons_of_mem _ hc)
    exact decide_eq_true (by omega)
  · intro hall
    -- the separator stands in some clause, whose operator is no earlier than the first
    have hfound := List.find?_some h
    obtain ⟨c,hc,hocc⟩ := List.any_eq_true.mp hfound
    have hother := rank_le c.op sep hsep hocc
    have hfirst := hle first List.mem_cons_self
    have hrank : first.op.rank ≤ c.op.rank := by
      rcases List.mem_cons.mp hc with rfl | hc
      · exact Nat.le_refl _
      · exact of_decide_eq_true (hall c hc)
    exact occurs_of_idxOf first.op sep hsep (by omega)

end Order

section Names

theorem not_isForeign_name (h : isNameChar c = true) :
    isForeign c = false ∧ isForeign c.toLower = false ∧ isSpace c = false := by
  have hfacts := isNameChar_facts h
  simp only [Bool.and_eq_true, Bool.not_eq_true', bne_iff_ne] at hfacts
  exact ⟨hfacts.1.1.1.1,hfacts.1.1.1.2,hfacts.1.1.2⟩

theorem Identifier.ne_nil (name : Identifier) : name.text ≠ [] := by
  intro h
  have hfirst := name.first
  rw [h] at hfirst
  cases hfirst

theorem Identifier.not_space (name : Identifier) : ∀ c ∈ name.text, isSpace c = false :=
  fun c hc => (not_isForeign_name (name.chars c hc)).2.2

theorem strip_name (name : Identifier) {a b : Text} (ha : ∀ c ∈ a, isBlank c = true) (hb : ∀ c ∈ b, isBlank c = true) :
    strip (a ++ (name.text ++ b)) = name.text := by
  have hself : strip name.text = name.text := by
    have hdrop : name.text.dropWhile isSpace = name.text := by
      rw [List.dropWhile_eq_self_iff]
      intro hl hspace
      rw [name.not_space _ (List.getElem_mem hl)] at hspace
      cases hspace
    rw [strip, hdrop, List.rdropWhile_eq_self_iff]
    intro hne hspace
    rw [name.not_space _ (List.getLast_mem hne)] at hspace
    cases hspace
  calc strip (a ++ (name.text ++ b)) = strip (name.text ++ b) := trim_append_left (fun c hc => isSpace_of_isBlank (ha c hc)) _
    _ = strip name.text := trim_append_right (fun c hc => isSpace_of_isBlank (hb c hc)) _
    _ = name.text := hself

theorem IsQuiet.of_front (h : ∀ c ∈ s, isFront c = true) : IsQuiet s := by
  intro c hc
  obtain ⟨heq,hlt,hgt,_⟩ := isFront_facts (h c hc)
  exact ⟨heq,hlt,hgt⟩

/-- Without operators the cut is at the extras, or nowhere. -/
theorem cutText_front (r : Requirement) {g : Text} (hg : ∀ c ∈ g, isBlank c = true) :
    ∃ b, (∀ c ∈ b, isBlank c = true) ∧ cutText (r.front ++ g) = r.lead.text ++ (r.name.text ++ b) := by
  have hall : ∀ c ∈ r.front ++ g, isFront c = true := by
    intro c hc
    rcases List.mem_append.mp hc with hc | hc
    · exact r.isFront c hc
    · exact isFront_of_blank (hg c hc)
  have hnone : operators.find? (occurs · (r.front ++ g)) = none := by
    rw [List.find?_eq_none]
    intro sep hsep
    rw [(IsQuiet.of_front hall).occurs hsep]
    exact Bool.false_ne_true
  have hblank : ∀ {c : Char}, isBlank c = true → c ≠ '[' := by
    rintro c hc rfl
    cases hc
  have hname : ∀ c ∈ r.name.text, c ≠ '[' := by
    rintro c hc rfl
    have := (not_isForeign_name (r.name.chars _ hc)).1
    cases this
  unfold cutText separators
  rw [List.find?_append, hnone, Option.none_or, List.find?_singleton]
  cases hextras : r.extras with
  | none =>
    have hfront : r.front ++ g = r.lead.text ++ (r.name.text ++ (r.gap.text ++ (r.gap'.text ++ g))) := by
      simp only [Requirement.front, hextras, Option.elim_none, List.nil_append, List.append_assoc]
    have hmissing : '[' ∉ r.front ++ g := by
      rw [hfront]
      simp only [List.mem_append, not_or]
      exact ⟨fun h => hblank (r.lead.blank _ h) rfl,fun h => hname _ h rfl,fun h => hblank (r.gap.blank _ h) rfl,
        fun h => hblank (r.gap'.blank _ h) rfl,fun h => hblank (hg _ h) rfl⟩
    have hocc : occurs "[".toList (r.front ++ g) = false := occurs_of_missing (List.mem_singleton.mpr rfl) hmissing
    rw [hocc, if_neg Bool.false_ne_true, hfront]
    refine ⟨_,?_,rfl⟩
    intro c hc
    rcases List.mem_append.mp hc with hc | hc
    · exact r.gap.blank c hc
    · rcases List.mem_append.mp hc with hc | hc
      · exact r.gap'.blank c hc
      · exact hg c hc
  | some e =>
    have hfront : r.front ++ g = (r.lead.text ++ (r.name.text ++ r.gap.text)) ++ ("[".toList ++
        (e.gap.text ++ (e.inner ++ (e.gap'.text ++ [']'])) ++ (r.gap'.text ++ g))) := by
      simp only [Requirement.front, hextras, Option.elim_some, Extras.text, List.append_assoc, List.cons_append]
      rfl
    have hhead : ∀ a ∈ r.lead.text ++ (r.name.text ++ r.gap.text), "[".toList.head? ≠ some a := by
      intro a ha he
      obtain rfl : '[' = a := Option.some.inj he
      simp only [List.mem_append] at ha
      rcases ha with ha | ha | ha
      · exact hblank (r.lead.blank _ ha) rfl
      · exact hname _ ha rfl
      · exact hblank (r.gap.blank _ ha) rfl
    have hocc : occurs "[".toList (r.front ++ g) = true := by
      rw [hfront, occurs_append (by decide) hhead]
      rfl
    rw [hocc, if_pos rfl]
    refine ⟨r.gap.text,r.gap.blank,?_⟩
    dsimp only
    rw [hfront, before_append (by decide) hhead, before_self (by decide), List.append_nil]

theorem cutText_versions (r : Requirement) (v : Versionspec) : ∃ sep,
    operators.find? (fun sep => (v.first :: v.others).any fun c => occurs sep c.op.text) = some sep ∧
      cutText (r.front ++ (v.text ++ r.gap''.text)) = before sep (r.front ++ (v.text ++ r.gap''.text)) := by
  have hfind : operators.find? (occurs · (r.front ++ (v.text ++ r.gap''.text))) =
      operators.find? fun sep => (v.first :: v.others).any fun c => occurs sep c.op.text :=
    List.find?_congr fun sep hsep => occurs_versions r v hsep
  have hsome : (operators.find? fun sep => (v.first :: v.others).any fun c => occurs sep c.op.text).isSome = true := by
    rw [List.find?_isSome]
    exact ⟨v.first.op.sep,sep_mem _,List.any_eq_true.mpr ⟨v.first,List.mem_cons_self,occurs_sep _⟩⟩
  obtain ⟨sep,hsep⟩ := Option.isSome_iff_exists.mp hsome
  refine ⟨sep,hsep,?_⟩
  unfold cutText separators
  rw [List.find?_append, hfind, hsep, Option.some_or]

theorem extract_of_cuttable {r : Requirement} (h : r.cuttable = true) : extractDependencyBaseName r.text = r.name.text := by
  have hfront : ∀ {g : Text}, (∀ c ∈ g, isBlank c = true) → strip (cutText (r.front ++ g)) = r.name.text := by
    intro g hg
    obtain ⟨b,hb,hcut⟩ := cutText_front r hg
    rw [hcut, strip_name r.name r.lead.blank hb]
  rw [extractDependencyBaseName_eq, r.cuts_text, Requirement.body]
  unfold Requirement.cuttable at h
  cases hwanted : r.wanted with
  | anyVersion => exact hfront r.gap''.blank
  | url _ =>
    have hnil := hfront (g := []) (fun c hc => by cases hc)
    rwa [List.append_nil] at hnil
  | versions v =>
    rw [hwanted] at h
    obtain ⟨hextras,hleads⟩ := Bool.and_eq_true_iff.mp h
    obtain ⟨hopen,horder⟩ := Bool.and_eq_true_iff.mp hleads
    obtain ⟨sep,hsep,hcut⟩ := cutText_versions r v
    obtain ⟨t,hbefore⟩ := before_versions r v (List.mem_of_find?_eq_some hsep)
    -- the first operator is the one that is cut at, and only blanks are before it
    dsimp only
    rw [hcut, hbefore, if_pos ((found_in_first hsep).mpr horder), Requirement.front, Option.isNone_iff_eq_none.mp hextras,
      Versionspec.opening, if_neg (Bool.not_eq_true _ ▸ (Bool.not_eq_true' _).mp hopen)]
    simp only [Option.elim_none, List.nil_append, List.append_nil, List.append_assoc]
    refine strip_name r.name r.lead.blank ?_
    intro c hc
    rcases List.mem_append.mp hc with hc | hc
    · exact r.gap.blank c hc
    · rcases List.mem_append.mp hc with hc | hc
      · exact r.gap'.blank c hc
      · exact v.first.gap.blank c hc

theorem foreign_of_mem (hc : c ∈ s) (hf : isForeign c = true) (hspace : isSpace c = false) :
    ∃ c ∈ strip s, isForeign c = true := ⟨c,mem_trim hc hspace,hf⟩

theorem op_foreign : ∃ c ∈ op.text, isForeign c = true ∧ isSpace c = false := by
  cases op
  all_goals exact ⟨_,List.mem_cons_self,by decide,by decide⟩

theorem extract_foreign {r : Requirement} (h : r.cuttable = false) : ∃ c ∈ extractDependencyBaseName r.text, isForeign c = true := by
  rw [extractDependencyBaseName_eq, r.cuts_text, Requirement.body]
  unfold Requirement.cuttable at h
  cases hwanted : r.wanted with
  | anyVersion =>
    rw [hwanted] at h
    cases h
  | url _ =>
    rw [hwanted] at h
    cases h
  | versions v =>
    rw [hwanted] at h
    obtain ⟨sep,hsep,hcut⟩ := cutText_versions r v
    obtain ⟨t,hbefore⟩ := before_versions r v (List.mem_of_find?_eq_some hsep)
    dsimp only at h ⊢
    rw [hcut, hbefore]
    by_cases hocc : occurs sep v.first.op.text = true
    · have horder := (found_in_first hsep).mp hocc
      rw [Versionspec.firstLeads, horder, Bool.and_true, Bool.and_eq_false_iff] at h
      rcases h with hextras | hparen
      · have hmem : '[' ∈ r.front := by
          cases he : r.extras with
          | none =>
            rw [he] at hextras
            cases hextras
          | some e =>
            rw [Requirement.front, he]
            simp only [List.mem_append, Option.elim_some]
            exact .inr (.inr (.inr (.inl List.mem_cons_self)))
        exact foreign_of_mem (List.mem_append_left _ hmem) (by decide) (by decide)
      · have hmem : '(' ∈ v.opening := by
          rw [Versionspec.opening, if_pos (by simpa using hparen)]
          exact List.mem_cons_self
        exact foreign_of_mem (List.mem_append_right _ (List.mem_append_left _ hmem)) (by decide) (by decide)
    · -- the cut is behind the first operator
      rw [if_neg hocc]
      obtain ⟨c,hc,hforeign,hspace⟩ := op_foreign v.first.op
      refine foreign_of_mem ?_ hforeign hspace
      simp only [List.mem_append]
      exact .inr (.inr (.inr (.inl hc)))

def HasForeign (s : Text) : Prop := ∃ c ∈ s, isForeign c = true

theorem isForeign_iff : isForeign c = true ↔ c ∈ "[(<>=!~".toList := by
  simp only [isForeign, Bool.or_eq_true, decide_eq_true_eq, String.reduceToList, List.mem_cons, List.not_mem_nil, or_false,
    or_assoc]

theorem Identifier.not_hasForeign (name : Identifier) : ¬ HasForeign name.text := by
  rintro ⟨c,hc,hf⟩
  rw [(not_isForeign_name (name.chars c hc)).1] at hf
  cases hf

theorem hasForeign_underscored : HasForeign (underscored s) ↔ HasForeign s := by
  constructor
  · rintro ⟨c,hc,hf⟩
    obtain ⟨d,hd,rfl⟩ := List.mem_map.mp hc
    split at hf
    · cases hf
    · exact ⟨d,hd,hf⟩
  · rintro ⟨c,hc,hf⟩
    have hne : c ≠ '-' := by
      rintro rfl
      cases hf
    exact ⟨c,List.mem_map.mpr ⟨c,hc,if_neg hne⟩,hf⟩

theorem mem_joinRuns (hc : ¬ (c = '-' ∨ c = '_' ∨ c = '.')) (hs : c ∈ s) (inRun : Bool) :
    c ∈ joinRuns inRun s := by
  induction s generalizing inRun with
  | nil => cases hs
  | cons d s ih =>
    rw [joinRuns]
    rcases List.mem_cons.mp hs with rfl | hs
    · rw [if_neg hc]
      exact List.mem_cons_self
    · split
      · split
        · exact ih hs true
        · exact List.mem_cons_of_mem _ (ih hs true)
      · exact List.mem_cons_of_mem _ (ih hs false)

theorem mem_of_mem_joinRuns {inRun : Bool} (h : c ∈ joinRuns inRun s) : c = '-' ∨ c ∈ s := by
  induction s generalizing inRun with
  | nil => cases h
  | cons d s ih =>
    have hlater : ∀ {inRun}, c ∈ joinRuns inRun s → c = '-' ∨ c ∈ d :: s :=
      fun h => (ih h).imp_right (List.mem_cons_of_mem d)
    rw [joinRuns] at h
    split at h
    · split at h
      · exact hlater h
      · rcases List.mem_cons.mp h with rfl | h
        · exact .inl rfl
        · exact hlater h
    · rcases List.mem_cons.mp h with rfl | h
      · exact .inr List.mem_cons_self
      · exact hlater h

theorem hasForeign_normalize (h : HasForeign s) : HasForeign (normalizeDistributionName s) := by
  obtain ⟨c,hc,hf⟩ := h
  have hkept : ("[(<>=!~".toList.all fun c => decide (c.toLower = c ∧ ¬ (c = '-' ∨ c = '_' ∨ c = '.'))) = true := by decide
  obtain ⟨hlower,hrun⟩ := of_decide_eq_true (List.all_eq_true.mp hkept c (isForeign_iff.mp hf))
  exact ⟨c,List.mem_map.mpr ⟨c,mem_joinRuns hrun hc false,hlower⟩,hf⟩

theorem Identifier.not_hasForeign_normalize (name : Identifier) : ¬ HasForeign (normalizeDistributionName name.text) := by
  rintro ⟨c,hc,hf⟩
  obtain ⟨d,hd,rfl⟩ := List.mem_map.mp hc
  rcases mem_of_mem_joinRuns hd with rfl | hd
  · cases hf
  · rw [(not_isForeign_name (name.chars d hd)).2.1] at hf
    cases hf

theorem normalize_ne_nil (name : Identifier) : normalizeDistributionName name.text ≠ [] := by
  cases htext : name.text with
  | nil => exact absurd htext name.ne_nil
  | cons c s =>
    unfold normalizeDistributionName lower
    rw [joinRuns]
    split <;> exact List.cons_ne_nil _ _

theorem spellings_injective {t : Text} (ht : t ≠ []) (h : spellings s = spellings t) : s = t := by
  unfold spellings at h
  rw [if_neg ht] at h
  split at h
  · cases h
  · exact (List.cons.inj h).1

/-- The name that is cut out is that of the requirement if and only if the requirement is cuttable, and the same holds of the
package name, of the modules that are allowed and of the distributions whose modules are. -/
theorem names_iff (r : Requirement) :
    (extractDependencyBaseName r.text = r.name.text ↔ r.cuttable = true) ∧
    (extractPackageName r.text = underscored r.name.text ↔ r.cuttable = true) ∧
    (getAllowedModules [r.text] = spellings r.name.text ↔ r.cuttable = true) ∧
    (normalizedDeps [r.text] = [normalizeDistributionName r.name.text] ↔ r.cuttable = true) := by
  have hmodules : getAllowedModules [r.text] = spellings (extractDependencyBaseName r.text) := List.flatMap_singleton _ _
  have hdeps : normalizedDeps [r.text] =
      [normalizeDistributionName (extractDependencyBaseName r.text)].filter (· ≠ []) := rfl
  have hname : r.cuttable = true → extractDependencyBaseName r.text = r.name.text := extract_of_cuttable
  have hforeign : r.cuttable ≠ true → HasForeign (extractDependencyBaseName r.text) :=
    fun h => extract_foreign (Bool.not_eq_true _ ▸ h)
  refine ⟨⟨fun h => ?_,hname⟩,⟨fun h => ?_,fun h => ?_⟩,⟨fun h => ?_,fun h => ?_⟩,⟨fun h => ?_,fun h => ?_⟩⟩
  · by_contra hc
    exact r.name.not_hasForeign (h ▸ hforeign hc)
  · by_contra hc
    have hunder := hasForeign_underscored.mpr (hforeign hc)
    exact r.name.not_hasForeign (hasForeign_underscored.mp (h ▸ hunder))
  · rw [extractPackageName, hname h]
  · by_contra hc
    rw [hmodules] at h
    exact r.name.not_hasForeign (spellings_injective r.name.ne_nil h ▸ hforeign hc)
  · rw [hmodules, hname h]
  · by_contra hc
    have hmem : normalizeDistributionName r.name.text ∈
        [normalizeDistributionName (extractDependencyBaseName r.text)].filter (· ≠ []) := by
      rw [← hdeps, h]
      exact List.mem_singleton.mpr rfl
    have hforeigns := hasForeign_normalize (hforeign hc)
    rw [← List.mem_singleton.mp (List.mem_of_mem_filter hmem)] at hforeigns
    exact r.name.not_hasForeign_normalize hforeigns
  · rw [hdeps, hname h, List.filter_eq_self]
    intro name hmem
    rw [List.mem_singleton.mp hmem]
    exact decide_eq_true (normalize_ne_nil r.name)

def noBlanks : Blanks := ⟨[],fun c hc => by cases hc⟩

def exampleClause (op : VersionCmp) : VersionOne :=
  ⟨noBlanks,op,noBlanks,"1".toList,by decide,List.forall_mem_singleton.mpr rfl,noBlanks⟩

/-- `pkg~=1,==1`. -/
def pinned : Requirement where
  lead := noBlanks
  name := ⟨"pkg".toList,by decide,by decide,List.all_eq_true.mp (by decide)⟩
  gap := noBlanks
  extras := none
  gap' := noBlanks
  wanted := .versions ⟨false,exampleClause .compatible,[exampleClause .eq],none⟩
  gap'' := noBlanks
  marker := none

/-- The clause that is looked for first need not come first. -/
theorem pinned_name : pinned.text = "pkg~=1,==1".toList ∧
    extractDependencyBaseName pinned.text = "pkg~=1,".toList ∧ extractDependencyBaseName pinned.text ≠ pinned.name.text := by
  decide

end Names
end Requirements
end Allama
