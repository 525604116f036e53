import Mathlib.Data.List.Infix
import Allama.Expressions

/-! Octet streams as `StreamReader` and `bytes` read them, and the messages of HTTP/1.1 on such a stream. -/
namespace Allama
namespace Http
variable {p : Char → Bool} {t : Text} {d : Char}

/-- An octet is the character of its number. -/
abbrev Octets := List Char

def crlf : Octets := ['\r','\n']

section Lines

/-- The lines that successive calls of `readline` find; the last may lack its end. -/
def linesOf : Octets → List Octets
  | [] => []
  | c :: rest =>
    if c = '\n' then [c] :: linesOf rest
    else match linesOf rest with
      | [] => [[c]]
      | line :: lines => (c :: line) :: lines

/-- `data.split(b"\r\n")`. -/
def splitCrlf : Octets → List Octets
  | [] => [[]]
  | '\r' :: '\n' :: rest => [] :: splitCrlf rest
  | c :: rest =>
    match splitCrlf rest with
    | [] => [[c]]
    | line :: lines => (c :: line) :: lines

/-- The limit of a `StreamReader`, of 64 KiB. -/
def readerLimit : ℕ := 65536

/-- `readline` raises for a line with more octets before its end. -/
def overruns (line : Octets) : Bool :=
  readerLimit < (if line.getLast? = some '\n' then line.length - 1 else line.length)

theorem flatten_linesOf (data : Octets) : (linesOf data).flatten = data := by
  fun_induction linesOf data with
  | case1 => rfl
  | case2 rest ih => simp only [List.flatten_cons, List.singleton_append, ih]
  | case3 rest c hc hrest ih => simp_all
  | case4 rest c hc line lines hrest ih => simp_all

theorem linesOf_line {l : Octets} (h : '\n' ∉ l) (rest : Octets) :
    linesOf (l ++ '\n' :: rest) = (l ++ ['\n']) :: linesOf rest := by
  induction l with
  | nil => simp [linesOf]
  | cons c l ih =>
    obtain ⟨hc,hl⟩ := List.ne_and_not_mem_of_not_mem_cons h
    rw [List.cons_append, linesOf, if_neg (Ne.symm hc), ih hl]
    rfl

theorem splitCrlf_line {l : Octets} (h : '\r' ∉ l) (rest : Octets) :
    splitCrlf (l ++ (crlf ++ rest)) = l :: splitCrlf rest := by
  induction l with
  | nil => simp [crlf, splitCrlf]
  | cons c l ih =>
    obtain ⟨hc,hl⟩ := List.ne_and_not_mem_of_not_mem_cons h
    rw [List.cons_append, splitCrlf, ih hl]
    intro tail heq
    exact absurd heq (Ne.symm hc)

theorem not_overruns {l : Octets} (h : l.length ≤ readerLimit) : overruns (l ++ ['\n']) = false := by
  unfold overruns
  rw [List.getLast?_append_cons]
  simpa using h

end Lines

section Texts

/-- `lower`. Of the letters outside ASCII only the Kelvin sign is lowered to one of ASCII, a `k`. -/
def lower (t : Text) : Text := t.map Char.toLower

def decodeUtf8 (data : Octets) : Option Text :=
  (String.fromUTF8? (data.map fun c => UInt8.ofNat c.toNat).toByteArray).map String.toList

def encodeUtf8 (t : Text) : Octets := (t.flatMap String.utf8EncodeChar).map fun b => Char.ofNat b.toNat

def Ascii (t : Text) : Prop := ∀ c ∈ t, c.toNat < 128

instance (t : Text) : Decidable (Ascii t) := List.decidableBAll _ t

theorem Ascii.append {a b : Text} (ha : Ascii a) (hb : Ascii b) : Ascii (a ++ b) := by
  intro c hc
  exact (List.mem_append.mp hc).elim (ha c) (hb c)

theorem decodeUtf8_ascii (h : Ascii t) : decodeUtf8 t = some t := by
  have hbytes : t.map (fun c => UInt8.ofNat c.toNat) = t.flatMap String.utf8EncodeChar := by
    induction t with
    | nil => rfl
    | cons c t ih =>
      have hc : c.val.toNat ≤ 127 := Nat.le_of_lt_succ (h c List.mem_cons_self)
      rw [List.map_cons, List.flatMap_cons, ih fun d hd => h d (List.mem_cons_of_mem c hd)]
      unfold String.utf8EncodeChar
      rw [if_pos hc]
      rfl
  have htext : (t.map fun c => UInt8.ofNat c.toNat).toByteArray = (String.ofList t).toByteArray := by
    rw [hbytes, String.toByteArray_ofList]
    rfl
  unfold decodeUtf8
  rw [htext, String.fromUTF8?, dif_pos (String.ofList t).isValidUTF8]
  exact congrArg some (String.toList_ofList)

theorem encoded_cons {c : Char} {rest : List UInt8} (hc : c.toNat < 128)
    (h : (d :: t).flatMap String.utf8EncodeChar = UInt8.ofNat c.toNat :: rest) :
    d = c ∧ t.flatMap String.utf8EncodeChar = rest := by
  rw [List.flatMap_cons] at h
  by_cases hd : d.toNat < 128
  · have hone : String.utf8EncodeChar d = [UInt8.ofNat d.toNat] := by
      unfold String.utf8EncodeChar
      exact if_pos (Nat.le_of_lt_succ hd)
    rw [hone, List.singleton_append, List.cons.injEq] at h
    have hnat : (UInt8.ofNat d.toNat).toNat = (UInt8.ofNat c.toNat).toNat := congrArg UInt8.toNat h.1
    rw [UInt8.toNat_ofNat', UInt8.toNat_ofNat'] at hnat
    exact ⟨Char.toNat_inj.mp (by omega),h.2⟩
  · exfalso
    have hmany : ∃ n bytes, 0xc0 ≤ n % 256 ∧ String.utf8EncodeChar d = UInt8.ofNat n :: bytes := by
      have hval : ¬ d.val.toNat ≤ 0x7f := fun hle => hd (Nat.lt_succ_of_le hle)
      unfold String.utf8EncodeChar
      dsimp only
      rw [if_neg hval]
      split_ifs
      · exact ⟨_,_,by omega,rfl⟩
      · exact ⟨_,_,by omega,rfl⟩
      · exact ⟨_,_,by omega,rfl⟩
    obtain ⟨n,bytes,hn,hbytes⟩ := hmany
    rw [hbytes, List.cons_append, List.cons.injEq] at h
    have hnat : (UInt8.ofNat n).toNat = (UInt8.ofNat c.toNat).toNat := congrArg UInt8.toNat h.1
    rw [UInt8.toNat_ofNat', UInt8.toNat_ofNat'] at hnat
    omega

theorem decodeUtf8_append {a r : Octets} (ha : Ascii a) (h : decodeUtf8 (a ++ r) = some t) :
    ∃ rest, t = a ++ rest := by
  obtain ⟨s,hs,rfl⟩ := Option.map_eq_some_iff.mp h
  have hbytes : s.toList.flatMap String.utf8EncodeChar = (a ++ r).map fun c => UInt8.ofNat c.toNat := by
    rw [String.fromUTF8?] at hs
    split at hs
    · cases hs
      apply List.toByteArray_inj.mp
      change List.utf8Encode _ = _
      rw [← String.toByteArray_ofList, String.ofList_toList]
      rfl
    · cases hs
  generalize s.toList = t at hbytes
  clear hs h
  induction a generalizing t with
  | nil => exact ⟨t,rfl⟩
  | cons c a ih =>
    have hc := ha c List.mem_cons_self
    cases t with
    | nil => cases hbytes
    | cons d t =>
      obtain ⟨rfl,hrest⟩ := encoded_cons hc hbytes
      obtain ⟨rest,rfl⟩ := ih (fun e he => ha e (List.mem_cons_of_mem _ he)) t hrest
      exact ⟨rest,rfl⟩
/-- The code points of the decimal digits for zero; those for one to nine follow each. -/
def decimalZeros : List ℕ :=
  [0x30,0x660,0x6f0,0x7c0,0x966,0x9e6,0xa66,0xae6,0xb66,0xbe6,0xc66,0xce6,0xd66,0xde6,0xe50,0xed0,0xf20,0x1040,0x1090,
    0x17e0,0x1810,0x1946,0x19d0,0x1a80,0x1a90,0x1b50,0x1bb0,0x1c40,0x1c50,0xa620,0xa8d0,0xa900,0xa9d0,0xa9f0,0xaa50,
    0xabf0,0xff10,0x104a0,0x10d30,0x11066,0x110f0,0x11136,0x111d0,0x112f0,0x11450,0x114d0,0x11650,0x116c0,0x11730,
    0x118e0,0x11950,0x11c50,0x11d50,0x11da0,0x11f50,0x16a60,0x16ac0,0x16b50,0x1d7ce,0x1d7d8,0x1d7e2,0x1d7ec,0x1d7f6,
    0x1e140,0x1e2f0,0x1e4f0,0x1e950,0x1fbf0]

def decimalFrom (zeros : List ℕ) (c : Char) : Option ℕ :=
  (zeros.find? fun first => first ≤ c.toNat && c.toNat < first + 10).map fun first => c.toNat - first

/-- The white space of `bytes.strip`. -/
def isAsciiSpace (c : Char) : Bool := [9,10,11,12,13,32].contains c.toNat

/-- The digits that `int` takes from one text. -/
def maxDigits : ℕ := 4300

def numeral (digits : List ℕ) : ℕ := digits.foldl (fun n d => 10 * n + d) 0

/-- The digits of a text, between which single underscores may stand. -/
def groupedDigits (decimal : Char → Option ℕ) (t : Text) : Option (List ℕ) :=
  ((t.splitOn '_').mapM fun group => if group = [] then none else group.mapM decimal).map List.flatten

def signed : Text → Bool × Text
  | '-' :: t => (true,t)
  | '+' :: t => (false,t)
  | t => (false,t)

/-- `int`, with what counts as white space and as a digit; none where it raises `ValueError`. -/
def parseInt (space : Char → Bool) (decimal : Char → Option ℕ) (t : Text) : Option ℤ :=
  let (negative,body) := signed ((t.dropWhile space).rdropWhile space)
  (groupedDigits decimal body).bind fun digits =>
    if maxDigits < digits.length then none
    else some (if negative then - (numeral digits : ℤ) else numeral digits)

def intOfBytes : Octets → Option ℤ := parseInt isAsciiSpace (decimalFrom [0x30])

def intOfText : Text → Option ℤ := parseInt isSpace (decimalFrom decimalZeros)

def IsDigit (c : Char) : Prop := 48 ≤ c.toNat ∧ c.toNat < 58

instance (c : Char) : Decidable (IsDigit c) := inferInstanceAs (Decidable (_ ∧ _))

def number (t : Text) : ℕ := numeral (t.map fun c => c.toNat - 48)

theorem IsDigit.not_mem (h : ∀ c ∈ t, IsDigit c) (hd : ¬ IsDigit d) : d ∉ t := by
  intro hmem
  exact hd (h d hmem)

theorem isDigits_of (h : (t.all fun c => decide (IsDigit c)) = true) : ∀ c ∈ t, IsDigit c :=
  fun c hc => of_decide_eq_true (List.all_eq_true.mp h c hc)

theorem IsDigit.not_space {c : Char} (h : IsDigit c) : isSpace c = false := by
  have hcodes : ∀ n < 58, 48 ≤ n → spaceCodes.contains n = false := by decide
  exact hcodes c.toNat h.2 h.1

theorem IsDigit.not_asciiSpace {c : Char} (h : IsDigit c) : isAsciiSpace c = false := by
  have hcodes : ∀ n < 58, 48 ≤ n → [9,10,11,12,13,32].contains n = false := by decide
  exact hcodes c.toNat h.2 h.1

theorem IsDigit.decimalFrom {c : Char} (h : IsDigit c) (zeros : List ℕ) :
    decimalFrom (0x30 :: zeros) c = some (c.toNat - 48) := by
  unfold Http.decimalFrom
  have hfirst : (decide (0x30 ≤ c.toNat) && decide (c.toNat < 0x30 + 10)) = true := by
    simpa [IsDigit] using h
  rw [List.find?_cons, hfirst]
  rfl

theorem mapM_eq_map {A B : Type} {f : A → Option B} {g : A → B} {xs : List A} (h : ∀ x ∈ xs, f x = some (g x)) :
    xs.mapM f = some (xs.map g) := by
  induction xs with
  | nil => rfl
  | cons x xs ih =>
    rw [List.mapM_cons, h x List.mem_cons_self, ih fun y hy => h y (List.mem_cons_of_mem x hy)]
    rfl

theorem dropWhile_none (h : ∀ c ∈ t, p c = false) : t.dropWhile p = t := by
  cases t with
  | nil => rfl
  | cons c t => exact List.dropWhile_cons_of_neg (by simp [h c List.mem_cons_self])

theorem trimmed_none (h : ∀ c ∈ t, p c = false) : (t.dropWhile p).rdropWhile p = t := by
  rw [dropWhile_none h, List.rdropWhile, dropWhile_none fun c hc => h c (List.mem_reverse.mp hc), List.reverse_reverse]

section
variable (hne : t ≠ []) (h : ∀ c ∈ t, IsDigit c)
include hne h

theorem groupedDigits_digits {decimal : Char → Option ℕ} (hdecimal : ∀ c ∈ t, decimal c = some (c.toNat - 48)) :
    groupedDigits decimal t = some (t.map fun c => c.toNat - 48) := by
  unfold groupedDigits
  rw [List.splitOn_eq_singleton (IsDigit.not_mem h (by decide)), List.mapM_cons, if_neg hne, mapM_eq_map hdecimal]
  simp

theorem parseInt_digits {space : Char → Bool} {decimal : Char → Option ℕ} (hspace : ∀ c ∈ t, space c = false)
    (hdecimal : ∀ c ∈ t, decimal c = some (c.toNat - 48)) :
    parseInt space decimal t = if maxDigits < t.length then none else some (number t : ℤ) := by
  have hsigned : signed t = (false,t) := by
    unfold signed
    split
    · exact absurd List.mem_cons_self (IsDigit.not_mem h (by decide))
    · exact absurd List.mem_cons_self (IsDigit.not_mem h (by decide))
    · rfl
  unfold parseInt
  rw [trimmed_none hspace, hsigned]
  dsimp only
  rw [groupedDigits_digits hne h hdecimal, Option.bind_some, List.length_map]
  rfl

theorem intOfBytes_digits : intOfBytes t = if maxDigits < t.length then none else some (number t : ℤ) :=
  parseInt_digits hne h (fun c hc => (h c hc).not_asciiSpace) fun c hc => (h c hc).decimalFrom []

theorem intOfText_digits : intOfText t = if maxDigits < t.length then none else some (number t : ℤ) :=
  parseInt_digits hne h (fun c hc => (h c hc).not_space) fun c hc => (h c hc).decimalFrom _

theorem intOfText_negative : intOfText ('-' :: t) = if maxDigits < t.length then none else some (-(number t : ℤ)) := by
  have hspace : ∀ c ∈ '-' :: t, isSpace c = false := by
    intro c hc
    rcases List.mem_cons.mp hc with rfl | hc
    · decide
    · exact (h c hc).not_space
  have hgroups : groupedDigits (decimalFrom decimalZeros) t = some (t.map fun c => c.toNat - 48) :=
    groupedDigits_digits hne h fun c hc => (h c hc).decimalFrom _
  unfold intOfText parseInt
  rw [trimmed_none hspace, signed]
  dsimp only
  rw [hgroups, Option.bind_some, List.length_map]
  rfl

end

theorem isDigit_of_mem_toDigits {n : ℕ} {c : Char} (hc : c ∈ Nat.toDigits 10 n) : IsDigit c := by
  have hdigit : c.isDigit = true := Nat.isDigit_of_mem_toDigits (by decide) (by decide) hc
  unfold Char.isDigit at hdigit
  rw [Bool.and_eq_true, decide_eq_true_eq, decide_eq_true_eq] at hdigit
  exact ⟨hdigit.1,Nat.lt_succ_of_le hdigit.2⟩

theorem number_toDigits (n : ℕ) : number (Nat.toDigits 10 n) = n := by
  unfold number numeral
  rw [List.foldl_map]
  exact Nat.ofDigitChars_ten_toDigits

theorem dropWhile_blanks {w : Text} (hw : ∀ c ∈ w, p c = true)
    (ht : ∀ c, t.head? = some c → p c = false) : (w ++ t).dropWhile p = t := by
  rw [List.dropWhile_append_of_pos hw]
  cases t with
  | nil => rfl
  | cons c t => exact List.dropWhile_cons_of_neg (by simp [ht c rfl])

theorem rdropWhile_blanks {w : Text} (hw : ∀ c ∈ w, p c = true)
    (ht : ∀ c, t.getLast? = some c → p c = false) : (t ++ w).rdropWhile p = t := by
  have hreverse : (w.reverse ++ t.reverse).dropWhile p = t.reverse := by
    refine dropWhile_blanks (fun c hc => hw c (List.mem_reverse.mp hc)) ?_
    intro c hc
    exact ht c (by rwa [List.head?_reverse] at hc)
  rw [List.rdropWhile, List.reverse_append, hreverse, List.reverse_reverse]

theorem trimmed_blanks {v w : Text} (hv : ∀ c ∈ v, p c = true) (hw : ∀ c ∈ w, p c = true)
    (hfirst : ∀ c, t.head? = some c → p c = false) (hlast : ∀ c, t.getLast? = some c → p c = false) :
    ((v ++ (t ++ w)).dropWhile p).rdropWhile p = t := by
  cases t with
  | nil =>
    have hall : ∀ c ∈ v ++ w, p c = true := by
      intro c hc
      exact (List.mem_append.mp hc).elim (hv c) (hw c)
    rw [List.nil_append, ← List.append_nil (v ++ w), dropWhile_blanks hall (by simp)]
    rfl
  | cons c t =>
    have hhead : ∀ d, (c :: t ++ w).head? = some d → p d = false := by
      intro d hd
      exact hfirst d hd
    rw [dropWhile_blanks hv hhead, rdropWhile_blanks hw hlast]

end Texts

section Grammar

def tokenMarks : List ℕ := [0x21,0x23,0x24,0x25,0x26,0x27,0x2a,0x2b,0x2d,0x2e,0x5e,0x5f,0x60,0x7c,0x7e]

def isTokenChar (c : Char) : Bool := c.isAlphanum || tokenMarks.contains c.toNat

def IsToken (t : Octets) : Prop := t ≠ [] ∧ ∀ c ∈ t, isTokenChar c = true

def isBlank (c : Char) : Bool := c = ' ' || c = '\t'

def isVisible (c : Char) : Bool := 0x21 ≤ c.toNat && c.toNat ≤ 0x7e

def isFieldChar (c : Char) : Bool := isVisible c || isBlank c || (0x80 ≤ c.toNat && c.toNat ≤ 0xff)

/-- A field of a message's head, with the blanks around its value. -/
structure Field where
  name : Octets
  before : Octets
  value : Octets
  after : Octets
  name_token : IsToken name
  before_blank : ∀ c ∈ before, isBlank c = true
  after_blank : ∀ c ∈ after, isBlank c = true
  value_chars : ∀ c ∈ value, isFieldChar c = true
  value_first : ∀ c, value.head? = some c → isBlank c = false
  value_last : ∀ c, value.getLast? = some c → isBlank c = false

def Field.line (f : Field) : Octets := f.name ++ ':' :: (f.before ++ (f.value ++ f.after))

def Field.named (key : Octets) (f : Field) : Bool := lower f.name = key

/-- How the end of a message's body is told. -/
inductive Framing
  | bare
  | sized (digits content : Octets)
  | chunked (chunks : List Octets)

def Framing.content : Framing → Octets
  | .bare => []
  | .sized _ content => content
  | .chunked chunks => chunks.flatten

def chunkOctets (chunk : Octets) : Octets := Nat.toDigits 16 chunk.length ++ (crlf ++ (chunk ++ crlf))

/-- The octets of the body on the wire. -/
def Framing.wire : Framing → Octets
  | .bare => []
  | .sized _ content => content
  | .chunked chunks => chunks.flatMap chunkOctets ++ '0' :: (crlf ++ crlf)

def Framing.lengths : Framing → List Octets
  | .bare => []
  | .sized digits _ => [digits]
  | .chunked _ => []

def Framing.WellFormed : Framing → Prop
  | .bare => True
  | .sized digits content => digits ≠ [] ∧ (∀ c ∈ digits, IsDigit c) ∧ number digits = content.length
  | .chunked chunks => ∀ chunk ∈ chunks, chunk ≠ []

def contentLengthKey : Octets := "content-length".toList

def transferEncodingKey : Octets := "transfer-encoding".toList

/-- The fields that concern one connection, and `Host`, which names its end. -/
def hopByHop : List Octets :=
  ["connection","keep-alive","proxy-authenticate","proxy-authorization","te","trailer","transfer-encoding","upgrade",
    "host"].map String.toList

def endToEnd (name : Octets) : Bool := !hopByHop.contains (lower name)

/-- A request of HTTP/1.1 as its grammar allows it. -/
structure Request where
  method : Octets
  target : Octets
  fields : List Field
  framing : Framing
  method_token : IsToken method
  target_visible : target ≠ [] ∧ ∀ c ∈ target, isVisible c = true
  framing_wellFormed : framing.WellFormed
  lengths_eq : (fields.filter (Field.named contentLengthKey)).map Field.value = framing.lengths
  coded_iff : (∃ f ∈ fields, f.named transferEncodingKey = true) ↔ ∃ chunks, framing = .chunked chunks
  hops_ascii : ∀ f ∈ fields, endToEnd f.name = false → Ascii f.value

def Request.startLine (r : Request) : Octets := r.method ++ ' ' :: (r.target ++ " HTTP/1.1".toList)

def Request.headLines (r : Request) : List Octets := r.startLine :: r.fields.map Field.line

def headOctets (lines : List Octets) : Octets := lines.flatMap (fun line => line ++ crlf) ++ crlf

def Request.wire (r : Request) : Octets := headOctets r.headLines ++ r.framing.wire

theorem not_mem_of_all {t : Octets} (h : ∀ c ∈ t, p c = true) (hd : p d = false) : d ∉ t := by
  intro hmem
  rw [h d hmem] at hd
  cases hd

theorem isToken_of {t : Octets} (hne : t ≠ []) (h : t.all isTokenChar = true) : IsToken t := ⟨hne,List.all_eq_true.mp h⟩

theorem isVisible_of_token {c : Char} (h : isTokenChar c = true) : isVisible c = true := by
  have hmarks : ∀ n ∈ tokenMarks, 0x21 ≤ n ∧ n ≤ 0x7e := by decide
  unfold isVisible
  rw [Bool.and_eq_true, decide_eq_true_eq, decide_eq_true_eq]
  obtain halnum | hmark := Bool.or_eq_true_iff.mp h
  · change ((decide ('A'.toNat ≤ c.toNat ∧ c.toNat ≤ 'Z'.toNat) || (decide ('a'.toNat ≤ c.toNat) && decide (c.toNat ≤ 'z'.toNat))) ||
      (decide ('0'.toNat ≤ c.toNat) && decide (c.toNat ≤ '9'.toNat))) = true at halnum
    simp only [Bool.or_eq_true, Bool.and_eq_true, decide_eq_true_eq] at halnum
    change (65 ≤ c.toNat ∧ c.toNat ≤ 90 ∨ 97 ≤ c.toNat ∧ c.toNat ≤ 122) ∨ 48 ≤ c.toNat ∧ c.toNat ≤ 57 at halnum
    omega
  · exact hmarks _ (List.contains_iff_mem.mp hmark)

theorem not_space_of_visible {c : Char} (h : isVisible c = true) : isSpace c = false := by
  have hcodes : ∀ n < 0x7f, 0x21 ≤ n → spaceCodes.contains n = false := by decide
  obtain ⟨hlow,hhigh⟩ := Bool.and_eq_true_iff.mp h
  exact hcodes c.toNat (Nat.lt_succ_of_le (of_decide_eq_true hhigh)) (of_decide_eq_true hlow)

theorem ascii_of_visible {t : Octets} (h : ∀ c ∈ t, isVisible c = true) : Ascii t := by
  intro c hc
  obtain ⟨_,hhigh⟩ := Bool.and_eq_true_iff.mp (h c hc)
  have := of_decide_eq_true hhigh
  omega

theorem blank_cases {c : Char} (h : isBlank c = true) : c = ' ' ∨ c = '\t' := by
  simpa [isBlank] using h

theorem space_of_blank {c : Char} (h : isBlank c = true) : isSpace c = true := by
  obtain rfl | rfl := blank_cases h <;> decide

theorem asciiSpace_of_blank {c : Char} (h : isBlank c = true) : isAsciiSpace c = true := by
  obtain rfl | rfl := blank_cases h <;> decide

theorem ascii_of_blank {t : Octets} (h : ∀ c ∈ t, isBlank c = true) : Ascii t := by
  intro c hc
  obtain rfl | rfl := blank_cases (h c hc) <;> decide

theorem visible_of_fieldChar {c : Char} (h : isFieldChar c = true) (hascii : c.toNat < 128) (hblank : isBlank c = false) :
    isVisible c = true := by
  unfold isFieldChar at h
  rw [hblank, Bool.or_false] at h
  obtain hvisible | hbeyond := Bool.or_eq_true_iff.mp h
  · exact hvisible
  · have := of_decide_eq_true (Bool.and_eq_true_iff.mp hbeyond).1
    omega

theorem Field.line_chars (f : Field) : ∀ c ∈ f.line, isFieldChar c = true := by
  intro c hc
  simp only [Field.line, List.mem_append, List.mem_cons] at hc
  obtain hname | rfl | hbefore | hvalue | hafter := hc
  · simp [isFieldChar, isVisible_of_token (f.name_token.2 c hname)]
  · decide
  · simp [isFieldChar, f.before_blank c hbefore]
  · exact f.value_chars c hvalue
  · simp [isFieldChar, f.after_blank c hafter]

theorem Request.startLine_chars (r : Request) : ∀ c ∈ r.startLine, isFieldChar c = true := by
  have hversion : ∀ c ∈ " HTTP/1.1".toList, isFieldChar c = true := List.all_eq_true.mp (by decide)
  intro c hc
  rw [Request.startLine, List.mem_append, List.mem_cons, List.mem_append] at hc
  obtain hmethod | rfl | htarget | hend := hc
  · simp [isFieldChar, isVisible_of_token (r.method_token.2 c hmethod)]
  · decide
  · simp [isFieldChar, r.target_visible.2 c htarget]
  · exact hversion c hend

theorem Request.headLines_plain (r : Request) : ∀ l ∈ r.headLines, l ≠ [] ∧ '\r' ∉ l ∧ '\n' ∉ l := by
  have hplain : ∀ l : Octets, (∀ c ∈ l, isFieldChar c = true) → '\r' ∉ l ∧ '\n' ∉ l :=
    fun l hl => ⟨not_mem_of_all hl (by decide),not_mem_of_all hl (by decide)⟩
  intro l hl
  obtain rfl | hfield := List.mem_cons.mp hl
  · exact ⟨List.append_ne_nil_of_right_ne_nil _ (List.cons_ne_nil _ _),hplain _ r.startLine_chars⟩
  · obtain ⟨f,_,rfl⟩ := List.mem_map.mp hfield
    exact ⟨List.append_ne_nil_of_right_ne_nil _ (List.cons_ne_nil _ _),hplain _ f.line_chars⟩

theorem linesOf_head {lines : List Octets} (h : ∀ l ∈ lines, '\n' ∉ l) (rest : Octets) :
    linesOf (headOctets lines ++ rest) = lines.map (fun l => l ++ crlf) ++ crlf :: linesOf rest := by
  induction lines with
  | nil => exact linesOf_line (l := ['\r']) (by decide) rest
  | cons l lines ih =>
    have hl : '\n' ∉ l ++ ['\r'] := by
      have := h l List.mem_cons_self
      simpa using this
    have hsplit : headOctets (l :: lines) ++ rest = (l ++ ['\r']) ++ '\n' :: (headOctets lines ++ rest) := by
      simp [headOctets, crlf]
    rw [hsplit, linesOf_line hl, ih fun k hk => h k (List.mem_cons_of_mem l hk)]
    simp [crlf]

theorem splitCrlf_head {lines : List Octets} (h : ∀ l ∈ lines, '\r' ∉ l) :
    splitCrlf (headOctets lines) = lines ++ [[],[]] := by
  induction lines with
  | nil => rfl
  | cons l lines ih =>
    have hsplit : headOctets (l :: lines) = l ++ (crlf ++ headOctets lines) := by
      simp [headOctets]
    rw [hsplit, splitCrlf_line (h l List.mem_cons_self), ih fun k hk => h k (List.mem_cons_of_mem l hk)]
    rfl

theorem key_prefix_iff {key name : Octets} (hkey : ':' ∉ key) (hname : ':' ∉ name) (rest : Octets) :
    (key ++ [':']).isPrefixOf (name ++ ':' :: rest) = true ↔ name = key := by
  induction key generalizing name with
  | nil =>
    cases name with
    | nil => simp
    | cons c name => simpa using fun h : ':' = c => hname (h ▸ List.mem_cons_self)
  | cons k key ih =>
    obtain ⟨hk,hkey⟩ := List.ne_and_not_mem_of_not_mem_cons hkey
    cases name with
    | nil => simpa using fun h : k = ':' => absurd h.symm hk
    | cons c name =>
      rw [List.cons_append, List.cons_append, List.isPrefixOf_cons_cons, Bool.and_eq_true,
        ih hkey (fun hmem => hname (List.mem_cons_of_mem c hmem)), beq_iff_eq, List.cons.injEq]
      exact and_congr_left' eq_comm

theorem key_not_prefix {key name : Octets} (hkey : ' ' ∉ key) (hname : ':' ∉ name) (rest : Octets) :
    (key ++ [':']).isPrefixOf (name ++ ' ' :: rest) = false := by
  induction key generalizing name with
  | nil =>
    cases name with
    | nil => rfl
    | cons c name =>
      have hc : (':' == c) = false := beq_eq_false_iff_ne.mpr fun h => hname (h ▸ List.mem_cons_self)
      rw [List.nil_append, List.cons_append, List.isPrefixOf_cons_cons, hc, Bool.false_and]
  | cons k key ih =>
    obtain ⟨hk,hkey⟩ := List.ne_and_not_mem_of_not_mem_cons hkey
    cases name with
    | nil =>
      have hne : (k == ' ') = false := beq_eq_false_iff_ne.mpr (Ne.symm hk)
      rw [List.cons_append, List.nil_append, List.isPrefixOf_cons_cons, hne, Bool.false_and]
    | cons c name =>
      rw [List.cons_append, List.cons_append, List.isPrefixOf_cons_cons,
        ih hkey fun hmem => hname (List.mem_cons_of_mem c hmem), Bool.and_false]

end Grammar
end Http
end Allama
