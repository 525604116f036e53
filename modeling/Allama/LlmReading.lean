import Allama.LlmForwarding

/-! What the bridge and the proxy read of a request of HTTP/1.1. -/
namespace Allama
namespace LlmForwarding
open Http RecordFields
variable (f : Field) {t : Octets} {c : Char}
section Lines

theorem overruns_line {l : Octets} (h : l.length < readerLimit) : overruns (l ++ crlf) = false := by
  have hline : l ++ crlf = (l ++ ['\r']) ++ ['\n'] := by simp [crlf]
  rw [hline]
  apply not_overruns
  rw [List.length_append]
  exact h

theorem line_ne_crlf {l : Octets} (h : l ≠ []) : l ++ crlf ≠ crlf := by
  intro heq
  exact h (List.append_left_eq_self.mp heq)

theorem readHead_lines {lines : List Octets} (h : ∀ l ∈ lines, l ≠ [] ∧ l.length < readerLimit) (rest : List Octets) :
    readHead (lines.map (fun l => l ++ crlf) ++ crlf :: rest) = .ok (headOctets lines,rest.flatten) := by
  induction lines with
  | nil => rfl
  | cons l lines ih =>
    obtain ⟨hne,hlength⟩ := h l List.mem_cons_self
    rw [List.map_cons, List.cons_append, readHead, overruns_line hlength, if_neg Bool.false_ne_true,
      if_neg (line_ne_crlf hne), ih fun k hk => h k (List.mem_cons_of_mem l hk)]
    simp [Except.map, headOctets]

theorem not_colon_of_lower (h : ∀ c ∈ t, isTokenChar c = true) : ':' ∉ lower t := by
  have hlower : ∀ n < 128, (Char.ofNat n).toLower = ':' → isTokenChar (Char.ofNat n) = false := by decide
  intro hmem
  obtain ⟨c,hc,heq⟩ := List.mem_map.mp hmem
  have hchar := h c hc
  have hascii := ascii_of_visible (fun d hd => isVisible_of_token (h d hd)) c hc
  have hnot := hlower c.toNat hascii
  rw [Char.ofNat_toNat] at hnot
  rw [hnot heq] at hchar
  cases hchar

theorem lower_line :
    lower f.line = lower f.name ++ ':' :: lower (f.before ++ (f.value ++ f.after)) := by
  simp [lower, Field.line]

theorem isPrefixOf_line :
    (contentLengthKey ++ [':']).isPrefixOf (lower f.line) = f.named contentLengthKey := by
  rw [lower_line, Bool.eq_iff_iff, key_prefix_iff (by decide) (not_colon_of_lower f.name_token.2), Field.named,
    decide_eq_true_eq]

theorem afterColon_line : afterColon f.line = f.before ++ (f.value ++ f.after) := by
  have hcolon : ∀ c ∈ f.name, (decide (c ≠ ':')) = true := by
    intro c hc
    apply decide_eq_true
    rintro rfl
    exact absurd (f.name_token.2 _ hc) (by decide)
  unfold afterColon Field.line
  rw [List.dropWhile_append_of_pos hcolon, List.dropWhile_cons_of_neg (by decide)]
  rfl

end Lines

section Bridge

theorem length_fields (r : Request) : match r.framing with
    | .sized digits _ => ∃ f, r.fields.filter (Field.named contentLengthKey) = [f] ∧ f.value = digits
    | _ => r.fields.filter (Field.named contentLengthKey) = [] := by
  have hlengths := r.lengths_eq
  cases hframing : r.framing with
  | bare =>
    rw [hframing] at hlengths
    exact List.map_eq_nil_iff.mp hlengths
  | chunked chunks =>
    rw [hframing] at hlengths
    exact List.map_eq_nil_iff.mp hlengths
  | sized digits content =>
    rw [hframing] at hlengths
    exact List.map_eq_singleton_iff.mp hlengths

/-- The part of the body that the length told lets through: `int` takes no more than `maxDigits` digits. -/
def carried : Framing → Octets
  | .bare => []
  | .sized digits content => if maxDigits < digits.length then [] else content
  | .chunked _ => []

theorem find_line (r : Request) :
    ((r.headLines ++ [[],[]]).find? fun line => (contentLengthKey ++ [':']).isPrefixOf (lower line)) =
      (r.fields.filter (Field.named contentLengthKey)).head?.map Field.line := by
  have hstart : (contentLengthKey ++ [':']).isPrefixOf (lower r.startLine) = false := by
    have hlower : lower r.startLine = lower r.method ++ ' ' :: lower (r.target ++ " HTTP/1.1".toList) := by
      simp [lower, Request.startLine]
    rw [hlower]
    exact key_not_prefix (by decide) (not_colon_of_lower r.method_token.2) _
  have htail : ([[],[]] : List Octets).find? (fun line => (contentLengthKey ++ [':']).isPrefixOf (lower line)) = none := by
    decide
  rw [Request.headLines, List.cons_append, List.find?_cons, hstart, List.find?_append, htail, Option.or_none,
    List.find?_map, List.head?_filter]
  have hline : (fun line => (contentLengthKey ++ [':']).isPrefixOf (lower line)) ∘ Field.line =
      Field.named contentLengthKey := funext isPrefixOf_line
  rw [hline]

theorem carried_le (r : Request) : (carried r.framing).length ≤ r.framing.content.length := by
  unfold carried
  cases r.framing with
  | bare => exact Nat.zero_le _
  | chunked chunks => exact Nat.zero_le _
  | sized digits content =>
    dsimp only [Framing.content]
    split_ifs
    · exact Nat.zero_le _
    · exact Nat.le_refl _

theorem length_carried {digits content : Octets} (h : (Framing.sized digits content).WellFormed) :
    (if maxDigits < digits.length then none else some (number digits : ℤ)).getD 0 =
      ((carried (.sized digits content)).length : ℤ) := by
  dsimp only [carried]
  split_ifs
  · rfl
  · exact congrArg Nat.cast h.2.2

theorem stripBytes_value {f : Field} (h : ∀ c ∈ f.value, IsDigit c) :
    stripBytes (f.before ++ (f.value ++ f.after)) = f.value := by
  refine trimmed_blanks (fun c hc => asciiSpace_of_blank (f.before_blank c hc))
    (fun c hc => asciiSpace_of_blank (f.after_blank c hc)) ?_ ?_
  · intro c hc
    exact (h c (List.mem_of_mem_head? hc)).not_asciiSpace
  · intro c hc
    exact (h c (List.mem_of_mem_getLast? hc)).not_asciiSpace

theorem contentLengthOf_head (r : Request) :
    contentLengthOf (headOctets r.headLines) = ((carried r.framing).length : ℤ) := by
  have hfields := length_fields r
  have hwellFormed := r.framing_wellFormed
  unfold contentLengthOf
  rw [splitCrlf_head fun l hl => (r.headLines_plain l hl).2.1, find_line]
  cases hframing : r.framing with
  | bare =>
    rw [hframing] at hfields
    rw [hfields]
    rfl
  | chunked chunks =>
    rw [hframing] at hfields
    rw [hfields]
    rfl
  | sized digits content =>
    rw [hframing] at hfields hwellFormed
    obtain ⟨f,hf,rfl⟩ := hfields
    rw [hf]
    dsimp only [List.head?_cons, Option.map_some]
    rw [afterColon_line, stripBytes_value hwellFormed.2.1, intOfBytes_digits hwellFormed.1 hwellFormed.2.1,
      length_carried hwellFormed]

/-- The sizes that the bridge and the proxy accept, of the body and of each line. -/
structure WithinLimits (r : Request) : Prop where
  content : r.framing.content.length ≤ maxBodySize
  lines : ∀ l ∈ r.headLines, l.length < readerLimit

variable {r : Request}

theorem WithinLimits.readable (h : WithinLimits r) : ∀ l ∈ r.headLines, l ≠ [] ∧ l.length < readerLimit :=
  fun l hl => ⟨(r.headLines_plain l hl).1,h.lines l hl⟩

theorem WithinLimits.carried (h : WithinLimits r) : ¬ (maxBodySize : ℤ) < ((carried r.framing).length : ℤ) := by
  have hle := carried_le r
  have hcontent := h.content
  omega

theorem wire_carried (r : Request) : ∃ rest, r.framing.wire = carried r.framing ++ rest := by
  unfold carried
  cases r.framing with
  | bare => exact ⟨_,rfl⟩
  | chunked chunks => exact ⟨_,rfl⟩
  | sized digits content =>
    dsimp only [Framing.wire]
    split_ifs
    · exact ⟨content,rfl⟩
    · exact ⟨[],(List.append_nil content).symm⟩

theorem readHttpRequest_wire (h : WithinLimits r) (later : Octets) :
    readHttpRequest (r.wire ++ later) = .ok (headOctets r.headLines ++ carried r.framing) := by
  obtain ⟨rest,hrest⟩ := wire_carried r
  unfold readHttpRequest
  rw [Request.wire, List.append_assoc, linesOf_head fun l hl => (r.headLines_plain l hl).2.2, readHead_lines h.readable]
  dsimp only
  -- a body that is not let through stays on the stream, before the octets of later requests
  rw [contentLengthOf_head, if_neg h.carried, flatten_linesOf, hrest, List.append_assoc, Int.toNat_natCast,
    List.take_left]
  split_ifs with hpositive hshort
  · rw [List.length_append] at hshort
    omega
  · rfl
  · have hempty : carried r.framing = [] := by
      apply List.length_eq_zero_iff.mp
      omega
    rw [hempty, List.append_nil]

end Bridge

section Proxy

theorem space_of_crlf (h : c ∈ crlf) : isSpace c = true := by
  have hcrlf : ∀ c ∈ crlf, isSpace c = true := List.all_eq_true.mp (by decide)
  exact hcrlf c h

theorem not_space_of_token (h : IsToken t) (hc : c ∈ t) : isSpace c = false :=
  not_space_of_visible (isVisible_of_token (h.2 c hc))

theorem not_colon_of_token (h : IsToken t) : ∀ c ∈ t, decide (c ≠ ':') = true := by
  intro c hc
  apply decide_eq_true
  rintro rfl
  exact absurd (h.2 _ hc) (by decide)

theorem strip_token (h : IsToken t) :
    strip t = t := trimmed_none fun _ hc => not_space_of_token h hc

theorem takeWhile_key (h : IsToken t) (rest : Text) :
    (t ++ ':' :: rest).takeWhile (· ≠ ':') = t := by
  rw [List.takeWhile_append_of_pos (not_colon_of_token h), List.takeWhile_cons_of_neg (by decide), List.append_nil]

theorem afterColon_key (h : IsToken t) (rest : Text) : afterColon (t ++ ':' :: rest) = rest := by
  unfold afterColon
  rw [List.dropWhile_append_of_pos (not_colon_of_token h), List.dropWhile_cons_of_neg (by decide)]
  rfl

theorem rdropWhile_last {p : Char → Bool} {t : Text} (h : (t.rdropWhile p).getLast? = some c) :
    p c = false := by
  have hne : t.rdropWhile p ≠ [] := by
    intro hnil
    rw [hnil] at h
    cases h
  have hlast := List.rdropWhile_last_not p t hne
  rw [List.getLast?_eq_some_getLast hne, Option.some.injEq] at h
  rw [h] at hlast
  exact eq_false_of_ne_true hlast

theorem strip_keyed (h : IsToken t) (rest : Text) :
    strip (t ++ ':' :: rest) = t ++ ':' :: rest.rdropWhile isSpace := by
  have hhead : ∀ c, (t ++ ':' :: rest).head? = some c → isSpace c = false := by
    intro c hc
    rw [List.head?_append_of_ne_nil _ h.1] at hc
    exact not_space_of_token h (List.mem_of_mem_head? hc)
  have hstart : (t ++ ':' :: rest).dropWhile isSpace = t ++ ':' :: rest := dropWhile_blanks (w := []) (by simp) hhead
  obtain ⟨w,hw,hrest⟩ : ∃ w, (∀ c ∈ w, isSpace c = true) ∧ rest = rest.rdropWhile isSpace ++ w :=
    ⟨rest.rtakeWhile isSpace,fun c hc => List.mem_rtakeWhile_imp hc,(List.rdropWhile_append_rtakeWhile).symm⟩
  have hlast : ∀ c, (t ++ ':' :: rest.rdropWhile isSpace).getLast? = some c → isSpace c = false := by
    intro c hc
    rw [List.getLast?_append_cons, List.getLast?_cons] at hc
    cases hstripped : (rest.rdropWhile isSpace).getLast? with
    | none =>
      rw [hstripped] at hc
      cases hc
      decide
    | some d =>
      rw [hstripped] at hc
      cases hc
      exact rdropWhile_last hstripped
  unfold strip
  rw [hstart]
  nth_rewrite 1 [hrest]
  rw [← List.cons_append, ← List.append_assoc]
  exact rdropWhile_blanks hw hlast

theorem strip_append_blanks {x w : Text} (hw : ∀ c ∈ w, isSpace c = true) : strip (x ++ w) = strip x := by
  obtain ⟨l,r,hx,hl,hr⟩ := strip_parts x
  have hparts : x ++ w = l ++ (strip x ++ (r ++ w)) := by
    rw [← List.append_assoc (strip x), ← List.append_assoc l, ← hx]
  have hright : ∀ c ∈ r ++ w, isSpace c = true := by
    intro c hc
    exact (List.mem_append.mp hc).elim (hr c) (hw c)
  rw [hparts]
  refine trimmed_blanks hl hright ?_ ?_
  · intro c hc
    obtain ⟨rest,hrest⟩ := List.head?_eq_some_iff.mp hc
    exact strip_head hrest
  · intro c hc
    obtain ⟨init,hinit⟩ := List.getLast?_eq_some_iff.mp hc
    exact strip_last hinit

theorem strip_rdropWhile (t : Text) : strip (t.rdropWhile isSpace) = strip t := by
  have hblanks : ∀ c ∈ t.rtakeWhile isSpace, isSpace c = true := fun c hc => List.mem_rtakeWhile_imp hc
  calc strip (t.rdropWhile isSpace)
      = strip (t.rdropWhile isSpace ++ t.rtakeWhile isSpace) := (strip_append_blanks hblanks).symm
    _ = strip t := by rw [List.rdropWhile_append_rtakeWhile]

theorem headerOf_keyed {line : Octets} (h : IsToken t) {rest : Text}
    (hline : decodeUtf8 line = some (t ++ ':' :: rest)) : headerOf line = some (t,strip rest) := by
  unfold headerOf
  rw [hline, Option.bind_some]
  dsimp only
  have hcolon : (t ++ ':' :: rest.rdropWhile isSpace).contains ':' = true :=
    List.contains_iff_mem.mpr (List.mem_append_right t List.mem_cons_self)
  rw [strip_keyed h, if_pos hcolon, takeWhile_key h, strip_token h, afterColon_key h, strip_rdropWhile]

theorem headerOf_line :
    headerOf (f.line ++ crlf) = none ∨ ∃ value, headerOf (f.line ++ crlf) = some (f.name,value) := by
  have hname : Ascii (f.name ++ [':']) := by
    refine Ascii.append (ascii_of_visible fun c hc => isVisible_of_token (f.name_token.2 c hc)) ?_
    decide
  have hline : f.line ++ crlf = (f.name ++ [':']) ++ (f.before ++ (f.value ++ f.after) ++ crlf) := by
    simp [Field.line]
  cases hdecoded : decodeUtf8 (f.line ++ crlf) with
  | none =>
    left
    unfold headerOf
    rw [hdecoded]
    rfl
  | some text =>
    rw [hline] at hdecoded
    obtain ⟨rest,rfl⟩ := decodeUtf8_append hname hdecoded
    rw [← hline, List.append_assoc] at hdecoded
    exact .inr ⟨_,headerOf_keyed f.name_token hdecoded⟩

theorem headerOf_ascii {f : Field} (h : Ascii f.value) : headerOf (f.line ++ crlf) = some (f.name,f.value) := by
  have hname : Ascii f.name := ascii_of_visible fun c hc => isVisible_of_token (f.name_token.2 c hc)
  have hascii : Ascii (f.name ++ ':' :: (f.before ++ (f.value ++ (f.after ++ crlf)))) := by
    refine hname.append (Ascii.append (a := [':']) (by decide) ?_)
    exact (ascii_of_blank f.before_blank).append (h.append ((ascii_of_blank f.after_blank).append (by decide)))
  have hline : f.line ++ crlf = f.name ++ ':' :: (f.before ++ (f.value ++ (f.after ++ crlf))) := by
    simp [Field.line]
  have hdecoded := decodeUtf8_ascii hascii
  rw [← hline] at hdecoded
  nth_rewrite 2 [hline] at hdecoded
  rw [headerOf_keyed f.name_token hdecoded]
  have hvalue : strip (f.before ++ (f.value ++ (f.after ++ crlf))) = f.value := by
    refine trimmed_blanks (fun c hc => space_of_blank (f.before_blank c hc)) ?_ ?_ ?_
    · intro c hc
      exact (List.mem_append.mp hc).elim (fun hafter => space_of_blank (f.after_blank c hafter)) space_of_crlf
    · intro c hc
      have hmem := List.mem_of_mem_head? hc
      exact not_space_of_visible (visible_of_fieldChar (f.value_chars c hmem) (h c hmem) (f.value_first c hc))
    · intro c hc
      have hmem := List.mem_of_mem_getLast? hc
      exact not_space_of_visible (visible_of_fieldChar (f.value_chars c hmem) (h c hmem) (f.value_last c hc))
  rw [hvalue]

variable {r : Request}

def headersOf (headers : List (Text × Text)) (fields : List Field) : List (Text × Text) :=
  fields.foldl (fun headers f =>
    match headerOf (f.line ++ crlf) with
    | none => headers
    | some (key,value) => put key value headers) headers

/-- The length of the proxy after the lines of fields. -/
def lengthOf (content_length : ℤ) (fields : List Field) : ℤ :=
  fields.foldl (fun content_length f =>
    match headerOf (f.line ++ crlf) with
    | none => content_length
    | some (key,value) => if lower key = contentLengthKey then (intOfText value).getD content_length else content_length)
    content_length

theorem readHeaders_fields {fields : List Field} (h : ∀ f ∈ fields, f.line.length < readerLimit) (rest : List Octets)
    (headers : List (Text × Text)) (content_length : ℤ) :
    readHeaders headers content_length ((fields.map Field.line).map (fun l => l ++ crlf) ++ crlf :: rest) =
      .ok (headersOf headers fields,lengthOf content_length fields,rest.flatten) := by
  induction fields generalizing headers content_length with
  | nil => rfl
  | cons f fields ih =>
    have hne : f.line ≠ [] := List.append_ne_nil_of_right_ne_nil _ (List.cons_ne_nil _ _)
    have hfields : ∀ g ∈ fields, g.line.length < readerLimit := fun g hg => h g (List.mem_cons_of_mem f hg)
    rw [List.map_cons, List.map_cons, List.cons_append, readHeaders, overruns_line (h f List.mem_cons_self),
      if_neg Bool.false_ne_true, if_neg (line_ne_crlf hne), headersOf, lengthOf, List.foldl_cons, List.foldl_cons]
    cases headerOf (f.line ++ crlf) with
    | none => exact ih hfields headers content_length
    | some header => exact ih hfields _ _

theorem lengthOf_filter (content_length : ℤ) (fields : List Field) :
    lengthOf content_length fields = lengthOf content_length (fields.filter (Field.named contentLengthKey)) := by
  induction fields generalizing content_length with
  | nil => rfl
  | cons f fields ih =>
    cases hnamed : f.named contentLengthKey with
    | true =>
      rw [List.filter_cons_of_pos hnamed]
      exact ih _
    | false =>
      -- whether or not the line can be decoded: its name is read as it stands
      have hlower : lower f.name ≠ contentLengthKey := of_decide_eq_false hnamed
      rw [List.filter_cons_of_neg (by rw [hnamed]; decide), ← ih]
      obtain hnone | ⟨value,hvalue⟩ := headerOf_line f
      · simp only [lengthOf, List.foldl_cons, hnone]
      · simp only [lengthOf, List.foldl_cons, hvalue, if_neg hlower]

theorem lengthOf_request (r : Request) : lengthOf 0 r.fields = ((carried r.framing).length : ℤ) := by
  have hfields := length_fields r
  have hwellFormed := r.framing_wellFormed
  rw [lengthOf_filter]
  cases hframing : r.framing with
  | bare =>
    rw [hframing] at hfields
    rw [hfields]
    rfl
  | chunked chunks =>
    rw [hframing] at hfields
    rw [hfields]
    rfl
  | sized digits content =>
    rw [hframing] at hfields hwellFormed
    obtain ⟨f,hf,rfl⟩ := hfields
    have hascii : Ascii f.value := by
      intro c hc
      have := (hwellFormed.2.1 c hc).2
      omega
    have hnamed : f.named contentLengthKey = true :=
      (List.mem_filter.mp (hf ▸ List.mem_singleton_self f : f ∈ r.fields.filter (Field.named contentLengthKey))).2
    have hlower : lower f.name = contentLengthKey := of_decide_eq_true hnamed
    rw [hf, lengthOf, List.foldl_cons, List.foldl_nil, headerOf_ascii hascii]
    dsimp only
    rw [if_pos hlower, intOfText_digits hwellFormed.1 hwellFormed.2.1, length_carried hwellFormed]

theorem startLine_ascii (r : Request) : Ascii r.startLine := by
  refine Ascii.append (ascii_of_visible fun c hc => isVisible_of_token (r.method_token.2 c hc)) ?_
  exact Ascii.append (a := [' ']) (by decide) ((ascii_of_visible r.target_visible.2).append (by decide))

theorem requestLine_startLine (r : Request) : requestLine (r.startLine ++ crlf) = .ok (r.method,r.target) := by
  have hmethod : ∀ c ∈ r.method, decide (c ≠ ' ') = true := by
    intro c hc
    apply decide_eq_true
    rintro rfl
    exact absurd (r.method_token.2 _ hc) (by decide)
  have htarget : ∀ c ∈ r.target, decide (c ≠ ' ') = true := by
    intro c hc
    apply decide_eq_true
    rintro rfl
    exact absurd (r.target_visible.2 _ hc) (by decide)
  have hstrip : strip (r.startLine ++ crlf) = r.startLine := by
    refine trimmed_blanks (v := []) (by simp) (fun c hc => space_of_crlf hc) ?_ ?_
    · intro c hc
      rw [Request.startLine, List.head?_append_of_ne_nil _ r.method_token.1] at hc
      exact not_space_of_token r.method_token (List.mem_of_mem_head? hc)
    · intro c hc
      have hversion : r.startLine = (r.method ++ ' ' :: (r.target ++ " HTTP/1.".toList)) ++ ['1'] := by
        simp [Request.startLine]
      rw [hversion, List.getLast?_concat] at hc
      cases hc
      decide
  unfold requestLine
  rw [decodeUtf8_ascii ((startLine_ascii r).append (by decide))]
  dsimp only
  rw [hstrip, Request.startLine, List.dropWhile_append_of_pos hmethod, List.dropWhile_cons_of_neg (by decide),
    List.takeWhile_append_of_pos hmethod, List.takeWhile_cons_of_neg (by decide)]
  dsimp only
  rw [List.takeWhile_append_of_pos htarget]
  simp

theorem parseHttpRequest_head (h : WithinLimits r) :
    parseHttpRequest (headOctets r.headLines ++ carried r.framing) =
      .ok (⟨r.method,r.target,headersOf [] r.fields,carried r.framing⟩,[]) := by
  have hlines : ∀ f ∈ r.fields, f.line.length < readerLimit :=
    fun f hf => h.lines f.line (List.mem_cons_of_mem _ (List.mem_map_of_mem hf))
  unfold parseHttpRequest
  rw [linesOf_head fun l hl => (r.headLines_plain l hl).2.2, Request.headLines, List.map_cons, List.cons_append]
  dsimp only
  rw [overruns_line (h.lines r.startLine List.mem_cons_self), if_neg Bool.false_ne_true, requestLine_startLine,
    readHeaders_fields hlines, lengthOf_request, flatten_linesOf]
  simp only [bind, Except.bind]
  rw [if_neg h.carried, Int.toNat_natCast, if_neg (Nat.lt_irrefl _), List.take_length, List.drop_length]
  split_ifs with hpositive
  · rfl
  · have hempty : carried r.framing = [] := by
      apply List.length_eq_zero_iff.mp
      omega
    rw [hempty]

end Proxy


end LlmForwarding
end Allama
