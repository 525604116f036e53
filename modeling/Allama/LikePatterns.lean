import Mathlib.Data.List.Infix

/-! The patterns of the SQL operator `LIKE`, with the escape character that it has by default, and the
replacement of the first occurrence of a text. -/
namespace LikePatterns

inductive Token
  | any
  | one
  | lit (c : Char)
deriving DecidableEq

/-- `%` is any text, `_` any character, and a backslash escapes the character after it. -/
def tokens : List Char → List Token
  | [] => []
  | '\\' :: c :: cs => .lit c :: tokens cs
  | '%' :: cs => .any :: tokens cs
  | '_' :: cs => .one :: tokens cs
  | c :: cs => .lit c :: tokens cs

def tokensMatch : List Token → List Char → Bool
  | [], s => s.isEmpty
  | .any :: ts, s => s.tails.any (tokensMatch ts)
  | .one :: ts, s =>
    match s with
    | [] => false
    | _ :: s => tokensMatch ts s
  | .lit c :: ts, s =>
    match s with
    | [] => false
    | d :: s => c = d && tokensMatch ts s

/-- `s LIKE pattern`. -/
def like (pattern s : List Char) : Bool := tokensMatch (tokens pattern) s

/-- `s LIKE text || '%'`, which `startswith(text)` stands for when nothing is escaped. -/
def likePrefix (text s : List Char) : Bool := like (text ++ ['%']) s

/-- No character of the text means more than itself in a pattern. -/
def Plain (text : List Char) : Prop := ∀ c ∈ text, c ≠ '\\' ∧ c ≠ '%' ∧ c ≠ '_'

instance (text : List Char) : Decidable (Plain text) := List.decidableBAll _ text

theorem tokens_cons_plain {c : Char} (h : c ≠ '\\' ∧ c ≠ '%' ∧ c ≠ '_') (cs : List Char) :
    tokens (c :: cs) = .lit c :: tokens cs := by
  obtain ⟨hb,hp,hu⟩ := h
  exact tokens.eq_5 c cs (fun _ _ he _ => hb he) hp hu

theorem tokensMatch_any_iff {ts : List Token} {s : List Char} :
    tokensMatch (.any :: ts) s = true ↔ ∃ u v, s = u ++ v ∧ tokensMatch ts v = true := by
  rw [tokensMatch, List.any_eq_true]
  constructor
  · rintro ⟨v,hv,hm⟩
    obtain ⟨u,hu⟩ := (List.mem_tails v s).mp hv
    exact ⟨u,v,hu.symm,hm⟩
  · rintro ⟨u,v,rfl,hm⟩
    exact ⟨v,(List.mem_tails v (u ++ v)).mpr (List.suffix_append u v),hm⟩

theorem tokensMatch_extend {ts : List Token} {s : List Char} (h : tokensMatch (ts ++ [.any]) s = true)
    (t : List Char) : tokensMatch (ts ++ [.any]) (s ++ t) = true := by
  induction ts generalizing s with
  | nil => exact tokensMatch_any_iff.mpr ⟨s ++ t,[],by simp,rfl⟩
  | cons token ts ih =>
    cases token with
    | any =>
      obtain ⟨u,v,rfl,hv⟩ := tokensMatch_any_iff.mp h
      exact tokensMatch_any_iff.mpr ⟨u,v ++ t,List.append_assoc ..,ih hv⟩
    | one =>
      cases s with
      | nil => cases h
      | cons d s => exact ih h
    | lit c =>
      cases s with
      | nil => cases h
      | cons d s =>
        simp only [List.cons_append, tokensMatch, Bool.and_eq_true] at h ⊢
        exact ⟨h.1,ih h.2⟩

/-- A pattern ends in `%` unless the character before it escapes it. -/
theorem tokens_append_any {c : Char} (hc : c ≠ '\\') (text : List Char) :
    ∃ ts, tokens (text ++ [c,'%']) = ts ++ [.any] := by
  have hlast : ∃ ts, tokens [c,'%'] = ts ++ [.any] := by
    by_cases hp : c = '%'
    · exact ⟨[.any],by rw [hp]; rfl⟩
    by_cases hu : c = '_'
    · exact ⟨[.one],by rw [hu]; rfl⟩
    exact ⟨[.lit c],tokens_cons_plain ⟨hc,hp,hu⟩ ['%']⟩
  induction text using tokens.induct with
  | case1 => exact hlast
  | case2 d ds ih =>
    obtain ⟨ts,hts⟩ := ih
    exact ⟨.lit d :: ts,congrArg _ hts⟩
  | case3 ds ih =>
    obtain ⟨ts,hts⟩ := ih
    exact ⟨.any :: ts,congrArg _ hts⟩
  | case4 ds ih =>
    obtain ⟨ts,hts⟩ := ih
    exact ⟨.one :: ts,congrArg _ hts⟩
  | case5 d ds hb hp hu ih =>
    by_cases hd : d = '\\'
    · subst hd
      cases ds with
      | nil => exact ⟨[.lit c],rfl⟩
      | cons e es => exact absurd rfl (hb e es rfl)
    · obtain ⟨ts,hts⟩ := ih
      refine ⟨.lit d :: ts,?_⟩
      rw [List.cons_append, tokens_cons_plain ⟨hd,hp,hu⟩, hts]
      rfl

theorem likePrefix_extend {text : List Char} {c : Char} (hc : c ≠ '\\') {s : List Char}
    (h : likePrefix (text ++ [c]) s = true) (t : List Char) :
    likePrefix (text ++ [c]) (s ++ t) = true := by
  obtain ⟨ts,hts⟩ := tokens_append_any hc text
  unfold likePrefix like at h ⊢
  rw [List.append_assoc, List.singleton_append, hts] at h ⊢
  exact tokensMatch_extend h t

theorem likePrefix_plain {text s : List Char} (h : Plain text) :
    likePrefix text s = true ↔ text <+: s := by
  induction text generalizing s with
  | nil =>
    have hany : likePrefix [] s = true := tokensMatch_any_iff.mpr ⟨s,[],by simp,rfl⟩
    simp [hany]
  | cons c cs ih =>
    have hcs : Plain cs := fun d hd => h d (List.mem_cons_of_mem c hd)
    have htokens : tokens (c :: (cs ++ ['%'])) = .lit c :: tokens (cs ++ ['%']) :=
      tokens_cons_plain (h c (by simp)) _
    rw [likePrefix, like, List.cons_append, htokens]
    cases s with
    | nil => simp [tokensMatch]
    | cons d s =>
      rw [List.cons_prefix_cons, ← ih hcs]
      simp [tokensMatch, likePrefix, like]

/-- `s.replace(old, new, 1)`. -/
def replaceFirst (old new : List Char) : List Char → List Char
  | [] => if old = [] then new else []
  | c :: cs =>
    if old.isPrefixOf (c :: cs) then new ++ (c :: cs).drop old.length
    else c :: replaceFirst old new cs

theorem replaceFirst_prefix (old new s : List Char) : replaceFirst old new (old ++ s) = new ++ s := by
  cases hs : old ++ s with
  | nil =>
    obtain ⟨rfl,rfl⟩ := List.append_eq_nil_iff.mp hs
    simp [replaceFirst]
  | cons c cs =>
    have hp : old.isPrefixOf (c :: cs) = true := by
      rw [List.isPrefixOf_iff_prefix, ← hs]
      exact List.prefix_append old s
    rw [replaceFirst, if_pos hp, ← hs, List.drop_left]

theorem replaceFirst_self (old s : List Char) : replaceFirst old old s = s := by
  induction s with
  | nil =>
    rw [replaceFirst]
    split
    · assumption
    · rfl
  | cons c cs ih =>
    rw [replaceFirst]
    split
    · rename_i hp
      obtain ⟨t,ht⟩ := List.isPrefixOf_iff_prefix.mp hp
      rw [← ht, List.drop_left]
    · rw [ih]

theorem replaceFirst_eq_self_iff {old new s : List Char} (hne : old ≠ new) :
    replaceFirst old new s = s ↔ ¬ old <:+: s := by
  induction s with
  | nil =>
    rw [replaceFirst, List.infix_nil]
    split
    · rename_i ho
      subst ho
      simpa using Ne.symm hne
    · rename_i ho
      simpa using ho
  | cons c cs ih =>
    rw [replaceFirst, List.infix_cons_iff]
    split
    · rename_i hp
      have hp := List.isPrefixOf_iff_prefix.mp hp
      obtain ⟨t,ht⟩ := hp
      rw [← ht, List.drop_left, List.append_cancel_right_eq]
      simp [Ne.symm hne]
    · rename_i hp
      have hp : ¬ old <+: c :: cs := fun h => hp (List.isPrefixOf_iff_prefix.mpr h)
      rw [List.cons_inj_right, ih]
      simp [hp]

end LikePatterns
