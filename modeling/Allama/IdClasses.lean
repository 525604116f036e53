import Allama.ShortIds

/-! The classes of ids (`AllamaUUID` of `allama/identifiers/common.py` and the classes built on it). -/
namespace Allama

/-- The subclasses of `AllamaUUID`. -/
inductive IdClass
  | WorkflowUUID | ExecutionUUID | WorkspaceUUID | SecretUUID | ActionUUID | ScheduleUUID
deriving DecidableEq, Repr

variable (cls : IdClass) (u : Uuid) {s : Text} {c : Char}

/-- The class variable `prefix`. -/
def IdClass.word : IdClass → Text
  | .WorkflowUUID => "wf_".toList
  | .ExecutionUUID => "exec_".toList
  | .WorkspaceUUID => "ws_".toList
  | .SecretUUID => "secret_".toList
  | .ActionUUID => "act_".toList
  | .ScheduleUUID => "sch_".toList

/-- The class variable `legacy_prefix`. -/
def IdClass.legacyWord : IdClass → Option Text
  | .WorkflowUUID => some "wf-".toList
  | .ExecutionUUID => some "exec-".toList
  | .WorkspaceUUID => none
  | .SecretUUID => some "secret-".toList
  | .ActionUUID => some "act-".toList
  | .ScheduleUUID => some "sch-".toList

def IdClass.short (cls : IdClass) (id : Uuid) : Text := idToShort id cls.word

/-- `from_short`; `none` is its `ValueError`. -/
def IdClass.fromShort (cls : IdClass) (shortId : Text) : Option Uuid :=
  if cls.word.isPrefixOf shortId then idFromShort shortId cls.word else none

/-- `from_legacy`; `none` is its `ValueError`. -/
def IdClass.fromLegacy (cls : IdClass) (id : Text) : Option Uuid :=
  cls.legacyWord.bind fun word => Uuid.parse (String.ofList (id.drop word.length))

/-- `to_legacy`; `none` is its `ValueError`. -/
def IdClass.toLegacy (cls : IdClass) (id : Uuid) : Option Text := cls.legacyWord.map (· ++ id.hex)

/-- What `new` is given. An instance of the class itself is a UUID too. -/
inductive AnyId
  | uuid (id : Uuid)
  | text (id : Text)
  | other

/-- `cls.legacy_prefix and id.startswith(cls.legacy_prefix)`. -/
def IdClass.isLegacy (cls : IdClass) (id : Text) : Bool := cls.legacyWord.any (·.isPrefixOf id)

/-- `AllamaUUID.new`; `none` is its `ValueError`. -/
def IdClass.new (cls : IdClass) : AnyId → Option Uuid
  | .uuid id => some id
  | .text id =>
    if cls.word.isPrefixOf id then cls.fromShort id
    else if cls.isLegacy id then cls.fromLegacy id
    else Uuid.parse (String.ofList id)
  | .other => none

theorem uuidDigits_hex : uuidDigits u.hex = u.hex := by
  have hu : 'u' ∉ u.hex := hexDigit_ne (by decide) u
  have hurn : removeWord "urn:".toList 0 u.hex = u.hex := removeWord_eq_self hu
  have huuid : removeWord "uuid:".toList 0 u.hex = u.hex := removeWord_eq_self hu
  have hbrace : stripBraces u.hex = u.hex :=
    stripBraces_eq_self (hexDigit_ne (by decide) u) (hexDigit_ne (by decide) u)
  have hdash : '-' ∉ u.hex := hexDigit_ne (by decide) u
  rw [uuidDigits, hurn, huuid, hbrace, List.filter_eq_self]
  intro c hc
  have hne : c ≠ '-' := fun he => hdash (he ▸ hc)
  simpa using hne

theorem Uuid.parse_hex : Uuid.parse (String.ofList u.hex) = some u := by
  have hdigits : u.hex.mapM hexValue = some u.digits := by
    rw [Uuid.hex, List.mapM_map]
    exact mapM_some_self fun d _ => hexValue_hexDigit d
  have hchars : uuidDigits (String.ofList u.hex).toList = u.hex := by
    rw [String.toList_ofList, uuidDigits_hex]
  simp only [Uuid.parse, hchars, hdigits, u.length_eq, dif_pos]

theorem isPrefixOf_eq_false {word : Text} (hc : c ∈ word) (hs : c ∉ s) :
    word.isPrefixOf s = false := by
  apply Bool.eq_false_iff.mpr
  intro h
  obtain ⟨t,rfl⟩ := List.isPrefixOf_iff_prefix.mp h
  exact hs (List.mem_append_left _ hc)

/-- A UUID is below `62^22`, so its digits never need more places than they get. -/
theorem length_b62encode : (b62encode u.int).length ≤ 22 := by
  have hlt : u.int < 16^32 := by
    have := hexNumber_lt u.digits
    rwa [u.length_eq] at this
  unfold b62encode
  split
  · decide
  · rw [List.length_map, List.length_reverse]
    apply (Nat.digits_length_le_iff (by decide) _).mpr
    calc u.int < 16^32 := hlt
      _ ≤ 62^22 := by norm_num

theorem length_zfill {width : ℕ} (h : s.length ≤ width) : (zfill width s).length = width := by
  rw [zfill, List.length_append, List.length_replicate]
  omega

theorem mem_base62Chars : ∀ d < 62, base62Char d ∈ base62Chars := by decide

theorem mem_b62encode {num : ℕ} (hc : c ∈ b62encode num) : c ∈ base62Chars := by
  unfold b62encode at hc
  split at hc
  · rw [List.mem_singleton.mp hc]
    decide
  · obtain ⟨d,hd,rfl⟩ := List.mem_map.mp hc
    exact mem_base62Chars d (Nat.digits_lt_base (by decide) (List.mem_reverse.mp hd))

theorem mem_zfill {width : ℕ} (hs : ∀ c ∈ s, c ∈ base62Chars) (hc : c ∈ zfill width s) :
    c ∈ base62Chars := by
  rcases List.mem_append.mp hc with hzero | hmem
  · rw [List.eq_of_mem_replicate hzero]
    decide
  · exact hs c hmem

namespace IdClass

theorem underscore_mem_word : '_' ∈ cls.word := by
  cases cls <;> decide

theorem fromShort_short : cls.fromShort (cls.short u) = some u := by
  have hword : cls.word.isPrefixOf (cls.short u) = true :=
    List.isPrefixOf_iff_prefix.mpr (List.prefix_append _ _)
  rw [fromShort, if_pos hword, short, idFromShort_idToShort]

theorem short_injective : Function.Injective cls.short := by
  intro u v h
  have hu := cls.fromShort_short u
  rw [h, fromShort_short] at hu
  exact (Option.some.inj hu).symm

theorem new_short : cls.new (.text (cls.short u)) = some u := by
  have hword : cls.word.isPrefixOf (cls.short u) = true :=
    List.isPrefixOf_iff_prefix.mpr (List.prefix_append _ _)
  rw [new, if_pos hword, fromShort_short]

theorem new_legacy {cls : IdClass} {u : Uuid} {id : Text} (h : cls.toLegacy u = some id) :
    cls.new (.text id) = some u := by
  obtain ⟨word,hword,rfl⟩ := Option.map_eq_some_iff.mp h
  -- the hyphen after the legacy word keeps the text from being read as a short id
  have hbar : '_' ∉ word ++ u.hex := by
    rw [List.mem_append, not_or]
    refine ⟨?_,hexDigit_ne (by decide) u⟩
    cases cls <;> cases hword <;> decide
  have hshort := isPrefixOf_eq_false cls.underscore_mem_word hbar
  have hlegacy : cls.isLegacy (word ++ u.hex) = true := by
    rw [isLegacy, hword]
    exact List.isPrefixOf_iff_prefix.mpr (List.prefix_append _ _)
  rw [new, hshort, if_neg Bool.false_ne_true, if_pos hlegacy, fromLegacy, hword, Option.bind_some,
    List.drop_left, Uuid.parse_hex]

theorem isLegacy_chars : cls.isLegacy u.chars = false := by
  have hword : ∀ word, cls.legacyWord = some word → ∃ c ∈ word, (∀ d, hexDigit d ≠ c) ∧ c ≠ '-' := by
    intro word h
    cases cls <;> cases h
    · exact ⟨'w',by decide,by decide,by decide⟩
    · exact ⟨'x',by decide,by decide,by decide⟩
    · exact ⟨'s',by decide,by decide,by decide⟩
    · exact ⟨'t',by decide,by decide,by decide⟩
    · exact ⟨'s',by decide,by decide,by decide⟩
  unfold isLegacy
  cases h : cls.legacyWord with
  | none => rfl
  | some word =>
    obtain ⟨c,hc,hdigit,hdash⟩ := hword word h
    exact isPrefixOf_eq_false hc (notMem_chars hdigit hdash u)

theorem new_chars : cls.new (.text u.chars) = some u := by
  have hshort := isPrefixOf_eq_false cls.underscore_mem_word (notMem_chars (by decide) (by decide) u)
  rw [new, hshort, if_neg Bool.false_ne_true, isLegacy_chars, if_neg Bool.false_ne_true]
  exact Uuid.parse_str u

theorem short_width :
    ∃ suffix, cls.short u = cls.word ++ suffix ∧ suffix.length = 22 ∧ ∀ c ∈ suffix, c ∈ base62Chars :=
  ⟨_,rfl,length_zfill (length_b62encode u),fun _ hc => mem_zfill (fun _ => mem_b62encode) hc⟩

/-- The short form names the id and no other, at a fixed width, and all spellings of an id are read as that id. -/
theorem spellings_faithful (cls : IdClass) : Function.Injective cls.short ∧ ∀ u : Uuid,
    cls.fromShort (cls.short u) = some u ∧
    (∃ suffix, cls.short u = cls.word ++ suffix ∧ suffix.length = 22 ∧ ∀ c ∈ suffix, c ∈ base62Chars) ∧
    cls.new (.uuid u) = some u ∧ cls.new (.text (cls.short u)) = some u ∧ cls.new (.text u.chars) = some u ∧
    ∀ id, cls.toLegacy u = some id → cls.new (.text id) = some u := by
  refine ⟨cls.short_injective,?_⟩
  intro u
  exact ⟨cls.fromShort_short u,cls.short_width u,rfl,cls.new_short u,cls.new_chars u,fun _ => new_legacy⟩

/-- `00112233-4455-6677-8899-aabbccddeeff`. -/
def sampleId : Uuid :=
  ⟨[0,0,1,1,2,2,3,3,4,4,5,5,6,6,7,7,8,8,9,9,10,10,11,11,12,12,13,13,14,14,15,15],rfl⟩

theorem spellings_faithful_action :
    (∃ suffix, ActionUUID.short sampleId = "act_".toList ++ suffix ∧ suffix.length = 22) ∧
    ActionUUID.new (.text (ActionUUID.short sampleId)) = some sampleId ∧
    ActionUUID.new (.text "00112233-4455-6677-8899-aabbccddeeff".toList) = some sampleId ∧
    ActionUUID.new (.text "act-00112233445566778899aabbccddeeff".toList) = some sampleId := by
  obtain ⟨-,⟨suffix,hsuffix,hlength,-⟩,-,hshort,hchars,hlegacy⟩ := (spellings_faithful ActionUUID).2 sampleId
  have hform : sampleId.chars = "00112233-4455-6677-8899-aabbccddeeff".toList := by decide
  exact ⟨⟨suffix,hsuffix,hlength⟩,hshort,hform ▸ hchars,hlegacy _ (by decide)⟩

end IdClass
end Allama
