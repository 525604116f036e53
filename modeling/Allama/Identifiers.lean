import Mathlib.Data.List.Basic
import Mathlib.Data.Fintype.Basic

/-! The identifiers of `allama/identifiers`: UUIDs and the texts that name them. -/
namespace Allama

/-- A `str`, as its characters. -/
abbrev Text := List Char

/-- `uuid.UUID`: thirty-two hexadecimal digits. -/
structure Uuid where
  digits : List (Fin 16)
  length_eq : digits.length = 32
deriving DecidableEq

instance neZero_hexBase : @NeZero ℕ Zero.ofOfNat0 16 := ⟨by decide⟩

/-- The UUID of one digit. -/
def Uuid.ofDigit (d : Fin 16) : Uuid := ⟨List.replicate 32 d,List.length_replicate⟩

def hexDigit (d : Fin 16) : Char := Nat.digitChar d

def hexValue (c : Char) : Option (Fin 16) :=
  (List.finRange 16).find? (fun d => hexDigit d = c.toLower)

def Uuid.hex (u : Uuid) : List Char := u.digits.map hexDigit

/-- `str(uuid)`: lower case, in groups of 8, 4, 4, 4 and 12 digits. -/
def Uuid.chars (u : Uuid) : List Char :=
  u.hex.take 8 ++ '-' :: ((u.hex.drop 8).take 4 ++ '-' :: ((u.hex.drop 12).take 4 ++
    '-' :: ((u.hex.drop 16).take 4 ++ '-' :: u.hex.drop 20)))

def Uuid.str (u : Uuid) : String := String.ofList u.chars

/-- `s.replace(word, "")`, with `skip` characters of an occurrence still to drop. -/
def removeWord (word : List Char) : ℕ → List Char → List Char
  | _, [] => []
  | skip+1, _ :: cs => removeWord word skip cs
  | 0, c :: cs =>
    if word.isPrefixOf (c :: cs) then removeWord word (word.length-1) cs
    else c :: removeWord word 0 cs

/-- `s.strip("{}")`. -/
def stripBraces (cs : List Char) : List Char :=
  let isBrace := fun c => c = '{' || c = '}'
  ((cs.dropWhile isBrace).reverse.dropWhile isBrace).reverse

/-- What `uuid.UUID(s)` leaves of a text before it counts the digits. -/
def uuidDigits (cs : List Char) : List Char :=
  (stripBraces (removeWord "uuid:".toList 0 (removeWord "urn:".toList 0 cs))).filter (· ≠ '-')

/-- `uuid.UUID(s)`; `none` is its `ValueError`. Braces, hyphens and a URN prefix are optional. -/
def Uuid.parse (s : String) : Option Uuid :=
  match (uuidDigits s.toList).mapM hexValue with
  | none => none
  | some ds => if h : ds.length = 32 then some ⟨ds,h⟩ else none

theorem removeWord_eq_self {c : Char} {word cs : List Char} (hc : c ∉ cs) :
    removeWord (c :: word) 0 cs = cs := by
  induction cs with
  | nil => rfl
  | cons d ds ih =>
    simp only [List.mem_cons, not_or] at hc
    have hp : (c :: word).isPrefixOf (d :: ds) = false := by
      simp [List.isPrefixOf, hc.1]
    rw [removeWord, hp, ih hc.2]
    rfl

theorem stripBraces_eq_self {cs : List Char} (ho : '{' ∉ cs) (hc : '}' ∉ cs) :
    stripBraces cs = cs := by
  have hdrop : ∀ l : List Char, (∀ c ∈ l, c ∈ cs) →
      l.dropWhile (fun c => c = '{' || c = '}') = l := by
    intro l hl
    cases l with
    | nil => rfl
    | cons c l =>
      have hm := hl c (by simp)
      have h1 : c ≠ '{' := fun he => ho (he ▸ hm)
      have h2 : c ≠ '}' := fun he => hc (he ▸ hm)
      simp [h1, h2]
  rw [stripBraces, hdrop cs fun c h => h, hdrop cs.reverse fun c h => List.mem_reverse.mp h,
    List.reverse_reverse]

theorem mapM_some_self {α : Type} {f : α → Option α} {l : List α} (h : ∀ a ∈ l, f a = some a) :
    l.mapM f = some l := by
  induction l with
  | nil => rfl
  | cons a l ih =>
    rw [List.mapM_cons, h a (by simp), ih fun b hb => h b (by simp [hb])]
    rfl

theorem mapM_eq_none {α β : Type} {f : α → Option β} {l : List α} {a : α} (ha : a ∈ l)
    (hf : f a = none) : l.mapM f = none := by
  induction l with
  | nil => cases ha
  | cons b l ih =>
    rw [List.mapM_cons]
    rcases List.mem_cons.mp ha with rfl | hl
    · rw [hf]
      rfl
    · rw [ih hl]
      cases f b <;> rfl

theorem hexValue_hexDigit (d : Fin 16) : hexValue (hexDigit d) = some d := by
  revert d
  decide

theorem hexDigit_ne {c : Char} (hc : ∀ d, hexDigit d ≠ c) (u : Uuid) : c ∉ u.hex := by
  simpa [Uuid.hex] using fun d _ => hc d

theorem mem_hex_of_mem_chars {u : Uuid} {c : Char} (hc : c ∈ u.chars) : c = '-' ∨ c ∈ u.hex := by
  simp only [Uuid.chars, List.mem_append, List.mem_cons] at hc
  have htake : ∀ m n, c ∈ (u.hex.drop m).take n → c ∈ u.hex :=
    fun m n h => List.mem_of_mem_drop (List.mem_of_mem_take h)
  rcases hc with h | rfl | h | rfl | h | rfl | h | rfl | h
  · exact .inr (List.mem_of_mem_take h)
  · exact .inl rfl
  · exact .inr (htake _ _ h)
  · exact .inl rfl
  · exact .inr (htake _ _ h)
  · exact .inl rfl
  · exact .inr (htake _ _ h)
  · exact .inl rfl
  · exact .inr (List.mem_of_mem_drop h)

theorem notMem_chars {c : Char} (hd : ∀ d, hexDigit d ≠ c) (hc : c ≠ '-') (u : Uuid) :
    c ∉ u.chars := by
  intro h
  rcases mem_hex_of_mem_chars h with he | hm
  · exact hc he
  · exact hexDigit_ne hd u hm

theorem hex_groups (u : Uuid) : u.hex.take 8 ++ ((u.hex.drop 8).take 4 ++ ((u.hex.drop 12).take 4 ++
    ((u.hex.drop 16).take 4 ++ u.hex.drop 20))) = u.hex := by
  have hsplit : ∀ m, (u.hex.drop m).take 4 ++ u.hex.drop (m+4) = u.hex.drop m := by
    intro m
    rw [← List.drop_drop, List.take_append_drop]
  rw [hsplit 16, hsplit 12, hsplit 8, List.take_append_drop]

theorem filter_chars (u : Uuid) : u.chars.filter (· ≠ '-') = u.hex := by
  have hkeep : ∀ l : List Char, (∀ c ∈ l, c ∈ u.hex) → l.filter (· ≠ '-') = l := by
    intro l hl
    apply List.filter_eq_self.mpr
    intro c hc
    have hne : '-' ∉ u.hex := hexDigit_ne (by decide) u
    have : c ≠ '-' := fun he => hne (he.symm ▸ hl c hc)
    simpa using this
  have htake : ∀ m n, ((u.hex.drop m).take n).filter (· ≠ '-') = (u.hex.drop m).take n :=
    fun m n => hkeep _ fun c h => List.mem_of_mem_drop (List.mem_of_mem_take h)
  have hfirst := hkeep (u.hex.take 8) fun c h => List.mem_of_mem_take h
  have hlast := hkeep (u.hex.drop 20) fun c h => List.mem_of_mem_drop h
  have hdash : ∀ l : List Char, ('-' :: l).filter (· ≠ '-') = l.filter (· ≠ '-') := by
    intro l
    simp
  simp only [Uuid.chars, List.filter_append, hdash, htake, hfirst, hlast]
  exact hex_groups u

theorem uuidDigits_chars (u : Uuid) : uuidDigits u.chars = u.hex := by
  have hu : 'u' ∉ u.chars := notMem_chars (by decide) (by decide) u
  have hurn : removeWord "urn:".toList 0 u.chars = u.chars := removeWord_eq_self hu
  have huuid : removeWord "uuid:".toList 0 u.chars = u.chars := removeWord_eq_self hu
  have hbrace : stripBraces u.chars = u.chars := stripBraces_eq_self
    (notMem_chars (by decide) (by decide) u) (notMem_chars (by decide) (by decide) u)
  rw [uuidDigits, hurn, huuid, hbrace, filter_chars]

theorem Uuid.parse_str (u : Uuid) : Uuid.parse u.str = some u := by
  have hdigits : u.hex.mapM hexValue = some u.digits := by
    rw [Uuid.hex, List.mapM_map]
    exact mapM_some_self fun d _ => hexValue_hexDigit d
  have hchars : uuidDigits u.str.toList = u.hex := by
    rw [Uuid.str, String.toList_ofList, uuidDigits_chars]
  simp only [Uuid.parse, hchars, hdigits, u.length_eq, dif_pos]

theorem Uuid.parse_eq_none {s : String} {c : Char} (hc : c ∈ uuidDigits s.toList)
    (hv : hexValue c = none) : Uuid.parse s = none := by
  rw [Uuid.parse, mapM_eq_none hc hv]

end Allama
