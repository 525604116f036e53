import Mathlib.Data.Nat.Digits.Lemmas
import Allama.Identifiers

/-! The short forms of ids (`allama/base62.py`, `allama/identifiers/common.py`). -/
namespace Allama

def base62Chars : Text := "0123456789abcdefghijklmnopqrstuvwxyzABCDEFGHIJKLMNOPQRSTUVWXYZ".toList

def base62Char (d : ℕ) : Char := base62Chars.getD d '0'

/-- `b62encode`, of a number that is not negative. -/
def b62encode (num : ℕ) : Text :=
  if num = 0 then ['0'] else ((Nat.digits 62 num).reverse).map base62Char

/-- The step of `b62decode`; `none` is its `ValueError`. -/
def b62step (num : ℕ) (c : Char) : Option ℕ := (base62Chars.idxOf? c).map (num*62+·)

def b62decode (encoded : Text) : Option ℕ := encoded.foldlM b62step 0

/-- `str.zfill`, of a text that has no sign. -/
def zfill (width : ℕ) (s : Text) : Text := List.replicate (width-s.length) '0' ++ s

def hexNumber (ds : List (Fin 16)) : ℕ := ds.foldl (fun n d => n*16+d.val) 0

/-- The last `k` hexadecimal digits of a number. -/
def hexDigits : ℕ → ℕ → List (Fin 16)
  | 0, _ => []
  | k+1, n => hexDigits k (n/16) ++ [Fin.ofNat 16 n]

theorem length_hexDigits (k : ℕ) : ∀ n, (hexDigits k n).length = k := by
  induction k with
  | zero => exact fun _ => rfl
  | succ k ih =>
    intro n
    rw [hexDigits, List.length_append, ih]
    rfl

def Uuid.int (u : Uuid) : ℕ := hexNumber u.digits

/-- `UUID(int=_)`; `none` is its `ValueError`. -/
def Uuid.ofInt (n : ℕ) : Option Uuid := if n < 16^32 then some ⟨hexDigits 32 n,length_hexDigits 32 n⟩ else none

/-- `id_to_short`; the word is the one that the source calls `prefix`. -/
def idToShort (id : Uuid) (word : Text) : Text := word ++ zfill 22 (b62encode id.int)

def idFromShort (shortId word : Text) : Option Uuid :=
  if word.isPrefixOf shortId then (b62decode (shortId.drop word.length)).bind Uuid.ofInt else none

theorem idxOf?_base62Char : ∀ d < 62, base62Chars.idxOf? (base62Char d) = some d := by decide

theorem foldlM_base62 {ds : List ℕ} (h : ∀ d ∈ ds, d < 62) (num : ℕ) :
    (ds.map base62Char).foldlM b62step num = some (ds.foldl (fun n d => n*62+d) num) := by
  induction ds generalizing num with
  | nil => rfl
  | cons d ds ih =>
    have hstep : b62step num (base62Char d) = some (num*62+d) := by
      rw [b62step, idxOf?_base62Char d (h d List.mem_cons_self), Option.map_some]
    rw [List.map_cons, List.foldlM_cons, hstep]
    exact ih (fun e he => h e (List.mem_cons_of_mem _ he)) _

theorem b62decode_digits {ds : List ℕ} (h : ∀ d ∈ ds, d < 62) :
    b62decode (ds.reverse.map base62Char) = some (Nat.ofDigits 62 ds) := by
  rw [b62decode, foldlM_base62 fun d hd => h d (List.mem_reverse.mp hd), List.foldl_reverse, Nat.ofDigits_eq_foldr]
  congr 2
  funext d n
  rw [add_comm, mul_comm]
  rfl

theorem b62decode_b62encode (num : ℕ) : b62decode (b62encode num) = some num := by
  unfold b62encode
  split
  · rename_i hzero
    rw [hzero]
    decide
  · rw [b62decode_digits fun d hd => Nat.digits_lt_base (by decide) hd, Nat.ofDigits_digits]

theorem b62decode_zfill (width : ℕ) (s : Text) : b62decode (zfill width s) = b62decode s := by
  have hzeros : ∀ k, (List.replicate k '0').foldlM b62step 0 = some 0 := by
    intro k
    induction k with
    | zero => rfl
    | succ k ih =>
      rw [List.replicate_succ, List.foldlM_cons]
      exact ih
  rw [b62decode, zfill, List.foldlM_append, hzeros]
  rfl

theorem hexNumber_append (ds : List (Fin 16)) (d : Fin 16) : hexNumber (ds ++ [d]) = hexNumber ds*16+d := by
  rw [hexNumber, List.foldl_append]
  rfl

theorem hexNumber_lt (ds : List (Fin 16)) : hexNumber ds < 16^ds.length := by
  induction ds using List.reverseRecOn with
  | nil => decide
  | append_singleton ds d ih =>
    rw [hexNumber_append, List.length_append, List.length_singleton, pow_succ]
    omega

theorem hexDigits_hexNumber (ds : List (Fin 16)) : hexDigits ds.length (hexNumber ds) = ds := by
  induction ds using List.reverseRecOn with
  | nil => rfl
  | append_singleton ds d ih =>
    have hdiv : (hexNumber ds*16+d)/16 = hexNumber ds := by omega
    have hmod : Fin.ofNat 16 (hexNumber ds*16+d) = d := by
      apply Fin.ext
      rw [Fin.val_ofNat]
      omega
    rw [hexNumber_append, List.length_append, List.length_singleton, hexDigits, hdiv, hmod, ih]

theorem Uuid.ofInt_int (u : Uuid) : Uuid.ofInt u.int = some u := by
  have hlt : u.int < 16^32 := by
    have := hexNumber_lt u.digits
    rwa [u.length_eq] at this
  have hdigits : hexDigits 32 u.int = u.digits := by
    have := hexDigits_hexNumber u.digits
    rwa [u.length_eq] at this
  rw [Uuid.ofInt, if_pos hlt]
  congr

theorem idFromShort_idToShort (id : Uuid) (word : Text) : idFromShort (idToShort id word) word = some id := by
  have hword : word.isPrefixOf (idToShort id word) = true := List.isPrefixOf_iff_prefix.mpr (List.prefix_append _ _)
  rw [idFromShort, if_pos hword, idToShort, List.drop_left, b62decode_zfill, b62decode_b62encode, Option.bind_some,
    Uuid.ofInt_int]

end Allama
