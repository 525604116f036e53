import Mathlib
import Allama.RecordFields
import Allama.Runs
import Allama.SizedCache

/-! Calls of `get` and `set` on a `SizedMemoryCache` that run at the same time, between their awaits. -/
namespace Allama
namespace CacheCalls
open RecordFields Runs SizedCaches

abbrev Bytes := List UInt8

variable {κ : Type}

/-- Where a call waits: in a call of the cache below, before or after it has its effect, or for the lock. -/
inductive Phase (κ : Type)
  | getting (key : κ)
  | got (key : κ) (value : Option Bytes)
  | dropping (key : κ)
  | touching (key : κ)
  | setting (key : κ) (value : Bytes)
  | deleting (key : κ) (value : Bytes) (oldest : κ)
  | deleted (key : κ) (value : Bytes)
  | storing (key : κ) (value : Bytes)
  | stored (key : κ) (value : Bytes)

/-- The entries that the cache below holds, `_sizes` in its order, `_total_bytes`, the task that has `_lock`, and the calls. -/
structure State (κ : Type) where
  cache : List (κ × Bytes)
  sizes : List (κ × ℕ)
  total_bytes : ℤ
  lock : Option ℕ
  calls : ℕ → Option (Phase κ)

def State.empty : State κ := ⟨[],[],0,none,fun _ => none⟩

def State.go (st : State κ) (task : ℕ) (phase : Option (Phase κ)) : State κ :=
  { st with calls := Function.update st.calls task phase }

/-- What a call, or the clock, does next. -/
inductive Action (κ : Type)
  | get (task : ℕ) (key : κ)
  | set (task : ℕ) (key : κ) (value : Bytes)
  | lookup (task : ℕ)
  | returned (task : ℕ)
  | drop (task : ℕ)
  | touch (task : ℕ)
  | enter (task : ℕ)
  | delete (task : ℕ)
  | resume (task : ℕ)
  | store (task : ℕ)
  | finish (task : ℕ)
  | expire (key : κ)

variable [DecidableEq κ] (max_bytes : ℕ)

/-- `self._total_bytes -= self._sizes.pop(key)`, if the key is there. -/
def State.pop (st : State κ) (key : κ) : State κ :=
  match st.sizes.lookup key with
  | none => st
  | some size => { st with sizes := forget key st.sizes, total_bytes := st.total_bytes - size }

/-- The test of the loop that evicts: the least recently used entry goes, or there is room. -/
def State.makeRoom (st : State κ) (task : ℕ) (key : κ) (value : Bytes) : State κ :=
  match st.sizes with
  | [] => st.go task (some (.storing key value))
  | (oldest,size) :: rest =>
    if (max_bytes : ℤ) < st.total_bytes + value.length then
      { st with sizes := rest, total_bytes := st.total_bytes - size }.go task (some (.deleting key value oldest))
    else st.go task (some (.storing key value))

def without (key : κ) (cache : List (κ × Bytes)) : List (κ × Bytes) := cache.filter fun e => e.1 ≠ key

/-- A step of a call, none where the call is not there. The lock is held from `enter` to `finish`. -/
def next (st : State κ) : Action κ → Option (State κ)
  | .get task key =>
    match st.calls task with
    | none => some (st.go task (some (.getting key)))
    | some _ => none
  | .set task key value =>
    match st.calls task with
    | none => if max_bytes < value.length then some st else some (st.go task (some (.setting key value)))
    | some _ => none
  | .lookup task =>
    match st.calls task with
    | some (.getting key) => some (st.go task (some (.got key (st.cache.lookup key))))
    | _ => none
  | .returned task =>
    match st.calls task with
    | some (.got key none) =>
      if (st.sizes.lookup key).isSome then some (st.go task (some (.dropping key))) else some (st.go task none)
    | some (.got key (some _)) => some (st.go task (some (.touching key)))
    | _ => none
  | .drop task =>
    match st.calls task, st.lock with
    | some (.dropping key), none => some ((st.pop key).go task none)
    | _, _ => none
  | .touch task =>
    match st.calls task, st.lock with
    | some (.touching key), none => some ({ st with sizes := touch key st.sizes }.go task none)
    | _, _ => none
  | .enter task =>
    match st.calls task, st.lock with
    | some (.setting key value), none => some ({ st.pop key with lock := some task }.makeRoom max_bytes task key value)
    | _, _ => none
  | .delete task =>
    match st.calls task with
    | some (.deleting key value oldest) =>
      some ({ st with cache := without oldest st.cache }.go task (some (.deleted key value)))
    | _ => none
  | .resume task =>
    match st.calls task with
    | some (.deleted key value) => some (st.makeRoom max_bytes task key value)
    | _ => none
  | .store task =>
    match st.calls task with
    | some (.storing key value) =>
      some ({ st with cache := put key value st.cache }.go task (some (.stored key value)))
    | _ => none
  | .finish task =>
    match st.calls task with
    | some (.stored key value) =>
      some ({ st with
        sizes := put key value.length st.sizes, total_bytes := st.total_bytes + value.length, lock := none }.go task none)
    | _ => none
  | .expire key => some { st with cache := without key st.cache }

/-- A lookup that found nothing drops the size of its key only while the key is not held: nothing has stored it again since. -/
def Fits (st : State κ) : Action κ → Prop
  | .drop task =>
    match st.calls task with
    | some (.dropping key) => st.cache.lookup key = none
    | _ => True
  | _ => True

def heldSizes (cache : List (κ × Bytes)) : List (κ × ℕ) := cache.map fun e => (e.1,e.2.length)

/-- No call is under way. -/
def State.Quiet (st : State κ) : Prop := ∀ task, st.calls task = none

section Totals

omit [DecidableEq κ]

theorem total_perm {sizes sizes' : List (κ × ℕ)} (h : sizes.Perm sizes') : total sizes = total sizes' := by
  induction h with
  | nil => rfl
  | cons e _ ih => rw [total_cons, total_cons, ih]
  | swap e e' sizes =>
    simp only [total_cons]
    omega
  | trans _ _ ih ih' => exact ih.trans ih'

theorem total_sublist {sizes sizes' : List (κ × ℕ)} (h : sizes.Sublist sizes') : total sizes ≤ total sizes' := by
  induction h with
  | slnil => exact le_rfl
  | cons e _ ih => exact ih.trans (Nat.le_add_left _ _)
  | cons_cons e _ ih => exact Nat.add_le_add_left ih e.2

theorem total_le_of_subset {sizes sizes' : List (κ × ℕ)} (hnodup : sizes.Nodup) (h : sizes ⊆ sizes') :
    total sizes ≤ total sizes' := by
  obtain ⟨middle,hperm,hsublist⟩ := hnodup.subperm h
  exact total_perm hperm ▸ total_sublist hsublist

theorem nodup_heldSizes {cache : List (κ × Bytes)} (h : (cache.map Prod.fst).Nodup) : (heldSizes cache).Nodup := by
  apply List.Nodup.of_map Prod.fst
  rw [heldSizes, List.map_map]
  exact h

end Totals

section Entries

theorem mem_forget {key : κ} {sizes : List (κ × ℕ)} {e : κ × ℕ} : e ∈ forget key sizes ↔ e ∈ sizes ∧ e.1 ≠ key := by
  rw [forget, List.mem_filter, decide_eq_true_eq]

theorem notMem_forget (key : κ) (sizes : List (κ × ℕ)) : key ∉ (forget key sizes).map Prod.fst := by
  intro hmem
  obtain ⟨e,he,hkey⟩ := List.mem_map.mp hmem
  exact (mem_forget.mp he).2 hkey

theorem split_of_mem {key : κ} {sizes : List (κ × ℕ)} {size : ℕ} (hnodup : (sizes.map Prod.fst).Nodup)
    (h : (key,size) ∈ sizes) : (forget key sizes ++ [(key,size)]).Perm sizes := by
  have hsingle : sizes.filter (fun e => !decide (e.1 ≠ key)) = [(key,size)] := by
    refine filter_eq_singleton (hnodup.of_map _) h (by simp) ?_
    intro e he hkey
    have hsame : e.1 = key := by simpa using hkey
    exact List.inj_on_of_nodup_map hnodup he h hsame
  have hperm := List.filter_append_perm (fun e : κ × ℕ => decide (e.1 ≠ key)) sizes
  rw [hsingle] at hperm
  exact hperm

theorem touch_perm (key : κ) {sizes : List (κ × ℕ)} (hnodup : (sizes.map Prod.fst).Nodup) : (touch key sizes).Perm sizes := by
  unfold touch
  cases hfind : sizes.find? fun e => e.1 = key with
  | none => exact .refl _
  | some e =>
    have hkey : e.1 = key := by simpa using List.find?_some hfind
    obtain ⟨_,size⟩ := e
    obtain rfl : _ = key := hkey
    exact split_of_mem hnodup (List.mem_of_find?_eq_some hfind)

theorem mem_put {key : κ} {value : Bytes} {cache : List (κ × Bytes)} (hnodup : (cache.map Prod.fst).Nodup)
    {e : κ × Bytes} (h : e ∈ put key value cache) : e = (key,value) ∨ (e ∈ cache ∧ e.1 ≠ key) := by
  have hlookup := lookup_of_mem (keys_put key value hnodup) (show (e.1,e.2) ∈ put key value cache from h)
  rw [lookup_put] at hlookup
  split_ifs at hlookup with hkey
  · exact .inl (Prod.ext (beq_iff_eq.mp hkey) (Option.some.inj hlookup).symm)
  · exact .inr ⟨mem_of_lookup hlookup,fun heq => hkey (beq_iff_eq.mpr heq)⟩

theorem put_fresh {key : κ} {sizes : List (κ × ℕ)} (h : key ∉ sizes.map Prod.fst) (size : ℕ) :
    put key size sizes = sizes ++ [(key,size)] := by
  rw [put, lookup_eq_none_of_notMem h]
  rfl

end Entries

section Invariant
variable {max_bytes} {st st' : State κ} {task : ℕ} {key : κ} {value : Bytes}

/-- The calls that have the lock. -/
def Phase.holds : Phase κ → Bool
  | .deleting .. => true
  | .deleted .. => true
  | .storing .. => true
  | .stored .. => true
  | _ => false

def Tracked (sizes : List (κ × ℕ)) (e : κ × Bytes) : Prop := (e.1,e.2.length) ∈ sizes

/-- What the call with the lock leaves of the accounts: the entry of its key, and the one it is about to delete, are held and not
tracked, and there is room for both counts. -/
def Holding (max_bytes : ℕ) (st : State κ) : Phase κ → Prop
  | .deleting key value oldest => value.length ≤ max_bytes ∧ total st.sizes ≤ max_bytes ∧ key ∉ st.sizes.map Prod.fst ∧
    ∀ e ∈ st.cache, e.1 = key ∨ e.1 = oldest ∨ Tracked st.sizes e
  | .deleted key value => value.length ≤ max_bytes ∧ total st.sizes ≤ max_bytes ∧ key ∉ st.sizes.map Prod.fst ∧
    ∀ e ∈ st.cache, e.1 = key ∨ Tracked st.sizes e
  | .storing key value => total st.sizes + value.length ≤ max_bytes ∧ key ∉ st.sizes.map Prod.fst ∧
    ∀ e ∈ st.cache, e.1 = key ∨ Tracked st.sizes e
  | .stored key value => total st.sizes + value.length ≤ max_bytes ∧ key ∉ st.sizes.map Prod.fst ∧
    ∀ e ∈ st.cache, e = (key,value) ∨ Tracked st.sizes e
  | _ => False

/-- The accounts in any state of a run: the total is that of the sizes, what is held fits, and but for the entries of the call with
the lock it is tracked. -/
structure Kept (max_bytes : ℕ) (st : State κ) : Prop where
  total_eq : st.total_bytes = (total st.sizes : ℤ)
  keys : (st.sizes.map Prod.fst).Nodup
  cached : (st.cache.map Prod.fst).Nodup
  bytes : total (heldSizes st.cache) ≤ max_bytes
  free : st.lock = none → total st.sizes ≤ max_bytes ∧ ∀ e ∈ st.cache, Tracked st.sizes e
  held : ∀ task, st.lock = some task → ∃ phase, st.calls task = some phase ∧ Holding max_bytes st phase
  holder : ∀ task phase, st.calls task = some phase → phase.holds = true → st.lock = some task
  room : ∀ task key value, st.calls task = some (.setting key value) → value.length ≤ max_bytes

omit [DecidableEq κ] in
@[simp] theorem go_self (st : State κ) (task : ℕ) (phase : Option (Phase κ)) : (st.go task phase).calls task = phase := by
  unfold State.go
  exact Function.update_self ..

omit [DecidableEq κ] in
theorem go_other (st : State κ) {task other : ℕ} (h : other ≠ task) (phase : Option (Phase κ)) :
    (st.go task phase).calls other = st.calls other := by
  unfold State.go
  exact Function.update_of_ne h ..

omit [DecidableEq κ] in
theorem holds_of_holding {phase : Phase κ} (h : Holding max_bytes st phase) : phase.holds = true := by
  cases phase <;> first | rfl | exact h.elim

omit [DecidableEq κ] in
theorem kept_empty : Kept max_bytes (State.empty : State κ) where
  total_eq := rfl
  keys := List.nodup_nil
  cached := List.nodup_nil
  bytes := Nat.zero_le _
  free := fun _ => ⟨Nat.zero_le _,fun e he => by cases he⟩
  held := fun task h => by cases h
  holder := fun task phase h => by cases h
  room := fun task key value h => by cases h

omit [DecidableEq κ] in
theorem Kept.not_lock (h : Kept max_bytes st) (hcall : ∀ phase, st.calls task = some phase → phase.holds = false) :
    st.lock ≠ some task := by
  intro hlock
  obtain ⟨phase,hphase,hholding⟩ := h.held task hlock
  have hholds := holds_of_holding hholding
  rw [hcall phase hphase] at hholds
  cases hholds

omit [DecidableEq κ] in
theorem Kept.go (h : Kept max_bytes st) (hlock : st.lock ≠ some task) {phase : Option (Phase κ)}
    (hphase : ∀ p, phase = some p → p.holds = false ∧ ∀ key value, p = .setting key value → value.length ≤ max_bytes) :
    Kept max_bytes (st.go task phase) where
  total_eq := h.total_eq
  keys := h.keys
  cached := h.cached
  bytes := h.bytes
  free := h.free
  held := by
    intro other hother
    have hne : other ≠ task := fun heq => hlock (heq ▸ hother)
    obtain ⟨p,hp,hholding⟩ := h.held other hother
    refine ⟨p,(go_other st hne phase).trans hp,?_⟩
    cases p <;> exact hholding
  holder := by
    intro other p hp hholds
    by_cases heq : other = task
    · subst heq
      have hnew : phase = some p := (go_self st other phase).symm.trans hp
      rw [(hphase p hnew).1] at hholds
      cases hholds
    · exact h.holder other p ((go_other st heq phase).symm.trans hp) hholds
  room := by
    intro other key value hp
    by_cases heq : other = task
    · subst heq
      have hnew : phase = some (.setting key value) := (go_self st other phase).symm.trans hp
      exact (hphase _ hnew).2 key value rfl
    · exact h.room other key value ((go_other st heq phase).symm.trans hp)

omit [DecidableEq κ] in
theorem Holding.of_sublist {cache : List (κ × Bytes)} {phase : Phase κ} (h : Holding max_bytes st phase)
    (hcache : cache.Sublist st.cache) : Holding max_bytes { st with cache := cache } phase := by
  cases phase with
  | deleting key value oldest => exact ⟨h.1,h.2.1,h.2.2.1,fun e he => h.2.2.2 e (hcache.subset he)⟩
  | deleted key value => exact ⟨h.1,h.2.1,h.2.2.1,fun e he => h.2.2.2 e (hcache.subset he)⟩
  | storing key value => exact ⟨h.1,h.2.1,fun e he => h.2.2 e (hcache.subset he)⟩
  | stored key value => exact ⟨h.1,h.2.1,fun e he => h.2.2 e (hcache.subset he)⟩
  | _ => exact h.elim

omit [DecidableEq κ] in
theorem Kept.of_sublist (h : Kept max_bytes st) {cache : List (κ × Bytes)} (hcache : cache.Sublist st.cache) :
    Kept max_bytes { st with cache := cache } where
  total_eq := h.total_eq
  keys := h.keys
  cached := h.cached.sublist (hcache.map Prod.fst)
  bytes := (total_sublist (hcache.map _)).trans h.bytes
  free := fun hlock => ⟨(h.free hlock).1,fun e he => (h.free hlock).2 e (hcache.subset he)⟩
  held := by
    intro other hother
    obtain ⟨p,hp,hholding⟩ := h.held other hother
    exact ⟨p,hp,hholding.of_sublist hcache⟩
  holder := h.holder
  room := h.room

omit [DecidableEq κ] in
theorem Kept.of_sizes (h : Kept max_bytes st) (hlock : st.lock = none) {sizes : List (κ × ℕ)} {total_bytes : ℤ}
    (htotal : total_bytes = (total sizes : ℤ)) (hkeys : (sizes.map Prod.fst).Nodup) (hle : total sizes ≤ max_bytes)
    (htracked : ∀ e ∈ st.cache, Tracked sizes e) :
    Kept max_bytes { st with sizes := sizes, total_bytes := total_bytes } where
  total_eq := htotal
  keys := hkeys
  cached := h.cached
  bytes := h.bytes
  free := fun _ => ⟨hle,htracked⟩
  held := by
    intro other hother
    rw [hlock] at hother
    cases hother
  holder := h.holder
  room := h.room

/-- The accounts at the test of the loop that evicts, for the call with the lock. -/
structure Making (max_bytes : ℕ) (st : State κ) (task : ℕ) (key : κ) (value : Bytes) : Prop where
  total_eq : st.total_bytes = (total st.sizes : ℤ)
  keys : (st.sizes.map Prod.fst).Nodup
  cached : (st.cache.map Prod.fst).Nodup
  bytes : total (heldSizes st.cache) ≤ max_bytes
  small : value.length ≤ max_bytes
  total_le : total st.sizes ≤ max_bytes
  fresh : key ∉ st.sizes.map Prod.fst
  tracked : ∀ e ∈ st.cache, e.1 = key ∨ Tracked st.sizes e
  lock : st.lock = some task
  others : ∀ other phase, other ≠ task → st.calls other = some phase → phase.holds = false
  room : ∀ other key value, other ≠ task → st.calls other = some (.setting key value) → value.length ≤ max_bytes

omit [DecidableEq κ] in
theorem kept_holding {phase : Phase κ} (htotal : st.total_bytes = (total st.sizes : ℤ))
    (hkeys : (st.sizes.map Prod.fst).Nodup) (hcached : (st.cache.map Prod.fst).Nodup)
    (hbytes : total (heldSizes st.cache) ≤ max_bytes) (hlock : st.lock = some task)
    (hothers : ∀ other phase, other ≠ task → st.calls other = some phase → phase.holds = false)
    (hroom : ∀ other key value, other ≠ task → st.calls other = some (.setting key value) → value.length ≤ max_bytes)
    (hholding : Holding max_bytes st phase) : Kept max_bytes (st.go task (some phase)) where
  total_eq := htotal
  keys := hkeys
  cached := hcached
  bytes := hbytes
  free := by
    intro hfree
    rw [show (st.go task (some phase)).lock = st.lock from rfl, hlock] at hfree
    cases hfree
  held := by
    intro other hother
    obtain rfl : task = other := Option.some.inj (hlock.symm.trans hother)
    refine ⟨phase,go_self st task (some phase),?_⟩
    cases phase <;> exact hholding
  holder := by
    intro other p hp hholds
    by_cases heq : other = task
    · exact heq ▸ hlock
    · rw [hothers other p heq ((go_other st heq _).symm.trans hp)] at hholds
      cases hholds
  room := by
    intro other k v hp
    by_cases heq : other = task
    · subst heq
      obtain rfl : phase = .setting k v := Option.some.inj ((go_self st other (some phase)).symm.trans hp)
      exact hholding.elim
    · exact hroom other k v heq ((go_other st heq _).symm.trans hp)

omit [DecidableEq κ] in
theorem Making.makeRoom (h : Making max_bytes st task key value) : Kept max_bytes (st.makeRoom max_bytes task key value) := by
  have hstore : total st.sizes + value.length ≤ max_bytes → Kept max_bytes (st.go task (some (.storing key value))) :=
    fun hle => kept_holding h.total_eq h.keys h.cached h.bytes h.lock h.others h.room ⟨hle,h.fresh,h.tracked⟩
  unfold State.makeRoom
  cases hsizes : st.sizes with
  | nil =>
    apply hstore
    rw [hsizes]
    exact (Nat.zero_add _).le.trans h.small
  | cons e rest =>
    obtain ⟨oldest,size⟩ := e
    have htotal := h.total_eq
    have hkeys := h.keys
    have hle := h.total_le
    have hfresh := h.fresh
    rw [hsizes] at htotal hkeys hle hfresh
    rw [total_cons] at htotal hle
    dsimp only at htotal hle ⊢
    split_ifs with hroom
    · have htracked : ∀ e ∈ st.cache, e.1 = key ∨ e.1 = oldest ∨ Tracked rest e := by
        intro e he
        obtain hkey | hin := h.tracked e he
        · exact .inl hkey
        · rw [Tracked, hsizes] at hin
          obtain hfirst | hrest := List.mem_cons.mp hin
          · exact .inr (.inl (congrArg Prod.fst hfirst))
          · exact .inr (.inr hrest)
      have htotal' : st.total_bytes - size = (total rest : ℤ) := by omega
      refine kept_holding htotal' (List.nodup_cons.mp hkeys).2
        h.cached h.bytes h.lock h.others h.room ⟨h.small,?_,fun hmem => hfresh (List.mem_cons_of_mem _ hmem),htracked⟩
      change total rest ≤ max_bytes
      omega
    · apply hstore
      rw [hsizes, total_cons]
      dsimp only
      omega

theorem pop_cases (st : State κ) (key : κ) : (st.sizes.lookup key = none ∧ st.pop key = st) ∨
    ∃ size, (key,size) ∈ st.sizes ∧
      st.pop key = { st with sizes := forget key st.sizes, total_bytes := st.total_bytes - size } := by
  unfold State.pop
  cases hlookup : st.sizes.lookup key with
  | none => exact .inl ⟨rfl,rfl⟩
  | some size => exact .inr ⟨size,mem_of_lookup hlookup,rfl⟩

theorem total_forget {sizes : List (κ × ℕ)} (hkeys : (sizes.map Prod.fst).Nodup) {size : ℕ} (h : (key,size) ∈ sizes) :
    total (forget key sizes) + size = total sizes := by
  rw [← total_perm (split_of_mem hkeys h), total_append]
  rfl

section
variable (h : Kept max_bytes st) (hlock : st.lock = none)
include h hlock

theorem Kept.pop (hkey : st.cache.lookup key = none) : Kept max_bytes (st.pop key) := by
  obtain ⟨_,hpop⟩ | ⟨size,hmem,hpop⟩ := pop_cases st key
  · rw [hpop]
    exact h
  · have htotal := total_forget h.keys hmem
    obtain ⟨hle,htracked⟩ := h.free hlock
    rw [hpop]
    refine h.of_sizes hlock ?_ (h.keys.sublist (List.filter_sublist.map Prod.fst)) (by omega) ?_
    · rw [h.total_eq]
      omega
    · intro e he
      refine mem_forget.mpr ⟨htracked e he,?_⟩
      rintro rfl
      exact notMem_of_lookup hkey (List.mem_map_of_mem he)

theorem Kept.touch (key : κ) : Kept max_bytes { st with sizes := touch key st.sizes } := by
  have hperm := touch_perm key h.keys
  obtain ⟨hle,htracked⟩ := h.free hlock
  refine h.of_sizes hlock ?_ ((hperm.map Prod.fst).nodup_iff.mpr h.keys) ?_ fun e he => hperm.mem_iff.mpr (htracked e he)
  · rw [total_perm hperm]
    exact h.total_eq
  · rw [total_perm hperm]
    exact hle

theorem Kept.enter (hcall : st.calls task = some (.setting key value)) :
    Making max_bytes { st.pop key with lock := some task } task key value := by
  obtain ⟨hle,htracked⟩ := h.free hlock
  have hothers : ∀ other phase, other ≠ task → st.calls other = some phase → phase.holds = false := by
    intro other phase _ hphase
    cases hholds : phase.holds with
    | false => rfl
    | true =>
      have hother := h.holder other phase hphase hholds
      rw [hlock] at hother
      cases hother
  obtain ⟨hlookup,hpop⟩ | ⟨size,hmem,hpop⟩ := pop_cases st key
  · rw [hpop]
    exact {
      total_eq := h.total_eq
      keys := h.keys
      cached := h.cached
      bytes := h.bytes
      small := h.room task key value hcall
      total_le := hle
      fresh := notMem_of_lookup hlookup
      tracked := fun e he => .inr (htracked e he)
      lock := rfl
      others := hothers
      room := fun other k v _ hp => h.room other k v hp }
  · have htotal := total_forget h.keys hmem
    rw [hpop]
    refine {
      total_eq := ?_
      keys := h.keys.sublist (List.filter_sublist.map Prod.fst)
      cached := h.cached
      bytes := h.bytes
      small := h.room task key value hcall
      total_le := ?_
      fresh := notMem_forget key st.sizes
      tracked := ?_
      lock := rfl
      others := hothers
      room := fun other k v _ hp => h.room other k v hp }
    · change st.total_bytes - size = (total (forget key st.sizes) : ℤ)
      rw [h.total_eq]
      omega
    · change total (forget key st.sizes) ≤ max_bytes
      omega
    · intro e he
      by_cases hkey : e.1 = key
      · exact .inl hkey
      · exact .inr (mem_forget.mpr ⟨htracked e he,hkey⟩)

end

omit [DecidableEq κ] in
theorem Kept.holding (h : Kept max_bytes st) {phase : Phase κ} (hcall : st.calls task = some phase)
    (hholds : phase.holds = true) : st.lock = some task ∧ Holding max_bytes st phase := by
  have hlock := h.holder task phase hcall hholds
  obtain ⟨p,hp,hholding⟩ := h.held task hlock
  obtain rfl := Option.some.inj (hp.symm.trans hcall)
  exact ⟨hlock,hholding⟩

omit [DecidableEq κ] in
theorem Kept.others (h : Kept max_bytes st) (hlock : st.lock = some task) :
    ∀ other phase, other ≠ task → st.calls other = some phase → phase.holds = false := by
  intro other phase hne hphase
  cases hholds : phase.holds with
  | false => rfl
  | true => exact absurd (Option.some.inj ((h.holder other phase hphase hholds).symm.trans hlock)) hne

theorem Kept.delete {oldest : κ} (h : Kept max_bytes st) (hcall : st.calls task = some (.deleting key value oldest)) :
    Kept max_bytes ({ st with cache := without oldest st.cache }.go task (some (.deleted key value))) := by
  obtain ⟨hlock,hsmall,hle,hfresh,htracked⟩ := h.holding hcall rfl
  have hsublist : (without oldest st.cache).Sublist st.cache := List.filter_sublist
  have hkept := h.of_sublist hsublist
  refine kept_holding hkept.total_eq hkept.keys hkept.cached hkept.bytes hlock (h.others hlock)
    (fun other k v _ hp => h.room other k v hp) ⟨hsmall,hle,hfresh,?_⟩
  intro e he
  obtain ⟨hin,hne⟩ := List.mem_filter.mp he
  obtain hkey | hold | hsize := htracked e hin
  · exact .inl hkey
  · exact absurd hold (of_decide_eq_true hne)
  · exact .inr hsize

omit [DecidableEq κ] in
theorem Kept.resume (h : Kept max_bytes st) (hcall : st.calls task = some (.deleted key value)) :
    Kept max_bytes (st.makeRoom max_bytes task key value) := by
  obtain ⟨hlock,hsmall,hle,hfresh,htracked⟩ := h.holding hcall rfl
  have hmaking : Making max_bytes st task key value := {
    total_eq := h.total_eq
    keys := h.keys
    cached := h.cached
    bytes := h.bytes
    small := hsmall
    total_le := hle
    fresh := hfresh
    tracked := htracked
    lock := hlock
    others := h.others hlock
    room := fun other k v _ hp => h.room other k v hp }
  exact hmaking.makeRoom

theorem Kept.store (h : Kept max_bytes st) (hcall : st.calls task = some (.storing key value)) :
    Kept max_bytes ({ st with cache := put key value st.cache }.go task (some (.stored key value))) := by
  obtain ⟨hlock,hroom,hfresh,htracked⟩ := h.holding hcall rfl
  have hcached := keys_put key value h.cached
  have hentries : ∀ e ∈ put key value st.cache, e = (key,value) ∨ Tracked st.sizes e := by
    intro e he
    obtain hnew | ⟨hin,hne⟩ := mem_put h.cached he
    · exact .inl hnew
    · exact .inr ((htracked e hin).resolve_left hne)
  have hbytes : total (heldSizes (put key value st.cache)) ≤ max_bytes := by
    have hsubset : heldSizes (put key value st.cache) ⊆ (key,value.length) :: st.sizes := by
      intro entry hentry
      obtain ⟨e,he,rfl⟩ := List.mem_map.mp hentry
      obtain rfl | hsize := hentries e he
      · exact List.mem_cons_self
      · exact List.mem_cons_of_mem _ hsize
    have hle := total_le_of_subset (nodup_heldSizes hcached) hsubset
    rw [total_cons] at hle
    dsimp only at hle
    omega
  exact kept_holding h.total_eq h.keys hcached hbytes hlock (h.others hlock) (fun other k v _ hp => h.room other k v hp)
    ⟨hroom,hfresh,hentries⟩

theorem Kept.finish (h : Kept max_bytes st) (hcall : st.calls task = some (.stored key value)) :
    Kept max_bytes ({ st with
      sizes := put key value.length st.sizes, total_bytes := st.total_bytes + value.length, lock := none }.go task none) := by
  obtain ⟨hlock,hroom,hfresh,htracked⟩ := h.holding hcall rfl
  have htotal : total (put key value.length st.sizes) = total st.sizes + value.length := by
    rw [put_fresh hfresh, total_append]
    rfl
  have hothers : ∀ other phase, (st.go task none).calls other = some phase → other ≠ task ∧ st.calls other = some phase := by
    intro other phase hp
    by_cases heq : other = task
    · subst heq
      rw [go_self] at hp
      cases hp
    · exact ⟨heq,(go_other st heq none).symm.trans hp⟩
  refine {
    total_eq := ?_
    keys := keys_put key value.length h.keys
    cached := h.cached
    bytes := h.bytes
    free := fun _ => ⟨htotal.le.trans hroom,?_⟩
    held := ?_
    holder := ?_
    room := fun other k v hp => h.room other k v (hothers other _ hp).2 }
  · change st.total_bytes + value.length = (total (put key value.length st.sizes) : ℤ)
    rw [h.total_eq, htotal]
    omega
  · intro e he
    change (e.1,e.2.length) ∈ put key value.length st.sizes
    rw [put_fresh hfresh]
    obtain rfl | hsize := htracked e he
    · exact List.mem_append_right _ List.mem_cons_self
    · exact List.mem_append_left _ hsize
  · intro other hother
    cases hother
  · intro other phase hp hholds
    obtain ⟨hne,hcalls⟩ := hothers other phase hp
    rw [h.others hlock other phase hne hcalls] at hholds
    cases hholds

def Phase.waits : Phase κ → Bool
  | .getting _ => true
  | .got .. => true
  | .dropping _ => true
  | .touching _ => true
  | _ => false

omit [DecidableEq κ] in
theorem Kept.move (h : Kept max_bytes st) {phase : Option (Phase κ)}
    (hcall : ∀ p, st.calls task = some p → p.holds = false) (hphase : ∀ p ∈ phase, p.waits = true) :
    Kept max_bytes (st.go task phase) := by
  refine h.go (h.not_lock hcall) ?_
  intro p hp
  have hwaits := hphase p hp
  cases p <;> first | cases hwaits; done | exact ⟨rfl,fun _ _ heq => by cases heq⟩

omit [DecidableEq κ] in
theorem holds_of_call {phase : Phase κ} (hcall : st.calls task = some phase) (hphase : phase.holds = false) :
    ∀ p, st.calls task = some p → p.holds = false :=
  fun _ hp => Option.some.inj (hcall.symm.trans hp) ▸ hphase

omit [DecidableEq κ] in
theorem holds_of_no_call (hcall : st.calls task = none) : ∀ p, st.calls task = some p → p.holds = false := by
  intro p hp
  rw [hcall] at hp
  cases hp

theorem pop_calls (st : State κ) (key : κ) : (st.pop key).calls = st.calls := by
  obtain ⟨_,hpop⟩ | ⟨size,_,hpop⟩ := pop_cases st key <;> rw [hpop]

theorem kept_next {a : Action κ} (h : Kept max_bytes st) (hfits : Fits st a) (hnext : next max_bytes st a = some st') :
    Kept max_bytes st' := by
  cases a with
  | get task key =>
    simp only [next] at hnext
    split at hnext <;> cases hnext
    exact h.move (holds_of_no_call ‹_›) (by rintro p ⟨⟩; rfl)
  | set task key value =>
    simp only [next] at hnext
    split at hnext
    · split_ifs at hnext with hlarge <;> cases hnext
      · exact h
      · refine h.go (h.not_lock (holds_of_no_call ‹_›)) ?_
        rintro p ⟨⟩
        refine ⟨rfl,?_⟩
        rintro k v ⟨⟩
        exact Nat.le_of_not_lt hlarge
    · cases hnext
  | lookup task =>
    simp only [next] at hnext
    split at hnext <;> cases hnext
    exact h.move (holds_of_call ‹_› rfl) (by rintro p ⟨⟩; rfl)
  | returned task =>
    simp only [next] at hnext
    split at hnext
    · split_ifs at hnext <;> cases hnext
      · exact h.move (holds_of_call ‹_› rfl) (by rintro p ⟨⟩; rfl)
      · exact h.move (holds_of_call ‹_› rfl) (by rintro p ⟨⟩)
    · cases hnext
      exact h.move (holds_of_call ‹_› rfl) (by rintro p ⟨⟩; rfl)
    · cases hnext
  | drop task =>
    simp only [next] at hnext
    split at hnext <;> cases hnext
    rename_i key hcall hlock
    simp only [Fits, hcall] at hfits
    refine (h.pop hlock hfits).move ?_ (by rintro p ⟨⟩)
    rw [pop_calls]
    exact holds_of_call hcall rfl
  | touch task =>
    simp only [next] at hnext
    split at hnext <;> cases hnext
    rename_i key hcall hlock
    exact (h.touch hlock key).move (holds_of_call hcall rfl) (by rintro p ⟨⟩)
  | enter task =>
    simp only [next] at hnext
    split at hnext <;> cases hnext
    exact (h.enter ‹_› ‹_›).makeRoom
  | delete task =>
    simp only [next] at hnext
    split at hnext <;> cases hnext
    exact h.delete ‹_›
  | resume task =>
    simp only [next] at hnext
    split at hnext <;> cases hnext
    exact h.resume ‹_›
  | store task =>
    simp only [next] at hnext
    split at hnext <;> cases hnext
    exact h.store ‹_›
  | finish task =>
    simp only [next] at hnext
    split at hnext <;> cases hnext
    exact h.finish ‹_›
  | expire key =>
    cases hnext
    exact h.of_sublist List.filter_sublist

theorem kept_of_reaches (h : Reaches (next max_bytes) Fits State.empty st) : Kept max_bytes st :=
  h.invariant kept_empty fun _ _ _ _ hkept hfits hnext => kept_next hkept hfits hnext

end Invariant

section Accounts
variable {max_bytes} {st : State κ}

omit [DecidableEq κ] in
theorem total_filter_pos (sizes : List (κ × ℕ)) : total (sizes.filter fun e => 0 < e.2) = total sizes := by
  induction sizes with
  | nil => rfl
  | cons e sizes ih =>
    rw [List.filter_cons]
    split_ifs with hpos
    · rw [total_cons, total_cons, ih]
    · have hzero : e.2 = 0 := by simpa using hpos
      rw [total_cons, ih, hzero, Nat.zero_add]

omit [DecidableEq κ] in
theorem Kept.quiet (h : Kept max_bytes st) (hquiet : st.Quiet) : st.lock = none := by
  cases hlock : st.lock with
  | none => rfl
  | some task =>
    obtain ⟨phase,hphase,_⟩ := h.held task hlock
    rw [hquiet task] at hphase
    cases hphase

theorem total_held_iff {cache : List (κ × Bytes)} {sizes : List (κ × ℕ)} (hkeys : (sizes.map Prod.fst).Nodup)
    (hcached : (cache.map Prod.fst).Nodup) (htracked : ∀ e ∈ cache, Tracked sizes e) :
    total sizes = total (heldSizes cache) ↔ ∀ e ∈ sizes, 0 < e.2 → e.1 ∈ cache.map Prod.fst := by
  have hsubset : heldSizes cache ⊆ sizes := by
    intro entry hentry
    obtain ⟨e,he,rfl⟩ := List.mem_map.mp hentry
    exact htracked e he
  constructor
  · intro htotal e he hpos
    by_contra hmissing
    have hkept : heldSizes cache ⊆ forget e.1 sizes := by
      intro entry hentry
      obtain ⟨held,hheld,rfl⟩ := List.mem_map.mp hentry
      refine mem_forget.mpr ⟨htracked held hheld,?_⟩
      intro hkey
      exact hmissing (hkey ▸ List.mem_map_of_mem hheld)
    have hle := total_le_of_subset (nodup_heldSizes hcached) hkept
    have hforget := total_forget hkeys he
    omega
  · intro hheld
    refine le_antisymm ?_ (total_le_of_subset (nodup_heldSizes hcached) hsubset)
    rw [← total_filter_pos sizes]
    refine total_le_of_subset ((hkeys.of_map _).filter _) ?_
    intro e he
    obtain ⟨hin,hpos⟩ := List.mem_filter.mp he
    obtain ⟨entry,hentry,hkey⟩ := List.mem_map.mp (hheld e hin (of_decide_eq_true hpos))
    have hsize : (entry.1,entry.2.length) = e := List.inj_on_of_nodup_map hkeys (htracked entry hentry) hin hkey
    exact hsize ▸ List.mem_map_of_mem hentry

/-- In every state of a run in which no lookup drops the size of an entry that is held, what is held fits, and each key is tracked
once at most. When the calls have finished every held entry is tracked, and the total is that of the held entries exactly if no
tracked entry has expired. -/
theorem accounts_hold (h : Reaches (next max_bytes) Fits State.empty st) :
    total (heldSizes st.cache) ≤ max_bytes ∧ (st.sizes.map Prod.fst).Nodup ∧
      (st.Quiet → (∀ e ∈ st.cache, Tracked st.sizes e) ∧
        (st.total_bytes = (total (heldSizes st.cache) : ℤ) ↔
          ∀ e ∈ st.sizes, 0 < e.2 → e.1 ∈ st.cache.map Prod.fst)) := by
  have hkept := kept_of_reaches h
  refine ⟨hkept.bytes,hkept.keys,?_⟩
  intro hquiet
  have htracked := (hkept.free (hkept.quiet hquiet)).2
  refine ⟨htracked,?_⟩
  rw [hkept.total_eq, Nat.cast_inj]
  exact total_held_iff hkept.keys hkept.cached htracked

/-- A value is stored in full. -/
def storing (task key : ℕ) : List (Action ℕ) := [.set task key [0],.enter task,.store task,.finish task]

/-- `Fits`, computed. -/
def fits (st : State ℕ) : Action ℕ → Bool
  | .drop task =>
    match st.calls task with
    | some (.dropping key) => st.cache.lookup key = none
    | _ => true
  | _ => true

theorem fits_iff (st : State ℕ) (a : Action ℕ) : fits st a = true ↔ Fits st a := by
  cases a with
  | drop task =>
    simp only [fits, Fits]
    cases st.calls task with
    | none => exact iff_of_true rfl trivial
    | some phase => cases phase <;> first | exact decide_eq_true_iff | exact iff_of_true rfl trivial
  | _ => exact iff_of_true rfl trivial

/-- Two keys are stored; while a lookup of the first is under way, a third evicts it, and the second, which
has expired, is looked up. -/
def crowded : List (Action ℕ) :=
  storing 0 7 ++ (storing 0 8 ++ [.get 0 7,.lookup 0,.set 1 9 [0,0],.enter 1,.returned 0,.expire 8,.delete 1,.get 2 8,
    .lookup 2,.returned 2,.resume 1,.delete 1,.resume 1,.store 1,.finish 1,.drop 2,.touch 0])

theorem accounts_hold_crowded : ∃ st : State ℕ, st.cache = [(9,[0,0])] ∧ st.sizes = [(9,2)] ∧
    st.total_bytes = 2 ∧ total (heldSizes st.cache) ≤ 2 ∧ (st.sizes.map Prod.fst).Nodup := by
  have hrun : (followOk (next 2) fits State.empty crowded).map (fun st => (st.cache,st.sizes,st.total_bytes)) =
      some ([(9,[0,0])],[(9,2)],2) := by decide
  obtain ⟨st,hst,hrows⟩ := reaches_of_observed hrun
  obtain ⟨hcache,hrest⟩ := Prod.mk.inj hrows
  obtain ⟨hsizes,htotal⟩ := Prod.mk.inj hrest
  obtain ⟨hbytes,hkeys,-⟩ := accounts_hold (hst.weaken fun st a => (fits_iff st a).mp)
  exact ⟨st,hcache,hsizes,htotal,hbytes,hkeys⟩

def overtaken (key : ℕ) : List (Action ℕ) := [.get 0 key,.lookup 0] ++ (storing 1 key ++ [.returned 0,.drop 0])

/-- Three entries are held where one has room, and none is tracked; an entry that expires is tracked on. -/
theorem accounts_drift :
    (∃ st : State ℕ, Reachable (next 1) State.empty st ∧ st.Quiet ∧ total (heldSizes st.cache) = 3 ∧ st.sizes = [] ∧
      st.total_bytes = 0) ∧
    ∃ st : State ℕ, Reachable (next 1) State.empty st ∧ st.Quiet ∧ st.cache = [] ∧ st.total_bytes = 1 := by
  constructor
  · refine ⟨_,@reachable_of_follow (State ℕ) (Action ℕ) (next 1) (overtaken 0 ++ (overtaken 1 ++ overtaken 2)) State.empty _ rfl,?_,by decide,rfl,rfl⟩
    intro task
    match task with
    | 0 => rfl
    | 1 => rfl
    | n + 2 => rfl
  · refine ⟨_,@reachable_of_follow (State ℕ) (Action ℕ) (next 1) (storing 0 7 ++ [.expire 7]) State.empty _ rfl,?_,rfl,rfl⟩
    intro task
    match task with
    | 0 => rfl
    | n + 1 => rfl

end Accounts
end CacheCalls
end Allama
