import Allama.DSLTypes
import Allama.Runs

/-! How the events of a session reach those who read it (`agent/stream/connector.py`, `agent/session/router.py`). -/
namespace Allama
namespace StreamDelivery

/-- `orjson.loads` and the type adapters. -/
structure Adapters (E M : Type) where
  loads : String → Option Value
  agentStreamEvent : Value → Option E
  unifiedStreamEvent : Value → Option E
  modelMessage : Value → Option M

inductive StreamEvent (E M : Type)
  | end (id : ℕ)
  | delta (id : ℕ) (event : E)
  | message (id : ℕ) (message : M)
  | error (error : Value)

variable {E M : Type} (p : Adapters E M)

def item (data : Value) (key : String) : Option Value :=
  match data with
  | .dict entries => entries.lookup key
  | _ => none

/-- `v == END_TOKEN_VALUE`. -/
def isEndTokenValue : Value → Bool
  | .int n => n = 1
  | .float q => q = 1
  | .bool b => b
  | _ => false

/-- The cases of `_stream_events`; an adapter may reject the data. -/
def matchData (id : ℕ) (data : Value) : Option (List (StreamEvent E M)) :=
  if (item data "[TURN_END]").any isEndTokenValue then some [.end id]
  else if (item data "event_kind").isSome then (p.agentStreamEvent data).map fun event => [.delta id event]
  else if (item data "type").isSome then (p.unifiedStreamEvent data).map fun event => [.delta id event]
  else match item data "kind", item data "error" with
    | some (.str "error"), some error => some [.error error]
    | some _, _ => (p.modelMessage data).map fun message => [.message id message]
    | none, _ => some []

def yields (id : ℕ) (text : String) : Option (List (StreamEvent E M)) :=
  (p.loads text).map fun data => (matchData p id data).getD [.error (.str "Stream read error")]

/-- The place behind an entry; `"$"` is none. -/
abbrev Cursor := Option ℕ

inductive Phase
  | idle
  | reading (lastId : ℕ)
  | batch (messages : List (ℕ × String))
  | closed

/-- `_stream_events`, with what it did about each entry. -/
structure Connection (E M : Type) where
  lastId : Cursor
  currentId : Cursor
  phase : Phase
  handled : List (ℕ × List (StreamEvent E M))

/-- The entries that were appended, of which the first may be trimmed; the id of an entry is its number. -/
structure State (E M : Type) where
  added : List String
  trimmed : ℕ
  lastStreamId : Option Cursor
  connections : List (Connection E M)

def first : State E M := ⟨[],0,none,[]⟩

inductive Event
  | xread
  | receive
  | retry
  | take
  | save
  | close
  deriving DecidableEq

inductive Action
  | append (text : String)
  | trim
  | expire
  | get (header : Option Cursor)
  | post
  | event (i : ℕ) (event : Event)

/-- What `xread` returns. -/
def State.behind (st : State E M) (lastId : ℕ) : List (ℕ × String) :=
  ((st.added.mapIdx fun i text => (i+1,text)).drop (max lastId st.trimmed)).take 100

/-- One turn of the loop over the messages. -/
def Connection.take (c : Connection E M) (id : ℕ) (text : String) (rest : List (ℕ × String)) : Connection E M :=
  match p.loads text with
  | none => { c with phase := .idle }
  | some data =>
    match matchData p id data with
    | none => { c with
        currentId := some id, phase := .idle, handled := c.handled ++ [(id,[.error (.str "Stream read error")])] }
    | some events => { c with currentId := some id, phase := .batch rest, handled := c.handled ++ [(id,events)] }

/-- An exception in a read or a save leads to the next read, and the connection may be closed at any time. -/
def Connection.next (st : State E M) (c : Connection E M) : Event → Option (Connection E M)
  | .xread => match c.phase with
    | .idle => some { c with phase := .reading (c.currentId.getD st.added.length) }
    | _ => none
  | .receive => match c.phase with
    | .reading lastId => if st.behind lastId = [] then none else some { c with phase := .batch (st.behind lastId) }
    | _ => none
  | .take => match c.phase with
    | .batch ((id,text) :: rest) => some (c.take p id text rest)
    | _ => none
  | .retry => match c.phase with
    | .reading _ | .batch [] => some { c with phase := .idle }
    | _ => none
  | .save => match c.phase with
    | .batch [] => some { c with phase := .idle }
    | _ => none
  | .close => match c.phase with
    | .closed => none
    | _ => some { c with phase := .closed }

def State.opens (st : State E M) (startId : Cursor) : State E M :=
  { st with connections := st.connections ++ [⟨startId,startId,.idle,[]⟩] }

/-- The stream keeps at least `maxlen` entries, until the key expires, three days after an append; entries
that are appended later have later ids. `_set_last_stream_id` comes after a batch and at the end. -/
def State.next (st : State E M) : Action → Option (State E M)
  | .append text => some { st with added := st.added ++ [text] }
  | .trim => if 10000 < st.added.length-st.trimmed then some { st with trimmed := st.trimmed+1 } else none
  | .expire => some { st with trimmed := max st.trimmed st.added.length }
  | .get header => some (st.opens (st.lastStreamId.getD (header.getD (some 0))))
  | .post => some (st.opens (st.lastStreamId.getD none))
  | .event i event => do
    let c ← st.connections[i]?
    let c' ← c.next p st event
    some { st with
      connections := st.connections.set i c'
      lastStreamId := if event = .save ∨ event = .close then some c.currentId else st.lastStreamId }

def Connection.ids (c : Connection E M) : List ℕ := c.handled.map Prod.fst

/-- Each entry is handled once, in order, as it was appended; and none is left out behind the start or one that was
handled, unless it was trimmed. A start at `$` has no place: nothing is said about what is appended before its
first entry. -/
structure Delivered (st : State E M) (c : Connection E M) : Prop where
  increasing : c.ids.Pairwise (· < ·)
  yielded : ∀ x ∈ c.handled, ∃ k text, x.1 = k+1 ∧ st.added[k]? = some text ∧ yields p x.1 text = some x.2
  complete : ∀ a n id, c.lastId = some a ∨ a ∈ c.ids → c.currentId = some n → a < id → id ≤ n →
    id ∈ c.ids ∨ id ≤ st.trimmed

/-- The start, or an entry that was handled. -/
def Connection.Stood (c : Connection E M) (cursor : Cursor) : Prop := cursor = c.lastId ∨ ∃ a ∈ c.ids, cursor = some a

/-- The messages are the entries from a place on. -/
def Follows (added : List String) (k : ℕ) (messages : List (ℕ × String)) : Prop :=
  ∀ i x, messages[i]? = some x → x.1 = k+i+1 ∧ added[k+i]? = some x.2

/-- The generator goes on where it is. -/
structure Inv (st : State E M) (c : Connection E M) : Prop where
  delivered : Delivered p st c
  stands : c.Stood c.currentId
  reached : ∀ a, c.lastId = some a ∨ a ∈ c.ids → ∃ n, c.currentId = some n ∧ a ≤ n
  reading : ∀ k, c.phase = .reading k → ∀ n, c.currentId = some n → n = k
  batch : ∀ messages, c.phase = .batch messages → ∃ k, Follows st.added k messages ∧
    ∀ n, c.currentId = some n → n ≤ k ∧ k ≤ max n st.trimmed

variable {p} {st st' : State E M} {c c' : Connection E M}

theorem Inv.grows (h : Inv p st c) {texts : List String} (hadded : st'.added = st.added ++ texts)
    (htrimmed : st.trimmed ≤ st'.trimmed) : Inv p st' c := by
  have hlookup : ∀ {k : ℕ} {text : String}, st.added[k]? = some text → st'.added[k]? = some text := by
    intro k text hk
    rw [hadded, List.getElem?_append_left (List.getElem?_eq_some_iff.mp hk).1]
    exact hk
  refine ⟨⟨h.delivered.increasing,?_,?_⟩,h.stands,h.reached,h.reading,?_⟩
  · intro x hx
    obtain ⟨k,text,hk,htext,hy⟩ := h.delivered.yielded x hx
    exact ⟨k,text,hk,hlookup htext,hy⟩
  · intro a n id ha hn hlt hle
    exact (h.delivered.complete a n id ha hn hlt hle).imp_right fun hid => hid.trans htrimmed
  · intro messages hm
    obtain ⟨k,hfollows,hk⟩ := h.batch messages hm
    refine ⟨k,fun i x hx => ⟨(hfollows i x hx).1,hlookup (hfollows i x hx).2⟩,fun n hn => ?_⟩
    have := hk n hn
    omega

theorem Inv.phase (h : Inv p st c) {phase : Phase} (hreading : ∀ k, phase = .reading k → ∀ n, c.currentId = some n → n = k)
    (hbatch : ∀ messages, phase = .batch messages → ∃ k, Follows st.added k messages ∧
      ∀ n, c.currentId = some n → n ≤ k ∧ k ≤ max n st.trimmed) : Inv p st { c with phase := phase } :=
  ⟨⟨h.delivered.increasing,h.delivered.yielded,h.delivered.complete⟩,h.stands,h.reached,hreading,hbatch⟩

theorem follows_behind (st : State E M) (k : ℕ) : Follows st.added (max k st.trimmed) (st.behind k) := by
  intro i x hx
  rw [State.behind, List.getElem?_take] at hx
  split at hx
  · rw [List.getElem?_drop, List.getElem?_mapIdx] at hx
    obtain ⟨text,htext,rfl⟩ := Option.map_eq_some_iff.mp hx
    exact ⟨rfl,htext⟩
  · cases hx

/-- An entry is handled. -/
theorem Inv.handles (h : Inv p st c) {id : ℕ} {text : String} {rest : List (ℕ × String)}
    (hphase : c.phase = .batch ((id,text) :: rest)) {events : List (StreamEvent E M)} (hyields : yields p id text = some events)
    {phase : Phase} (hnext : phase = .idle ∨ phase = .batch rest) :
    Inv p st { c with currentId := some id, phase := phase, handled := c.handled ++ [(id,events)] } := by
  obtain ⟨k,hfollows,hk⟩ := h.batch _ hphase
  obtain ⟨rfl,htext⟩ : id = k+1 ∧ st.added[k]? = some text := hfollows 0 _ rfl
  have hbelow : ∀ a, c.lastId = some a ∨ a ∈ c.ids → a ≤ k := by
    intro a ha
    obtain ⟨n,hn,hle⟩ := h.reached a ha
    exact hle.trans (hk n hn).1
  have hids : (c.handled ++ [(k+1,events)]).map Prod.fst = c.ids ++ [k+1] := List.map_append
  refine ⟨⟨?_,?_,?_⟩,.inr ⟨k+1,?_,rfl⟩,?_,?_,?_⟩
  · rw [Connection.ids, hids, List.pairwise_append]
    refine ⟨h.delivered.increasing,List.pairwise_singleton _ _,fun a ha b hb => ?_⟩
    rw [List.mem_singleton.mp hb]
    exact Nat.lt_succ_of_le (hbelow a (.inr ha))
  · intro x hx
    rcases List.mem_append.mp hx with hx | hx
    · exact h.delivered.yielded x hx
    · rw [List.mem_singleton.mp hx]
      exact ⟨k,text,rfl,htext,hyields⟩
  · intro a n id ha hn hlt hle
    cases hn
    rw [Connection.ids, hids, List.mem_append, List.mem_singleton] at ha ⊢
    rcases hle.eq_or_lt with rfl | hle
    · exact .inl (.inr rfl)
    -- the entries between the last position and this one were trimmed
    have ha' : c.lastId = some a ∨ a ∈ c.ids := by
      rcases ha with ha | ha | rfl
      · exact .inl ha
      · exact .inr ha
      · omega
    obtain ⟨n,hn,-⟩ := h.reached a ha'
    by_cases hidn : id ≤ n
    · exact (h.delivered.complete a n id ha' hn hlt hidn).imp_left .inl
    · have := hk n hn
      exact .inr (by omega)
  · rw [Connection.ids, hids]
    exact List.mem_append_right _ (List.mem_singleton_self _)
  · intro a ha
    refine ⟨k+1,rfl,?_⟩
    rw [Connection.ids, hids, List.mem_append, List.mem_singleton] at ha
    rcases ha with ha | ha | rfl
    · exact (hbelow a (.inl ha)).trans (Nat.le_succ k)
    · exact (hbelow a (.inr ha)).trans (Nat.le_succ k)
    · exact le_rfl
  · rintro j rfl
    rcases hnext with h | h <;> cases h
  · rintro messages rfl
    rcases hnext with h | h <;> cases h
    refine ⟨k+1,fun i x hx => ?_,fun n hn => ?_⟩
    · have hx := hfollows (i+1) x hx
      rwa [show k+(i+1) = k+1+i by omega] at hx
    · cases hn
      omega

theorem next_cases {event : Event} (hn : c.next p st event = some c') :
    (∃ phase, c' = { c with phase := phase } ∧
      (∀ k, phase = .reading k → k = c.currentId.getD st.added.length) ∧
      ∀ messages, phase = .batch messages → ∃ k, c.phase = .reading k ∧ messages = st.behind k) ∨
    ∃ id text rest events phase, c.phase = .batch ((id,text) :: rest) ∧ yields p id text = some events ∧
      (phase = .idle ∨ phase = .batch rest) ∧
      c' = { c with currentId := some id, phase := phase, handled := c.handled ++ [(id,events)] } := by
  cases event with
  | xread =>
    rw [Connection.next] at hn
    split at hn
    · exact .inl ⟨_,(Option.some.inj hn).symm,fun k hk => (Phase.reading.inj hk).symm,nofun⟩
    · cases hn
  | receive =>
    rw [Connection.next] at hn
    split at hn
    · rename_i lastId hphase
      split at hn
      · cases hn
      · exact .inl ⟨_,(Option.some.inj hn).symm,nofun,fun messages hm => ⟨lastId,hphase,(Phase.batch.inj hm).symm⟩⟩
    · cases hn
  | take =>
    rw [Connection.next] at hn
    split at hn
    · rename_i id text rest hphase
      cases hn
      rw [Connection.take]
      cases hdata : p.loads text with
      | none => exact .inl ⟨.idle,rfl,nofun,nofun⟩
      | some data =>
        have hyields : yields p id text = some ((matchData p id data).getD [.error (.str "Stream read error")]) := by
          rw [yields, hdata]
          rfl
        dsimp only
        cases hevents : matchData p id data with
        | none =>
          rw [hevents] at hyields
          exact .inr ⟨id,text,rest,_,.idle,hphase,hyields,.inl rfl,rfl⟩
        | some events =>
          rw [hevents] at hyields
          exact .inr ⟨id,text,rest,_,.batch rest,hphase,hyields,.inr rfl,rfl⟩
    · cases hn
  | _ =>
    rw [Connection.next] at hn
    split at hn <;> cases hn <;> exact .inl ⟨_,rfl,nofun,nofun⟩

theorem Inv.next (h : Inv p st c) {event : Event} (hn : c.next p st event = some c') : Inv p st c' := by
  rcases next_cases hn with ⟨phase,rfl,hreading,hbatch⟩ | ⟨id,text,rest,events,phase,hphase,hyields,hnext,rfl⟩
  · refine h.phase (fun k hk n hn => ?_) fun messages hm => ?_
    · rw [hreading k hk, hn]
      rfl
    · obtain ⟨k,hphase,rfl⟩ := hbatch messages hm
      refine ⟨_,follows_behind st k,fun n hn => ?_⟩
      rw [h.reading k hphase n hn]
      exact ⟨le_max_left _ _,le_rfl⟩
  · exact h.handles hphase hyields hnext

theorem inv_opened (st : State E M) (startId : Cursor) : Inv p st ⟨startId,startId,.idle,[]⟩ := by
  refine ⟨⟨List.Pairwise.nil,nofun,?_⟩,.inl rfl,?_,nofun,nofun⟩
  · rintro a n id (ha | ha) hn hlt hle
    · obtain rfl := Option.some.inj (ha.symm.trans hn)
      omega
    · cases ha
  · rintro a (ha | ha)
    · exact ⟨a,ha,le_rfl⟩
    · cases ha

theorem Connection.Stood.next {cursor : Cursor} (h : c.Stood cursor) {event : Event} (hn : c.next p st event = some c') :
    c'.Stood cursor := by
  rcases next_cases hn with ⟨phase,rfl,-⟩ | ⟨id,text,rest,events,phase,-,-,-,rfl⟩
  · exact h
  · refine h.imp_right fun ⟨a,ha,hcursor⟩ => ⟨a,?_,hcursor⟩
    rw [Connection.ids, List.map_append]
    exact List.mem_append_left _ ha

/-- Every connection goes on where it is, and what is saved is a place where one stood. -/
structure Sound (p : Adapters E M) (st : State E M) : Prop where
  connections : ∀ c ∈ st.connections, Inv p st c
  saved : ∀ cursor, st.lastStreamId = some cursor → ∃ c ∈ st.connections, c.Stood cursor

theorem Sound.opens (h : Sound p st) (startId : Cursor) : Sound p (st.opens startId) := by
  refine ⟨fun c hc => ?_,fun cursor hcursor => ?_⟩
  · rcases List.mem_append.mp hc with hc | hc
    · exact (h.connections c hc).grows (List.append_nil _).symm le_rfl
    · rw [List.mem_singleton.mp hc]
      exact inv_opened _ startId
  · exact (h.saved cursor hcursor).imp fun c hc => ⟨List.mem_append_left _ hc.1,hc.2⟩

theorem Sound.event (h : Sound p st) {i : ℕ} {event : Event} (hn : st.next p (.event i event) = some st') : Sound p st' := by
  obtain ⟨c,hi,hn⟩ := Option.bind_eq_some_iff.mp hn
  obtain ⟨c',hc',hn⟩ := Option.bind_eq_some_iff.mp hn
  cases hn
  have hinv := h.connections c (List.mem_of_getElem? hi)
  have hself : c' ∈ st.connections.set i c' := List.mem_set (List.getElem?_eq_some_iff.mp hi).1 c'
  refine ⟨fun d hd => ?_,fun cursor hcursor => ?_⟩
  · rcases List.mem_or_eq_of_mem_set hd with hd | rfl
    · exact (h.connections d hd).grows (List.append_nil _).symm le_rfl
    · exact (hinv.next hc').grows (List.append_nil _).symm le_rfl
  · dsimp only at hcursor
    split at hcursor
    · cases hcursor
      exact ⟨c',hself,hinv.stands.next hc'⟩
    · obtain ⟨d,hd,hstood⟩ := h.saved cursor hcursor
      obtain ⟨j,hj⟩ := List.mem_iff_getElem?.mp hd
      by_cases hij : i = j
      · subst hij
        obtain rfl := Option.some.inj (hi.symm.trans hj)
        exact ⟨c',hself,hstood.next hc'⟩
      · exact ⟨d,List.mem_of_getElem? ((List.getElem?_set_ne hij).trans hj),hstood⟩

theorem sound_next (h : Sound p st) {action : Action} (hn : st.next p action = some st') : Sound p st' := by
  cases action with
  | append text =>
    cases hn
    exact ⟨fun c hc => (h.connections c hc).grows rfl le_rfl,h.saved⟩
  | trim =>
    rw [State.next] at hn
    split at hn
    · cases hn
      exact ⟨fun c hc => (h.connections c hc).grows (List.append_nil _).symm (Nat.le_succ _),h.saved⟩
    · cases hn
  | expire =>
    cases hn
    exact ⟨fun c hc => (h.connections c hc).grows (List.append_nil _).symm (le_max_left _ _),h.saved⟩
  | get header =>
    cases hn
    exact h.opens _
  | post =>
    cases hn
    exact h.opens _
  | event i event => exact h.event hn

/-- In every run each connection handles the entries once, in order and without a gap, whatever the others do, and the
next one starts behind an entry that was handled, or where an earlier one started. -/
theorem entries_delivered (h : Runs.Reachable (State.next p) first st) : (∀ c ∈ st.connections, Delivered p st c) ∧
    ∀ cursor, st.lastStreamId = some cursor → ∃ c ∈ st.connections, c.Stood cursor := by
  have hsound : Sound p st :=
    h.invariant (P := Sound p) ⟨nofun,nofun⟩ fun _ _ _ _ hsound _ hn => sound_next hsound hn
  exact ⟨fun c hc => (hsound.connections c hc).delivered,hsound.saved⟩

section Sample

/-- Texts that are the kind of a message, or an object with a type. -/
def sampleAdapters : Adapters String String where
  loads s := some (.dict [(if s = "text" then "type" else "kind",.str s)])
  agentStreamEvent _ := none
  unifiedStreamEvent _ := some "text"
  modelMessage _ := none

/-- A reader that reads both entries, though the second is rejected, and one that goes on behind them, after the key has
expired. -/
def twoReaders : List Action :=
  [.append "text",.append "request",.get none,.event 0 .xread,.event 0 .receive,.event 0 .take,.event 0 .take,
    .event 0 .close,.get none,.expire,.append "text",.event 1 .xread,.event 1 .receive,.event 1 .take,.event 1 .save]

theorem twoReaders_delivered : ∃ st, (∀ c ∈ st.connections, Delivered sampleAdapters st c) ∧
    st.connections.map Connection.ids = [[1,2],[3]] ∧ st.lastStreamId = some (some 3) := by
  have hrun : Runs.follow (State.next sampleAdapters) first twoReaders = some _ := rfl
  exact ⟨_,(entries_delivered (Runs.reachable_of_follow hrun)).1,rfl,rfl⟩

end Sample
end StreamDelivery
end Allama
