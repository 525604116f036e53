import Mathlib.Logic.Function.Basic
import Allama.Identifiers
import Allama.Runs

/-! The tokens of an OAuth integration (`integrations/service.py`), which overlapping calls refresh, store and disconnect; the provider
rotates its refresh tokens. -/
namespace Allama
namespace OAuthTokens

inductive GrantType
  | authorizationCode
  | clientCredentials
deriving DecidableEq, Repr

structure TokenResponse where
  access_token : Text
  refresh_token : Option Text
  expires_in : ℕ
  scope : Text
deriving DecidableEq, Repr

/-- The columns for the tokens of an `OAuthIntegration`, decrypted; no access token is the empty ciphertext. -/
structure Row where
  access_token : Option Text
  refresh_token : Option Text
  expires_at : Option ℕ
  scope : Option Text
deriving DecidableEq, Repr

def Row.empty : Row := ⟨none,none,none,none⟩

/-- The columns that a response stands for. -/
def Row.of (response : TokenResponse) (now : ℕ) : Row :=
  ⟨some response.access_token,response.refresh_token,some (now + response.expires_in),some response.scope⟩

/-- The columns that an UPDATE sets; it leaves out those whose attributes have not changed. -/
structure Update where
  access_token : Option (Option Text)
  refresh_token : Option (Option Text)
  expires_at : Option (Option ℕ)
  scope : Option (Option Text)
deriving DecidableEq, Repr

inductive Request
  | refresh
  | store
  | disconnect
deriving DecidableEq, Repr

/-- Where a call is. -/
inductive Phase
  | begun
  /-- It waits for the provider. -/
  | asking (loaded : Row)
  | answered (loaded : Row) (response : TokenResponse)
  /-- It is called with a response. -/
  | connecting (response : TokenResponse)
  | storing (loaded : Option Row) (response : TokenResponse)
  | wiping (loaded : Row)
  /-- It has committed, and loads the row again. -/
  | reloading
  | returned
  | failed
deriving DecidableEq, Repr

structure Call where
  request : Request
  phase : Phase
deriving DecidableEq, Repr

/-- The clock, the row, the refresh token that the provider issued last, all its responses, whether the user is connected, the calls,
and those that have written the row. -/
structure State where
  now : ℕ
  row : Option Row
  last : Option Text
  responses : List TokenResponse
  connected : Bool
  calls : ℕ → Option Call
  writes : List ℕ

/-- An integration that is not connected, with or without a row for its configuration. -/
def started (configured : Bool) : State := ⟨0,if configured then some .empty else none,none,[],false,fun _ => none,[]⟩

inductive Action
  | tick (elapsed : ℕ)
  | refresh (id : ℕ)
  /-- The user connects: the provider has issued the tokens that are to be stored. -/
  | connect (id : ℕ) (response : TokenResponse)
  | disconnect (id : ℕ)
  | read (id : ℕ)
  /-- The provider answers a refresh, or refuses it; its answer may get lost. -/
  | answer (id : ℕ) (response : Option TokenResponse) (delivered : Bool)
  | commit (id : ℕ)
  /-- `session.refresh` after a commit. -/
  | reload (id : ℕ)
  | fail (id : ℕ)
deriving DecidableEq, Repr

section Columns

def changed {A : Type} [DecidableEq A] (loaded new : Option A) : Option (Option A) := if loaded = new then none else some new

def assigned {A : Type} (loaded new : Option A) : Option (Option A) := if loaded.isNone ∧ new.isNone then none else some new

def Update.apply (update : Update) (row : Row) : Row where
  access_token := update.access_token.getD row.access_token
  refresh_token := update.refresh_token.getD row.refresh_token
  expires_at := update.expires_at.getD row.expires_at
  scope := update.scope.getD row.scope

/-- `_refresh_ac_integration` and `_refresh_cc_integration`, which keep the refresh token where the response has none. -/
def refreshUpdate (loaded : Row) (response : TokenResponse) (now : ℕ) : Update where
  access_token := assigned loaded.access_token (some response.access_token)
  refresh_token := response.refresh_token.map some
  expires_at := assigned loaded.expires_at (some (now + response.expires_in))
  scope := changed loaded.scope (some response.scope)

/-- `store_integration` on a row that is there. -/
def storeUpdate (loaded : Row) (response : TokenResponse) (now : ℕ) : Update where
  access_token := assigned loaded.access_token (some response.access_token)
  refresh_token := assigned loaded.refresh_token response.refresh_token
  expires_at := assigned loaded.expires_at (some (now + response.expires_in))
  scope := changed loaded.scope (some response.scope)

def disconnectUpdate (loaded : Row) : Update where
  access_token := changed loaded.access_token none
  refresh_token := changed loaded.refresh_token none
  expires_at := changed loaded.expires_at none
  scope := changed loaded.scope none

/-- `needs_refresh`: the access token expires within five minutes. -/
def Row.needsRefresh (row : Row) (now : ℕ) : Bool := row.expires_at.any fun expires_at => expires_at ≤ now + 5 * 60

end Columns

section Steps
variable (grant : GrantType)

def State.setPhase (st : State) (id : ℕ) (call : Call) (phase : Phase) : State :=
  { st with calls := Function.update st.calls id (some ⟨call.request,phase⟩) }

def State.issue (st : State) (response : TokenResponse) : State :=
  { st with last := response.refresh_token.or st.last, responses := response :: st.responses }

/-- What `refresh_token_if_needed` does with the integration up to its call of the provider. -/
def refreshRead (st : State) : Phase :=
  match st.row with
  | none => .returned
  | some row =>
    if row.needsRefresh st.now = false then .returned
    else match grant with
      | .clientCredentials => .asking row
      | .authorizationCode => if row.refresh_token = none then .returned else .asking row

def read (st : State) (phase : Phase) : Request → Option Phase
  | .refresh => if phase = .begun then some (refreshRead grant st) else none
  | .store =>
    match phase with
    | .connecting response => some (.storing st.row response)
    | _ => none
  | .disconnect => if phase = .begun then some (st.row.elim .returned .wiping) else none

/-- A response that the provider may give: to a refresh token that is its last one, with another one instead; to client credentials
with a new one or with none. -/
def State.mayAnswer (st : State) (loaded : Row) (response : TokenResponse) : Bool :=
  match grant with
  | .clientCredentials => response.refresh_token = none ∨ response.refresh_token ≠ st.last
  | .authorizationCode => loaded.refresh_token = st.last ∧ response.refresh_token ≠ none ∧ response.refresh_token ≠ st.last

def State.mayConnect (st : State) (response : TokenResponse) : Bool :=
  response.refresh_token = none ∨ response.refresh_token ≠ st.last

def State.answer (st : State) (id : ℕ) (call : Call) (loaded : Row) (response : Option TokenResponse) (delivered : Bool) :
    Option State :=
  match response with
  | none => some (st.setPhase id call .failed)
  | some response =>
    if st.mayAnswer grant loaded response then
      some ((st.issue response).setPhase id call (if delivered then .answered loaded response else .failed))
    else none

/-- The columns that a call means the row to have, and its UPDATE. -/
def Phase.writes (now : ℕ) : Phase → Option (Row × Update)
  | .answered loaded response => some (.of response now,refreshUpdate loaded response now)
  | .storing (some loaded) response => some (.of response now,storeUpdate loaded response now)
  | .wiping loaded => some (.empty,disconnectUpdate loaded)
  | _ => none

/-- Whether the user is connected after a call has committed. -/
def Phase.connects (connected : Bool) : Phase → Bool
  | .storing _ _ => true
  | .wiping _ => false
  | _ => connected

/-- A disconnect is over when it has committed. -/
def Call.committed (call : Call) : Phase := if call.request = .disconnect then .returned else .reloading

def State.commit (st : State) (id : ℕ) (call : Call) : Option State :=
  match call.phase with
  | .storing none response =>
    if st.row.isSome then some (st.setPhase id call .failed)
    else some { st.setPhase id call call.committed with
      row := some (.of response st.now), connected := true, writes := id :: st.writes }
  | phase =>
    (phase.writes st.now).map fun (_,update) =>
      match st.row with
      | none => st.setPhase id call .failed
      | some row =>
        { st.setPhase id call call.committed with
          row := some (update.apply row), connected := phase.connects st.connected, writes := id :: st.writes }

def Phase.running : Phase → Bool
  | .returned | .failed => false
  | _ => true

def State.start (st : State) (id : ℕ) (call : Call) : Option State :=
  if (st.calls id).isSome then none else some { st with calls := Function.update st.calls id (some call) }

def next (st : State) : Action → Option State
  | .tick elapsed => some { st with now := st.now + elapsed }
  | .refresh id => st.start id ⟨.refresh,.begun⟩
  | .connect id response => if st.mayConnect response then (st.issue response).start id ⟨.store,.connecting response⟩ else none
  | .disconnect id => st.start id ⟨.disconnect,.begun⟩
  | .read id => (st.calls id).bind fun call => (read grant st call.phase call.request).map fun phase => st.setPhase id call phase
  | .answer id response delivered =>
    (st.calls id).bind fun call =>
      match call.phase with
      | .asking loaded => st.answer grant id call loaded response delivered
      | _ => none
  | .commit id => (st.calls id).bind fun call => st.commit id call
  | .reload id => (st.calls id).bind fun call => if call.phase = .reloading then some (st.setPhase id call .returned) else none
  | .fail id => (st.calls id).bind fun call => if call.phase.running then some (st.setPhase id call .failed) else none

end Steps
end OAuthTokens
end Allama
