import Mathlib.Logic.Function.Basic
import Allama.Expressions
import Allama.RecordFields
import Allama.Runs

/-! The cache of extracted tarballs of `ActionRunner.ensure_tarball_extracted` (`executor/action_runner.py`), shared by tasks of any
number of processes. -/
namespace Allama
namespace TarballCache
open RecordFields

/-- A member of a tarball: its path and its data. -/
abbrev Member : Type := Text × List UInt8

/-- A call of `ensure_tarball_extracted`: the URI, the process, its `ActionRunner`, and `id(asyncio.current_task())`. -/
structure Request where
  uri : Text
  pid : ℕ
  runner : ℕ
  unique_id : ℕ
deriving DecidableEq, Repr

/-- The digest of a text, the key of the empty URI, and the tarballs in storage. -/
structure Config (K : Type) where
  digest : Text → K
  base : K
  tarball : Text → List Member

/-- The name `{cache_key}.{pid}.{unique_id}` of temporary files. -/
structure Place (K : Type) where
  cache_key : K
  pid : ℕ
  unique_id : ℕ
deriving DecidableEq

/-- A directory itself, whatever its name: the place where it was created, and its number. -/
structure Dir (K : Type) where
  place : Place K
  serial : ℕ
deriving DecidableEq

/-- The thread that extracts: the members to come once the tarball is open, the file that is open in a directory, and once the
thread is over whether it has succeeded. -/
structure Thread (K : Type) where
  members : Option (List Member)
  handle : Option (Dir K × Member)
  exit : Option Bool
deriving DecidableEq

inductive Phase
  | locking
  | downloading
  | downloaded
  | extracting
  | returned
  | raised
  | cancelled
deriving DecidableEq, Repr

structure Call (K : Type) where
  request : Request
  phase : Phase
  thread : Option (Thread K)
deriving DecidableEq

/-- The calls, the files `….tar.gz`, the directories `….tmp` and `tarball-{cache_key}`, what is in a directory, and how many
directories were created. -/
structure State (K : Type) where
  calls : List (Call K)
  tarballs : Place K → Option (List Member)
  temp : Place K → Option ℕ
  target : K → Option (Dir K)
  contents : Dir K → List Member
  created : ℕ

inductive Action
  /-- A call begins, to its first await. -/
  | ensure (request : Request)
  /-- A call gets the lock. -/
  | acquire (i : ℕ)
  | download (i : ℕ) (succeeds : Bool)
  | extract (i : ℕ) (succeeds : Bool)
  /-- The thread of a call opens the tarball, opens the file of the next member, writes to it, and ends. -/
  | opens (i : ℕ)
  | member (i : ℕ)
  | write (i bytes : ℕ)
  | ends (i : ℕ) (succeeds : Bool)
  /-- The call goes on once its thread has ended. -/
  | resume (i : ℕ)
  | cancel (i : ℕ)
deriving DecidableEq, Repr

section Steps
variable {K : Type} [DecidableEq K] (config : Config K)

def computeTarballCacheKey (tarball_uri : Text) : K :=
  if tarball_uri = [] then config.base else config.digest (strip tarball_uri)

def Request.place (request : Request) : Place K := ⟨computeTarballCacheKey config request.uri,request.pid,request.unique_id⟩

def Phase.live : Phase → Bool
  | .locking | .downloading | .downloaded | .extracting => true
  | .returned | .raised | .cancelled => false

def Phase.locks : Phase → Bool
  | .downloading | .downloaded | .extracting => true
  | .locking | .returned | .raised | .cancelled => false

def State.setCall (i : ℕ) (call : Call K) (st : State K) : State K := { st with calls := st.calls.set i call }

def State.setThread (i : ℕ) (call : Call K) (thread : Thread K) (st : State K) : State K :=
  st.setCall i { call with thread := some thread }

/-- The lock that the call waits for is held. -/
def State.locked (st : State K) (request : Request) : Bool :=
  st.calls.any fun call => call.phase.locks && call.request.pid = request.pid && call.request.runner = request.runner &&
    computeTarballCacheKey config call.request.uri = computeTarballCacheKey config request.uri

/-- The `finally` block: the temporary files are removed. -/
def State.leave (i : ℕ) (call : Call K) (phase : Phase) (st : State K) : State K :=
  { st.setCall i { call with phase := phase } with
    temp := Function.update st.temp (call.request.place config) none
    tarballs := Function.update st.tarballs (call.request.place config) none }

/-- The directory of a temporary name, which is created where it is missing. -/
def State.makeDir (place : Place K) (st : State K) : State K × Dir K :=
  match st.temp place with
  | some serial => (st,⟨place,serial⟩)
  | none => ({ st with temp := Function.update st.temp place (some st.created), created := st.created + 1 },⟨place,st.created⟩)

/-- `temp_dir.rename(target_dir)`, which fails without the source and onto a directory that is not empty. -/
def State.rename (request : Request) (st : State K) : State K :=
  match st.temp (request.place config) with
  | none => st
  | some serial =>
    if ((st.target (computeTarballCacheKey config request.uri)).map st.contents).getD [] = [] then
      { st with
        temp := Function.update st.temp (request.place config) none
        target := Function.update st.target (computeTarballCacheKey config request.uri) (some ⟨request.place config,serial⟩) }
    else st

/-- The call goes on after the extraction: it renames the directory, and raises only where there is none after that. -/
def resume (i : ℕ) (call : Call K) (succeeded : Bool) (st : State K) : State K :=
  if succeeded then
    let st := st.rename config call.request
    st.leave config i call
      (if (st.target (computeTarballCacheKey config call.request.uri)).isSome then .returned else .raised)
  else st.leave config i call .raised

def openTarball : Option (List Member) → Thread K
  | some members => ⟨some members,none,none⟩
  | none => ⟨none,none,some false⟩

/-- The next member: its file is opened under the temporary name, whatever directory is there, and is empty. -/
def openMember (i : ℕ) (call : Call K) (member : Member) (members : List Member) (st : State K) : State K :=
  let made := st.makeDir (call.request.place config)
  let st := made.1.setThread i call ⟨some members,some (made.2,member),none⟩
  { st with contents := Function.update st.contents made.2 (put member.1 [] (st.contents made.2)) }

/-- Some data of the member are in the open file; with all of them it is closed. -/
def writeMember (i : ℕ) (call : Call K) (members : Option (List Member)) (dir : Dir K) (member : Member) (bytes : ℕ)
    (st : State K) : State K :=
  let handle := if member.2.length ≤ bytes then none else some (dir,member)
  let st := st.setThread i call ⟨members,handle,none⟩
  { st with contents := Function.update st.contents dir (put member.1 (member.2.take bytes) (st.contents dir)) }

def next (st : State K) : Action → Option (State K)
  | .ensure request =>
    -- a task is in one call at a time, and two tasks of a process that both exist have different ids
    if st.calls.any fun call => call.phase.live && call.request.pid = request.pid && call.request.unique_id = request.unique_id then
      none
    else
      let phase := if (st.target (computeTarballCacheKey config request.uri)).isSome then .returned else .locking
      some { st with calls := st.calls ++ [⟨request,phase,none⟩] }
  | .acquire i =>
    match st.calls[i]? with
    | some ⟨request,.locking,thread⟩ =>
      if st.locked config request then none
      else
        let phase := if (st.target (computeTarballCacheKey config request.uri)).isSome then .returned else .downloading
        some (st.setCall i ⟨request,phase,thread⟩)
    | _ => none
  | .download i succeeds =>
    match st.calls[i]? with
    | some ⟨request,.downloading,thread⟩ =>
      if succeeds then
        some { st.setCall i ⟨request,.downloaded,thread⟩ with
          tarballs := Function.update st.tarballs (request.place config) (some (config.tarball request.uri)) }
      else some (st.leave config i ⟨request,.downloading,thread⟩ .raised)
    | _ => none
  | .extract i succeeds =>
    match st.calls[i]? with
    | some ⟨request,.downloaded,thread⟩ =>
      if succeeds then
        some ((st.makeDir (request.place config)).1.setCall i ⟨request,.extracting,some ⟨none,none,none⟩⟩)
      else some (st.leave config i ⟨request,.downloaded,thread⟩ .raised)
    | _ => none
  | .opens i =>
    match st.calls[i]? with
    | some ⟨request,phase,some ⟨none,handle,none⟩⟩ =>
      some (st.setThread i ⟨request,phase,some ⟨none,handle,none⟩⟩ (openTarball (st.tarballs (request.place config))))
    | _ => none
  | .member i =>
    match st.calls[i]? with
    | some ⟨request,phase,some ⟨some (member :: members),none,none⟩⟩ =>
      some (openMember config i ⟨request,phase,some ⟨some (member :: members),none,none⟩⟩ member members st)
    | _ => none
  | .write i bytes =>
    match st.calls[i]? with
    | some ⟨request,phase,some ⟨members,some (dir,member),none⟩⟩ =>
      some (writeMember i ⟨request,phase,some ⟨members,some (dir,member),none⟩⟩ members dir member bytes st)
    | _ => none
  | .ends i succeeds =>
    match st.calls[i]? with
    | some ⟨request,phase,some ⟨members,handle,none⟩⟩ =>
      if succeeds && (members != some [] || handle.isSome) then none
      else some (st.setCall i ⟨request,phase,some ⟨members,none,some succeeds⟩⟩)
    | _ => none
  | .resume i =>
    match st.calls[i]? with
    | some ⟨request,.extracting,some ⟨members,handle,some succeeded⟩⟩ =>
      some (resume config i ⟨request,.extracting,some ⟨members,handle,some succeeded⟩⟩ succeeded st)
    | _ => none
  | .cancel i =>
    -- the thread goes on
    match st.calls[i]? with
    | some ⟨request,phase,thread⟩ =>
      if phase = .locking then some (st.setCall i ⟨request,.cancelled,thread⟩)
      else if phase.locks then some (st.leave config i ⟨request,phase,thread⟩ .cancelled)
      else none
    | _ => none

/-- A cache directory that nothing was put into. -/
def started : State K := ⟨[],fun _ => none,fun _ => none,fun _ => none,fun _ => [],0⟩

end Steps

section Conditions
variable {K : Type} [DecidableEq K] (config : Config K)

/-- The thread of the call is not over. -/
def Call.running (call : Call K) : Bool := call.thread.any fun thread => thread.exit.isNone

/-- A call that begins has the key of no other URI, and where an extraction begins, no thread of an earlier call of the process
with that key and that id of its task still runs. -/
def Undisturbed (st : State K) : Action → Prop
  | .ensure request => ∀ call ∈ st.calls,
      computeTarballCacheKey config call.request.uri = computeTarballCacheKey config request.uri → call.request.uri = request.uri
  | .extract i _ => ∀ call, st.calls[i]? = some call → ∀ j ≠ i, ∀ other, st.calls[j]? = some other → other.running = true →
      other.request.place config ≠ call.request.place config
  | _ => True

/-- The members as `extractall` leaves them in an empty directory: of those with one path the last one. -/
def extracted (members : List Member) : List Member := members.foldl (fun fields member => put member.1 member.2 fields) []

/-- What is required of the cache: the target directory of a URI has exactly the contents of its tarball, and a call that has
returned finds it. -/
structure Correct (st : State K) : Prop where
  complete : ∀ call ∈ st.calls, ∀ dir, st.target (computeTarballCacheKey config call.request.uri) = some dir →
    ∀ path, (st.contents dir).lookup path = (extracted (config.tarball call.request.uri)).lookup path
  returned : ∀ call ∈ st.calls, call.phase = .returned →
    (st.target (computeTarballCacheKey config call.request.uri)).isSome = true

/-- The target directories of the earlier state are there in the later one, with the same contents. -/
def Kept (st st' : State K) : Prop := ∀ cache_key dir, st.target cache_key = some dir →
  ∃ dir', st'.target cache_key = some dir' ∧ ∀ path, (st'.contents dir').lookup path = (st.contents dir).lookup path

end Conditions
end TarballCache
end Allama
