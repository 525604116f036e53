import Mathlib.Data.List.Lex
import Mathlib.Data.List.Sort
import Mathlib.Data.String.Basic
import Mathlib.Logic.Function.Basic
import Allama.Expressions
import Allama.Runs

/-! The cache of virtual environments of `SafePythonExecutor.execute` (`sandbox/safe_executor.py`), shared by calls of any number of
processes. -/
namespace Allama
namespace SafeVenvs

/-- A directory of the package cache, with what `uv` has written to it. -/
structure Venv where
  config : Bool
  python : Bool
  installed : List Text
deriving DecidableEq, Repr

def Venv.empty : Venv := ⟨false,false,[]⟩

/-- The arguments of `execute` that the cache depends on, and the process it runs in. -/
structure Request where
  pid : ℕ
  workspace_id : Option Text
  dependencies : List Text
deriving DecidableEq, Repr

/-- The digest of a text, and `str.lower`. -/
structure Config (K : Type) where
  digest : Text → K
  lower : Text → Text

inductive Command
  | venv
  | install
deriving DecidableEq, Repr

/-- A `uv` process: its command, and once it has exited whether its return code is zero. -/
structure Uv where
  command : Command
  exit : Option Bool
deriving DecidableEq, Repr

/-- Where a call is: it waits for its `uv` process, goes on with the cached environment, has raised, or was cancelled. -/
inductive Phase
  | waiting
  | ready
  | raised
  | cancelled
deriving DecidableEq, Repr

structure Call where
  request : Request
  phase : Phase
  uv : Option Uv
deriving DecidableEq, Repr

/-- A rename that has put an environment under a cache key. -/
structure Publication (K : Type) where
  call : ℕ
  cache_key : K
  venv : Venv
deriving DecidableEq

/-- The calls, the directories `{cache_key}` and `{cache_key}.{pid}.tmp`, the publications, and the calls whose own `uv` failed,
could not be started or was killed after its time. -/
structure State (K : Type) where
  calls : ℕ → Option Call
  cached : K → Option Venv
  temp : K × ℕ → Option Venv
  publications : List (Publication K)
  failures : List ℕ

/-- What `uv` writes while it runs. -/
inductive File
  | directory
  | config
  | python
  | package (dependency : Text)
deriving DecidableEq, Repr

inductive Action
  /-- A call begins; `spawns` tells whether its process can be started. -/
  | execute (id : ℕ) (request : Request) (spawns : Bool)
  | writes (id : ℕ) (file : File)
  /-- The process of a call exits; where it does not succeed, it has failed by itself or was killed. -/
  | exits (id : ℕ) (succeeds : Bool)
  /-- A call whose process has exited goes on to its next await. -/
  | resume (id : ℕ) (spawns : Bool)
  | cancel (id : ℕ)
deriving DecidableEq, Repr

section Keys
variable {K : Type} (config : Config K)

/-- The workspace, where `None` and the empty text count as none. -/
def Request.workspace (request : Request) : Option Text := request.workspace_id.filter (· ≠ [])

/-- `sorted(dep.lower().strip() for dep in dependencies)`. -/
def normalized (dependencies : List Text) : List Text :=
  (dependencies.map fun dep => strip (config.lower dep)).insertionSort (· ≤ ·)

def hashInput (request : Request) : Text :=
  match request.workspace with
  | some workspace => workspace ++ '\n' :: ['\n'].intercalate (normalized config request.dependencies)
  | none => ['\n'].intercalate (normalized config request.dependencies)

def computeCacheKey (request : Request) : K := config.digest (hashInput config request)

def tempVenv (request : Request) : K × ℕ := (computeCacheKey config request,request.pid)

end Keys

section Directories

def Venv.write (venv : Venv) : File → Venv
  | .directory => venv
  | .config => { venv with config := true }
  | .python => { venv with python := true }
  | .package dependency => { venv with installed := venv.installed ++ [dependency] }

/-- The files that a command writes. -/
def Command.mayWrite (dependencies : List Text) : Command → File → Bool
  | .venv, .package _ => false
  | .venv, _ => true
  | .install, .directory => true
  | .install, .package dependency => dependencies.contains dependency
  | .install, _ => false

/-- The directory after a command that succeeds on it; packages cannot be installed without the interpreter. -/
def Command.complete (dependencies : List Text) (directory : Option Venv) : Command → Option Venv
  | .venv => some { directory.getD .empty with config := true, python := true }
  | .install => (directory.filter Venv.python).map fun venv => { venv with installed := venv.installed ++ dependencies }

end Directories

section Steps
variable {K : Type} [DecidableEq K] (config : Config K)

def State.setCall (id : ℕ) (call : Call) (st : State K) : State K := { st with calls := Function.update st.calls id (some call) }

def State.setTemp (request : Request) (directory : Option Venv) (st : State K) : State K :=
  { st with temp := Function.update st.temp (tempVenv config request) directory }

def State.fail (id : ℕ) (st : State K) : State K := { st with failures := id :: st.failures }

/-- `cached_venv.exists() and (cached_venv / "bin" / "python").exists()`. -/
def State.usable (st : State K) (request : Request) : Bool := (st.cached (computeCacheKey config request)).any Venv.python

/-- `os.rename(temp_venv, cached_venv)`, which fails without the source and onto a directory that is not empty. -/
def State.rename (id : ℕ) (request : Request) (st : State K) : State K :=
  match st.temp (tempVenv config request) with
  | none => st
  | some venv =>
    if (st.cached (computeCacheKey config request)).getD .empty = .empty then
      { st.setTemp config request none with
        cached := Function.update st.cached (computeCacheKey config request) (some venv)
        publications := ⟨id,computeCacheKey config request,venv⟩ :: st.publications }
    else st

/-- The call leaves the `try` block of the slow path: its temporary directory is removed. -/
def State.leave (id : ℕ) (call : Call) (phase : Phase) (st : State K) : State K :=
  (st.setTemp config call.request none).setCall id { call with phase := phase }

/-- `execute` to its first await. -/
def execute (id : ℕ) (request : Request) (spawns : Bool) (st : State K) : State K :=
  if st.usable config request then st.setCall id ⟨request,.ready,none⟩
  else if spawns then (st.setTemp config request none).setCall id ⟨request,.waiting,some ⟨.venv,none⟩⟩
  else (st.leave config id ⟨request,.waiting,none⟩ .raised).fail id

/-- The process of a call exits. -/
def exits (id : ℕ) (call : Call) (command : Command) (succeeds : Bool) (st : State K) : State K :=
  if succeeds then
    match command.complete call.request.dependencies (st.temp (tempVenv config call.request)) with
    | some venv => (st.setTemp config call.request (some venv)).setCall id { call with uv := some ⟨command,some true⟩ }
    | none => st.setCall id { call with uv := some ⟨command,some false⟩ }
  else (st.setCall id { call with uv := some ⟨command,some false⟩ }).fail id

/-- A call goes on after its process has exited. Once the packages are installed it renames the directory, and whatever comes of it
goes on with the interpreter under the cache key. -/
def resume (id : ℕ) (call : Call) (command : Command) (succeeded spawns : Bool) (st : State K) : State K :=
  if succeeded then
    match command with
    | .venv =>
      if spawns then st.setCall id { call with uv := some ⟨.install,none⟩ } else (st.leave config id call .raised).fail id
    | .install =>
      let st := st.rename config id call.request
      st.leave config id call (if st.usable config call.request then .ready else .raised)
  else st.leave config id call .raised

def next (st : State K) : Action → Option (State K)
  | .execute id request spawns =>
    if (st.calls id).isSome ∨ request.dependencies = [] then none else some (execute config id request spawns st)
  | .writes id file =>
    match st.calls id with
    | some ⟨request,_,some ⟨command,none⟩⟩ =>
      if command.mayWrite request.dependencies file then
        some (st.setTemp config request (some (((st.temp (tempVenv config request)).getD .empty).write file)))
      else none
    | _ => none
  | .exits id succeeds =>
    match st.calls id with
    | some ⟨request,phase,some ⟨command,none⟩⟩ => some (exits config id ⟨request,phase,some ⟨command,none⟩⟩ command succeeds st)
    | _ => none
  | .resume id spawns =>
    match st.calls id with
    | some ⟨request,.waiting,some ⟨command,some succeeded⟩⟩ =>
      some (resume config id ⟨request,.waiting,some ⟨command,some succeeded⟩⟩ command succeeded spawns st)
    | _ => none
  | .cancel id =>
    -- the process of the call is not killed
    match st.calls id with
    | some ⟨request,.waiting,uv⟩ => some (st.leave config id ⟨request,.waiting,uv⟩ .cancelled)
    | _ => none

/-- A cache directory that nothing was put into. -/
def started : State K := ⟨fun _ => none,fun _ => none,fun _ => none,[],[]⟩

end Steps

section Conditions
variable {K : Type} [DecidableEq K] (config : Config K)

def Call.occupies (call : Call) : Bool := call.phase = .waiting || call.uv.any fun uv => uv.exit = none

/-- Neither the workspace nor a dependency has a line break. -/
def Separable (request : Request) : Prop :=
  (∀ workspace ∈ request.workspace, '\n' ∉ workspace) ∧ ∀ dependency ∈ normalized config request.dependencies, '\n' ∉ dependency

/-- The first request has no workspace, and the second one's workspace is among its dependencies. -/
def Confused (request request' : Request) : Prop :=
  request.workspace = none ∧ ∃ workspace ∈ request'.workspace, workspace ∈ normalized config request.dependencies

/-- A call that begins is told apart from the others by what is hashed, and where there is no environment for it, no other call and
no process of one uses its temporary directory. -/
def Undisturbed (st : State K) : Action → Prop
  | .execute _ request _ =>
    Separable config request ∧
      (∀ id call, st.calls id = some call → ¬ Confused config request call.request ∧ ¬ Confused config call.request request) ∧
      (st.usable config request = false → ∀ id call, st.calls id = some call → call.occupies = true →
        tempVenv config call.request ≠ tempVenv config request)
  | _ => True

/-- Two requests of the same workspace, with the same dependencies up to order, case and the blanks around them. -/
def Equivalent (request request' : Request) : Prop :=
  request.workspace = request'.workspace ∧
    (request.dependencies.map fun dep => strip (config.lower dep)).Perm
      (request'.dependencies.map fun dep => strip (config.lower dep))

/-- What is required of the cache: an environment is published with every dependency of the call that published it and stays as it
was published, a call whose own installation failed has published nothing, a call raises only if its own installation failed and
goes on only with a published environment, and calls share one only if they are equivalent or their hashes collide. -/
structure Correct (st : State K) : Prop where
  complete : ∀ p ∈ st.publications, ∃ call, st.calls p.call = some call ∧ computeCacheKey config call.request = p.cache_key ∧
    ∀ dependency ∈ call.request.dependencies, dependency ∈ p.venv.installed
  published : ∀ cache_key venv, st.cached cache_key = some venv →
    ∃ p ∈ st.publications, p.cache_key = cache_key ∧ p.venv = venv
  kept : ∀ p ∈ st.publications, st.cached p.cache_key = some p.venv
  failed : ∀ p ∈ st.publications, p.call ∉ st.failures
  raised : ∀ id call, st.calls id = some call → call.phase = .raised → id ∈ st.failures
  ready : ∀ id call, st.calls id = some call → call.phase = .ready → st.usable config call.request = true
  shared : ∀ id id' call call', st.calls id = some call → st.calls id' = some call' → call.phase = .ready → call'.phase = .ready →
    computeCacheKey config call.request = computeCacheKey config call'.request →
    hashInput config call.request = hashInput config call'.request → Equivalent config call.request call'.request

end Conditions
end SafeVenvs
end Allama
