import Allama.ScriptImports

/-! When the validator and the import hook decide alike about the imports of a script's own code. -/
namespace Allama
namespace SafeScripts
section Validator
variable {policy : Policy}

mutual

/-- The modules that the absolute import statements of an accepted node name are allowed. -/
theorem calls_allowed (globals : Globals) (node : Node) (h : visit policy node = []) :
    ∀ call ∈ callsOf globals node, call.level = 0 → call.name ≠ [] → policy.isModuleAllowed call.name = true := by
  cases node with
  | importStmt names =>
    intro call hcall _ _
    obtain ⟨a,ha,rfl⟩ := List.mem_map.mp hcall
    have hnone := List.filter_eq_nil_iff.mp (List.map_eq_nil_iff.mp h) a ha
    simpa using hnone
  | importFrom module names level =>
    intro call hcall _ hname
    obtain rfl := List.mem_singleton.mp hcall
    cases module with
    | none => exact absurd rfl hname
    | some module =>
      cases module with
      | nil => exact absurd rfl hname
      | cons c cs =>
        by_contra hnot
        have hnot' : ¬ policy.isModuleAllowed (c :: cs) = true := hnot
        change (if policy.isModuleAllowed (c :: cs) = true then [] else _) = [] at h
        rw [if_neg hnot'] at h
        cases h
  | name id =>
    intro call hcall
    cases hcall
  | constant value =>
    intro call hcall
    cases hcall
  | attributeOf value attr => exact calls_allowed globals value (List.append_eq_nil_iff.mp h).2
  | subscript value slice =>
    obtain ⟨hvalue,hslice⟩ := List.append_eq_nil_iff.mp (List.append_eq_nil_iff.mp h).2
    intro call hcall
    rcases List.mem_append.mp hcall with hcall | hcall
    · exact calls_allowed globals value hvalue call hcall
    · exact calls_allowed globals slice hslice call hcall
  | call func args =>
    obtain ⟨hfunc,hargs⟩ := List.append_eq_nil_iff.mp (List.append_eq_nil_iff.mp h).2
    intro call hcall
    rcases List.mem_append.mp hcall with hcall | hcall
    · exact calls_allowed globals func hfunc call hcall
    · exact calls_allowed_all globals args hargs call hcall
  | assign target value => exact calls_allowed globals value h
  | store target value =>
    obtain ⟨htarget,hvalue⟩ := List.append_eq_nil_iff.mp h
    intro call hcall
    rcases List.mem_append.mp hcall with hcall | hcall
    · exact calls_allowed globals target htarget call hcall
    · exact calls_allowed globals value hvalue call hcall
  | other children => exact calls_allowed_all globals children h

theorem calls_allowed_all (globals : Globals) (nodes : List Node) (h : visitAll policy nodes = []) :
    ∀ call ∈ callsOfAll globals nodes, call.level = 0 → call.name ≠ [] → policy.isModuleAllowed call.name = true := by
  cases nodes with
  | nil =>
    intro call hcall
    cases hcall
  | cons node nodes =>
    obtain ⟨hnode,hnodes⟩ := List.append_eq_nil_iff.mp h
    intro call hcall
    rcases List.mem_append.mp hcall with hcall | hcall
    · exact calls_allowed globals node hnode call hcall
    · exact calls_allowed_all globals nodes hnodes call hcall

end
end Validator

section Policies
variable (policy : Policy)

def exempt (name : Text) : Bool := startsUnderscore name || listed internalModules name

def NetworkDependency (name : Text) : Prop :=
  policy.allow_network = false ∧ listed networkModules name = true ∧ policy.isModuleAllowed name = true

/-- A dependency with a dotted name that is neither a system nor a network module, and not allowed by its first part. -/
def DottedDependency (name : Text) : Prop :=
  name ∈ policy.allowed_dependencies ∧ listed systemAccessModules name = false ∧
    (policy.allow_network = false → listed networkModules name = false) ∧ policy.isModuleAllowed name = false

/-- The hook's decision about an absolute call is the validator's: an exempt name is allowed; where the caller is no user script
the module is allowed; where the caller cannot be told it is not; and for a user script the module is no network dependency and
no dotted one. -/
def Decided (path : Text) (samefile : Text → Text → Option Bool) (call : ImportCall) : Prop :=
  if exempt call.name then policy.isModuleAllowed call.name = true
  else match isImportFromUserScript path samefile call.globals with
    | none => policy.isModuleAllowed call.name = false
    | some false => policy.isModuleAllowed call.name = true
    | some true => ¬ NetworkDependency policy call.name ∧ ¬ DottedDependency policy call.name

variable {policy} {path : Text} {samefile : Text → Text → Option Bool} {call : ImportCall}

theorem listed_append (a b : List Text) (name : Text) : listed (a ++ b) name = (listed a name || listed b name) := by
  unfold listed
  rw [Bool.eq_iff_iff]
  simp only [Bool.or_eq_true, List.contains_iff_mem, List.mem_append]
  tauto

theorem restrictedImport_hook : (policy.hook path samefile).restrictedImport call =
    if exempt call.name then true
    else match isImportFromUserScript path samefile call.globals with
      | none => false
      | some false => true
      | some true =>
        if listed (policy.hook path samefile).blocked_modules call.name then false
        else if listed (policy.hook path samefile).safe_stdlib call.name then true
        else if listed policy.allowed_dependencies call.name then true
        else submoduleOf policy.allowed_dependencies call.name := by
  unfold Hook.restrictedImport exempt
  rw [if_neg (show ¬ (policy.hook path samefile).wrapper_initialized = false from Bool.noConfusion)]
  cases startsUnderscore call.name <;> rfl

theorem restrictedImport_user (hexempt : exempt call.name = false)
    (huser : isImportFromUserScript path samefile call.globals = some true) :
    (policy.hook path samefile).restrictedImport call =
      (!(listed systemAccessModules call.name || (!policy.allow_network && listed networkModules call.name)) &&
        (listed safeStdlibModules call.name || (policy.allow_network && listed networkModules call.name) ||
          listed policy.allowed_dependencies call.name || submoduleOf policy.allowed_dependencies call.name)) := by
  have hblocked : listed (policy.hook path samefile).blocked_modules call.name =
      (listed systemAccessModules call.name || (!policy.allow_network && listed networkModules call.name)) := by
    refine (listed_append ..).trans ?_
    cases policy.allow_network <;> rfl
  have hsafe : listed (policy.hook path samefile).safe_stdlib call.name =
      (listed safeStdlibModules call.name || (policy.allow_network && listed networkModules call.name)) := by
    refine (listed_append ..).trans ?_
    cases policy.allow_network <;> rfl
  rw [restrictedImport_hook, hexempt, huser, if_neg Bool.false_ne_true]
  dsimp only
  rw [hblocked, hsafe]
  cases listed systemAccessModules call.name || (!policy.allow_network && listed networkModules call.name) <;>
    cases listed safeStdlibModules call.name || (policy.allow_network && listed networkModules call.name) <;>
    cases listed policy.allowed_dependencies call.name <;> simp

theorem isModuleAllowed_eq (name : Text) : policy.isModuleAllowed name =
    (!listed systemAccessModules name &&
      (policy.allowed_dependencies.contains (getModuleBase name) || submoduleOf policy.allowed_dependencies name ||
        if listed networkModules name then policy.allow_network else listed safeStdlibModules name)) := by
  unfold Policy.isModuleAllowed
  cases policy.allowed_dependencies.contains (getModuleBase name) <;> cases listed systemAccessModules name <;>
    cases submoduleOf policy.allowed_dependencies name <;> simp

/-- The two policies for the kinds that a module can be of: `network` tells whether network modules count, `name` and `base`
whether it is, or its first part is, among the dependencies. -/
theorem policies_alike_iff : ∀ network name base sub system net safe : Bool,
    (!(system || (!network && net)) && (safe || (network && net) || (name || base) || sub)) =
        (!system && (base || sub || if net then network else safe)) ↔
      ¬ (network = false ∧ net = true ∧ (!system && (base || sub || if net then network else safe)) = true) ∧
        ¬ (name = true ∧ system = false ∧ (network = false → net = false) ∧
          (!system && (base || sub || if net then network else safe)) = false) := by
  decide

theorem user_decided_iff (hexempt : exempt call.name = false)
    (huser : isImportFromUserScript path samefile call.globals = some true) :
    (policy.hook path samefile).restrictedImport call = policy.isModuleAllowed call.name ↔
      ¬ NetworkDependency policy call.name ∧ ¬ DottedDependency policy call.name := by
  rw [restrictedImport_user hexempt huser]
  unfold NetworkDependency DottedDependency
  rw [isModuleAllowed_eq]
  have hcases := policies_alike_iff policy.allow_network (policy.allowed_dependencies.contains call.name)
    (policy.allowed_dependencies.contains (getModuleBase call.name)) (submoduleOf policy.allowed_dependencies call.name)
    (listed systemAccessModules call.name) (listed networkModules call.name) (listed safeStdlibModules call.name)
  rw [List.contains_iff_mem] at hcases
  exact hcases

theorem decided_iff : (policy.hook path samefile).restrictedImport call = policy.isModuleAllowed call.name ↔
    Decided policy path samefile call := by
  unfold Decided
  rw [restrictedImport_hook]
  cases hexempt : exempt call.name with
  | true =>
    rw [if_pos rfl, if_pos rfl]
    exact eq_comm
  | false =>
    rw [if_neg Bool.false_ne_true, if_neg Bool.false_ne_true]
    cases huser : isImportFromUserScript path samefile call.globals with
    | none => exact eq_comm
    | some user =>
      cases user with
      | false => exact eq_comm
      | true =>
        have hiff : (policy.hook path samefile).restrictedImport call = policy.isModuleAllowed call.name ↔ _ :=
          user_decided_iff hexempt huser
        rw [restrictedImport_hook, hexempt, huser, if_neg Bool.false_ne_true] at hiff
        exact hiff

end Policies

section Runs
variable (policy : Policy) (path : Text) (samefile : Text → Text → Option Bool)

/-- An import statement of an accepted script, when it names a module: it is absolute, and of an exempt module, or from a caller
that is no user script, or of no network dependency. -/
def StatementAlike (call : ImportCall) : Prop :=
  call.resolve.isSome → call.level = 0 ∧ (exempt call.name = true ∨ isImportFromUserScript path samefile call.globals = some false ∨
    isImportFromUserScript path samefile call.globals = some true ∧ ¬ NetworkDependency policy call.name)

def DynamicAlike (call : ImportCall) : Prop := call.resolve.isSome → call.level = 0 ∧ Decided policy path samefile call

/-- What the script does is decided alike: its imports are, the globals of the hook keep what the hook is generated with, and the
names of its imports are plain. -/
def Alike : State → Action → Prop
  | _, .assign _ => True
  | _, .rebind hook => hook = policy.hook path samefile
  | _, .statement call => StatementAlike policy path samefile call
  | _, .dynamic call => DynamicAlike policy path samefile call
  | _, .disguised _ _ => False

variable {policy} {path} {samefile} {script : List Node}

theorem resolve_absolute {call : ImportCall} (hlevel : call.level = 0) {module : Text} (h : call.resolve = some module) :
    call.name = module ∧ module ≠ [] := by
  unfold ImportCall.resolve at h
  rw [if_pos hlevel] at h
  split at h
  · cases h
  · rename_i hne
    cases h
    exact ⟨rfl,hne⟩

/-- The hook is the generated one, and its decisions are the validator's. -/
def Agrees (policy : Policy) (path : Text) (samefile : Text → Text → Option Bool) (st : State) : Prop :=
  st.hook = policy.hook path samefile ∧ ∀ d ∈ st.decisions, d.2 = policy.isModuleAllowed d.1

theorem agrees_decide {call : ImportCall} {st : State} (h : Agrees policy path samefile st)
    (hcall : ∀ module, call.resolve = some module →
      (policy.hook path samefile).restrictedImport call = policy.isModuleAllowed module) :
    Agrees policy path samefile (st.decide call (st.hook.restrictedImport call)) := by
  obtain ⟨hhook,hdecisions⟩ := h
  rw [hhook]
  unfold State.decide
  split
  · exact ⟨hhook,hdecisions⟩
  · rename_i module hmodule
    refine ⟨hhook,?_⟩
    intro d hd
    rcases List.mem_append.mp hd with hd | hd
    · exact hdecisions d hd
    · obtain rfl := List.mem_singleton.mp hd
      exact hcall module hmodule

theorem statement_decided (haccepted : validate policy script = []) {globals : Globals} {call : ImportCall}
    (hcall : call ∈ callsOfAll globals script) (hok : StatementAlike policy path samefile call) {module : Text}
    (hmodule : call.resolve = some module) :
    (policy.hook path samefile).restrictedImport call = policy.isModuleAllowed module := by
  obtain ⟨hlevel,hcase⟩ := hok (by rw [hmodule]; rfl)
  obtain ⟨rfl,hne⟩ := resolve_absolute hlevel hmodule
  have hallowed := calls_allowed_all globals script haccepted call hcall hlevel hne
  rw [decided_iff]
  unfold Decided
  split
  · exact hallowed
  · rename_i hexempt
    rcases hcase with h | h | ⟨h,hnetwork⟩
    · exact absurd h hexempt
    · rw [h]
      exact hallowed
    · rw [h]
      refine ⟨hnetwork,?_⟩
      rintro ⟨-,-,-,hnot⟩
      rw [hallowed] at hnot
      cases hnot

theorem agrees_next (haccepted : validate policy script = []) {st st' : State} {action : Action}
    (h : Agrees policy path samefile st) (hok : Alike policy path samefile st action)
    (hnext : next script st action = some st') : Agrees policy path samefile st' := by
  cases action with
  | assign globals =>
    cases hnext
    exact h
  | rebind hook =>
    cases hnext
    exact ⟨hok,h.2⟩
  | statement call =>
    unfold next at hnext
    dsimp only at hnext
    split at hnext
    · rename_i hcall
      cases hnext
      exact agrees_decide h fun module hmodule => statement_decided haccepted hcall hok hmodule
    · cases hnext
  | dynamic call =>
    cases hnext
    apply agrees_decide h
    intro module hmodule
    obtain ⟨hlevel,hdecided⟩ := hok (by rw [hmodule]; rfl)
    obtain ⟨rfl,-⟩ := resolve_absolute hlevel hmodule
    exact decided_iff.mpr hdecided
  | disguised call answer => exact hok.elim

/-- In every run of an accepted script whose own imports are decided alike one by one and that leaves the hook's globals as they
are, the hook lets an import through exactly if the validator allows its module, whatever the script assigns to its globals. -/
theorem imports_agree (policy : Policy) (path : Text) (samefile : Text → Text → Option Bool) {script : List Node}
    (haccepted : validate policy script = []) {st : State}
    (h : Runs.Reaches (next script) (Alike policy path samefile) (started path (policy.hook path samefile)) st) :
    ∀ d ∈ st.decisions, d.2 = policy.isModuleAllowed d.1 := by
  have hstarted : Agrees policy path samefile (started path (policy.hook path samefile)) :=
    ⟨rfl,fun _ hd => (List.not_mem_nil hd).elim⟩
  exact (h.invariant hstarted fun _ _ _ _ hagrees hok hnext => agrees_next haccepted hagrees hok hnext).2

end Runs

section Samples

def noDependencies : Policy := ⟨[],false⟩

def scriptPath : Text := "/tmp/safe-sandbox-1/script.py".toList

def samePath (a b : Text) : Option Bool := some (a = b)

def sampleHook : Hook := noDependencies.hook scriptPath samePath

/-- `import json`, and `__import__("os")` by another name. -/
def plainScript : List Node :=
  [.importStmt [⟨"json".toList,none⟩],.assign "load".toList (.name "__import__".toList),
    .call (.name "load".toList) [.constant "os".toList]]

/-- A file in `site-packages` and a package: `from . import path`. -/
def packagedScript : List Node :=
  [.assign "__file__".toList (.constant "/site-packages/a.py".toList),.assign "__package__".toList (.constant "os".toList),
    .importFrom none [⟨"path".toList,none⟩] 1]

/-- An import of an internal module, by another name for `__import__`. -/
def aliasScript : List Node :=
  [.assign "load".toList (.name "__import__".toList),.call (.name "load".toList) [.constant "_posixsubprocess".toList]]

/-- The hook's own global, by another name for `__import__`, and an import of `os`. -/
def rebindingScript : List Node :=
  [.assign "load".toList (.name "__import__".toList),
    .store (.subscript (.attributeOf (.name "load".toList) "__globals__".toList) (.constant "_wrapper_initialized".toList))
      (.constant []),
    .call (.name "load".toList) [.constant "os".toList]]

/-- What the straight-line code of a script comes to. -/
def straightDecisions (script : List Node) : Option (List (Text × Bool)) :=
  (Runs.follow (next script) (started scriptPath sampleHook) (straightActions sampleHook (wrapperBound scriptPath) script)).map
    State.decisions

theorem imports_agree_plain : validate noDependencies plainScript = [] ∧
    straightDecisions plainScript = some [("json".toList,true),("os".toList,false)] ∧
    ∃ st : State, st.decisions = [("json".toList,true),("os".toList,false)] ∧
      ∀ d ∈ st.decisions, d.2 = noDependencies.isModuleAllowed d.1 := by
  have haccepted : validate noDependencies plainScript = [] := by decide
  refine ⟨haccepted,by decide,⟨wrapperGlobals scriptPath,sampleHook,[("json".toList,true),("os".toList,false)]⟩,rfl,?_⟩
  apply imports_agree noDependencies scriptPath samePath haccepted
  -- the import statement first, and the call of the other name after it
  have hjson : Runs.Reaches (next plainScript) (Alike noDependencies scriptPath samePath) (started scriptPath sampleHook)
      ⟨wrapperGlobals scriptPath,sampleHook,[("json".toList,true)]⟩ := by
    refine Runs.Reaches.refl.step (a := .statement ⟨"json".toList,some (wrapperGlobals scriptPath),0⟩) ?_ ?_
    · intro _
      refine ⟨rfl,.inr (.inr ⟨by decide,?_⟩)⟩
      rintro ⟨-,h,-⟩
      revert h
      decide
    · have hcall : ⟨"json".toList,some (wrapperGlobals scriptPath),0⟩ ∈ callsOfAll (wrapperGlobals scriptPath) plainScript := by
        decide
      unfold next
      exact if_pos hcall
  refine hjson.step (a := .dynamic ⟨"os".toList,none,0⟩) ?_ rfl
  intro _
  refine ⟨rfl,?_,?_⟩
  · rintro ⟨-,h,-⟩
    revert h
    decide
  · rintro ⟨h,-⟩
    cases h

/-- Accepted scripts that import `os`, an internal module, and `os` again, none of which the validator allows. -/
theorem hook_is_wider : validate noDependencies packagedScript = [] ∧
    straightDecisions packagedScript = some [("os".toList,true)] ∧
    noDependencies.isModuleAllowed "os".toList = false ∧
    validate noDependencies aliasScript = [] ∧
    straightDecisions aliasScript = some [("_posixsubprocess".toList,true)] ∧
    noDependencies.isModuleAllowed "_posixsubprocess".toList = false ∧
    validate noDependencies rebindingScript = [] ∧ straightDecisions rebindingScript = some [("os".toList,true)] := by
  refine ⟨by decide,by decide,by decide,by decide,by decide,by decide,by decide,by decide⟩

end Samples
end SafeScripts
end Allama
