import Mathlib
import Allama.Expressions

/-! The configs of looped subflows: one for all iterations where they agree, else one for each. -/
namespace Allama
namespace SubflowConfigs

/-- The numbers of seconds, with their truth and equality: equal ones that are true are the same. -/
structure Timeouts (T : Type) where
  truthy : T → Bool
  eq : T → T → Bool
  refl_of_truthy : ∀ a b, eq a b = true → truthy a = truthy b ∧ (truthy a = true → a = b)

inductive Scheduler
  | static
  | dynamic
  deriving DecidableEq

structure DSLConfig (T : Type) where
  scheduler : Scheduler
  environment : Text
  timeout : T

/-- What the args of an iteration say, after validation. -/
structure ExecuteSubflowArgs (T V : Type) where
  environment : Option Text
  timeout : Option T
  trigger_inputs : V

/-- `T | list[T]`. -/
inductive Configs (A : Type)
  | one (config : A)
  | many (configs : List A)

/-- `get_config`, none for an index outside the list. -/
def Configs.get {A : Type} : Configs A → ℕ → Option A
  | .one config, _ => some config
  | .many configs, index => configs[index]?

inductive LoopError
  | exceedsMaxIterations (count : ℕ)
  | emptyBatch (start size total : ℕ)

section Equal
variable {A : Type}

/-- One config if all equal the first one, else the list. -/
def collapse (same : A → A → Bool) : List A → Configs A
  | [] => .many []
  | first :: rest => if rest.all fun config => same config first then .one first else .many (first :: rest)

theorem get_collapse {same : A → A → Bool} {configs : List A} {i : ℕ} (hi : i < configs.length) :
    ∃ j, ∃ hj : j < configs.length,
      (collapse same configs).get i = some configs[j] ∧ (j = i ∨ same configs[i] configs[j] = true) := by
  cases configs with
  | nil => exact absurd hi (Nat.not_lt_zero i)
  | cons first rest =>
    rw [collapse]
    split_ifs with hall
    · refine ⟨0,Nat.zero_lt_succ _,rfl,?_⟩
      cases i with
      | zero => exact .inl rfl
      | succ j =>
        have hj : j < rest.length := Nat.lt_of_succ_lt_succ hi
        exact .inr (List.all_eq_true.mp hall rest[j] (List.getElem_mem hj))
    · exact ⟨i,hi,List.getElem?_eq_getElem hi,.inl rfl⟩

/-- One config if all, the first one included, equal the first one, else the list. -/
def collapseAll (same : A → A → Bool) : List A → Configs A
  | [] => .many []
  | first :: rest =>
    if (first :: rest).all fun config => same config first then .one first else .many (first :: rest)

theorem get_collapseAll {same : A → A → Bool} {configs : List A} {i : ℕ} (hi : i < configs.length) :
    ∃ j, ∃ hj : j < configs.length,
      (collapseAll same configs).get i = some configs[j] ∧ (j = i ∨ same configs[i] configs[j] = true) := by
  cases configs with
  | nil => exact absurd hi (Nat.not_lt_zero i)
  | cons first rest =>
    rw [collapseAll]
    split_ifs with hall
    · exact ⟨0,Nat.zero_lt_succ _,rfl,.inr (List.all_eq_true.mp hall _ (List.getElem_mem hi))⟩
    · exact ⟨i,hi,List.getElem?_eq_getElem hi,.inl rfl⟩

end Equal

section Loops
variable {T V : Type} (times : Timeouts T)

def maxLoopIterations : ℕ := 4096

/-- `a or b` for a text. -/
def orText (a : Option Text) (b : Text) : Text :=
  match a with
  | some (c :: cs) => c :: cs
  | _ => b

/-- `a or b` for a timeout. -/
def orTimeout (a : Option T) (b : T) : T :=
  match a with
  | some timeout => if times.truthy timeout then timeout else b
  | none => b

/-- The equality of `DSLConfig`. -/
def sameConfig (a b : DSLConfig T) : Bool :=
  decide (a.scheduler = b.scheduler) && decide (a.environment = b.environment) && times.eq a.timeout b.timeout

/-- The config of one iteration. -/
def configOf (dsl_config : DSLConfig T) (args : ExecuteSubflowArgs T V) : DSLConfig T :=
  ⟨.dynamic,orText args.environment dsl_config.environment,orTimeout times args.timeout dsl_config.timeout⟩

/-- `_evaluate_loop_iterations`, of the args that the iterations evaluate to. -/
def evaluateLoopIterations (dsl_config : DSLConfig T) (iterations : List (ExecuteSubflowArgs T V)) :
    Except LoopError (List V × Configs (DSLConfig T)) :=
  if maxLoopIterations < iterations.length then .error (.exceedsMaxIterations iterations.length)
  else .ok (iterations.map ExecuteSubflowArgs.trigger_inputs,
    collapse (sameConfig times) (iterations.map (configOf times dsl_config)))

/-- The trigger inputs of all iterations: in line, or a collection that is stored. -/
inductive TriggerInputs (V : Type)
  | inline (data : List V)
  | collection (items : List V)

/-- The trigger inputs of one child: a value, or a handle to the item of the collection. -/
inductive TriggerInput (V : Type)
  | value (data : V)
  | item (items : List V) (index : ℕ)

structure PreparedSubflowResult (T V : Type) where
  config : DSLConfig T
  trigger_inputs : TriggerInputs V
  runtime_configs : Option (Configs (DSLConfig T))

def PreparedSubflowResult.getConfig (prepared : PreparedSubflowResult T V) (index : ℕ) : Option (DSLConfig T) :=
  match prepared.runtime_configs with
  | none => some prepared.config
  | some configs => configs.get index

def PreparedSubflowResult.count (prepared : PreparedSubflowResult T V) : ℕ :=
  match prepared.trigger_inputs with
  | .inline data => data.length
  | .collection items => items.length

def PreparedSubflowResult.getTriggerInputAt (prepared : PreparedSubflowResult T V) (index : ℕ) : Option (TriggerInput V) :=
  match prepared.trigger_inputs with
  | .inline data => data[index]?.map .value
  | .collection items => some (.item items index)

/-- `_prepare_subflow` for a loop; `externalized` is `ALLAMA__RESULT_EXTERNALIZATION_ENABLED`. -/
def prepareSubflow (externalized : Bool) (dsl_config : DSLConfig T) (iterations : List (ExecuteSubflowArgs T V)) :
    Except LoopError (PreparedSubflowResult T V) :=
  (evaluateLoopIterations times dsl_config iterations).map fun (inputs,configs) =>
    ⟨dsl_config,if externalized then .collection inputs else .inline inputs,some configs⟩

/-- What a child is run with, as far as the iteration decides it. -/
structure DSLRunArgs (T V : Type) where
  loop_index : ℕ
  trigger_inputs : TriggerInput V
  runtime_config : DSLConfig T

/-- The run args of a batch, none if an index is outside the lists. -/
def batchRunArgs (prepared : PreparedSubflowResult T V) (batch_start batch_size : ℕ) : Option (List (DSLRunArgs T V)) :=
  (List.range batch_size).mapM fun i =>
    (prepared.getConfig (batch_start + i)).bind fun config =>
      (prepared.getTriggerInputAt (batch_start + i)).map fun input => ⟨batch_start + i,input,config⟩

/-- The config a child runs under: that of its definition with the fields that are set in its run args. -/
def childConfig (dsl_config runtime_config : DSLConfig T) : DSLConfig T :=
  { dsl_config with environment := runtime_config.environment, timeout := runtime_config.timeout }

/-- The batches of the loop that is prepared as a whole, one after another; `fuel` bounds their number. -/
def loopRunArgs (prepared : PreparedSubflowResult T V) (batch_size : ℕ) : ℕ → ℕ → Option (List (DSLRunArgs T V))
  | 0, batch_start => if batch_start < prepared.count then none else some []
  | fuel + 1, batch_start =>
    if batch_start < prepared.count then
      let current := min batch_size (prepared.count - batch_start)
      (batchRunArgs prepared batch_start current).bind fun batch =>
        (loopRunArgs prepared batch_size fuel (batch_start + current)).map fun rest => batch ++ rest
    else some []

/-- What the args of an iteration say, before the defaults of the definition. -/
structure ResolvedSubflowConfig (T : Type) where
  environment : Option Text
  timeout : Option T

def sameResolved (a b : ResolvedSubflowConfig T) : Bool :=
  decide (a.environment = b.environment) &&
    match a.timeout, b.timeout with
    | none, none => true
    | some s, some t => times.eq s t
    | _, _ => false

/-- `_resolve_subflow_batch`: the configs and the trigger inputs of the iterations of one batch. -/
def resolveSubflowBatch (iterations : List (ExecuteSubflowArgs T V)) (batch_start batch_size : ℕ) :
    Except LoopError (Configs (ResolvedSubflowConfig T) × List V) :=
  let batch := (iterations.drop batch_start).take batch_size
  if batch.length = 0 then .error (.emptyBatch batch_start batch_size iterations.length)
  else .ok (collapseAll (sameResolved times) (batch.map fun args => ⟨args.environment,args.timeout⟩),
    batch.map ExecuteSubflowArgs.trigger_inputs)

/-- The config of a child of a resolved batch. -/
def resolvedRuntimeConfig (dsl_config : DSLConfig T) (config : ResolvedSubflowConfig T) : DSLConfig T :=
  ⟨.dynamic,orText config.environment dsl_config.environment,orTimeout times config.timeout dsl_config.timeout⟩

/-- The run args of every iteration, each of its own. -/
def ownRunArgs (externalized : Bool) (dsl_config : DSLConfig T) (iterations : List (ExecuteSubflowArgs T V)) :
    List (DSLRunArgs T V) :=
  iterations.mapIdx fun i args =>
    ⟨i,if externalized then .item (iterations.map ExecuteSubflowArgs.trigger_inputs) i else .value args.trigger_inputs,
      configOf times dsl_config args⟩

end Loops

section Iterations
variable {T V : Type} {times : Timeouts T} {dsl_config : DSLConfig T} {iterations : List (ExecuteSubflowArgs T V)}

theorem orTimeout_cases (a : Option T) (b : T) :
    times.truthy (orTimeout times a b) = true ∨ orTimeout times a b = b := by
  unfold orTimeout
  cases a with
  | none => exact .inr rfl
  | some timeout =>
    dsimp only
    split_ifs with htruthy
    · exact .inl htruthy
    · exact .inr rfl

theorem configOf_same {a b : ExecuteSubflowArgs T V}
    (h : sameConfig times (configOf times dsl_config a) (configOf times dsl_config b) = true) :
    configOf times dsl_config b = configOf times dsl_config a := by
  obtain ⟨henvironments,htimeouts⟩ := Bool.and_eq_true_iff.mp h
  have henvironment := of_decide_eq_true (Bool.and_eq_true_iff.mp henvironments).2
  obtain ⟨htruth,hsame⟩ := times.refl_of_truthy _ _ htimeouts
  have htimeout : (configOf times dsl_config b).timeout = (configOf times dsl_config a).timeout := by
    obtain htruthy | hdefault := @orTimeout_cases _ times a.timeout dsl_config.timeout
    · exact (hsame htruthy).symm
    · obtain htruthy | hdefault' := @orTimeout_cases _ times b.timeout dsl_config.timeout
      · exact (hsame (htruth.trans htruthy)).symm
      · exact hdefault'.trans hdefault.symm
  unfold configOf at henvironment htimeout ⊢
  rw [show orText b.environment dsl_config.environment = orText a.environment dsl_config.environment from henvironment.symm,
    show orTimeout times b.timeout dsl_config.timeout = orTimeout times a.timeout dsl_config.timeout from htimeout]

theorem prepareSubflow_ok (externalized : Bool) (h : iterations.length ≤ maxLoopIterations) :
    prepareSubflow times externalized dsl_config iterations = .ok
      ⟨dsl_config,
        if externalized then .collection (iterations.map ExecuteSubflowArgs.trigger_inputs)
          else .inline (iterations.map ExecuteSubflowArgs.trigger_inputs),
        some (collapse (sameConfig times) (iterations.map (configOf times dsl_config)))⟩ := by
  unfold prepareSubflow evaluateLoopIterations
  rw [if_neg (Nat.not_lt.mpr h)]
  rfl

theorem length_of_prepareSubflow {prepared : PreparedSubflowResult T V} {externalized : Bool}
    (h : prepareSubflow times externalized dsl_config iterations = .ok prepared) :
    iterations.length ≤ maxLoopIterations := by
  by_contra hlong
  unfold prepareSubflow evaluateLoopIterations at h
  rw [if_pos (Nat.lt_of_not_le hlong)] at h
  cases h

theorem getConfig_prepared {prepared : PreparedSubflowResult T V} {externalized : Bool}
    (h : prepareSubflow times externalized dsl_config iterations = .ok prepared) {i : ℕ} (hi : i < iterations.length) :
    prepared.getConfig i = some (configOf times dsl_config iterations[i]) := by
  rw [prepareSubflow_ok externalized (length_of_prepareSubflow h)] at h
  cases h
  have hmapped : i < (iterations.map (configOf times dsl_config)).length := by rwa [List.length_map]
  obtain ⟨j,hj,hconfig,hsame⟩ := @get_collapse _ (sameConfig times) _ i hmapped
  simp only [List.getElem_map] at hconfig hsame
  unfold PreparedSubflowResult.getConfig
  dsimp only
  rw [hconfig]
  obtain rfl | hequal := hsame
  · rfl
  · rw [configOf_same hequal]

theorem getTriggerInputAt_prepared {prepared : PreparedSubflowResult T V} {externalized : Bool}
    (h : prepareSubflow times externalized dsl_config iterations = .ok prepared) {i : ℕ} (hi : i < iterations.length) :
    prepared.getTriggerInputAt i =
      some (if externalized then .item (iterations.map ExecuteSubflowArgs.trigger_inputs) i
        else .value iterations[i].trigger_inputs) := by
  rw [prepareSubflow_ok externalized (length_of_prepareSubflow h)] at h
  cases h
  unfold PreparedSubflowResult.getTriggerInputAt
  cases externalized with
  | true => rfl
  | false => simp [hi]

theorem count_prepared {prepared : PreparedSubflowResult T V} {externalized : Bool}
    (h : prepareSubflow times externalized dsl_config iterations = .ok prepared) : prepared.count = iterations.length := by
  rw [prepareSubflow_ok externalized (length_of_prepareSubflow h)] at h
  cases h
  unfold PreparedSubflowResult.count
  cases externalized with
  | true => exact List.length_map _
  | false => exact List.length_map _

theorem length_ownRunArgs (externalized : Bool) :
    (ownRunArgs times externalized dsl_config iterations).length = iterations.length := List.length_mapIdx

theorem batchRunArgs_prepared {prepared : PreparedSubflowResult T V} {externalized : Bool}
    (h : prepareSubflow times externalized dsl_config iterations = .ok prepared) {batch_start batch_size : ℕ}
    (hbatch : batch_start + batch_size ≤ iterations.length) :
    batchRunArgs prepared batch_start batch_size =
      some (((ownRunArgs times externalized dsl_config iterations).drop batch_start).take batch_size) := by
  unfold batchRunArgs
  induction batch_size with
  | zero => rfl
  | succ size ih =>
    have hi : batch_start + size < iterations.length := hbatch
    rw [List.range_succ,List.mapM_append,ih (Nat.le_of_lt hi),List.mapM_cons,List.mapM_nil,
      getConfig_prepared h hi,getTriggerInputAt_prepared h hi]
    have hown : size < ((ownRunArgs times externalized dsl_config iterations).drop batch_start).length := by
      rw [List.length_drop,length_ownRunArgs]
      omega
    rw [← List.take_append_getElem hown,List.getElem_drop]
    simp [ownRunArgs]

theorem loopRunArgs_prepared {prepared : PreparedSubflowResult T V} {externalized : Bool}
    (h : prepareSubflow times externalized dsl_config iterations = .ok prepared) {batch_size : ℕ} (hsize : 1 ≤ batch_size) :
    ∀ (fuel batch_start : ℕ), iterations.length ≤ batch_start + fuel →
      loopRunArgs prepared batch_size fuel batch_start =
        some ((ownRunArgs times externalized dsl_config iterations).drop batch_start) := by
  have hcount := count_prepared h
  have hdone : ∀ batch_start, ¬ batch_start < prepared.count →
      (ownRunArgs times externalized dsl_config iterations).drop batch_start = [] := by
    intro batch_start hstart
    rw [List.drop_eq_nil_iff,length_ownRunArgs]
    omega
  intro fuel
  induction fuel with
  | zero =>
    intro batch_start hfuel
    have hstart : ¬ batch_start < prepared.count := by omega
    rw [loopRunArgs,if_neg hstart,hdone batch_start hstart]
  | succ fuel ih =>
    intro batch_start hfuel
    rw [loopRunArgs]
    split_ifs with hstart
    · -- the batch is not empty, so one unit of fuel pays for it
      have hcurrent : 1 ≤ min batch_size (prepared.count - batch_start) := by omega
      have hbatch : batch_start + min batch_size (prepared.count - batch_start) ≤ iterations.length := by omega
      dsimp only
      rw [batchRunArgs_prepared h hbatch,ih _ (by omega),← List.drop_drop]
      exact congrArg some (List.take_append_drop _ _)
    · rw [hdone batch_start hstart]

theorem resolvedRuntimeConfig_same {a b : ResolvedSubflowConfig T} (h : sameResolved times a b = true) :
    resolvedRuntimeConfig times dsl_config b = resolvedRuntimeConfig times dsl_config a := by
  obtain ⟨environment,timeout⟩ := a
  obtain ⟨environment',timeout'⟩ := b
  obtain ⟨henvironment,htimeout⟩ := Bool.and_eq_true_iff.mp h
  obtain rfl : environment = environment' := of_decide_eq_true henvironment
  cases timeout with
  | none =>
    cases timeout' with
    | none => rfl
    | some t => cases htimeout
  | some s =>
    cases timeout' with
    | none => cases htimeout
    | some t =>
      obtain ⟨htruth,hsame⟩ := times.refl_of_truthy s t htimeout
      unfold resolvedRuntimeConfig orTimeout
      dsimp only
      rw [← htruth]
      split_ifs with htruthy
      · rw [hsame htruthy]
      · rfl

theorem resolveSubflowBatch_ok {batch_start batch_size : ℕ} (hsize : 1 ≤ batch_size)
    (hstart : batch_start < iterations.length) :
    ∃ configs, resolveSubflowBatch times iterations batch_start batch_size =
        .ok (configs,((iterations.drop batch_start).take batch_size).map ExecuteSubflowArgs.trigger_inputs) ∧
      ∀ (i : ℕ) (hi : batch_start + i < iterations.length), i < batch_size →
        (configs.get i).map (resolvedRuntimeConfig times dsl_config) =
          some (configOf times dsl_config iterations[batch_start + i]) := by
  have hlength : ((iterations.drop batch_start).take batch_size).length ≠ 0 := by
    rw [List.length_take,List.length_drop]
    omega
  unfold resolveSubflowBatch
  rw [if_neg hlength]
  refine ⟨_,rfl,?_⟩
  intro i hi hbatch
  have hplace : i < (((iterations.drop batch_start).take batch_size).map fun args : ExecuteSubflowArgs T V =>
      (⟨args.environment,args.timeout⟩ : ResolvedSubflowConfig T)).length := by
    rw [List.length_map,List.length_take,List.length_drop]
    omega
  obtain ⟨j,hj,hconfig,hsame⟩ := @get_collapseAll _ (sameResolved times) _ i hplace
  rw [hconfig]
  have hresolved : resolvedRuntimeConfig times dsl_config
      (((iterations.drop batch_start).take batch_size).map fun args : ExecuteSubflowArgs T V =>
        (⟨args.environment,args.timeout⟩ : ResolvedSubflowConfig T))[i] =
      configOf times dsl_config iterations[batch_start + i] := by
    simp only [List.getElem_map,List.getElem_take,List.getElem_drop]
    rfl
  obtain rfl | hequal := hsame
  · exact congrArg some hresolved
  · exact congrArg some ((resolvedRuntimeConfig_same hequal).trans hresolved)

end Iterations

/-- Children run under the environment and the timeout of their own iterations, however the configs are kept. -/
theorem children_configured {T V : Type} (times : Timeouts T) (externalized : Bool) (dsl_config : DSLConfig T)
    (iterations : List (ExecuteSubflowArgs T V)) :
    (iterations.length ≤ maxLoopIterations →
      ∃ prepared, prepareSubflow times externalized dsl_config iterations = .ok prepared) ∧
    (∀ prepared, prepareSubflow times externalized dsl_config iterations = .ok prepared →
      (∀ (i : ℕ) (hi : i < iterations.length), prepared.getConfig i = some (configOf times dsl_config iterations[i])) ∧
      (∀ batch_start batch_size, batch_start + batch_size ≤ iterations.length →
        batchRunArgs prepared batch_start batch_size =
          some (((ownRunArgs times externalized dsl_config iterations).drop batch_start).take batch_size)) ∧
      ∀ batch_size fuel, 1 ≤ batch_size → iterations.length ≤ fuel →
        loopRunArgs prepared batch_size fuel 0 = some (ownRunArgs times externalized dsl_config iterations)) ∧
    (∀ batch_start batch_size, 1 ≤ batch_size → batch_start < iterations.length →
      ∃ configs, resolveSubflowBatch times iterations batch_start batch_size =
          .ok (configs,((iterations.drop batch_start).take batch_size).map ExecuteSubflowArgs.trigger_inputs) ∧
        ∀ (i : ℕ) (hi : batch_start + i < iterations.length), i < batch_size →
          (configs.get i).map (resolvedRuntimeConfig times dsl_config) =
            some (configOf times dsl_config iterations[batch_start + i])) ∧
    ∀ args : ExecuteSubflowArgs T V,
      (childConfig dsl_config (configOf times dsl_config args)).environment =
          orText args.environment dsl_config.environment ∧
        (childConfig dsl_config (configOf times dsl_config args)).timeout =
          orTimeout times args.timeout dsl_config.timeout := by
  refine ⟨?_,?_,?_,?_⟩
  · intro hlength
    exact ⟨_,prepareSubflow_ok externalized hlength⟩
  · intro prepared h
    refine ⟨?_,?_,?_⟩
    · intro i hi
      exact getConfig_prepared h hi
    · intro batch_start batch_size hbatch
      exact batchRunArgs_prepared h hbatch
    · intro batch_size fuel hsize hfuel
      exact loopRunArgs_prepared h hsize fuel 0 (by omega)
  · intro batch_start batch_size hsize hstart
    exact resolveSubflowBatch_ok hsize hstart
  · intro args
    exact ⟨rfl,rfl⟩

/-- Whole numbers of seconds. -/
def wholeSeconds : Timeouts ℕ where
  truthy a := a != 0
  eq a b := a == b
  refl_of_truthy := by
    intro a b h
    rw [beq_iff_eq] at h
    rw [h]
    exact ⟨rfl,fun _ => rfl⟩

theorem children_configured_three :
    ∃ prepared, prepareSubflow wholeSeconds false ⟨.static,['d'],9⟩
        [⟨none,some 5,true⟩,⟨some ['e'],none,false⟩,⟨some [],some 0,true⟩] = .ok prepared ∧
      prepared.getConfig 1 = some ⟨.dynamic,['e'],9⟩ ∧
      (batchRunArgs prepared 1 2).map List.length = some 2 := by
  obtain ⟨hok,hprepared,-,-⟩ := children_configured wholeSeconds false ⟨.static,['d'],9⟩
    [⟨none,some 5,true⟩,⟨some ['e'],none,false⟩,⟨some [],some 0,true⟩]
  obtain ⟨prepared,h⟩ := hok (by decide)
  obtain ⟨hconfig,hbatch,-⟩ := hprepared prepared h
  refine ⟨prepared,h,hconfig 1 (by decide),?_⟩
  rw [hbatch 1 2 (by decide)]
  rfl

end SubflowConfigs
end Allama
