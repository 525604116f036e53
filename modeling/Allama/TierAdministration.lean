import Mathlib
import Allama.KeyedTables
import Allama.Runs

/-! The tiers and the assignments of organizations to them, under transactions of several administrators at
READ COMMITTED: a statement reads what is committed, and a commit writes what the objects of its session changed. -/
namespace Allama
namespace TierAdministration
open KeyedTables Runs
section Rows
variable (T O D : Type)

/-- A row of `Tier`; the columns that no decision reads are `details`. -/
structure Tier where
  id : T
  is_default : Bool
  is_active : Bool
  details : D
  deriving DecidableEq

structure OrganizationTier where
  organization_id : O
  tier_id : T
  deriving DecidableEq

structure TierCreate where
  is_default : Bool
  details : D

/-- The fields that are supplied, each with null or a value; `details` is none for a null that a column refuses. -/
structure TierUpdate where
  is_default : Option (Option Bool)
  is_active : Option (Option Bool)
  details : D → Option D

/-- The field `tier_id`, if it is supplied. -/
structure OrganizationTierUpdate where
  tier_id : Option (Option T)

inductive TierError
  | TierNotFoundError
  | CannotDeleteDefaultTierError
  | TierInUseError
  | DefaultTierNotConfiguredError
  | OrganizationNotFoundError
  | MultipleResultsFound
  | IntegrityError
  | StaleDataError
  deriving DecidableEq

structure Database where
  tiers : Table (Tier.id (T := T) (D := D))
  org_tiers : Table (OrganizationTier.organization_id (T := T) (O := O))
  organizations : List O

/-- Where a transaction is, with what it has loaded. -/
inductive Phase
  | createTier (id : T) (params : TierCreate D)
  | creating (id : T) (params : TierCreate D) (others : List T)
  | updateTier (tier_id : T) (params : TierUpdate D)
  | unsettingOthers (params : TierUpdate D) (loaded : Tier T D)
  | updating (params : TierUpdate D) (loaded : Tier T D) (others : List T)
  | deleteTier (tier_id : T)
  | checkingUse (tier_id : T)
  | deleting (tier_id : T)
  | updateOrgTier (org_id : O) (params : OrganizationTierUpdate T)
  | loadingOrgTier (org_id : O) (params : OrganizationTierUpdate T)
  | loadingDefault (org_id : O) (params : OrganizationTierUpdate T)
  | checkingTier (org_id : O) (params : OrganizationTierUpdate T) (row : OrganizationTier T O) (created : Bool)
  | assigning (params : OrganizationTierUpdate T) (row : OrganizationTier T O) (created : Bool)
  | finished (result : Except TierError Unit)

end Rows

section Statements
variable {T O D : Type} [DecidableEq T] [DecidableEq O] [DecidableEq D]

def Database.hasTier (db : Database T O D) (id : T) : Bool := db.tiers.rows.any fun t => t.id = id

/-- `_unset_other_defaults`: the tiers it finds, each to have its `is_default` cleared. -/
def Database.otherDefaults (db : Database T O D) (exclude_tier_id : Option T) : List T :=
  (db.tiers.rows.filter fun t => t.is_default && decide (some t.id ≠ exclude_tier_id)).map Tier.id

def scalarOneOrNone {A : Type} : List A → Except TierError (Option A)
  | [] => .ok none
  | [a] => .ok (some a)
  | _ :: _ :: _ => .error .MultipleResultsFound

def Database.getDefaultTier (db : Database T O D) : Except TierError (Option (Tier T D)) :=
  scalarOneOrNone (db.tiers.rows.filter fun t => t.is_default && t.is_active)

def Database.findTier (db : Database T O D) (id : T) : Option (Tier T D) := db.tiers.rows.find? fun t => t.id = id

def Database.findOrgTier (db : Database T O D) (org_id : O) : Option (OrganizationTier T O) :=
  db.org_tiers.rows.find? fun row => row.organization_id = org_id

def setFlag (supplied : Option (Option Bool)) (value : Bool) : Option Bool :=
  match supplied with
  | none => some value
  | some given => given

/-- The object of a tier with the supplied fields set, none for a null in a column that refuses it. -/
def TierUpdate.apply (params : TierUpdate D) (t : Tier T D) : Option (Tier T D) :=
  (setFlag params.is_default t.is_default).bind fun is_default =>
    (setFlag params.is_active t.is_active).bind fun is_active =>
      (params.details t.details).map fun details => ⟨t.id,is_default,is_active,details⟩

def writeColumn {A : Type} [DecidableEq A] (loaded new current : A) : A := if new = loaded then current else new

def Tier.write (loaded new current : Tier T D) : Tier T D where
  id := current.id
  is_default := writeColumn loaded.is_default new.is_default current.is_default
  is_active := writeColumn loaded.is_active new.is_active current.is_active
  details := writeColumn loaded.details new.details current.details

def Tier.unsetDefault (t : Tier T D) : Tier T D := { t with is_default := false }

/-- The row of a tier after the tiers `others` lost their `is_default`. -/
def unsetIn (others : List T) (t : Tier T D) : Tier T D := if t.id ∈ others then t.unsetDefault else t

/-- The row of a tier after an update that loaded `loaded` and made it `new`. -/
def updateIn (loaded new : Tier T D) (others : List T) (t : Tier T D) : Tier T D :=
  if t.id = loaded.id then loaded.write new t else unsetIn others t

omit [DecidableEq D] in
theorem unsetIn_id (others : List T) (t : Tier T D) : (unsetIn others t).id = t.id := by
  unfold unsetIn
  split_ifs
  · rfl
  · rfl

theorem updateIn_id (loaded new : Tier T D) (others : List T) (t : Tier T D) : (updateIn loaded new others t).id = t.id := by
  unfold updateIn
  split_ifs
  · rfl
  · exact unsetIn_id others t

/-- The commit of `create_tier`. -/
def Database.commitCreate (db : Database T O D) (id : T) (params : TierCreate D) (others : List T) :
    Except TierError (Database T O D) :=
  if others.all db.hasTier then
    match (db.tiers.modify (unsetIn others) (unsetIn_id others)).insert ⟨id,params.is_default,true,params.details⟩ with
    | none => .error .TierNotFoundError
    | some tiers => .ok { db with tiers := tiers }
  else .error .StaleDataError

/-- The commit of `update_tier`: an object whose row is gone and that changed is refused. -/
def Database.commitUpdate (db : Database T O D) (params : TierUpdate D) (loaded : Tier T D) (others : List T) :
    Except TierError (Database T O D) :=
  match params.apply loaded with
  | none => .error .IntegrityError
  | some new =>
    if others.all db.hasTier && (decide (new = loaded) || db.hasTier loaded.id) then
      .ok { db with tiers := db.tiers.modify (updateIn loaded new others) (updateIn_id loaded new others) }
    else .error .StaleDataError

/-- The commit of `delete_tier`; the foreign key of the assignments refuses a tier that is assigned. -/
def Database.commitDelete (db : Database T O D) (tier_id : T) : Except TierError (Database T O D) :=
  if db.org_tiers.rows.any fun row => row.tier_id = tier_id then .error .IntegrityError
  else .ok { db with tiers := db.tiers.erase fun t => t.id = tier_id }

/-- The row after an update of the assignment, with the foreign key checked. -/
def Database.assigned (db : Database T O D) (params : OrganizationTierUpdate T) (row : OrganizationTier T O) : Option T :=
  match params.tier_id with
  | none => some row.tier_id
  | some none => none
  | some (some tier_id) => if db.hasTier tier_id then some tier_id else none

def assignIn (org_id : O) (loaded tier_id : T) (row : OrganizationTier T O) : OrganizationTier T O :=
  if row.organization_id = org_id then { row with tier_id := writeColumn loaded tier_id row.tier_id } else row

theorem assignIn_key (org_id : O) (loaded tier_id : T) (row : OrganizationTier T O) :
    (assignIn org_id loaded tier_id row).organization_id = row.organization_id := by
  unfold assignIn
  split_ifs
  · rfl
  · rfl

/-- The commit of `update_org_tier`, of a row that is new or was loaded. -/
def Database.commitAssign (db : Database T O D) (params : OrganizationTierUpdate T) (row : OrganizationTier T O)
    (created : Bool) : Except TierError (Database T O D) :=
  match db.assigned params row with
  | none => .error .IntegrityError
  | some tier_id =>
    if created then
      if db.hasTier row.tier_id && db.organizations.contains row.organization_id then
        match db.org_tiers.insert ⟨row.organization_id,tier_id⟩ with
        | none => .error .IntegrityError
        | some org_tiers => .ok { db with org_tiers := org_tiers }
      else .error .IntegrityError
    else .ok { db with
      org_tiers := db.org_tiers.modify (assignIn row.organization_id row.tier_id tier_id) (assignIn_key _ _ _) }

/-- A commit that fails leaves the database as it is. -/
def Database.commit (db : Database T O D) (result : Except TierError (Database T O D)) :
    Database T O D × Phase T O D :=
  match result with
  | .ok db' => (db',.finished (.ok ()))
  | .error e => (db,.finished (.error e))

/-- The next statement of a transaction, or its commit. -/
def Database.advance (db : Database T O D) : Phase T O D → Database T O D × Phase T O D
  | .createTier id params => (db,.creating id params (if params.is_default then db.otherDefaults none else []))
  | .creating id params others => db.commit (db.commitCreate id params others)
  | .updateTier tier_id params =>
    match db.findTier tier_id with
    | none => (db,.finished (.error .TierNotFoundError))
    | some loaded =>
      if params.is_default = some (some true) then (db,.unsettingOthers params loaded) else (db,.updating params loaded [])
  | .unsettingOthers params loaded => (db,.updating params loaded (db.otherDefaults (some loaded.id)))
  | .updating params loaded others => db.commit (db.commitUpdate params loaded others)
  | .deleteTier tier_id =>
    match db.findTier tier_id with
    | none => (db,.finished (.error .TierNotFoundError))
    | some tier =>
      if tier.is_default then (db,.finished (.error .CannotDeleteDefaultTierError)) else (db,.checkingUse tier_id)
  | .checkingUse tier_id =>
    if db.org_tiers.rows.any fun row => row.tier_id = tier_id then (db,.finished (.error .TierInUseError))
    else (db,.deleting tier_id)
  | .deleting tier_id => db.commit (db.commitDelete tier_id)
  | .updateOrgTier org_id params =>
    if db.organizations.contains org_id then (db,.loadingOrgTier org_id params)
    else (db,.finished (.error .OrganizationNotFoundError))
  | .loadingOrgTier org_id params =>
    match db.findOrgTier org_id with
    | none => (db,.loadingDefault org_id params)
    | some row => (db,.checkingTier org_id params row false)
  | .loadingDefault org_id params =>
    match db.getDefaultTier with
    | .error e => (db,.finished (.error e))
    | .ok none => (db,.finished (.error .DefaultTierNotConfiguredError))
    | .ok (some tier) => (db,.checkingTier org_id params ⟨org_id,tier.id⟩ true)
  | .checkingTier _ params row created =>
    match params.tier_id with
    | some (some tier_id) =>
      if db.hasTier tier_id then (db,.assigning params row created) else (db,.finished (.error .TierNotFoundError))
    | _ => (db,.assigning params row created)
  | .assigning params row created => db.commit (db.commitAssign params row created)
  | .finished result => (db,.finished result)

/-- `get_or_create_org_tier`, run by itself. -/
def Database.getOrCreateOrgTier (db : Database T O D) (org_id : O) : Except TierError (OrganizationTier T O) :=
  match db.findOrgTier org_id with
  | some row => .ok row
  | none =>
    match db.getDefaultTier with
    | .error e => .error e
    | .ok none => .error .DefaultTierNotConfiguredError
    | .ok (some tier) =>
      if db.organizations.contains org_id then
        match db.org_tiers.insert ⟨org_id,tier.id⟩ with
        | none => .error .IntegrityError
        | some _ => .ok ⟨org_id,tier.id⟩
      else .error .OrganizationNotFoundError

/-- The request that begins a transaction. -/
inductive Request (T O D : Type)
  | create_tier (id : T) (params : TierCreate D)
  | update_tier (tier_id : T) (params : TierUpdate D)
  | delete_tier (tier_id : T)
  | update_org_tier (org_id : O) (params : OrganizationTierUpdate T)

def Request.phase : Request T O D → Phase T O D
  | .create_tier id params => .createTier id params
  | .update_tier tier_id params => .updateTier tier_id params
  | .delete_tier tier_id => .deleteTier tier_id
  | .update_org_tier org_id params => .updateOrgTier org_id params

/-- The committed rows, and the transactions of the administrators `S`. -/
structure State (S T O D : Type) where
  db : Database T O D
  sessions : S → Option (Phase T O D)

inductive Action (S T O D : Type)
  | start (session : S) (request : Request T O D)
  | advance (session : S)

variable {S : Type} [DecidableEq S]

def State.put (st : State S T O D) (session : S) (phase : Phase T O D) : State S T O D :=
  { st with sessions := fun other => if other = session then some phase else st.sessions other }

/-- One statement of one session; a session begins a transaction once the last one is over. -/
def next (st : State S T O D) : Action S T O D → Option (State S T O D)
  | .start session request =>
    match st.sessions session with
    | none => some (st.put session request.phase)
    | some (.finished _) => some (st.put session request.phase)
    | some _ => none
  | .advance session =>
    (st.sessions session).map fun phase =>
      State.put { st with db := (st.db.advance phase).1 } session (st.db.advance phase).2

/-- One tier is the default, and it is active. -/
def Database.OneDefault (db : Database T O D) : Prop :=
  ∃ t ∈ db.tiers.rows, t.is_default = true ∧ t.is_active = true ∧
    ∀ u ∈ db.tiers.rows, u.is_default = true → u.id = t.id

def Database.Assigned (db : Database T O D) : Prop :=
  ∀ row ∈ db.org_tiers.rows, ∃ t ∈ db.tiers.rows, t.id = row.tier_id

/-- An update leaves the row of its tier active. -/
def StaysActive (params : TierUpdate D) (loaded t : Tier T D) : Prop :=
  match params.is_active with
  | some (some true) => loaded.is_active = true → t.is_active = true
  | some (some false) => loaded.is_active = false ∧ t.is_active = true
  | _ => t.is_active = true

/-- An update that makes its tier the default has seen every other default, and what it saw of its tier is so still;
one that does not clears neither flag of the default. -/
def Database.UpdateKeeps (db : Database T O D) (params : TierUpdate D) (loaded : Tier T D) (others : List T) : Prop :=
  (∀ t ∈ db.tiers.rows, t.id = loaded.id →
    if params.is_default = some (some true) then
      (∀ u ∈ db.tiers.rows, u.is_default = true → u.id = loaded.id ∨ u.id ∈ others) ∧
        (loaded.is_default = true → t.is_default = true) ∧ StaysActive params loaded t
    else t.is_default = true →
      (params.is_default = some (some false) → loaded.is_default = false) ∧ StaysActive params loaded t) ∧
  (db.hasTier loaded.id = false ∨ params.is_default ≠ some (some true) →
    ∀ u ∈ db.tiers.rows, u.is_default = true → u.id = loaded.id ∨ u.id ∉ others)

/-- What the commit at hand has to meet: a creation has seen all defaults, and a deleted tier is no default by now. -/
def Database.Careful (db : Database T O D) : Phase T O D → Prop
  | .creating _ params others => others.all db.hasTier = true → params.is_default = true →
      ∀ u ∈ db.tiers.rows, u.is_default = true → u.id ∈ others
  | .updating params loaded others => others.all db.hasTier = true →
      (∃ new, params.apply loaded = some new ∧ (new = loaded ∨ db.hasTier loaded.id = true)) →
      db.UpdateKeeps params loaded others
  | .deleting tier_id => (∀ row ∈ db.org_tiers.rows, row.tier_id ≠ tier_id) →
      ∀ t ∈ db.tiers.rows, t.id = tier_id → t.is_default = false
  | _ => True

/-- A creation that is no default changes no other one. -/
def Phase.Sound : Phase T O D → Prop
  | .creating _ params others => params.is_default = false → others = []
  | _ => True

/-- The step is no commit, or one that meets its condition. -/
def CarefulStep (st : State S T O D) : Action S T O D → Prop
  | .start _ _ => True
  | .advance session => ∀ phase, st.sessions session = some phase → st.db.Careful phase

instance (params : TierUpdate D) (loaded t : Tier T D) : Decidable (StaysActive params loaded t) :=
  match params with
  | ⟨_,some (some true),_⟩ => inferInstanceAs (Decidable (loaded.is_active = true → t.is_active = true))
  | ⟨_,some (some false),_⟩ => inferInstanceAs (Decidable (loaded.is_active = false ∧ t.is_active = true))
  | ⟨_,some none,_⟩ | ⟨_,none,_⟩ => inferInstanceAs (Decidable (t.is_active = true))

instance (db : Database T O D) (params : TierUpdate D) (loaded : Tier T D) (others : List T) :
    Decidable (db.UpdateKeeps params loaded others) := by
  unfold Database.UpdateKeeps
  infer_instance

instance (db : Database T O D) (phase : Phase T O D) : Decidable (db.Careful phase) :=
  match phase with
  | .creating _ params others => inferInstanceAs (Decidable (others.all db.hasTier = true → params.is_default = true →
      ∀ u ∈ db.tiers.rows, u.is_default = true → u.id ∈ others))
  | .updating params loaded others => inferInstanceAs (Decidable (others.all db.hasTier = true →
      (∃ new ∈ params.apply loaded, new = loaded ∨ db.hasTier loaded.id = true) → db.UpdateKeeps params loaded others))
  | .deleting tier_id => inferInstanceAs (Decidable ((∀ row ∈ db.org_tiers.rows, row.tier_id ≠ tier_id) →
      ∀ t ∈ db.tiers.rows, t.id = tier_id → t.is_default = false))
  | .createTier .. | .updateTier .. | .unsettingOthers .. | .deleteTier .. | .checkingUse .. | .updateOrgTier ..
  | .loadingOrgTier .. | .loadingDefault .. | .checkingTier .. | .assigning .. | .finished .. => inferInstanceAs (Decidable True)

instance (st : State S T O D) (a : Action S T O D) : Decidable (CarefulStep st a) :=
  match a with
  | .start .. => inferInstanceAs (Decidable True)
  | .advance session => inferInstanceAs (Decidable (∀ phase ∈ st.sessions session, st.db.Careful phase))

end Statements

section Commits

set_option linter.unusedSectionVars false

variable {T O D : Type} [DecidableEq T] [DecidableEq O] [DecidableEq D] {db db' : Database T O D}
variable {params : TierUpdate D} {tier_id : T} {row : OrganizationTier T O} {loaded t : Tier T D}

omit [DecidableEq O] [DecidableEq D] in
theorem hasTier_iff {id : T} : db.hasTier id = true ↔ ∃ t ∈ db.tiers.rows, t.id = id := by
  unfold Database.hasTier
  rw [List.any_eq_true]
  simp only [decide_eq_true_eq]

omit [DecidableEq D] in
theorem unsetIn_default {others : List T} (h : (unsetIn others t).is_default = true) :
    t.is_default = true ∧ t.id ∉ others := by
  unfold unsetIn at h
  split_ifs at h with hmem
  · cases h
  · exact ⟨h,hmem⟩

omit [DecidableEq D] in
theorem unsetIn_of_notMem {others : List T} (h : t.id ∉ others) : unsetIn others t = t := if_neg h

omit [DecidableEq O] [DecidableEq D] in
theorem mem_modify {f : Tier T D → Tier T D} (hf : ∀ t, (f t).id = t.id) {u : Tier T D} :
    u ∈ (db.tiers.modify f hf).rows ↔ ∃ t ∈ db.tiers.rows, f t = u := List.mem_map

theorem apply_flags {new : Tier T D} (h : params.apply loaded = some new) :
    setFlag params.is_default loaded.is_default = some new.is_default ∧
      setFlag params.is_active loaded.is_active = some new.is_active := by
  unfold TierUpdate.apply at h
  obtain ⟨is_default,hdefault,hrest⟩ := Option.bind_eq_some_iff.mp h
  obtain ⟨is_active,hactive,hrest'⟩ := Option.bind_eq_some_iff.mp hrest
  obtain ⟨details,-,rfl⟩ := Option.map_eq_some_iff.mp hrest'
  exact ⟨hdefault,hactive⟩

theorem write_active {new : Tier T D} (h : params.apply loaded = some new)
    (hactive : StaysActive params loaded t) : (loaded.write new t).is_active = true := by
  have hflag := (apply_flags h).2
  unfold StaysActive at hactive
  change writeColumn loaded.is_active new.is_active t.is_active = true
  unfold writeColumn
  unfold setFlag at hflag
  obtain hsupplied | hsupplied | hsupplied | hsupplied : params.is_active = none ∨ params.is_active = some none ∨
      params.is_active = some (some true) ∨ params.is_active = some (some false) := by
    rcases params.is_active with _ | _ | _ | _ <;> simp
  · rw [hsupplied] at hactive hflag
    rw [if_pos (Option.some.inj hflag).symm]
    exact hactive
  · rw [hsupplied] at hflag
    cases hflag
  · rw [hsupplied] at hactive hflag
    have hnew : new.is_active = true := (Option.some.inj hflag).symm
    rw [hnew]
    split_ifs with hloaded
    · exact hactive hloaded.symm
    · rfl
  · rw [hsupplied] at hactive hflag
    have hnew : new.is_active = false := (Option.some.inj hflag).symm
    rw [hnew,hactive.1,if_pos rfl]
    exact hactive.2

theorem write_default {new : Tier T D} (h : params.apply loaded = some new)
    (hsets : params.is_default ≠ some (some true)) (hafter : (loaded.write new t).is_default = true) :
    t.is_default = true := by
  have hflag := (apply_flags h).1
  change writeColumn loaded.is_default new.is_default t.is_default = true at hafter
  unfold writeColumn at hafter
  split_ifs at hafter with hsame
  · exact hafter
  · unfold setFlag at hflag
    rcases hsupplied : params.is_default with _ | _ | _ | _
    · rw [hsupplied] at hflag
      exact absurd (Option.some.inj hflag).symm hsame
    · rw [hsupplied] at hflag
      cases hflag
    · rw [hsupplied] at hflag
      rw [← (Option.some.inj hflag : false = new.is_default)] at hafter
      cases hafter
    · exact absurd hsupplied hsets

theorem write_default_kept {new : Tier T D} (h : params.apply loaded = some new)
    (hsets : params.is_default ≠ some (some true))
    (hclears : params.is_default = some (some false) → loaded.is_default = false)
    (hdefault : t.is_default = true) : (loaded.write new t).is_default = true := by
  have hflag := (apply_flags h).1
  change writeColumn loaded.is_default new.is_default t.is_default = true
  have hsame : new.is_default = loaded.is_default := by
    unfold setFlag at hflag
    rcases hsupplied : params.is_default with _ | _ | _ | _
    · rw [hsupplied] at hflag
      exact (Option.some.inj hflag).symm
    · rw [hsupplied] at hflag
      cases hflag
    · rw [hsupplied] at hflag
      rw [hclears hsupplied]
      exact (Option.some.inj hflag).symm
    · exact absurd hsupplied hsets
  unfold writeColumn
  rw [if_pos hsame]
  exact hdefault

theorem write_default_set {new : Tier T D} (h : params.apply loaded = some new)
    (hsets : params.is_default = some (some true))
    (hloaded : loaded.is_default = true → t.is_default = true) :
    (loaded.write new t).is_default = true := by
  have hflag := (apply_flags h).1
  rw [hsets] at hflag
  have hnew : new.is_default = true := (Option.some.inj hflag).symm
  change writeColumn loaded.is_default new.is_default t.is_default = true
  unfold writeColumn
  rw [hnew]
  split_ifs with hsame
  · exact hloaded hsame.symm
  · rfl

theorem oneDefault_create {id : T} {params : TierCreate D} {others : List T} (hone : db.OneDefault)
    (hsound : (Phase.creating (O := O) id params others).Sound) (hcareful : db.Careful (.creating id params others))
    (h : db.commitCreate id params others = .ok db') : db'.OneDefault := by
  unfold Database.commitCreate at h
  split_ifs at h with hothers
  split at h
  · cases h
  · rename_i tiers hinsert
    cases h
    obtain ⟨-,hrows⟩ := Table.insert_eq_some hinsert
    cases hdefault : params.is_default with
    | true =>
      refine ⟨_,(hrows _).mpr (.inl rfl),hdefault,rfl,?_⟩
      intro u hu hudefault
      obtain rfl | hold := (hrows u).mp hu
      · rfl
      · obtain ⟨t,ht,rfl⟩ := (mem_modify _).mp hold
        obtain ⟨htdefault,hnot⟩ := unsetIn_default hudefault
        exact absurd (hcareful hothers hdefault t ht htdefault) hnot
    | false =>
      have hnone : others = [] := hsound hdefault
      have hsame : ∀ t : Tier T D, unsetIn others t = t := by
        intro t
        exact unsetIn_of_notMem (by rw [hnone]; exact List.not_mem_nil)
      obtain ⟨t,ht,htdefault,htactive,honly⟩ := hone
      refine ⟨t,(hrows t).mpr (.inr ((mem_modify _).mpr ⟨t,ht,hsame t⟩)),htdefault,htactive,?_⟩
      intro u hu hudefault
      obtain rfl | hold := (hrows u).mp hu
      · rw [hdefault] at hudefault
        cases hudefault
      · obtain ⟨u',hu',rfl⟩ := (mem_modify _).mp hold
        rw [hsame u'] at hudefault ⊢
        exact honly u' hu' hudefault

theorem oneDefault_update {others : List T} (hone : db.OneDefault)
    (hcareful : db.Careful (.updating params loaded others))
    (h : db.commitUpdate params loaded others = .ok db') : db'.OneDefault := by
  unfold Database.commitUpdate at h
  cases happly : params.apply loaded with
  | none =>
    rw [happly] at h
    cases h
  | some new =>
    rw [happly] at h
    dsimp only at h
    split_ifs at h with hgoes
    cases h
    obtain ⟨hothers,htarget⟩ := Bool.and_eq_true_iff.mp hgoes
    have hwritten : ∃ new, params.apply loaded = some new ∧ (new = loaded ∨ db.hasTier loaded.id = true) :=
      ⟨new,happly,(Bool.or_eq_true_iff.mp htarget).imp_left of_decide_eq_true⟩
    obtain ⟨hrow,hkept⟩ := hcareful hothers hwritten
    -- the row of the tier is written, and the others only lose their flag
    have hwrite : ∀ t : Tier T D, t.id = loaded.id → updateIn loaded new others t = loaded.write new t :=
      fun t hid => if_pos hid
    have hother : ∀ t : Tier T D, t.id ≠ loaded.id → updateIn loaded new others t = unsetIn others t :=
      fun t hid => if_neg hid
    by_cases hsets : params.is_default = some (some true) ∧ db.hasTier loaded.id = true
    · obtain ⟨hsets,hthere⟩ := hsets
      obtain ⟨t,ht,hid⟩ := hasTier_iff.mp hthere
      have htkeeps := hrow t ht hid
      rw [if_pos hsets] at htkeeps
      obtain ⟨hseen,hloaded,hactive⟩ := htkeeps
      refine ⟨updateIn loaded new others t,(mem_modify (updateIn_id loaded new others)).mpr ⟨t,ht,rfl⟩,?_,?_,?_⟩
      · rw [hwrite t hid]
        exact write_default_set happly hsets hloaded
      · rw [hwrite t hid]
        exact write_active happly hactive
      · intro u hu hudefault
        obtain ⟨u',hu',rfl⟩ := (mem_modify (updateIn_id loaded new others)).mp hu
        rw [updateIn_id,updateIn_id,hid]
        by_contra hne
        rw [hother u' hne] at hudefault
        obtain ⟨hdefault,hnot⟩ := unsetIn_default hudefault
        obtain heq | hmem := hseen u' hu' hdefault
        · exact hne heq
        · exact hnot hmem
    · -- the default stays the one it is
      have hplain : db.hasTier loaded.id = false ∨ params.is_default ≠ some (some true) := by
        by_cases hdefault : params.is_default = some (some true)
        · exact .inl (Bool.eq_false_iff.mpr fun hthere => hsets ⟨hdefault,hthere⟩)
        · exact .inr hdefault
      have hnosets : ∀ u ∈ db.tiers.rows, u.id = loaded.id → params.is_default ≠ some (some true) := by
        intro u hu hid hdefault
        exact hsets ⟨hdefault,hasTier_iff.mpr ⟨u,hu,hid⟩⟩
      obtain ⟨t,ht,htdefault,htactive,honly⟩ := hone
      refine ⟨updateIn loaded new others t,(mem_modify (updateIn_id loaded new others)).mpr ⟨t,ht,rfl⟩,?_,?_,?_⟩
      · by_cases hid : t.id = loaded.id
        · have htkeeps := hrow t ht hid
          rw [if_neg (hnosets t ht hid)] at htkeeps
          rw [hwrite t hid]
          exact write_default_kept happly (hnosets t ht hid) (htkeeps htdefault).1 htdefault
        · rw [hother t hid,unsetIn_of_notMem ((hkept hplain t ht htdefault).resolve_left hid)]
          exact htdefault
      · by_cases hid : t.id = loaded.id
        · have htkeeps := hrow t ht hid
          rw [if_neg (hnosets t ht hid)] at htkeeps
          rw [hwrite t hid]
          exact write_active happly (htkeeps htdefault).2
        · rw [hother t hid,unsetIn_of_notMem ((hkept hplain t ht htdefault).resolve_left hid)]
          exact htactive
      · intro u hu hudefault
        obtain ⟨u',hu',rfl⟩ := (mem_modify (updateIn_id loaded new others)).mp hu
        rw [updateIn_id,updateIn_id]
        apply honly u' hu'
        by_cases hid : u'.id = loaded.id
        · rw [hwrite u' hid] at hudefault
          exact write_default happly (hnosets u' hu' hid) hudefault
        · rw [hother u' hid] at hudefault
          exact (unsetIn_default hudefault).1

theorem oneDefault_delete (hone : db.OneDefault) (hcareful : db.Careful (.deleting tier_id))
    (h : db.commitDelete tier_id = .ok db') : db'.OneDefault := by
  unfold Database.commitDelete at h
  split_ifs at h with hused
  cases h
  obtain ⟨t,ht,htdefault,htactive,honly⟩ := hone
  have hne : t.id ≠ tier_id := by
    intro hid
    have hunused : ∀ row ∈ db.org_tiers.rows, row.tier_id ≠ tier_id := fun row hrow hrowid =>
      hused (List.any_eq_true.mpr ⟨row,hrow,decide_eq_true hrowid⟩)
    rw [hcareful hunused t ht hid] at htdefault
    cases htdefault
  refine ⟨t,(Table.mem_erase _).mpr ⟨ht,decide_eq_false hne⟩,htdefault,htactive,?_⟩
  intro u hu hudefault
  exact honly u ((Table.mem_erase _).mp hu).1 hudefault

theorem hasTier_modify {f : Tier T D → Tier T D} (hf : ∀ t, (f t).id = t.id) {id : T}
    (h : ∃ t ∈ db.tiers.rows, t.id = id) : ∃ t ∈ (db.tiers.modify f hf).rows, t.id = id := by
  obtain ⟨t,ht,rfl⟩ := h
  exact ⟨f t,(mem_modify hf).mpr ⟨t,ht,rfl⟩,hf t⟩

theorem assigned_create {id : T} {params : TierCreate D} {others : List T} (hassigned : db.Assigned)
    (h : db.commitCreate id params others = .ok db') : db'.Assigned := by
  unfold Database.commitCreate at h
  split_ifs at h
  split at h
  · cases h
  · rename_i tiers hinsert
    cases h
    obtain ⟨-,hrows⟩ := Table.insert_eq_some hinsert
    intro row hrow
    obtain ⟨t,ht,hid⟩ := hasTier_modify (unsetIn_id others) (hassigned row hrow)
    exact ⟨t,(hrows t).mpr (.inr ht),hid⟩

theorem assigned_update {others : List T} (hassigned : db.Assigned)
    (h : db.commitUpdate params loaded others = .ok db') : db'.Assigned := by
  unfold Database.commitUpdate at h
  split at h
  · cases h
  · split_ifs at h
    cases h
    intro row hrow
    exact hasTier_modify (updateIn_id loaded _ others) (hassigned row hrow)

theorem assigned_delete (hassigned : db.Assigned) (h : db.commitDelete tier_id = .ok db') :
    db'.Assigned := by
  unfold Database.commitDelete at h
  split_ifs at h with hused
  cases h
  intro row hrow
  obtain ⟨t,ht,hid⟩ := hassigned row hrow
  have hne : t.id ≠ tier_id := by
    intro heq
    exact hused (List.any_eq_true.mpr ⟨row,hrow,decide_eq_true (hid.symm.trans heq)⟩)
  exact ⟨t,(Table.mem_erase _).mpr ⟨ht,decide_eq_false hne⟩,hid⟩

theorem hasTier_assigned {params : OrganizationTierUpdate T}
    (h : db.assigned params row = some tier_id) :
    tier_id = row.tier_id ∨ db.hasTier tier_id = true := by
  unfold Database.assigned at h
  split at h
  · exact .inl (Option.some.inj h).symm
  · cases h
  · split_ifs at h with hthere
    cases h
    exact .inr hthere

theorem commitAssign_tiers {params : OrganizationTierUpdate T} {created : Bool}
    (h : db.commitAssign params row created = .ok db') : db'.tiers = db.tiers := by
  unfold Database.commitAssign at h
  split at h
  · cases h
  · split_ifs at h
    · split at h
      · cases h
      · exact (Except.ok.inj h).symm ▸ rfl
    · exact (Except.ok.inj h).symm ▸ rfl

theorem assigned_assign {params : OrganizationTierUpdate T} {created : Bool}
    (hassigned : db.Assigned) (h : db.commitAssign params row created = .ok db') :
    db'.Assigned := by
  have htiers := commitAssign_tiers h
  unfold Database.commitAssign at h
  split at h
  · cases h
  · rename_i tier_id htier
    have hthere := hasTier_assigned htier
    split_ifs at h with hcreated hkeys
    · split at h
      · cases h
      · rename_i org_tiers hinsert
        cases h
        obtain ⟨-,hrows⟩ := Table.insert_eq_some hinsert
        intro other hother
        obtain rfl | hold := (hrows other).mp hother
        · obtain hsame | hnew := hthere
          · exact hasTier_iff.mp (hsame ▸ (Bool.and_eq_true_iff.mp hkeys).1)
          · exact hasTier_iff.mp hnew
        · exact hassigned other hold
    · cases h
      intro other hother
      obtain ⟨other',hother',rfl⟩ := List.mem_map.mp hother
      unfold assignIn
      split_ifs with hmine
      · dsimp only
        unfold writeColumn
        split_ifs with hsame
        · exact hassigned other' hother'
        · obtain heq | hnew := hthere
          · exact absurd heq hsame
          · exact hasTier_iff.mp hnew
      · exact hassigned other' hother'

theorem commit_cases (result : Except TierError (Database T O D)) :
    (db.commit result).1 = db ∨ ∃ db', result = .ok db' ∧ (db.commit result).1 = db' := by
  cases result with
  | error e => exact .inl rfl
  | ok db' => exact .inr ⟨db',rfl,rfl⟩

/-- A statement that is no commit changes no row. -/
theorem advance_cases (phase : Phase T O D) : (db.advance phase).1 = db ∨ ∃ db', (db.advance phase).1 = db' ∧
    ((∃ id params others, phase = .creating id params others ∧ db.commitCreate id params others = .ok db') ∨
      (∃ params loaded others, phase = .updating params loaded others ∧ db.commitUpdate params loaded others = .ok db') ∨
      (∃ tier_id, phase = .deleting tier_id ∧ db.commitDelete tier_id = .ok db') ∨
      ∃ params row created, phase = .assigning params row created ∧ db.commitAssign params row created = .ok db') := by
  cases phase with
  | creating id params others =>
    obtain hsame | ⟨db',hok,hdb⟩ := @commit_cases _ _ _ _ _ _ db (db.commitCreate id params others)
    · exact .inl hsame
    · exact .inr ⟨db',hdb,.inl ⟨id,params,others,rfl,hok⟩⟩
  | updating params loaded others =>
    obtain hsame | ⟨db',hok,hdb⟩ := @commit_cases _ _ _ _ _ _ db (db.commitUpdate params loaded others)
    · exact .inl hsame
    · exact .inr ⟨db',hdb,.inr (.inl ⟨params,loaded,others,rfl,hok⟩)⟩
  | deleting tier_id =>
    obtain hsame | ⟨db',hok,hdb⟩ := @commit_cases _ _ _ _ _ _ db (db.commitDelete tier_id)
    · exact .inl hsame
    · exact .inr ⟨db',hdb,.inr (.inr (.inl ⟨tier_id,rfl,hok⟩))⟩
  | assigning params row created =>
    obtain hsame | ⟨db',hok,hdb⟩ := @commit_cases _ _ _ _ _ _ db (db.commitAssign params row created)
    · exact .inl hsame
    · exact .inr ⟨db',hdb,.inr (.inr (.inr ⟨params,row,created,rfl,hok⟩))⟩
  | createTier id params => exact .inl rfl
  | updateTier tier_id params =>
    left
    unfold Database.advance
    dsimp only
    split
    · rfl
    · split_ifs <;> rfl
  | unsettingOthers params loaded => exact .inl rfl
  | deleteTier tier_id =>
    left
    unfold Database.advance
    dsimp only
    split
    · rfl
    · split_ifs <;> rfl
  | checkingUse tier_id =>
    left
    unfold Database.advance
    dsimp only
    split_ifs <;> rfl
  | updateOrgTier org_id params =>
    left
    unfold Database.advance
    dsimp only
    split_ifs <;> rfl
  | loadingOrgTier org_id params =>
    left
    unfold Database.advance
    dsimp only
    split <;> rfl
  | loadingDefault org_id params =>
    left
    unfold Database.advance
    dsimp only
    split <;> rfl
  | checkingTier org_id params row created =>
    left
    unfold Database.advance
    dsimp only
    split
    · split_ifs <;> rfl
    · rfl
  | finished result => exact .inl rfl

theorem Database.OneDefault.advance {phase : Phase T O D} (hone : db.OneDefault) (hsound : phase.Sound)
    (hcareful : db.Careful phase) : (db.advance phase).1.OneDefault := by
  obtain hsame | ⟨db',hdb,⟨id,params,others,rfl,h⟩ | ⟨params,loaded,others,rfl,h⟩ | ⟨tier_id,rfl,h⟩ |
    ⟨params,row,created,rfl,h⟩⟩ := @advance_cases _ _ _ _ _ _ db phase
  · rw [hsame]
    exact hone
  · rw [hdb]
    exact oneDefault_create hone hsound hcareful h
  · rw [hdb]
    exact oneDefault_update hone hcareful h
  · rw [hdb]
    exact oneDefault_delete hone hcareful h
  · rw [hdb]
    unfold Database.OneDefault
    rw [commitAssign_tiers h]
    exact hone

theorem Database.Assigned.advance {phase : Phase T O D} (hassigned : db.Assigned) : (db.advance phase).1.Assigned := by
  obtain hsame | ⟨db',hdb,⟨id,params,others,rfl,h⟩ | ⟨params,loaded,others,rfl,h⟩ | ⟨tier_id,rfl,h⟩ |
    ⟨params,row,created,rfl,h⟩⟩ := @advance_cases _ _ _ _ _ _ db phase
  · rw [hsame]
    exact hassigned
  · rw [hdb]
    exact assigned_create hassigned h
  · rw [hdb]
    exact assigned_update hassigned h
  · rw [hdb]
    exact assigned_delete hassigned h
  · rw [hdb]
    exact assigned_assign hassigned h

theorem sound_advance (phase : Phase T O D) : (db.advance phase).2.Sound := by
  unfold Database.advance
  cases phase with
  | createTier id params =>
    intro hplain
    rw [if_neg (by rw [hplain]; exact Bool.false_ne_true)]
  | creating id params others =>
    dsimp only
    cases db.commitCreate id params others <;> exact trivial
  | updating params loaded others =>
    dsimp only
    cases db.commitUpdate params loaded others <;> exact trivial
  | deleting tier_id =>
    dsimp only
    cases db.commitDelete tier_id <;> exact trivial
  | assigning params row created =>
    dsimp only
    cases db.commitAssign params row created <;> exact trivial
  | updateTier tier_id params =>
    dsimp only
    split
    · exact trivial
    · split_ifs <;> exact trivial
  | unsettingOthers params loaded => exact trivial
  | deleteTier tier_id =>
    dsimp only
    split
    · exact trivial
    · split_ifs <;> exact trivial
  | checkingUse tier_id =>
    dsimp only
    split_ifs <;> exact trivial
  | updateOrgTier org_id params =>
    dsimp only
    split_ifs <;> exact trivial
  | loadingOrgTier org_id params =>
    dsimp only
    split <;> exact trivial
  | loadingDefault org_id params =>
    dsimp only
    split <;> exact trivial
  | checkingTier org_id params row created =>
    dsimp only
    split
    · split_ifs <;> exact trivial
    · exact trivial
  | finished result => exact trivial

/-- One default that is active is the answer of `get_default_tier`. -/
theorem getDefaultTier_of_oneDefault (hone : db.OneDefault) :
    ∃ t ∈ db.tiers.rows, t.is_default = true ∧ t.is_active = true ∧ db.getDefaultTier = .ok (some t) := by
  obtain ⟨t,ht,htdefault,htactive,honly⟩ := hone
  refine ⟨t,ht,htdefault,htactive,?_⟩
  have hmem : t ∈ db.tiers.rows.filter fun t => t.is_default && t.is_active :=
    List.mem_filter.mpr ⟨ht,Bool.and_eq_true_iff.mpr ⟨htdefault,htactive⟩⟩
  have hall : ∀ u ∈ db.tiers.rows.filter fun t => t.is_default && t.is_active, u = t := by
    intro u hu
    obtain ⟨hurow,huflags⟩ := List.mem_filter.mp hu
    exact db.tiers.eq_of_key hurow ht (honly u hurow (Bool.and_eq_true_iff.mp huflags).1)
  have hnodup : (db.tiers.rows.filter fun t => t.is_default && t.is_active).Nodup := db.tiers.nodup.of_map.filter _
  unfold Database.getDefaultTier
  cases hrows : db.tiers.rows.filter fun t => t.is_default && t.is_active with
  | nil =>
    rw [hrows] at hmem
    cases hmem
  | cons a rest =>
    rw [hrows] at hall hnodup
    obtain rfl : a = t := hall a List.mem_cons_self
    cases rest with
    | nil => rfl
    | cons b rest =>
      obtain rfl : b = a := hall b (List.mem_cons_of_mem _ List.mem_cons_self)
      exact absurd List.mem_cons_self (List.nodup_cons.mp hnodup).1

theorem getOrCreateOrgTier_of_oneDefault (hone : db.OneDefault) {org_id : O} (horg : org_id ∈ db.organizations) :
    ∃ row, db.getOrCreateOrgTier org_id = .ok row := by
  obtain ⟨t,-,-,-,hget⟩ := getDefaultTier_of_oneDefault hone
  unfold Database.getOrCreateOrgTier
  cases hfind : db.findOrgTier org_id with
  | some row => exact ⟨row,rfl⟩
  | none =>
    rw [hget]
    dsimp only
    rw [if_pos (List.contains_iff_mem.mpr horg)]
    have hfresh : org_id ∉ db.org_tiers.rows.map OrganizationTier.organization_id := by
      intro hmem
      obtain ⟨row,hrow,hid⟩ := List.mem_map.mp hmem
      exact absurd (decide_eq_true hid) (List.find?_eq_none.mp hfind row hrow)
    unfold Table.insert
    rw [dif_neg hfresh]
    exact ⟨_,rfl⟩

end Commits

section Histories

set_option linter.unusedSectionVars false

variable {S T O D : Type} [DecidableEq S] [DecidableEq T] [DecidableEq O] [DecidableEq D] {st st' : State S T O D}

/-- Every transaction on its way is sound. -/
def State.Sound (st : State S T O D) : Prop := ∀ session phase, st.sessions session = some phase → phase.Sound

theorem sound_put {session : S} {phase : Phase T O D} (h : st.Sound) (hphase : phase.Sound) : (st.put session phase).Sound := by
  intro other phase' hother
  change (if other = session then some phase else st.sessions other) = some phase' at hother
  split_ifs at hother
  · cases hother
    exact hphase
  · exact h other phase' hother

theorem sound_request (request : Request T O D) : request.phase.Sound := by
  cases request <;> exact trivial

theorem next_cases {a : Action S T O D} (h : next st a = some st') :
    (∃ session request, a = .start session request ∧ st' = st.put session request.phase) ∨
    ∃ session phase, a = .advance session ∧ st.sessions session = some phase ∧
      st' = State.put { st with db := (st.db.advance phase).1 } session (st.db.advance phase).2 := by
  cases a with
  | start session request =>
    refine .inl ⟨session,request,rfl,?_⟩
    unfold next at h
    dsimp only at h
    split at h
    · exact (Option.some.inj h).symm
    · exact (Option.some.inj h).symm
    · cases h
  | advance session =>
    obtain ⟨phase,hphase,rfl⟩ := Option.map_eq_some_iff.mp h
    exact .inr ⟨session,phase,rfl,hphase,rfl⟩

theorem sound_next {a : Action S T O D} (hsound : st.Sound) (h : next st a = some st') : st'.Sound := by
  obtain ⟨session,request,rfl,rfl⟩ | ⟨session,phase,rfl,hphase,rfl⟩ := next_cases h
  · exact sound_put hsound (sound_request request)
  · exact sound_put (fun other phase' hother => hsound other phase' hother) (sound_advance phase)

theorem oneDefault_next {a : Action S T O D} (hsound : st.Sound) (hone : st.db.OneDefault) (hcareful : CarefulStep st a)
    (h : next st a = some st') : st'.db.OneDefault := by
  obtain ⟨session,request,rfl,rfl⟩ | ⟨session,phase,rfl,hphase,rfl⟩ := next_cases h
  · exact hone
  · exact hone.advance (hsound session phase hphase) (hcareful phase hphase)

theorem assigned_next {a : Action S T O D} (hassigned : st.db.Assigned) (h : next st a = some st') : st'.db.Assigned := by
  obtain ⟨session,request,rfl,rfl⟩ | ⟨session,phase,rfl,hphase,rfl⟩ := next_cases h
  · exact hassigned
  · exact hassigned.advance

/-- The tiers of every run from a state with one default: assignments always name tiers, and while each commit meets its
condition there is one default, which is active, and new organizations get it. -/
theorem default_tier_kept (hidle : ∀ session, st.sessions session = none) (hone : st.db.OneDefault)
    (hassigned : st.db.Assigned) :
    (Reachable next st st' → st'.db.Assigned) ∧
    (Reaches next CarefulStep st st' →
      st'.db.OneDefault ∧
      (∃ t ∈ st'.db.tiers.rows, t.is_default = true ∧ t.is_active = true ∧ st'.db.getDefaultTier = .ok (some t)) ∧
      ∀ org_id ∈ st'.db.organizations, ∃ row, st'.db.getOrCreateOrgTier org_id = .ok row) := by
  constructor
  · intro h
    exact h.invariant hassigned fun _ _ _ _ hkept _ hnext => assigned_next hkept hnext
  · intro h
    have hsound : st.Sound := by
      intro session phase hphase
      rw [hidle session] at hphase
      cases hphase
    have hkept : st'.Sound ∧ st'.db.OneDefault :=
      h.invariant (P := fun st => st.Sound ∧ st.db.OneDefault) ⟨hsound,hone⟩
        fun _ _ _ _ hbefore hcareful hnext =>
          ⟨sound_next hbefore.1 hnext,oneDefault_next hbefore.1 hbefore.2 hcareful hnext⟩
    refine ⟨hkept.2,getDefaultTier_of_oneDefault hkept.2,?_⟩
    intro org_id horg
    exact getOrCreateOrgTier_of_oneDefault hkept.2 horg

end Histories

/-- A default tier, another tier, an organization without an assignment, and nobody at work. -/
def quietState : State Bool ℕ ℕ Unit where
  db := ⟨⟨[⟨1,true,true,()⟩,⟨2,false,true,()⟩],by decide⟩,⟨[],List.nodup_nil⟩,[7]⟩
  sessions _ := none

theorem quietState_oneDefault : quietState.db.OneDefault :=
  ⟨⟨1,true,true,()⟩,List.mem_cons_self,rfl,rfl,by decide⟩

theorem quietState_assigned : quietState.db.Assigned := by
  intro row hrow
  cases hrow

/-- A new default, which another administrator has as the old one by the time its own tier becomes the default; then an
organization is assigned while the first default is deleted. -/
def carefulRun : List (Action Bool ℕ ℕ Unit) :=
  [.start true (.create_tier 3 ⟨true,()⟩),.start false (.update_tier 2 ⟨some (some true),none,some⟩),.advance true,
    .advance false,.advance true,.advance false,.advance false,
    .start false (.delete_tier 1),.start true (.update_org_tier 7 ⟨some (some 3)⟩),.advance true,.advance false,.advance true,
    .advance true,.advance false,.advance true,.advance true,.advance false]

theorem default_tier_kept_quiet : ∃ st, Reaches next CarefulStep quietState st ∧
    st.db.tiers.rows = [⟨3,false,true,()⟩,⟨2,true,true,()⟩] ∧ st.db.org_tiers.rows = [⟨7,3⟩] ∧ st.db.Assigned ∧
    st.db.OneDefault ∧ ∃ row, st.db.getOrCreateOrgTier 7 = .ok row := by
  have hrun : (followOk next (fun st a => decide (CarefulStep st a)) quietState carefulRun).map
      (fun st => (st.db.tiers.rows,st.db.org_tiers.rows,st.db.organizations)) =
        some ([⟨3,false,true,()⟩,⟨2,true,true,()⟩],[⟨7,3⟩],[7]) := by
    decide
  obtain ⟨st,hreaches,hobs⟩ := reaches_of_observed hrun
  obtain ⟨htiers,hrest⟩ := Prod.mk.inj hobs
  obtain ⟨hassigned,horganizations⟩ := Prod.mk.inj hrest
  have hcareful : Reaches next CarefulStep quietState st := hreaches.weaken fun _ _ => of_decide_eq_true
  obtain ⟨hall,hkept⟩ := @default_tier_kept Bool ℕ ℕ Unit _ _ _ _ quietState st (fun _ => rfl) quietState_oneDefault
    quietState_assigned
  obtain ⟨hone,-,hget⟩ := hkept hcareful
  exact ⟨st,hcareful,htiers,hassigned,hall (hcareful.weaken fun _ _ _ => trivial),hone,
    hget 7 (by rw [horganizations]; exact List.mem_cons_self)⟩

/-- One update clears the flag of the default; two creations that do not see each other make two defaults. -/
theorem default_tier_lost :
    ¬ (∀ st', Reachable next quietState st' → st'.db.OneDefault) ∧
    (∃ st', follow next quietState
        [.start true (.update_tier 1 ⟨some (some false),none,some⟩),.advance true,.advance true] = some st' ∧
      st'.db.getDefaultTier = .ok none ∧ st'.db.getOrCreateOrgTier 7 = .error .DefaultTierNotConfiguredError) ∧
    ∃ st', follow next quietState
        [.start true (.create_tier 3 ⟨true,()⟩),.start false (.create_tier 4 ⟨true,()⟩),.advance true,.advance false,
          .advance true,.advance false] = some st' ∧
      st'.db.getDefaultTier = .error .MultipleResultsFound := by
  refine ⟨?_,⟨_,rfl,rfl,rfl⟩,⟨_,rfl,rfl⟩⟩
  intro hall
  obtain ⟨st',hfollow,hnone⟩ : ∃ st', follow next quietState
      [.start true (.update_tier 1 ⟨some (some false),none,some⟩),.advance true,.advance true] = some st' ∧
    st'.db.getDefaultTier = .ok none := ⟨_,rfl,rfl⟩
  obtain ⟨t,-,-,-,hget⟩ := getDefaultTier_of_oneDefault (hall st' (reachable_of_follow hfollow))
  rw [hnone] at hget
  cases hget

end TierAdministration
end Allama
