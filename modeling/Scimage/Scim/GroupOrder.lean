import Scimage.Scim.MapOrder
import Scimage.Scim.Spelling

/-! The order of the keys in a PATCH of a group. -/
namespace Scimage.Scim

open Store (trimSpace)
open Json (Value Map Ranking readMap)
open Overlay (run judge values Settled Hopeless)

/-! ### Changes of a group -/

inductive GroupChange where
  | displayName (s : String)
  | externalID (s : String)
  | add (values : List String)
  | members (values : List String)
  | remove (value : String)

def GroupChange.run : GroupChange → Group → Group
  | .displayName s, g => { g with displayName := s }
  | .externalID s, g => { g with externalID := s }
  | .add values, g => { g with members := .of (addMembers g.members.items values) }
  | .members values, g => { g with members := toMembers values }
  | .remove value, g => { g with members := .of (removeMember g.members.items value) }

/-- A path with its value, a path to clear, or what is refused before there is a path. -/
inductive GroupStep where
  | set (isAdd : Bool) (path : String) (raw : Option Value)
  | clear (path : String)
  | refuse (e : PatchError)

def applyGroupStep (U : Unicode) (g : Group) : GroupStep → Patched Group
  | .set isAdd path raw => setGroupPath U isAdd g path raw
  | .clear path => clearGroupPath U g path
  | .refuse e => .error e

def settingOf (isAdd : Bool) (values : List String) : GroupChange :=
  if isAdd then .add values else .members values

def resolveGroupSet (U : Unicode) (isAdd : Bool) (path : String) (raw : Option Value) :
    Patched GroupChange :=
  if pathKey U path = "displayname" then (assignString raw path).map .displayName
  else if pathKey U path = "externalid" then (assignString raw path).map .externalID
  else if isMembersPath (pathKey U path) then (decodeMemberValues raw).map (settingOf isAdd)
  else .error (.unsupportedPath path)

def resolveGroupClear (U : Unicode) (path : String) : Patched GroupChange :=
  if pathKey U path = "" then .error .removeRequiresPath
  else if pathKey U path = "externalid" then .ok (.externalID "")
  else if pathKey U path = "members" then .ok (.members [])
  else if isMembersPath (pathKey U path) then
    match filteredMemberValue (trimSpace path) with
    | some value => .ok (.remove value)
    | none => .error (.unsupportedPath path)
  else .error (.unsupportedPath path)

def resolveGroup (U : Unicode) : GroupStep → Patched GroupChange
  | .set isAdd path raw => resolveGroupSet U isAdd path raw
  | .clear path => resolveGroupClear U path
  | .refuse e => .error e

theorem setMembers_resolve (g : Group) (raw : Option Value) (isAdd : Bool) :
    setMembers g raw isAdd = ((decodeMemberValues raw).map (settingOf isAdd)).map fun ch => ch.run g := by
  rw [setMembers]
  cases decodeMemberValues raw with
  | error e => rfl
  | ok values => cases isAdd <;> rfl

theorem setGroupPath_resolve (U : Unicode) (isAdd : Bool) (g : Group) (path : String)
    (raw : Option Value) :
    setGroupPath U isAdd g path raw = (resolveGroupSet U isAdd path raw).map fun ch => ch.run g := by
  rw [setGroupPath, resolveGroupSet, pathKey]
  split_ifs
  · rw [map_bind_pure, map_map]
    rfl
  · rw [map_bind_pure, map_map]
    rfl
  · exact setMembers_resolve g raw isAdd
  · rfl

theorem clearGroupPath_resolve (U : Unicode) (g : Group) (path : String) :
    clearGroupPath U g path = (resolveGroupClear U path).map fun ch => ch.run g := by
  rw [clearGroupPath, resolveGroupClear, pathKey]
  split_ifs
  · rfl
  · rfl
  · rfl
  · cases filteredMemberValue (trimSpace path) <;> rfl
  · rfl

theorem applyGroupStep_resolve (U : Unicode) (g : Group) (st : GroupStep) :
    applyGroupStep U g st = (resolveGroup U st).map fun ch => ch.run g := by
  cases st with
  | set isAdd path raw => exact setGroupPath_resolve U isAdd g path raw
  | clear path => exact clearGroupPath_resolve U g path
  | refuse e => rfl

/-! ### The steps of an operation -/

def groupValueSteps (ω : Ranking) (isAdd : Bool) (op : Operation) : List GroupStep :=
  if trimSpace op.path = "" then
    match op.value.bind readMap with
    | none => [.refuse .notAnObject]
    | some attrs => (attrs.range ω).map fun e => .set isAdd e.1 (some e.2)
  else [.set isAdd op.path op.value]

def groupSteps (U : Unicode) (o : Operation × Ranking) : List GroupStep :=
  if o.1.action U = "add" then groupValueSteps o.2 true o.1
  else if o.1.action U = "replace" then groupValueSteps o.2 false o.1
  else if o.1.action U = "remove" then [.clear o.1.path]
  else [.refuse (.unsupportedOp o.1.op)]

theorem applyGroupValue_steps (U : Unicode) (ω : Ranking) (isAdd : Bool) (g : Group) (op : Operation) :
    applyGroupValue U ω isAdd g op = (groupValueSteps ω isAdd op).foldlM (applyGroupStep U) g := by
  rw [applyGroupValue, groupValueSteps]
  split_ifs
  · cases op.value.bind readMap with
    | none => rfl
    | some attrs =>
      dsimp only
      rw [List.foldlM_map]
      rfl
  · rw [foldlM_single]
    rfl

theorem applyGroupOp_steps (U : Unicode) (g : Group) (o : Operation × Ranking) :
    applyGroupOp U g o = (groupSteps U o).foldlM (applyGroupStep U) g := by
  rw [applyGroupOp, groupSteps]
  split_ifs
  · exact applyGroupValue_steps U o.2 true g o.1
  · exact applyGroupValue_steps U o.2 false g o.1
  · rw [foldlM_single]
    rfl
  · rw [foldlM_single]
    rfl

theorem applyGroupOps_steps (U : Unicode) (os : List (Operation × Ranking)) (g : Group) :
    os.foldlM (applyGroupOp U) g = (os.flatMap (groupSteps U)).foldlM (applyGroupStep U) g := by
  induction os generalizing g with
  | nil => rfl
  | cons o os ih =>
    rw [List.foldlM_cons, List.flatMap_cons, List.foldlM_append, applyGroupOp_steps]
    congr 1
    funext g
    exact ih g

theorem groupValueSteps_oneOrKeys (isAdd : Bool) (op : Operation) :
    OneOrKeys fun ω => groupValueSteps ω isAdd op := by
  simp only [groupValueSteps]
  split_ifs
  · cases op.value.bind readMap with
    | none => exact Or.inl ⟨_, fun _ => rfl⟩
    | some attrs => exact Or.inr ⟨attrs, fun e => .set isAdd e.1 (some e.2), fun _ => rfl⟩
  · exact Or.inl ⟨_, fun _ => rfl⟩

theorem groupSteps_oneOrKeys (U : Unicode) (op : Operation) :
    OneOrKeys fun ω => groupSteps U (op, ω) := by
  simp only [groupSteps]
  split_ifs
  · exact groupValueSteps_oneOrKeys true op
  · exact groupValueSteps_oneOrKeys false op
  · exact Or.inl ⟨_, fun _ => rfl⟩
  · exact Or.inl ⟨_, fun _ => rfl⟩

/-! ### What a PATCH of a group writes to -/

inductive GroupPlace where
  | displayName
  | externalID
  | member (id : String)

/-- Of the name, what is stored and whether `validateGroup` lets it pass; of an id, whether it is a
member's. -/
inductive GroupHeld where
  | displayName (s : String) (valid : Prop)
  | externalID (s : Option String)
  | member (belongs : Prop)

def NameValid (s : String) : Prop :=
  trimSpace s ≠ "" ∧ (trimSpace s).utf8ByteSize ≤ maxAttrLen

theorem validateGroup_iff (g : Group) :
    validateGroup g = "" ↔ groupSchema ∈ g.schemas.items ∧ NameValid g.displayName := by
  have hschema : "schemas must contain " ++ groupSchema ≠ "" := by decide
  have hrequired : "displayName is required" ≠ "" := by decide
  rw [validateGroup, NameValid]
  by_cases hs : groupSchema ∉ g.schemas.items
  · rw [if_pos hs]
    exact ⟨fun h => (hschema h).elim, fun h => (hs h.1).elim⟩
  · rw [if_neg hs]
    by_cases hname : trimSpace g.displayName = ""
    · rw [if_pos hname]
      exact ⟨fun h => (hrequired h).elim, fun h => (h.2.1 hname).elim⟩
    · rw [if_neg hname]
      cases hlong : tooLong "displayName" (trimSpace g.displayName) with
      | none => exact iff_of_true rfl ⟨not_not.mp hs, hname, tooLong_none.mp hlong⟩
      | some m =>
        refine iff_of_false ?_ ?_
        · rintro rfl
          exact tooLong_ne_empty hlong
        · rintro ⟨-, -, hle⟩
          rw [tooLong_none.mpr hle] at hlong
          cases hlong

def GroupChange.places : GroupChange → GroupPlace → Option GroupHeld
  | .displayName s, .displayName => some (.displayName (trimSpace s) (NameValid s))
  | .externalID s, .externalID => some (.externalID (nonEmpty (trimSpace s)))
  | .add values, .member id => if id ∈ values then some (.member True) else none
  | .members values, .member id => some (.member (id ∈ values))
  | .remove value, .member id => if id = value then some (.member False) else none
  | _, _ => none

def GroupStep.read (U : Unicode) (st : GroupStep) : Except String (GroupPlace → Option GroupHeld) :=
  match resolveGroup U st with
  | .error e => .error (Refusal.patch e).scimType
  | .ok ch => .ok ch.places

def groupHeld (g : Group) : GroupPlace → GroupHeld
  | .displayName => .displayName (trimSpace g.displayName) (NameValid g.displayName)
  | .externalID => .externalID (nonEmpty (trimSpace g.externalID))
  | .member id => .member (id ∈ g.members.items.map Member.value)

theorem toMembers_values (values : List String) :
    (toMembers values).items.map Member.value = values := by
  rw [toMembers, Slice.of_items, List.map_map]
  exact List.map_id values

theorem groupHeld_run (ch : GroupChange) (g : Group) :
    Overlay.write ch.places (groupHeld g) = groupHeld (ch.run g) := by
  funext p
  cases p with
  | displayName => cases ch <;> rfl
  | externalID => cases ch <;> rfl
  | member id =>
    cases ch with
    | displayName s => rfl
    | externalID s => rfl
    | members values =>
      change GroupHeld.member _ = GroupHeld.member (id ∈ (toMembers values).items.map Member.value)
      rw [toMembers_values]
    | add values =>
      change (if id ∈ values then some (GroupHeld.member True) else none).getD _ =
        GroupHeld.member (id ∈ (addMembers g.members.items values).map Member.value)
      rw [mem_addMembers]
      by_cases hid : id ∈ values
      · rw [if_pos hid]
        simp [hid]
      · rw [if_neg hid]
        simp [hid, groupHeld]
    | remove value =>
      change (if id = value then some (GroupHeld.member False) else none).getD _ =
        GroupHeld.member (id ∈ (removeMember g.members.items value).map Member.value)
      rw [mem_removeMember]
      by_cases hid : id = value
      · rw [if_pos hid]
        simp [hid]
      · rw [if_neg hid]
        simp [hid, groupHeld]

/-- A PATCH of a group, its cells read off. -/
theorem run_groupSteps (U : Unicode) (sts : List GroupStep) (g : Group) :
    run (GroupStep.read U) sts (.ok (groupHeld g)) =
      ((sts.foldlM (applyGroupStep U) g).map groupHeld).mapError fun e => (Refusal.patch e).scimType := by
  induction sts generalizing g with
  | nil => rfl
  | cons st sts ih =>
    rw [List.foldlM_cons, applyGroupStep_resolve]
    cases hst : resolveGroup U st with
    | error e =>
      have hread : GroupStep.read U st = .error (Refusal.patch e).scimType := by
        rw [GroupStep.read, hst]
      exact Overlay.run_first hread _
    | ok ch =>
      have hread : GroupStep.read U st = .ok ch.places := by
        rw [GroupStep.read, hst]
      rw [Overlay.run_next hread, groupHeld_run, ih]
      rfl

theorem groupSchemas_run (ch : GroupChange) (g : Group) : (ch.run g).schemas = g.schemas := by
  cases ch <;> rfl

theorem groupSchemas_steps {U : Unicode} {sts : List GroupStep} {g g' : Group}
    (h : sts.foldlM (applyGroupStep U) g = .ok g') : g'.schemas = g.schemas := by
  induction sts generalizing g with
  | nil =>
    cases h
    rfl
  | cons st sts ih =>
    rw [List.foldlM_cons, applyGroupStep_resolve] at h
    cases hst : resolveGroup U st with
    | error e =>
      rw [hst] at h
      cases h
    | ok ch =>
      rw [hst] at h
      exact (ih h).trans (groupSchemas_run ch g)

/-! ### What is asked of the store -/

/-- What the store is asked to write of a group; the members are a set. -/
structure AskedGroup where
  displayName : String
  externalID : Option String
  members : String → Prop

def askedGroup (g : Group) : AskedGroup where
  displayName := (toStoreGroup g).displayName
  externalID := (toStoreGroup g).externalID
  members := fun id => id ∈ g.members.items.map Member.value

@[simp] theorem askedGroup_displayName (g : Group) :
    (askedGroup g).displayName = (toStoreGroup g).displayName := rfl

@[simp] theorem askedGroup_externalID (g : Group) :
    (askedGroup g).externalID = (toStoreGroup g).externalID := rfl

/-! ### What the store makes of it -/

section Stored

open Store (dedupeNonEmpty mem_dedupeNonEmpty nodup_dedupeNonEmpty parseIDs parseIDs_ok parseIDs_error
  execAddMembers Uuid Db)

theorem asked_ids {g g' : Group} (h : askedGroup g = askedGroup g') :
    (dedupeNonEmpty (toStoreGroup g).members).Perm (dedupeNonEmpty (toStoreGroup g').members) := by
  have hmem : ∀ (g : Group) t, t ∈ dedupeNonEmpty (toStoreGroup g).members ↔
      ∃ s, (askedGroup g).members s ∧ trimSpace s = t ∧ t ≠ "" := by
    intro g t
    rw [toStoreGroup_texts, mem_texts]
    rfl
  refine (List.perm_ext_iff_of_nodup nodup_dedupeNonEmpty nodup_dedupeNonEmpty).mpr ?_
  intro t
  rw [hmem, hmem, h]

theorem parseIDs_perm {ids ids' : List String} {ks : List Uuid} (h : ids.Perm ids')
    (hks : parseIDs ids = .ok ks) : ∃ ks', parseIDs ids' = .ok ks' ∧ ks'.Perm ks := by
  have hparse := h.symm.map Uuid.parse
  rw [parseIDs_ok.mp hks] at hparse
  obtain ⟨ks', hperm, hks'⟩ := exists_perm_map hparse
  exact ⟨ks', parseIDs_ok.mpr hks'.symm, hperm⟩

/-- The ids are a set to the statement that inserts them. -/
theorem addMembers_perm {ids ids' : List String} (h : ids.Perm ids') (now : Txn.Time)
    (groupID tenantID : String) (cur : Db) :
    execAddMembers now groupID tenantID ids cur = execAddMembers now groupID tenantID ids' cur := by
  rw [execAddMembers, execAddMembers]
  cases hks : parseIDs ids with
  | ok ks =>
    obtain ⟨ks', hks', hperm⟩ := parseIDs_perm h hks
    rw [hks']
    cases Store.parseID groupID with
    | error e => rfl
    | ok k => simp only [hperm.mem_iff]
  | error e =>
    cases hks' : parseIDs ids' with
    | ok ks' =>
      obtain ⟨ks, hks'', -⟩ := parseIDs_perm h.symm hks'
      rw [hks] at hks''
      cases hks''
    | error e' => rw [parseIDs_error hks, parseIDs_error hks']

/-- Groups that ask for the same are written alike: as many ids are expected, and the same rows are
inserted. -/
theorem asked_stored {g g' : Group} (h : askedGroup g = askedGroup g') :
    (toStoreGroup g).displayName = (toStoreGroup g').displayName ∧
      (toStoreGroup g).externalID = (toStoreGroup g').externalID ∧
      (dedupeNonEmpty (toStoreGroup g).members).length =
        (dedupeNonEmpty (toStoreGroup g').members).length ∧
      ∀ (now : Txn.Time) (groupID tenantID : String) (cur : Db),
        execAddMembers now groupID tenantID (dedupeNonEmpty (toStoreGroup g).members) cur =
          execAddMembers now groupID tenantID (dedupeNonEmpty (toStoreGroup g').members) cur := by
  have hname := congrArg AskedGroup.displayName h
  have hexternal := congrArg AskedGroup.externalID h
  rw [askedGroup_displayName, askedGroup_displayName] at hname
  rw [askedGroup_externalID, askedGroup_externalID] at hexternal
  exact ⟨hname, hexternal, (asked_ids h).length_eq, addMembers_perm (asked_ids h)⟩

end Stored

/-! ### Which orders show -/

/-- What is asked for, or the scimType of the refusal. -/
def groupOutcome (U : Unicode) (existing : Store.Group) (baseURL : String)
    (os : List (Operation × Ranking)) : Except String AskedGroup :=
  match applyGroupPatch U (fromStoreGroup existing baseURL) os with
  | .error e => .error (Refusal.patch e).scimType
  | .ok g =>
    if validateGroup g ≠ "" then .error (Refusal.invalid (validateGroup g)).scimType
    else .ok (askedGroup g)

/-- The name can be stored. -/
def GroupPasses (w : GroupPlace → GroupHeld) : Prop := ∀ s p, w .displayName = .displayName s p → p

def groupBags (U : Unicode) (os : List (Operation × Ranking)) : List (List GroupStep) :=
  os.map (groupSteps U)

/-- The operations, each with its object gone over in the order of its keys. -/
def sortedOps (ops : List Operation) : List (Operation × Ranking) := ops.map fun op => (op, fun _ => 0)

theorem map_sortedOps (ops : List Operation) : (sortedOps ops).map Prod.fst = ops := by
  rw [sortedOps, List.map_map]
  exact List.map_id ops

variable {U : Unicode} {existing : Store.Group} {baseURL : String} {ops : List Operation}

theorem groupBags_perm {os : List (Operation × Ranking)} (h : os.map Prod.fst = ops) :
    List.Forall₂ List.Perm (groupBags U os) (groupBags U (sortedOps ops)) := by
  subst h
  induction os with
  | nil => exact .nil
  | cons o os ih => exact .cons ((groupSteps_oneOrKeys U o.1).perm o.2 fun _ => 0) ih

theorem exists_groupBags {cs : List (List GroupStep)}
    (h : List.Forall₂ List.Perm cs (groupBags U (sortedOps ops))) :
    ∃ os : List (Operation × Ranking), os.map Prod.fst = ops ∧ groupBags U os = cs := by
  induction ops generalizing cs with
  | nil =>
    cases h
    exact ⟨[], rfl, rfl⟩
  | cons op ops ih =>
    rw [sortedOps, List.map_cons, groupBags, List.map_cons] at h
    obtain ⟨c, cs, hc, hcs, rfl⟩ := List.forall₂_cons_right_iff.mp h
    obtain ⟨os, hos, rfl⟩ := ih hcs
    obtain ⟨ω, rfl⟩ := (groupSteps_oneOrKeys U op).exists_order hc
    exact ⟨(op, ω) :: os, by rw [List.map_cons, hos], rfl⟩

theorem asked_eq_iff {g g' : Group} (hg : NameValid g.displayName) (hg' : NameValid g'.displayName) :
    askedGroup g = askedGroup g' ↔ groupHeld g = groupHeld g' := by
  constructor
  · intro h
    have hname := congrArg AskedGroup.displayName h
    have hexternal := congrArg AskedGroup.externalID h
    simp only [askedGroup_displayName, askedGroup_externalID, toStoreGroup] at hname hexternal
    have hmembers := congrArg AskedGroup.members h
    funext p
    cases p with
    | displayName =>
      rw [groupHeld, groupHeld, hname, propext (iff_of_true hg hg')]
    | externalID => rw [groupHeld, groupHeld, hexternal]
    | member id =>
      have hid := congrFun hmembers id
      exact congrArg GroupHeld.member hid
  · intro h
    have hname : trimSpace g.displayName = trimSpace g'.displayName :=
      (GroupHeld.displayName.inj (congrFun h .displayName)).1
    have hexternal : nonEmpty (trimSpace g.externalID) = nonEmpty (trimSpace g'.externalID) :=
      GroupHeld.externalID.inj (congrFun h .externalID)
    have hmembers : ∀ id, (id ∈ g.members.items.map Member.value) =
        (id ∈ g'.members.items.map Member.value) :=
      fun id => GroupHeld.member.inj (congrFun h (.member id))
    rw [askedGroup, askedGroup, toStoreGroup, toStoreGroup]
    simp only [hname, hexternal, hmembers]

/-- An order of the keys, judged. -/
theorem judged_group (os : List (Operation × Ranking)) :
    judge GroupPasses "invalidValue" (run (GroupStep.read U) (groupBags U os).flatten
        (.ok (groupHeld (fromStoreGroup existing baseURL)))) =
      match os.foldlM (applyGroupOp U) (fromStoreGroup existing baseURL) with
      | .error e => .error (Refusal.patch e).scimType
      | .ok g => if validateGroup g ≠ "" then .error "invalidValue" else .ok (groupHeld g) := by
  have hsteps := applyGroupOps_steps U os (fromStoreGroup existing baseURL)
  rw [groupBags, ← List.flatMap_def, run_groupSteps, hsteps]
  cases hfold : (os.flatMap (groupSteps U)).foldlM (applyGroupStep U) (fromStoreGroup existing baseURL) with
  | error e => rfl
  | ok g =>
    have hschemas : groupSchema ∈ g.schemas.items := by
      rw [groupSchemas_steps hfold]
      exact List.mem_cons_self
    have hpass : GroupPasses (groupHeld g) ↔ validateGroup g = "" := by
      rw [validateGroup_iff]
      constructor
      · exact fun h => ⟨hschemas, h _ _ rfl⟩
      · rintro ⟨-, h⟩ s p heq
        cases heq
        exact h
    change judge GroupPasses "invalidValue" (.ok (groupHeld g)) = _
    dsimp only
    rw [judge]
    by_cases hvalid : validateGroup g = ""
    · rw [if_pos (hpass.mpr hvalid), if_neg (not_not.mpr hvalid)]
    · rw [if_neg fun h => hvalid (hpass.mp h), if_pos hvalid]

theorem groupOutcome_eq_iff {os os' : List (Operation × Ranking)} (h : os ≠ []) (h' : os' ≠ []) :
    groupOutcome U existing baseURL os = groupOutcome U existing baseURL os' ↔
      judge GroupPasses "invalidValue" (run (GroupStep.read U) (groupBags U os).flatten
          (.ok (groupHeld (fromStoreGroup existing baseURL)))) =
        judge GroupPasses "invalidValue" (run (GroupStep.read U) (groupBags U os').flatten
          (.ok (groupHeld (fromStoreGroup existing baseURL)))) := by
  rw [judged_group, judged_group, groupOutcome, groupOutcome, applyGroupPatch, applyGroupPatch, if_neg h,
    if_neg h']
  have hscimType : ∀ detail, (Refusal.invalid detail).scimType = "invalidValue" := fun _ => rfl
  cases os.foldlM (applyGroupOp U) (fromStoreGroup existing baseURL) with
  | error e =>
    cases os'.foldlM (applyGroupOp U) (fromStoreGroup existing baseURL) with
    | error e' => simp
    | ok g' => by_cases hg' : validateGroup g' = "" <;> simp [hg', hscimType]
  | ok g =>
    cases os'.foldlM (applyGroupOp U) (fromStoreGroup existing baseURL) with
    | error e' => by_cases hg : validateGroup g = "" <;> simp [hg, hscimType]
    | ok g' =>
      by_cases hg : validateGroup g = ""
      · by_cases hg' : validateGroup g' = ""
        · have hasked := asked_eq_iff ((validateGroup_iff g).mp hg).2 ((validateGroup_iff g').mp hg').2
          simpa [hg, hg'] using hasked
        · simp [hg, hg', hscimType]
      · by_cases hg' : validateGroup g' = "" <;> simp [hg, hg', hscimType]

/-- A PATCH of a group goes the same way in every order exactly when its bags are settled, or it is
refused in every order for the name it leaves. -/
theorem group_unordered_iff : (∀ os os' : List (Operation × Ranking), os.map Prod.fst = ops →
      os'.map Prod.fst = ops →
      groupOutcome U existing baseURL os = groupOutcome U existing baseURL os') ↔
    Settled (GroupStep.read U) (groupBags U (sortedOps ops)) ∨
      Hopeless (GroupStep.read U) GroupPasses (groupBags U (sortedOps ops))
        (groupHeld (fromStoreGroup existing baseURL)) := by
  have hsorted := map_sortedOps ops
  by_cases hnone : ops = []
  · subst hnone
    have hbags : groupBags U (sortedOps []) = [] := rfl
    rw [hbags]
    refine iff_of_true ?_ (Or.inl trivial)
    intro os os' hos hos'
    rw [List.map_eq_nil_iff.mp hos, List.map_eq_nil_iff.mp hos']
  · have hsome : ∀ os : List (Operation × Ranking), os.map Prod.fst = ops → os ≠ [] := by
      rintro os hos rfl
      exact hnone hos.symm
    rw [← Overlay.judged_iff (t := "invalidValue")]
    constructor
    · intro h cs hcs
      obtain ⟨os, hos, rfl⟩ := exists_groupBags hcs
      exact (groupOutcome_eq_iff (hsome os hos) (hsome _ hsorted)).mp (h os _ hos hsorted)
    · intro h os os' hos hos'
      rw [groupOutcome_eq_iff (hsome os hos) (hsome os' hos'), h _ (groupBags_perm hos),
        h _ (groupBags_perm hos')]

/-! ### Every request that goes over a map -/

/-- A body as the decoder has read it. -/
abbrev Parsed := { v : Value // ∃ cs, Json.read cs = some v }

/-- A request with its body, and the row that it changes. -/
inductive MapRequest where
  | post (body : Parsed)
  | put (id : String) (body : Parsed)
  | patch (existing : Store.User) (body : Parsed)
  | patchGroup (existing : Store.Group) (body : Parsed)

/-- Whatever the orders in which the maps of the request are gone over, it is accepted alike, refused
with the same scimType, and stores the same. -/
def OrderUnseen (U : Unicode) (T : TimeText) (registered : Registry) (baseURL : String) :
    MapRequest → Prop
  | .post body => ∀ ω ω', postOutcome U T registered body.val ω = postOutcome U T registered body.val ω'
  | .put id body =>
    ∀ ω ω', putOutcome U T registered id body.val ω = putOutcome U T registered id body.val ω'
  | .patch existing body => ∀ p, readPatch body.val = some p → ∀ ss ss' : List Scheduled,
      ss.map Scheduled.op = p.operations.items → ss'.map Scheduled.op = p.operations.items →
        patchOutcome U registered existing baseURL ss = patchOutcome U registered existing baseURL ss'
  | .patchGroup existing body => ∀ p, readPatch body.val = some p →
      ∀ os os' : List (Operation × Ranking), os.map Prod.fst = p.operations.items →
        os'.map Prod.fst = p.operations.items →
          groupOutcome U existing baseURL os = groupOutcome U existing baseURL os'

/-- The keys of a body that stand for one registered attribute carry the same value; the keys of a
PATCH are settled, or what they leave is refused in every order. -/
def OrderSettled (U : Unicode) (T : TimeText) (registered : Registry) (baseURL : String) :
    MapRequest → Prop
  | .post body => ∀ u keys, decodeUser U T body.val = .ok (u, keys) →
      ∀ k, Overlay.Agree (capturing U registered) k keys.rows
  | .put id body => ∀ u keys, decodeUser U T body.val = .ok (u, keys) → (u.id = "" ∨ u.id = id) →
      ∀ k, Overlay.Agree (capturing U registered) k keys.rows
  | .patch existing body => ∀ p, readPatch body.val = some p →
      Settled (Item.read U) (bags U registered (p.operations.items.map .sorted)) ∨
        Hopeless (Item.read U) (Passes U registered existing p.operations.items)
          (bags U registered (p.operations.items.map .sorted)) (startHeld existing baseURL)
  | .patchGroup existing body => ∀ p, readPatch body.val = some p →
      Settled (GroupStep.read U) (groupBags U (sortedOps p.operations.items)) ∨
        Hopeless (GroupStep.read U) GroupPasses (groupBags U (sortedOps p.operations.items))
          (groupHeld (fromStoreGroup existing baseURL))

/-- An object with two spellings of one attribute. -/
def twoNamesBody : Value :=
  let names := field "userName" (string "ann") ++ field "USERNAME" (string "bob")
  .obj (field "Operations" (.arr [.obj (field "op" (string "replace") ++ field "value" (.obj names))]))

def twoNames : Operation :=
  ⟨"replace", "", some (.obj (field "userName" (string "ann") ++ field "USERNAME" (string "bob")))⟩

def carl : Store.User := ⟨"u1", "carl", none, none, none, none, true, 0, 0, ""⟩

/-- The operation, its object gone over with the key last. -/
def twoNamesLast (k : String) : Scheduled := ⟨twoNames, fun _ => 0, fun a => if a = k then 1 else 0⟩

end Scimage.Scim
