import Scimage.Store.Call

/-! The operations on groups. -/
namespace Scimage.Store

open Txn

def fetchMembers (q : Querier) (groupID : String) : Call (List String) :=
  q.exec (.selectMembers groupID)

def attachMembers (q : Querier) (groups : List Group) : Call (List Group) := do
  if groups.isEmpty then return groups
  let rows ← q.exec (.selectMembersOf (groups.map Group.id))
  return groups.map fun g =>
    { g with members := rows.filterMap fun r => if r.1 = g.id then some r.2 else none }

def dedupe (seen : List String) : List String → List String
  | [] => []
  | s :: ss => if s = "" ∨ s ∈ seen then dedupe seen ss else s :: dedupe (s :: seen) ss

def dedupeNonEmpty (ids : List String) : List String := dedupe [] ids

/-- A row count that differs from the deduplicated input means a reference to a user that
does not exist or belongs to another tenant. -/
def replaceMembers (tenantID groupID : String) (memberIDs : List String) : Call Unit := do
  let _ ← Querier.tx.exec (.clearMembers groupID)
  let deduped := dedupeNonEmpty memberIDs
  if deduped.isEmpty then pure ()
  else
    match ← Querier.tx.ask (.addMembers groupID tenantID deduped) with
    | .error e => if isInvalidArrayElement e then throw .invalidMember else throw (.db e)
    | .ok n => if n ≠ deduped.length then throw .invalidMember else pure ()

def getGroupTx (tenantID id : String) : Call Group := do
  match scanRow (← Querier.tx.ask (.selectGroup tenantID id)) with
  | .error e => if isMissingRow e then throw .groupNotFound else throw (.db e)
  | .ok g =>
    let members ← fetchMembers .tx id
    return { g with members }

def createGroup (s : Store) (tenantID : String) (g : Group) (rec : AuditRecord) : Call Group :=
  inTx do
    match ← Querier.tx.ask (.insertGroup tenantID g) with
    | .error e =>
      if isUniqueViolationOn e uniqueGroupNameIndex then
        auditRefusal rec .group .create "" "duplicate displayName"
        throw .duplicateGroupName
      else throw (.db e)
    | .ok created =>
      match ← attempt (replaceMembers tenantID created.id g.members) with
      | .error e =>
        if e = .invalidMember then
          auditRefusal rec .group .create "" "invalid member reference"
        throw e
      | .ok () =>
        let members ← fetchMembers .tx created.id
        let created := { created with members }
        insertAudit .tx rec .group .create created.id .success "" none (some (.group created))
        s.enqueueGroupChange .tx tenantID .groupCreated created.id none (some created)
        commit
        return created

def getGroup (tenantID id : String) : Call Group := do
  match scanRow (← Querier.pool.ask (.selectGroup tenantID id)) with
  | .error e => if isMissingRow e then throw .groupNotFound else throw (.db e)
  | .ok g =>
    let members ← fetchMembers .pool id
    return { g with members }

def listGroups (tenantID : String) (limit offset : Int) (f : GroupFilter) :
    Call (List Group × Nat) := do
  if limit < 0 ∨ offset < 0 then throw .negativePage
  let limit := min limit maxPageSize
  let total ← Querier.pool.exec (.countGroups tenantID f)
  let groups ← Querier.pool.exec (.listGroups tenantID f limit.toNat offset.toNat)
  let groups ← attachMembers .pool groups
  return (groups, total)

def updateGroup (s : Store) (tenantID id : String) (g : Group) (rec : AuditRecord) :
    Call GroupChange :=
  inTx do
    match ← attempt (getGroupTx tenantID id) with
    | .error e =>
      if e = .groupNotFound then auditRefusal rec .group .replace id "no such group"
      throw e
    | .ok before =>
      match scanRow (← Querier.tx.ask (.updateGroup tenantID id g)) with
      | .error e =>
        if isUniqueViolationOn e uniqueGroupNameIndex then
          auditRefusal rec .group .replace id "duplicate displayName"
          throw .duplicateGroupName
        else throw (.db e)
      | .ok after =>
        match ← attempt (replaceMembers tenantID id g.members) with
        | .error e =>
          if e = .invalidMember then
            auditRefusal rec .group .replace id "invalid member reference"
          throw e
        | .ok () =>
          let members ← fetchMembers .tx id
          let after := { after with members }
          insertAudit .tx rec .group .replace id .success "" (some (.group before))
            (some (.group after))
          s.enqueueGroupChange .tx tenantID .groupReplaced id (some before) (some after)
          commit
          return ⟨before, after⟩

/-- The number of rows the DELETE removed is not looked at. -/
def deleteGroup (s : Store) (tenantID id : String) (rec : AuditRecord) : Call Group :=
  inTx do
    match ← attempt (getGroupTx tenantID id) with
    | .error e =>
      if e = .groupNotFound then auditRefusal rec .group .delete id "no such group"
      throw e
    | .ok before =>
      let _ ← Querier.tx.exec (.deleteGroup tenantID id)
      insertAudit .tx rec .group .delete id .success "" (some (.group before)) none
      s.enqueueGroupChange .tx tenantID .groupDeleted id (some before) none
      commit
      return before

/-! ### The histories they commit -/

variable {D : Discipline Stmt.Rows} {P : List (Entry Stmt.Rows) → Prop} {s : Store}
  {tenantID id : String} {rec : AuditRecord} {g : Group} {h : List (Entry Stmt.Rows)}
  {err : StoreError → Stage Stmt.Rows → Prop}

def replacedHistory (tenantID groupID : String) (memberIDs : List String) (n : Nat) :
    List (Entry Stmt.Rows) :=
  ⟨.clearMembers groupID, n⟩ ::
    if (dedupeNonEmpty memberIDs).isEmpty then []
    else [⟨.addMembers groupID tenantID (dedupeNonEmpty memberIDs),
      (dedupeNonEmpty memberIDs).length⟩]

/-- A helper that fails leaves its transaction aborted or open. -/
def Unfinished (st : Stage Stmt.Rows) : Prop := st = .failed ∨ ∃ h, st = .opened h

theorem ends_replaceMembers {memberIDs : List String} {ok : Unit → Stage Stmt.Rows → Prop}
    (hok : ∀ n, ok () (.opened (h ++ replacedHistory tenantID id memberIDs n)))
    (herr : ∀ e st, Unfinished st → err e st) :
    Ends D (replaceMembers tenantID id memberIDs) ok err (.opened h) := by
  refine ends_bind.mpr (ends_tx_exec.mpr ⟨?_, fun e => herr _ _ (Or.inl rfl)⟩)
  intro n
  have hn := hok n
  by_cases hd : (dedupeNonEmpty memberIDs).isEmpty
  · simp only [hd, if_true, replacedHistory] at hn ⊢
    simpa using hn
  · simp only [hd, if_false, Bool.false_eq_true, replacedHistory] at hn ⊢
    refine ends_bind.mpr (ends_tx_ask.mpr ⟨?_, ?_⟩)
    · intro m
      by_cases hm : m = (dedupeNonEmpty memberIDs).length
      · subst hm
        simpa using hn
      · simpa [hm] using herr _ _ (Or.inr ⟨_, rfl⟩)
    · intro e
      by_cases he : isInvalidArrayElement e <;> simpa [he] using herr _ _ (Or.inl rfl)

theorem ends_getGroupTx {ok : Group → Stage Stmt.Rows → Prop}
    (hok : ∀ g members, ok { g with members } (.opened (h ++
      [⟨.selectGroup tenantID id, some g⟩, ⟨.selectMembers id, members⟩])))
    (herr : ∀ e st, Unfinished st → err e st) :
    Ends D (getGroupTx tenantID id) ok err (.opened h) := by
  refine ends_bind.mpr (ends_tx_ask.mpr ⟨?_, ?_⟩)
  · rintro (_ | g)
    · simpa [scanRow, isMissingRow] using herr _ _ (Or.inr ⟨_, rfl⟩)
    · refine ends_bind.mpr (ends_tx_exec.mpr ⟨?_, fun e => herr _ _ (Or.inl rfl)⟩)
      intro members
      simpa using hok g members
  · intro e
    by_cases he : isMissingRow e <;> simpa [scanRow, he] using herr _ _ (Or.inl rfl)

/-- A helper's error, noted when it is a refusal, ends the call. -/
theorem ends_refused {e refusal : StoreError} {resource : Resource} {action : Action}
    {detail : String} {st : Stage Stmt.Rows} (hst : Unfinished st) :
    Ends (mutations P) (do
        if e = refusal then auditRefusal rec resource action id detail
        throw e : Call α)
      (fun a st => Settled (.ok a) st.rollback)
      (fun e st => Settled (.error e : Except StoreError α) st.rollback) st := by
  rcases hst with rfl | ⟨h, rfl⟩ <;> by_cases he : e = refusal <;> simp [he, Settled]

def createGroupHistory (s : Store) (tenantID : String) (g : Group) (rec : AuditRecord)
    (created : Group) (n : Nat) (members : List String) : List (Entry Stmt.Rows) :=
  [⟨.insertGroup tenantID g, created⟩] ++ replacedHistory tenantID created.id g.members n ++
    [⟨.selectMembers created.id, members⟩] ++
    s.recorded rec tenantID .group .create created.id none
      (some (.group { created with members })) .groupCreated
      (.group ⟨.groupCreated, created.updatedAt, created.id, none, some { created with members }⟩)

def updateGroupHistory (s : Store) (tenantID id : String) (g : Group) (rec : AuditRecord)
    (before : Group) (members : List String) (after : Group) (n : Nat)
    (newMembers : List String) : List (Entry Stmt.Rows) :=
  [⟨.selectGroup tenantID id, some before⟩, ⟨.selectMembers id, members⟩,
    ⟨.updateGroup tenantID id g, some after⟩] ++ replacedHistory tenantID id g.members n ++
    [⟨.selectMembers id, newMembers⟩] ++
    s.recorded rec tenantID .group .replace id (some (.group { before with members }))
      (some (.group { after with members := newMembers })) .groupReplaced
      (.group ⟨.groupReplaced, after.updatedAt, id, some { before with members },
        some { after with members := newMembers }⟩)

def deleteGroupHistory (s : Store) (tenantID id : String) (rec : AuditRecord)
    (before : Group) (members : List String) (n : Nat) (clock : Time) :
    List (Entry Stmt.Rows) :=
  [⟨.selectGroup tenantID id, some before⟩, ⟨.selectMembers id, members⟩,
    ⟨.deleteGroup tenantID id, n⟩] ++
    s.recorded rec tenantID .group .delete id (some (.group { before with members })) none
      .groupDeleted (.group ⟨.groupDeleted, clock, id, some { before with members }, none⟩)

theorem createGroup_wp
    (hP : ∀ created n members, P (createGroupHistory s tenantID g rec created n members)) :
    wp (mutations P) (s.createGroup tenantID g rec).run Settled .idle := by
  apply Ends.wp
  refine ends_inTx.mpr ⟨ends_bind.mpr (ends_tx_ask.mpr ⟨?_, ?_⟩), by simp [Settled]⟩
  · intro created
    refine ends_bind.mpr (ends_attempt.mpr (ends_replaceMembers ?_ ?_))
    · intro n
      refine ends_bind.mpr (ends_tx_exec.mpr ⟨?_, by simp [Settled]⟩)
      intro members
      exact ends_recorded_group fun _ => hP created n members
    · intro e st hst
      exact ends_refused hst
  · intro e
    by_cases he : isUniqueViolationOn e uniqueGroupNameIndex <;> simp [he, Settled]

theorem updateGroup_wp (hP : ∀ before members after n newMembers,
      P (updateGroupHistory s tenantID id g rec before members after n newMembers)) :
    wp (mutations P) (s.updateGroup tenantID id g rec).run Settled .idle := by
  apply Ends.wp
  refine ends_inTx.mpr ⟨ends_bind.mpr (ends_attempt.mpr (ends_getGroupTx ?_ ?_)),
    by simp [Settled]⟩
  · intro before members
    refine ends_bind.mpr (ends_tx_ask.mpr ⟨?_, ?_⟩)
    · rintro (_ | after)
      · simp [scanRow, isUniqueViolationOn, Settled]
      · refine ends_bind.mpr (ends_attempt.mpr (ends_replaceMembers ?_ ?_))
        · intro n
          refine ends_bind.mpr (ends_tx_exec.mpr ⟨?_, by simp [Settled]⟩)
          intro newMembers
          exact ends_recorded_group fun _ => hP before members after n newMembers
        · intro e st hst
          exact ends_refused hst
    · intro e
      by_cases he : isUniqueViolationOn e uniqueGroupNameIndex <;> simp [scanRow, he, Settled]
  · intro e st hst
    exact ends_refused hst

theorem deleteGroup_wp (hP : ∀ before members n clock,
      P (deleteGroupHistory s tenantID id rec before members n clock)) :
    wp (mutations P) (s.deleteGroup tenantID id rec).run Settled .idle := by
  apply Ends.wp
  refine ends_inTx.mpr ⟨ends_bind.mpr (ends_attempt.mpr (ends_getGroupTx ?_ ?_)),
    by simp [Settled]⟩
  · intro before members
    refine ends_bind.mpr (ends_tx_exec.mpr ⟨?_, by simp [Settled]⟩)
    intro n
    exact ends_recorded_group fun clock => hP before members n clock
  · intro e st hst
    exact ends_refused hst

end Scimage.Store
