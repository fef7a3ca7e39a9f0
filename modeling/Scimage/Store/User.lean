import Scimage.Store.Call

/-! The operations on users. -/
namespace Scimage.Store

open Txn

def createUser (s : Store) (tenantID : String) (u : User) (rec : AuditRecord) : Call User :=
  inTx do
    match ← Querier.tx.ask (.insertUser tenantID u) with
    | .error e =>
      if isUniqueViolation e then
        auditRefusal rec .user .create "" "duplicate userName"
        throw .duplicateUserName
      else throw (.db e)
    | .ok created =>
      insertAudit .tx rec .user .create created.id .success "" none (some (.user created))
      s.enqueueChange .tx tenantID .userCreated created.id none created
      commit
      return created

def getUser (tenantID id : String) : Call User := do
  match scanRow (← Querier.pool.ask (.selectUser tenantID id)) with
  | .error e => if isMissingRow e then throw .notFound else throw (.db e)
  | .ok u => return u

def listUsers (tenantID : String) (limit offset : Int) (f : UserFilter) :
    Call (List User × Nat) := do
  if limit < 0 ∨ offset < 0 then throw .negativePage
  let limit := min limit maxPageSize
  let total ← Querier.pool.exec (.countUsers tenantID f)
  let users ← Querier.pool.exec (.listUsers tenantID f limit.toNat offset.toNat)
  return (users, total)

def updateUser (s : Store) (tenantID id : String) (u : User) (rec : AuditRecord) :
    Call Change :=
  inTx do
    match scanRow (← Querier.tx.ask (.updateUser tenantID id u)) with
    | .error e =>
      if isMissingRow e then
        auditRefusal rec .user .replace id "no such user"
        throw .notFound
      else if isUniqueViolation e then
        auditRefusal rec .user .replace id "duplicate userName"
        throw .duplicateUserName
      else throw (.db e)
    | .ok change =>
      insertAudit .tx rec .user .replace id .success "" (some (.user change.before))
        (some (.user change.after))
      s.enqueueChange .tx tenantID (changeEventType (some change.before) change.after) id
        (some change.before) change.after
      commit
      return change

def deactivateUser (s : Store) (tenantID id : String) (rec : AuditRecord) : Call Change :=
  inTx do
    match scanRow (← Querier.tx.ask (.deactivateUser tenantID id)) with
    | .error e =>
      if isMissingRow e then
        auditRefusal rec .user .deactivate id "no such user"
        throw .notFound
      else throw (.db e)
    | .ok change =>
      insertAudit .tx rec .user .deactivate id .success "" (some (.user change.before))
        (some (.user change.after))
      s.enqueueChange .tx tenantID .userDeactivated id (some change.before) change.after
      commit
      return change

variable {P : List (Entry Stmt.Rows) → Prop} {s : Store} {tenantID id : String}
  {rec : AuditRecord} {u : User}

/-- The history of `CreateUser`. -/
def createUserHistory (s : Store) (tenantID : String) (u : User) (rec : AuditRecord)
    (created : User) : List (Entry Stmt.Rows) :=
  ⟨.insertUser tenantID u, created⟩ ::
    recorded s rec tenantID .user .create created.id none (some (.user created)) .userCreated
      (.user ⟨.userCreated, created.updatedAt, created.id, none, created⟩)

theorem createUser_wp (hP : ∀ created, P (createUserHistory s tenantID u rec created)) :
    wp (mutations P) (s.createUser tenantID u rec).run Settled .idle := by
  apply Ends.wp
  refine ends_inTx.mpr ⟨ends_bind.mpr (ends_tx_ask.mpr ⟨?_, ?_⟩), by simp [Settled]⟩
  · intro created
    exact ends_recorded_user (hP created)
  · intro e
    by_cases he : isUniqueViolation e <;> simp [he, Settled]

/-- The end that `UpdateUser` and `DeactivateUser` share. -/
def changeHistory (s : Store) (tenantID id : String) (rec : AuditRecord) (action : Action)
    (eventType : EventType) (ch : Change) : List (Entry Stmt.Rows) :=
  recorded s rec tenantID .user action id (some (.user ch.before)) (some (.user ch.after))
    eventType (.user ⟨eventType, ch.after.updatedAt, id, some ch.before, ch.after⟩)

def updateUserHistory (s : Store) (tenantID id : String) (u : User) (rec : AuditRecord)
    (ch : Change) : List (Entry Stmt.Rows) :=
  ⟨.updateUser tenantID id u, some ch⟩ ::
    changeHistory s tenantID id rec .replace (changeEventType (some ch.before) ch.after) ch

def deactivateUserHistory (s : Store) (tenantID id : String) (rec : AuditRecord)
    (ch : Change) : List (Entry Stmt.Rows) :=
  ⟨.deactivateUser tenantID id, some ch⟩ ::
    changeHistory s tenantID id rec .deactivate .userDeactivated ch

theorem updateUser_wp (hP : ∀ ch, P (updateUserHistory s tenantID id u rec ch)) :
    wp (mutations P) (s.updateUser tenantID id u rec).run Settled .idle := by
  apply Ends.wp
  refine ends_inTx.mpr ⟨ends_bind.mpr (ends_tx_ask.mpr ⟨?_, ?_⟩), by simp [Settled]⟩
  · rintro (_ | ch)
    · simp [scanRow, isMissingRow, Settled]
    · exact ends_recorded_user (hP ch)
  · intro e
    by_cases hm : isMissingRow e
    · simp [scanRow, hm, Settled]
    · by_cases he : isUniqueViolation e <;> simp [scanRow, hm, he, Settled]

theorem deactivateUser_wp (hP : ∀ ch, P (deactivateUserHistory s tenantID id rec ch)) :
    wp (mutations P) (s.deactivateUser tenantID id rec).run Settled .idle := by
  apply Ends.wp
  refine ends_inTx.mpr ⟨ends_bind.mpr (ends_tx_ask.mpr ⟨?_, ?_⟩), by simp [Settled]⟩
  · rintro (_ | ch)
    · simp [scanRow, isMissingRow, Settled]
    · exact ends_recorded_user (hP ch)
  · intro e
    by_cases hm : isMissingRow e <;> simp [scanRow, hm, Settled]

end Scimage.Store
