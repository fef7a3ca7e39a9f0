import Scimage.Store.Schema

/-!
The SQL statements of the store: the rows each returns and the row versions it writes. The
foreign keys to `tenants` are not modelled, so a statement that one of them would refuse is
among the failures any statement may have.
-/
namespace Scimage.Store

open Txn

structure PgError where
  code : String
  constraintName : String
  deriving DecidableEq

/-- What a statement fails with: no row to scan, an error of the server, or anything else
(a lost connection, a cancelled context). -/
inductive DbError where
  | noRows
  | pg (e : PgError)
  | lost
  deriving DecidableEq

/-- 22P02, invalid_text_representation. -/
def invalidText : DbError := .pg ⟨"22P02", ""⟩

def uniqueViolation (constraint : String) : DbError := .pg ⟨"23505", constraint⟩

def foreignKeyViolation (constraint : String) : DbError := .pg ⟨"23503", constraint⟩

/-- A statement in a transaction that has already failed. -/
def inFailedTransaction : DbError := .pg ⟨"25P02", ""⟩

def uniqueUserNameIndex := "idx_users_tenant_username"
def uniqueUserExternalIDIndex := "idx_users_tenant_external_id"
def uniqueGroupNameIndex := "idx_groups_tenant_displayname"
def uniqueGroupExternalIDIndex := "idx_groups_tenant_external_id"
def uniqueAttributeIndex := "tenant_attributes_pkey"

def maxPageSize : Nat := 200

inductive Stmt where
  | insertUser (tenantID : String) (u : User)
  | selectUser (tenantID id : String)
  | countUsers (tenantID : String) (f : UserFilter)
  | listUsers (tenantID : String) (f : UserFilter) (limit offset : Nat)
  | updateUser (tenantID id : String) (u : User)
  | deactivateUser (tenantID id : String)
  | insertGroup (tenantID : String) (g : Group)
  | selectGroup (tenantID id : String)
  | selectMembers (groupID : String)
  | selectMembersOf (groupIDs : List String)
  | countGroups (tenantID : String) (f : GroupFilter)
  | listGroups (tenantID : String) (f : GroupFilter) (limit offset : Nat)
  | updateGroup (tenantID id : String) (g : Group)
  | deleteGroup (tenantID id : String)
  | clearMembers (groupID : String)
  | addMembers (groupID tenantID : String) (memberIDs : List String)
  | insertAudit (rec : AuditRecord) (resource : Resource) (action : Action) (targetID : String)
      (result : Outcome) (detail : String) (before after : Option Image)
  | insertDelivery (tenantID : String) (eventType : EventType) (targetID : String)
      (payload : Payload)
  | replayDelivery (id : Nat)
  | insertToken (r : TokenRow)
  | selectToken (keyID : String)
  | touchToken (keyID : String)
  | revokeToken (keyID : String)
  | insertConsoleToken (r : ConsoleTokenRow)
  | selectConsoleToken (keyID : String)
  | revokeConsoleToken (keyID : String)
  | insertAttribute (tenantID name type actor : String)
  | deleteAttribute (tenantID name : String)
  | listAttributes (tenantID : String)
  | insertAdminAudit (tenantID actor : String) (action : AdminAction) (targetID detail : String)

/-- What a statement returns: the rows it selects, or how many rows it affected. -/
abbrev Stmt.Rows : Stmt → Type
  | .insertUser .. => User
  | .selectUser .. => Option User
  | .countUsers .. | .countGroups .. => Nat
  | .listUsers .. => List User
  | .updateUser .. | .deactivateUser .. => Option Change
  | .insertGroup .. => Group
  | .selectGroup .. | .updateGroup .. => Option Group
  | .selectMembers .. => List String
  | .selectMembersOf .. => List (String × String)
  | .listGroups .. => List Group
  | .deleteGroup .. | .clearMembers .. | .addMembers .. | .deleteAttribute .. => Nat
  | .insertAudit .. | .insertDelivery .. | .touchToken .. | .insertAdminAudit .. => Unit
  | .replayDelivery .. => Option (String × EventType)
  | .insertToken .. => TokenRow
  | .selectToken .. => Option TokenRow
  | .revokeToken .. | .revokeConsoleToken .. => Option String
  | .insertConsoleToken .. => ConsoleTokenRow
  | .selectConsoleToken .. => Option ConsoleTokenRow
  | .insertAttribute .. => AttributeRow
  | .listAttributes .. => List AttributeRow

/-- What the database generates for a statement: `gen_random_uuid()` and the next value of
a sequence. -/
structure Env where
  uuid : Uuid
  serial : Nat

abbrev Effects (Rows : Type) := Except DbError (Rows × List Write)

def parseID (s : String) : Except DbError Uuid :=
  match Uuid.parse s with
  | some k => .ok k
  | none => .error invalidText

/-- An empty blob becomes NULL, anything else is parsed as jsonb. -/
def jsonbParam (pg : Postgres) (raw : String) : Except DbError (Option String) :=
  if raw = "" then .ok none
  else match pg.jsonb raw with
    | some j => .ok (some j)
    | none => .error invalidText

/-! ### Users -/

/-- The first unique index of `users`, in the order they were created, that `r` violates. -/
def userConflict (pg : Postgres) (db : Db) (r : UserRow) : Option String :=
  let others := db.users.rows.filter fun x => x.id ≠ r.id ∧ x.tenantID = r.tenantID
  if others.any fun x => pg.lower x.userName = pg.lower r.userName then
    some uniqueUserNameIndex
  else if r.externalID.isSome ∧ (others.any fun x => x.externalID = r.externalID) then
    some uniqueUserExternalIDIndex
  else none

def execInsertUser (pg : Postgres) (now : Time) (env : Env) (tenantID : String) (u : User)
    (cur : Db) : Effects User :=
  match jsonbParam pg u.extendedAttributes with
  | .error e => .error e
  | .ok ext =>
    let r : UserRow := { u with
      tenantID, id := env.uuid, createdAt := now, updatedAt := now, extendedAttributes := ext }
    if (cur.users.find? env.uuid).isSome then .error (uniqueViolation "users_pkey")
    else match userConflict pg cur r with
      | some c => .error (uniqueViolation c)
      | none => .ok (scanUser r, [.putUser r])

def Db.userOf (db : Db) (tenantID : String) (k : Uuid) : Option UserRow :=
  (db.users.find? k).filter fun r => r.tenantID = tenantID

def execSelectUser (tenantID id : String) (cur : Db) : Effects (Option User) :=
  match parseID id with
  | .error e => .error e
  | .ok k => .ok ((cur.userOf tenantID k).map scanUser, [])

/-- The CTE `b` reads the statement's snapshot, `a` updates the newest version. A row that
the snapshot does not show is not updated. -/
def execChangeUser (pg : Postgres) (tenantID : String) (k : Uuid) (set : UserRow → UserRow)
    (snap cur : Db) : Effects (Option Change) :=
  match snap.userOf tenantID k, cur.userOf tenantID k with
  | some b, some c =>
    match userConflict pg cur (set c) with
    | some i => .error (uniqueViolation i)
    | none => .ok (some ⟨scanUser b, scanUser (set c)⟩, [.putUser (set c)])
  | _, _ => .ok (none, [])

def replaceUser (now : Time) (u : User) (ext : Option String) (c : UserRow) : UserRow :=
  { c with
    userName := u.userName
    externalID := u.externalID
    givenName := u.givenName
    familyName := u.familyName
    email := u.email
    active := u.active
    extendedAttributes := ext
    updatedAt := now }

def execUpdateUser (pg : Postgres) (now : Time) (tenantID id : String) (u : User)
    (snap cur : Db) : Effects (Option Change) :=
  match parseID id, jsonbParam pg u.extendedAttributes with
  | .ok k, .ok ext => execChangeUser pg tenantID k (replaceUser now u ext) snap cur
  | .error e, _ | _, .error e => .error e

def deactivated (now : Time) (c : UserRow) : UserRow := { c with active := false, updatedAt := now }

def execDeactivateUser (pg : Postgres) (now : Time) (tenantID id : String) (snap cur : Db) :
    Effects (Option Change) :=
  match parseID id with
  | .error e => .error e
  | .ok k => execChangeUser pg tenantID k (deactivated now) snap cur

/-- `UserFilter.clause`: always within the tenant. -/
def UserFilter.clause (pg : Postgres) (f : UserFilter) (tenantID : String) (r : UserRow) : Bool :=
  r.tenantID = tenantID ∧ (f.userName = "" ∨ pg.lower r.userName = pg.lower f.userName) ∧
    (f.externalID = "" ∨ r.externalID = some f.externalID)

def UserRow.before (a b : UserRow) : Bool :=
  a.createdAt < b.createdAt || (a.createdAt == b.createdAt && a.id.ble b.id)

def Db.usersWhere (pg : Postgres) (db : Db) (tenantID : String) (f : UserFilter) :
    List UserRow :=
  db.users.rows.filter (f.clause pg tenantID)

/-! ### Groups -/

def groupConflict (pg : Postgres) (db : Db) (r : GroupRow) : Option String :=
  let others := db.groups.rows.filter fun x => x.id ≠ r.id ∧ x.tenantID = r.tenantID
  if others.any fun x => pg.lower x.displayName = pg.lower r.displayName then
    some uniqueGroupNameIndex
  else if r.externalID.isSome ∧ (others.any fun x => x.externalID = r.externalID) then
    some uniqueGroupExternalIDIndex
  else none

def execInsertGroup (pg : Postgres) (now : Time) (env : Env) (tenantID : String) (g : Group)
    (cur : Db) : Effects Group :=
  let r : GroupRow := ⟨tenantID, env.uuid, g.externalID, g.displayName, now, now⟩
  if (cur.groups.find? env.uuid).isSome then .error (uniqueViolation "groups_pkey")
  else match groupConflict pg cur r with
    | some c => .error (uniqueViolation c)
    | none => .ok (scanGroup r, [.putGroup r])

def Db.groupOf (db : Db) (tenantID : String) (k : Uuid) : Option GroupRow :=
  (db.groups.find? k).filter fun r => r.tenantID = tenantID

def execSelectGroup (tenantID id : String) (cur : Db) : Effects (Option Group) :=
  match parseID id with
  | .error e => .error e
  | .ok k => .ok ((cur.groupOf tenantID k).map scanGroup, [])

def execSelectMembers (groupID : String) (cur : Db) : Effects (List String) :=
  match parseID groupID with
  | .error e => .error e
  | .ok k => .ok (cur.membersOf k, [])

def execUpdateGroup (pg : Postgres) (now : Time) (tenantID id : String) (g : Group)
    (snap cur : Db) : Effects (Option Group) :=
  match parseID id with
  | .error e => .error e
  | .ok k =>
    match snap.groupOf tenantID k, cur.groupOf tenantID k with
    | some _, some c =>
      let r := { c with displayName := g.displayName, externalID := g.externalID, updatedAt := now }
      match groupConflict pg cur r with
      | some i => .error (uniqueViolation i)
      | none => .ok (some (scanGroup r), [.putGroup r])
    | _, _ => .ok (none, [])

def execDeleteGroup (tenantID id : String) (snap cur : Db) : Effects Nat :=
  match parseID id with
  | .error e => .error e
  | .ok k =>
    match snap.groupOf tenantID k, cur.groupOf tenantID k with
    | some _, some _ => .ok (1, [.dropGroup k])
    | _, _ => .ok (0, [])

def execClearMembers (groupID : String) (cur : Db) : Effects Nat :=
  match parseID groupID with
  | .error e => .error e
  | .ok k =>
    let ms := cur.members.rows.filter fun m => m.groupID = k
    .ok (ms.length, ms.map .dropMember)

def parseIDs (ids : List String) : Except DbError (List Uuid) := ids.mapM parseID

/-- The users of the tenant among `ids` join the group. -/
def execAddMembers (now : Time) (groupID tenantID : String) (memberIDs : List String)
    (cur : Db) : Effects Nat :=
  match parseID groupID, parseIDs memberIDs with
  | .ok k, .ok ids =>
    let us := cur.users.rows.filter fun u => u.tenantID = tenantID ∧ u.id ∈ ids
    let ms := us.map fun u => (⟨k, u.id, tenantID, now⟩ : MemberRow)
    if ms.any fun m => (cur.members.find? m.key).isSome then
      .error (uniqueViolation "group_members_pkey")
    else if ms ≠ [] ∧ (cur.groups.find? k).isNone then
      .error (foreignKeyViolation "group_members_group_id_fkey")
    else .ok (ms.length, ms.map .putMember)
  | .error e, _ | _, .error e => .error e

def GroupFilter.clause (pg : Postgres) (f : GroupFilter) (tenantID : String) (r : GroupRow) :
    Bool :=
  r.tenantID = tenantID ∧ (f.displayName = "" ∨ pg.lower r.displayName = pg.lower f.displayName) ∧
    (f.externalID = "" ∨ r.externalID = some f.externalID)

def GroupRow.before (a b : GroupRow) : Bool :=
  a.createdAt < b.createdAt || (a.createdAt == b.createdAt && a.id.ble b.id)

def Db.groupsWhere (pg : Postgres) (db : Db) (tenantID : String) (f : GroupFilter) :
    List GroupRow :=
  db.groups.rows.filter (f.clause pg tenantID)

/-- `group_id = ANY(...)`, ordered by group, then as in `membersOf`. -/
def execSelectMembersOf (groupIDs : List String) (cur : Db) : Effects (List (String × String)) :=
  match parseIDs groupIDs with
  | .error e => .error e
  | .ok ids =>
    let ms := (cur.members.rows.filter fun m => m.groupID ∈ ids).insertionSort fun a b =>
      (a.groupID ≠ b.groupID ∧ a.groupID.ble b.groupID) ∨
        (a.groupID = b.groupID ∧ memberBefore a b)
    .ok (ms.map fun m => (m.groupID.text, m.userID.text), [])

/-! ### Audit log and outbox -/

/-- A `target_id` parameter that may be NULL. -/
def parseTarget : Option String → Except DbError (Option Uuid)
  | none => .ok none
  | some s => (parseID s).map some

def auditEntry (now : Time) (serial : Nat) (rec : AuditRecord) (resource : Resource)
    (action : Action) (target : Option Uuid) (result : Outcome) (detail : String)
    (before after : Option Image) : AuditRow where
  id := serial
  loggedAt := now
  tenantID := rec.tenantID
  resourceType := resource
  actorToken := rec.actorToken
  actorIP := nullable rec.actorIP
  action := action
  result := result
  detail := nullable detail
  targetID := target
  before := before
  after := after

def execInsertAudit (now : Time) (env : Env) (rec : AuditRecord) (resource : Resource)
    (action : Action) (targetID : String) (result : Outcome) (detail : String)
    (before after : Option Image) : Effects Unit :=
  match parseTarget (nullable targetID) with
  | .error e => .error e
  | .ok target => .ok ((), [.addAudit
      (auditEntry now env.serial rec resource action target result detail before after)])

/-- The column defaults make a new delivery pending, unattempted and due at once. -/
def newDelivery (now : Time) (serial : Nat) (tenantID : String) (eventType : EventType)
    (target : Uuid) (payload : Payload) : DeliveryRow where
  id := serial
  createdAt := now
  tenantID := tenantID
  eventType := eventType
  targetID := some target
  payload := payload
  status := .pending
  attempts := 0
  nextAttemptAt := now
  lastError := none
  deliveredAt := none

def execInsertDelivery (now : Time) (env : Env) (tenantID : String) (eventType : EventType)
    (targetID : String) (payload : Payload) : Effects Unit :=
  match parseID targetID with
  | .error e => .error e
  | .ok target => .ok ((), [.addDelivery
      (newDelivery now env.serial tenantID eventType target payload)])

def requeue (now : Time) (d : DeliveryRow) : DeliveryRow :=
  { d with status := .pending, attempts := 0, nextAttemptAt := now, lastError := none }

def Db.deadLetterOf (db : Db) (id : Nat) : Option DeliveryRow :=
  db.deliveries.find? fun d => d.id = id ∧ d.status = .deadLetter

def execReplayDelivery (now : Time) (id : Nat) (snap cur : Db) :
    Effects (Option (String × EventType)) :=
  match snap.deadLetterOf id, cur.deadLetterOf id with
  | some _, some d => .ok (some (d.tenantID, d.eventType), [.putDelivery (requeue now d)])
  | _, _ => .ok (none, [])

/-! ### Tokens and attributes -/

def execInsertToken (r : TokenRow) (now : Time) (cur : Db) : Effects TokenRow :=
  let r := { r with createdAt := now, lastUsedAt := none, revokedAt := none }
  if (cur.tokens.find? r.keyID).isSome then .error (uniqueViolation "scim_tokens_pkey")
  else .ok (r, [.putToken r])

def execTouchToken (keyID : String) (now : Time) (cur : Db) : Effects Unit :=
  match cur.tokens.find? keyID with
  | some r => .ok ((), [.putToken { r with lastUsedAt := some now }])
  | none => .ok ((), [])

def liveToken (db : Db) (keyID : String) : Option TokenRow :=
  (db.tokens.find? keyID).filter fun r => r.revokedAt.isNone

def execRevokeToken (keyID : String) (now : Time) (snap cur : Db) : Effects (Option String) :=
  match liveToken snap keyID, liveToken cur keyID with
  | some _, some r => .ok (some r.tenantID, [.putToken { r with revokedAt := some now }])
  | _, _ => .ok (none, [])

def execInsertConsoleToken (r : ConsoleTokenRow) (now : Time) (cur : Db) :
    Effects ConsoleTokenRow :=
  let r := { r with createdAt := now, lastUsedAt := none, revokedAt := none }
  if (cur.consoleTokens.find? r.keyID).isSome then
    .error (uniqueViolation "console_tokens_pkey")
  else .ok (r, [.putConsoleToken r])

def liveConsoleToken (db : Db) (keyID : String) : Option ConsoleTokenRow :=
  (db.consoleTokens.find? keyID).filter fun r => r.revokedAt.isNone

def execRevokeConsoleToken (keyID : String) (now : Time) (snap cur : Db) :
    Effects (Option String) :=
  match liveConsoleToken snap keyID, liveConsoleToken cur keyID with
  | some _, some r => .ok (some r.keyID, [.putConsoleToken { r with revokedAt := some now }])
  | _, _ => .ok (none, [])

def execInsertAttribute (tenantID name type actor : String) (now : Time) (cur : Db) :
    Effects AttributeRow :=
  let r : AttributeRow := ⟨tenantID, name, type, now, nullable actor⟩
  if (cur.attributes.find? r.key).isSome then .error (uniqueViolation uniqueAttributeIndex)
  else .ok (r, [.putAttribute r])

def execDeleteAttribute (tenantID name : String) (snap cur : Db) : Effects Nat :=
  match snap.attributes.find? (tenantID, name), cur.attributes.find? (tenantID, name) with
  | some _, some _ => .ok (1, [.dropAttribute (tenantID, name)])
  | _, _ => .ok (0, [])

def Db.attributesOf (db : Db) (tenantID : String) : List AttributeRow :=
  (db.attributes.rows.filter fun a => a.tenantID = tenantID).insertionSort fun a b =>
    a.name ≤ b.name

/-- `nullable(tenantID)` is NULL for the actions that belong to no tenant. -/
def execInsertAdminAudit (now : Time) (env : Env) (tenantID actor : String)
    (action : AdminAction) (targetID detail : String) : Effects Unit :=
  .ok ((), [.addAdminAudit ⟨env.serial, now, nullable tenantID, actor, action, targetID,
    nullable detail⟩])

/-! ### All statements -/

def exec (pg : Postgres) (now : Time) (env : Env) :
    (s : Stmt) → (snap cur : Db) → Effects s.Rows
  | .insertUser tenantID u, _, cur => execInsertUser pg now env tenantID u cur
  | .selectUser tenantID id, _, cur => execSelectUser tenantID id cur
  | .countUsers tenantID f, _, cur => .ok ((cur.usersWhere pg tenantID f).length, [])
  | .listUsers tenantID f limit offset, _, cur =>
    let rows := (cur.usersWhere pg tenantID f).insertionSort fun a b => a.before b
    .ok (((rows.drop offset).take limit).map scanUser, [])
  | .updateUser tenantID id u, snap, cur => execUpdateUser pg now tenantID id u snap cur
  | .deactivateUser tenantID id, snap, cur => execDeactivateUser pg now tenantID id snap cur
  | .insertGroup tenantID g, _, cur => execInsertGroup pg now env tenantID g cur
  | .selectGroup tenantID id, _, cur => execSelectGroup tenantID id cur
  | .selectMembers groupID, _, cur => execSelectMembers groupID cur
  | .selectMembersOf groupIDs, _, cur => execSelectMembersOf groupIDs cur
  | .countGroups tenantID f, _, cur => .ok ((cur.groupsWhere pg tenantID f).length, [])
  | .listGroups tenantID f limit offset, _, cur =>
    let rows := (cur.groupsWhere pg tenantID f).insertionSort fun a b => a.before b
    .ok (((rows.drop offset).take limit).map scanGroup, [])
  | .updateGroup tenantID id g, snap, cur => execUpdateGroup pg now tenantID id g snap cur
  | .deleteGroup tenantID id, snap, cur => execDeleteGroup tenantID id snap cur
  | .clearMembers groupID, _, cur => execClearMembers groupID cur
  | .addMembers groupID tenantID ids, _, cur => execAddMembers now groupID tenantID ids cur
  | .insertAudit rec resource action targetID result detail before after, _, _ =>
    execInsertAudit now env rec resource action targetID result detail before after
  | .insertDelivery tenantID eventType targetID payload, _, _ =>
    execInsertDelivery now env tenantID eventType targetID payload
  | .replayDelivery id, snap, cur => execReplayDelivery now id snap cur
  | .insertToken r, _, cur => execInsertToken r now cur
  | .selectToken keyID, _, cur => .ok (cur.tokens.find? keyID, [])
  | .touchToken keyID, _, cur => execTouchToken keyID now cur
  | .revokeToken keyID, snap, cur => execRevokeToken keyID now snap cur
  | .insertConsoleToken r, _, cur => execInsertConsoleToken r now cur
  | .selectConsoleToken keyID, _, cur => .ok (cur.consoleTokens.find? keyID, [])
  | .revokeConsoleToken keyID, snap, cur => execRevokeConsoleToken keyID now snap cur
  | .insertAttribute tenantID name type actor, _, cur =>
    execInsertAttribute tenantID name type actor now cur
  | .deleteAttribute tenantID name, snap, cur => execDeleteAttribute tenantID name snap cur
  | .listAttributes tenantID, _, cur => .ok (cur.attributesOf tenantID, [])
  | .insertAdminAudit tenantID actor action targetID detail, _, _ =>
    execInsertAdminAudit now env tenantID actor action targetID detail

/-- The row an UPDATE or DELETE waits for. -/
def Stmt.row : Stmt → Option Key
  | .updateUser _ id _ | .deactivateUser _ id => (Uuid.parse id).map .user
  | .updateGroup _ id _ | .deleteGroup _ id => (Uuid.parse id).map .group
  | .replayDelivery id => some (.delivery id)
  | .revokeToken keyID => some (.token keyID)
  | .revokeConsoleToken keyID => some (.consoleToken keyID)
  | .deleteAttribute tenantID name => some (.attribute (tenantID, name))
  | _ => none

def engine (pg : Postgres) : Engine Stmt.Rows DbError Db Write Key Env where
  exec := exec pg
  apply := Write.apply
  keys := Write.keys pg
  row := Stmt.row
  aborted := inFailedTransaction

end Scimage.Store
