import Scimage.Lib.Engine
import Scimage.Lib.Table
import Scimage.Store.Uuid
import Mathlib.Data.List.Sort

/-! The values the store hands out and the tables it keeps. -/
namespace Scimage.Store

export Txn (Time)

/-- What PostgreSQL does with text: `lower`, and the `jsonb` input and output, which refuses
some texts. -/
structure Postgres where
  lower : String → String
  jsonb : String → Option String

/-! ### Values -/

/-- `extendedAttributes` is raw JSON, empty when there is none. -/
structure User where
  id : String
  userName : String
  externalID : Option String
  givenName : Option String
  familyName : Option String
  email : Option String
  active : Bool
  createdAt : Time
  updatedAt : Time
  extendedAttributes : String
  deriving DecidableEq

structure Group where
  id : String
  externalID : Option String
  displayName : String
  members : List String
  createdAt : Time
  updatedAt : Time
  deriving DecidableEq

structure UserFilter where
  userName : String
  externalID : String

structure GroupFilter where
  displayName : String
  externalID : String

structure Change where
  before : User
  after : User
  deriving DecidableEq

structure GroupChange where
  before : Group
  after : Group

/-- The caller of a mutation, as the auth middleware resolved it. -/
structure AuditRecord where
  actorToken : String
  actorIP : String
  tenantID : String
  deriving DecidableEq

inductive Action where
  | create | replace | deactivate | delete
  deriving DecidableEq

inductive Resource where
  | user | group
  deriving DecidableEq

inductive Outcome where
  | success | denied
  deriving DecidableEq

/-- The before or after image of an audit entry. -/
inductive Image where
  | user (u : User)
  | group (g : Group)
  deriving DecidableEq

inductive EventType where
  | userCreated | userReplaced | userDeactivated
  | groupCreated | groupReplaced | groupDeleted
  deriving DecidableEq

structure ChangeEvent where
  type : EventType
  occurredAt : Time
  userID : String
  before : Option User
  after : User
  deriving DecidableEq

structure GroupChangeEvent where
  type : EventType
  occurredAt : Time
  groupID : String
  before : Option Group
  after : Option Group
  deriving DecidableEq

inductive Payload where
  | user (e : ChangeEvent)
  | group (e : GroupChangeEvent)
  deriving DecidableEq

/-! ### Rows -/

structure UserRow where
  tenantID : String
  id : Uuid
  userName : String
  externalID : Option String
  givenName : Option String
  familyName : Option String
  email : Option String
  active : Bool
  createdAt : Time
  updatedAt : Time
  extendedAttributes : Option String
  deriving DecidableEq

structure GroupRow where
  tenantID : String
  id : Uuid
  externalID : Option String
  displayName : String
  createdAt : Time
  updatedAt : Time
  deriving DecidableEq

structure MemberRow where
  groupID : Uuid
  userID : Uuid
  tenantID : String
  addedAt : Time
  deriving DecidableEq

def MemberRow.key (m : MemberRow) : Uuid × Uuid := (m.groupID, m.userID)

structure AuditRow where
  id : Nat
  loggedAt : Time
  tenantID : String
  resourceType : Resource
  actorToken : String
  actorIP : Option String
  action : Action
  result : Outcome
  detail : Option String
  targetID : Option Uuid
  before : Option Image
  after : Option Image
  deriving DecidableEq

inductive DeliveryStatus where
  | pending | delivered | deadLetter
  deriving DecidableEq

structure DeliveryRow where
  id : Nat
  createdAt : Time
  tenantID : String
  eventType : EventType
  targetID : Option Uuid
  payload : Payload
  status : DeliveryStatus
  attempts : Nat
  nextAttemptAt : Time
  lastError : Option String
  deliveredAt : Option Time
  deriving DecidableEq

structure TokenRow where
  keyID : String
  tenantID : String
  secretHash : List UInt8
  label : String
  createdAt : Time
  createdBy : Option String
  lastUsedAt : Option Time
  expiresAt : Option Time
  revokedAt : Option Time
  deriving DecidableEq

/-- A console credential belongs to no tenant. -/
structure ConsoleTokenRow where
  keyID : String
  secretHash : List UInt8
  label : String
  createdAt : Time
  createdBy : Option String
  lastUsedAt : Option Time
  expiresAt : Option Time
  revokedAt : Option Time
  deriving DecidableEq

structure AttributeRow where
  tenantID : String
  name : String
  type : String
  createdAt : Time
  createdBy : Option String
  deriving DecidableEq

def AttributeRow.key (a : AttributeRow) : String × String := (a.tenantID, a.name)

inductive AdminAction where
  | tokenIssue | tokenRevoke | attributeRegister | attributeUnregister | webhookReplay
  | consoleTokenIssue | consoleTokenRevoke
  deriving DecidableEq

structure AdminAuditRow where
  id : Nat
  loggedAt : Time
  tenantID : Option String
  actor : String
  action : AdminAction
  targetID : String
  detail : Option String
  deriving DecidableEq

/-! ### Tables -/

open Relational (Table)

/-- The tables with a natural or generated key are keyed; `auditLog`, `deliveries` and
`adminAuditLog` are in the order their rows were committed. -/
structure Db where
  users : Table Uuid UserRow UserRow.id
  groups : Table Uuid GroupRow GroupRow.id
  members : Table (Uuid × Uuid) MemberRow MemberRow.key
  auditLog : List AuditRow
  deliveries : List DeliveryRow
  tokens : Table String TokenRow TokenRow.keyID
  consoleTokens : Table String ConsoleTokenRow ConsoleTokenRow.keyID
  attributes : Table (String × String) AttributeRow AttributeRow.key
  adminAuditLog : List AdminAuditRow

def Db.empty : Db :=
  ⟨.empty, .empty, .empty, [], [], .empty, .empty, .empty, []⟩

def scanUser (r : UserRow) : User where
  id := r.id.text
  userName := r.userName
  externalID := r.externalID
  givenName := r.givenName
  familyName := r.familyName
  email := r.email
  active := r.active
  createdAt := r.createdAt
  updatedAt := r.updatedAt
  extendedAttributes := r.extendedAttributes.getD ""

def scanGroup (r : GroupRow) : Group where
  id := r.id.text
  externalID := r.externalID
  displayName := r.displayName
  members := []
  createdAt := r.createdAt
  updatedAt := r.updatedAt

@[simp] theorem scanUser_id (r : UserRow) : (scanUser r).id = r.id.text := rfl
@[simp] theorem scanUser_active (r : UserRow) : (scanUser r).active = r.active := rfl
@[simp] theorem scanUser_updatedAt (r : UserRow) : (scanUser r).updatedAt = r.updatedAt := rfl
@[simp] theorem scanGroup_id (r : GroupRow) : (scanGroup r).id = r.id.text := rfl
@[simp] theorem scanGroup_updatedAt (r : GroupRow) : (scanGroup r).updatedAt = r.updatedAt := rfl

/-- Empty strings are stored as NULL. -/
def nullable (s : String) : Option String := if s = "" then none else some s

def memberBefore (a b : MemberRow) : Bool :=
  a.addedAt < b.addedAt || (a.addedAt == b.addedAt && a.userID.ble b.userID)

/-- `SELECT user_id FROM group_members WHERE group_id = k ORDER BY added_at, user_id`. -/
def Db.membersOf (db : Db) (k : Uuid) : List String :=
  ((db.members.rows.filter fun m => m.groupID = k).insertionSort fun a b => memberBefore a b).map
    fun m => m.userID.text

/-- A stored user as the audit log and the events show it. -/
def Db.userImage (db : Db) (k : Uuid) : Option User := (db.users.find? k).map scanUser

/-- A stored group with its members. -/
def Db.groupImage (db : Db) (k : Uuid) : Option Group :=
  (db.groups.find? k).map fun r => { scanGroup r with members := db.membersOf k }

/-! ### Row versions -/

inductive Write where
  | putUser (r : UserRow)
  | putGroup (r : GroupRow)
  | dropGroup (k : Uuid)
  | putMember (m : MemberRow)
  | dropMember (m : MemberRow)
  | addAudit (a : AuditRow)
  | addDelivery (d : DeliveryRow)
  | putDelivery (d : DeliveryRow)
  | putToken (r : TokenRow)
  | putConsoleToken (r : ConsoleTokenRow)
  | putAttribute (r : AttributeRow)
  | dropAttribute (k : String × String)
  | addAdminAudit (a : AdminAuditRow)

/-- Dropping a group cascades to its members. -/
def Write.apply (db : Db) : Write → Db
  | .putUser r => { db with users := db.users.put r }
  | .putGroup r => { db with groups := db.groups.put r }
  | .dropGroup k => { db with
      groups := db.groups.remove k
      members := db.members.filter fun m => m.groupID ≠ k }
  | .putMember m => { db with members := db.members.put m }
  | .dropMember m => { db with members := db.members.remove m.key }
  | .addAudit a => { db with auditLog := db.auditLog ++ [a] }
  | .addDelivery d => { db with deliveries := db.deliveries ++ [d] }
  | .putDelivery d => { db with
      deliveries := db.deliveries.map fun x => if x.id = d.id then d else x }
  | .putToken r => { db with tokens := db.tokens.put r }
  | .putConsoleToken r => { db with consoleTokens := db.consoleTokens.put r }
  | .putAttribute r => { db with attributes := db.attributes.put r }
  | .dropAttribute k => { db with attributes := db.attributes.remove k }
  | .addAdminAudit a => { db with adminAuditLog := db.adminAuditLog ++ [a] }

/-- A row, or a value of a unique index. -/
inductive Key where
  | user (k : Uuid)
  | userName (tenantID name : String)
  | userExternalID (tenantID externalID : String)
  | group (k : Uuid)
  | groupName (tenantID name : String)
  | groupExternalID (tenantID externalID : String)
  | delivery (id : Nat)
  | token (keyID : String)
  | consoleToken (keyID : String)
  | attribute (k : String × String)
  deriving DecidableEq

/-- What a write locks until its transaction ends. The rows of `group_members` belong to
their group: no statement writes one without having written the group's row before. -/
def Write.keys (pg : Postgres) : Write → List Key
  | .putUser r => .user r.id :: .userName r.tenantID (pg.lower r.userName) ::
      (r.externalID.map (.userExternalID r.tenantID)).toList
  | .putGroup r => .group r.id :: .groupName r.tenantID (pg.lower r.displayName) ::
      (r.externalID.map (.groupExternalID r.tenantID)).toList
  | .dropGroup k => [.group k]
  | .putMember m | .dropMember m => [.group m.groupID]
  | .addAudit _ | .addDelivery _ | .addAdminAudit _ => []
  | .putDelivery d => [.delivery d.id]
  | .putToken r => [.token r.keyID]
  | .putConsoleToken r => [.consoleToken r.keyID]
  | .putAttribute r => [.attribute r.key]
  | .dropAttribute k => [.attribute k]

end Scimage.Store
