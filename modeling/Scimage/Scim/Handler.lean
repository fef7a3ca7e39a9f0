import Scimage.Scim.Extended
import Scimage.Store.User
import Scimage.Store.Group

/-! The handlers of the SCIM endpoints: requests in, calls of the store, responses out. -/
namespace Scimage.Scim

open Store (trimSpace Call StoreError AuditRecord)
open Json (Value Text Map Ranking readMap quote)

/-! ### Requests and responses -/

/-- The body as the endpoint's way of reading it came out. -/
inductive Received where
  | tooLarge
  | malformed
  | value (v : Value)

/-- The order of every loop over a map that a request runs through. -/
structure Orders where
  capture : Ranking
  split : Nat → Ranking
  apply : Nat → Ranking
  shape : Ranking

/-- `caller` is the identity that `requireToken` put into the context, and the client's IP. -/
structure Request where
  tenantID : String
  id : String
  root : String
  excludedAttributes : String
  caller : AuditRecord
  body : Received
  orders : Orders

/-- The detail of an error, which for a PATCH is the text of its error. -/
inductive Detail where
  | text (s : String)
  | patch (e : PatchError)

inductive Body where
  | empty
  | resource (v : Value)
  | error (scimType : String) (detail : Detail)

structure Response where
  status : Nat
  location : String
  body : Body

def writeJSON (status : Nat) (v : Value) : Response := ⟨status, "", .resource v⟩

def writeError (status : Nat) (scimType detail : String) : Response :=
  ⟨status, "", .error scimType (.text detail)⟩

def noContent : Response := ⟨204, "", .empty⟩

def serverError : Response := writeError 500 "" "internal server error"

def notFound : Response := writeError 404 "" "user not found"

def notFoundGroup : Response := writeError 404 "" "group not found"

def duplicateUserName : Response := writeError 409 "uniqueness" "userName is already in use"

def notValidJSON : Response := writeError 400 "invalidSyntax" "request body is not valid JSON"

def bodyTooLarge : Response := writeError 413 "" "request body is too large"

def Refusal.detail : Refusal → Detail
  | .notJson => .text "request body is not valid JSON"
  | .invalid detail => .text detail
  | .mutability => .text "id in the body does not match the request path"
  | .patch e => .patch e
  | .extended => .text "an extended attribute value is not valid JSON"

def Refusal.response (e : Refusal) : Response := ⟨400, "", .error e.scimType e.detail⟩

/-- `writeGroupError`. -/
def groupError : StoreError → Response
  | .groupNotFound => notFoundGroup
  | .duplicateGroupName => writeError 409 "uniqueness" "displayName is already in use"
  | .invalidMember => writeError 400 "invalidValue" "members references an unknown or foreign user"
  | _ => serverError

def createError : StoreError → Response
  | .duplicateUserName => duplicateUserName
  | _ => serverError

def lookupError : StoreError → Response
  | .notFound => notFound
  | _ => serverError

def updateError : StoreError → Response
  | .notFound => notFound
  | .duplicateUserName => duplicateUserName
  | _ => serverError

def Request.baseURL (r : Request) : String := r.root ++ "/scim/v2/" ++ r.tenantID

/-! ### Shapes -/

/-- What `addSchemaURN` makes of the raw `schemas`. -/
def addURN (raw : Option Value) (urn : String) : Value :=
  let schemas := ((raw.bind (readSlice readString "" .nil)).getD .nil).items
  .arr ((schemas ++ [urn]).map string)

def addSchemaURN (core : Map) (urn : String) : Map :=
  let raw := (core.find? "schemas").map Prod.snd
  if urn ∈ ((raw.bind (readSlice readString "" .nil)).getD .nil).items then core
  else core.put ("schemas", addURN raw urn)

/-- A core attribute wins over an extended one of its name. -/
def mergeExtended (core : Map) (e : String × Value) : Map :=
  if (core.find? e.1).isSome then core
  else if e.1.startsWith "urn:" then addSchemaURN (core.put e) e.1
  else core.put e

def shapeUser (T : TimeText) (ω : Ranking) (u : User) (extended : String) : Value :=
  let plain := Value.obj (u.members T)
  if extended = "" then plain
  else
    match (Json.read extended.toList).bind readMap with
    | none => plain
    | some ext => Map.json ((ext.range ω).foldl mergeExtended (Map.of (u.members T)))

/-- An empty list of members is written too, unless they were asked to be left out. -/
def shapeGroup (T : TimeText) (g : Group) (includeMembers : Bool) : Value :=
  let m := Map.of (g.jsonMembers T)
  if includeMembers then
    Map.json (if (m.find? "members").isSome then m else m.put ("members", .arr []))
  else Map.json (m.remove "members")

def membersExcluded (r : Request) : Bool :=
  (r.excludedAttributes.splitOn ",").any fun field => names "members" (trimSpace field)

/-! ### Handlers -/

structure Handler where
  unicode : Unicode
  times : TimeText
  store : Store
  extended : Bool

/-- What a handler asks of the store, and the response it is refused with. -/
abbrev Handling := ExceptT Response (Txn.Prog Store.Stmt.Rows Store.DbError)

def refusedWith (reply : StoreError → Response) (c : Call α) : Handling α :=
  ExceptT.mk (c.run >>= fun r => pure (r.mapError reply))

def checked (x : Except Refusal α) : Except Response α := x.mapError Refusal.response

/-- `ReadAll` and `Unmarshal`, or the streaming decoder: both answer 413 for a large body. -/
def received (r : Request) : Except Response Value :=
  match r.body with
  | .value v => .ok v
  | .malformed => .error notValidJSON
  | .tooLarge => .error bodyTooLarge

/-- A PATCH does not tell a large body from a malformed one. -/
def receivedPatch (r : Request) : Except Response PatchOp :=
  match r.body with
  | .value v =>
    match readPatch v with
    | some p => .ok p
    | none => .error notValidJSON
  | .malformed | .tooLarge => .error notValidJSON

def decodeGroup (T : TimeText) (body : Value) : Except Refusal Group :=
  match readGroup T body with
  | none => .error .notJson
  | some g => if validateGroup g ≠ "" then .error (.invalid (validateGroup g)) else .ok g

/-- The operations with the orders in which their objects are gone over. -/
def scheduled (orders : Orders) (ops : List Operation) : List Scheduled :=
  ops.zipIdx.map fun o => ⟨o.1, orders.split o.2, orders.apply o.2⟩

def applied (orders : Orders) (ops : List Operation) : List (Operation × Ranking) :=
  ops.zipIdx.map fun o => (o.1, orders.apply o.2)

/-- The body may not name another resource than the path does. -/
def sameID (r : Request) (id : String) : Except Response Unit :=
  if id ≠ "" ∧ id ≠ r.id then .error (Refusal.response .mutability) else .ok ()

namespace Handler

variable (h : Handler)

def registered (r : Request) : Handling Registry := do
  if h.extended then
    let attrs ← refusedWith (fun _ => serverError) (Store.listAttributes r.tenantID)
    return registeredAttributes h.unicode attrs
  else return .empty

def userResource (r : Request) (su : Store.User) : Value :=
  shapeUser h.times r.orders.shape (fromStoreUser su r.baseURL) su.extendedAttributes

def groupResource (r : Request) (sg : Store.Group) : Value :=
  shapeGroup h.times (fromStoreGroup sg r.baseURL) !membersExcluded r

def decodedUser (r : Request) : Except Response (User × Map) := do
  let v ← received r
  checked (decodeUser h.unicode h.times v)

def decodedGroup (r : Request) : Except Response Group := do
  let v ← received r
  checked (decodeGroup h.times v)

def userRow (r : Request) (registry : Registry) (u : User) (keys : Map) : Store.User :=
  storeUserOf h.unicode r.orders.capture registry u keys

/-- What a PATCH of a user comes to. -/
def patchedUser (r : Request) (registry : Registry) (existing : Store.User) (p : PatchOp) :
    Except Response Store.User :=
  checked (patchUser h.unicode registry existing r.baseURL (scheduled r.orders p.operations.items))

/-- What a PATCH of a group comes to. -/
def patchedGroup (r : Request) (existing : Store.Group) (p : PatchOp) :
    Except Response Store.Group :=
  match applyGroupPatch h.unicode (fromStoreGroup existing r.baseURL)
      (applied r.orders p.operations.items) with
  | .error e => .error (Refusal.response (.patch e))
  | .ok g =>
    if validateGroup g ≠ "" then .error (Refusal.response (.invalid (validateGroup g)))
    else .ok (toStoreGroup g)

def create (r : Request) : Handling Response := do
  let (u, keys) ← ofExcept (h.decodedUser r)
  let registry ← h.registered r
  let created ← refusedWith createError
    (h.store.createUser r.tenantID (h.userRow r registry u keys) r.caller)
  return ⟨201, r.baseURL ++ "/Users/" ++ created.id, .resource (h.userResource r created)⟩

def get (r : Request) : Handling Response := do
  let su ← refusedWith lookupError (Store.getUser r.tenantID r.id)
  return writeJSON 200 (h.userResource r su)

def replace (r : Request) : Handling Response := do
  let (u, keys) ← ofExcept (h.decodedUser r)
  ofExcept (sameID r u.id)
  let registry ← h.registered r
  let changed ← refusedWith updateError
    (h.store.updateUser r.tenantID r.id (h.userRow r registry u keys) r.caller)
  return writeJSON 200 (h.userResource r changed.after)

def patch (r : Request) : Handling Response := do
  let p ← ofExcept (receivedPatch r)
  let existing ← refusedWith lookupError (Store.getUser r.tenantID r.id)
  let registry ← h.registered r
  let su ← ofExcept (h.patchedUser r registry existing p)
  let changed ← refusedWith updateError (h.store.updateUser r.tenantID r.id su r.caller)
  return writeJSON 200 (h.userResource r changed.after)

/-- The row survives, inactive. -/
def deactivate (r : Request) : Handling Response := do
  let _ ← refusedWith lookupError (h.store.deactivateUser r.tenantID r.id r.caller)
  return noContent

def createGroup (r : Request) : Handling Response := do
  let g ← ofExcept (h.decodedGroup r)
  let created ← refusedWith groupError (h.store.createGroup r.tenantID (toStoreGroup g) r.caller)
  return ⟨201, r.baseURL ++ "/Groups/" ++ created.id, .resource (h.groupResource r created)⟩

def getGroup (r : Request) : Handling Response := do
  let sg ← refusedWith groupError (Store.getGroup r.tenantID r.id)
  return writeJSON 200 (h.groupResource r sg)

def replaceGroup (r : Request) : Handling Response := do
  let g ← ofExcept (h.decodedGroup r)
  ofExcept (sameID r g.id)
  let changed ← refusedWith groupError
    (h.store.updateGroup r.tenantID r.id (toStoreGroup g) r.caller)
  return writeJSON 200 (h.groupResource r changed.after)

def patchGroup (r : Request) : Handling Response := do
  let p ← ofExcept (receivedPatch r)
  let existing ← refusedWith groupError (Store.getGroup r.tenantID r.id)
  let sg ← ofExcept (h.patchedGroup r existing p)
  let changed ← refusedWith groupError (h.store.updateGroup r.tenantID r.id sg r.caller)
  return writeJSON 200 (h.groupResource r changed.after)

def deleteGroup (r : Request) : Handling Response := do
  let _ ← refusedWith groupError (h.store.deleteGroup r.tenantID r.id r.caller)
  return noContent

end Handler

/-! ### The mutating endpoints as one family -/

inductive Method where
  | post | put | patch | delete
  deriving DecidableEq

/-- The action under which the changes of an endpoint are recorded. -/
def Method.action : Method → Store.Resource → Store.Action
  | .post, _ => .create
  | .put, _ | .patch, _ => .replace
  | .delete, .user => .deactivate
  | .delete, .group => .delete

def Handler.mutate (h : Handler) (r : Request) : Store.Resource → Method → Handling Response
  | .user, .post => h.create r
  | .user, .put => h.replace r
  | .user, .patch => h.patch r
  | .user, .delete => h.deactivate r
  | .group, .post => h.createGroup r
  | .group, .put => h.replaceGroup r
  | .group, .patch => h.patchGroup r
  | .group, .delete => h.deleteGroup r

end Scimage.Scim
