import Scimage.Scim.Auth
import Scimage.Scim.Bodies
import Scimage.Scim.Filter

/-! The handler chain: a request is authenticated, throttled and routed to its endpoint. -/
namespace Scimage.Scim

open Store (AttributeRow TokenRow)
open Webhook (bytes)
open Json (Value quote)

/-- A request as it comes in, with the root of the URLs that are shown for it. -/
structure Incoming where
  web : WebRequest
  query : ListQuery
  excludedAttributes : String
  root : String
  clientIP : String
  orders : Orders
  body : Bytes

/-- The text of a part of the path, or of a key. Bytes that are no text are not found: the database
refuses them, which is one of its failures. -/
def textOf (b : Bytes) : String := String.ofList (Utf8.decode 0 b)

/-! ### Discovery -/

/-- The documents about the server, given the URL of the tenant. -/
structure Documents where
  serviceProviderConfig : String → Value
  resourceTypes : String → Value
  schemas : String → List AttributeRow → Value

def integer (n : Int) : Value :=
  match Json.number? (Decimal.format n).reverse with
  | some n => .num n
  | none => .null

def listSchema := "urn:ietf:params:scim:api:messages:2.0:ListResponse"

def Page.json (p : Page) : Value :=
  .obj [(quote "schemas", .arr [string listSchema]), (quote "totalResults", integer p.totalResults),
    (quote "itemsPerPage", integer p.itemsPerPage), (quote "startIndex", integer p.startIndex),
    (quote "Resources", .arr p.resources)]

/-! ### Authentication -/

/-- `unread` is what the mux takes a segment for that is no escape, `allows` what the limiter answers, and
`redirect` the mux's answer to a path that is not clean. -/
structure Chain where
  handler : Handler
  documents : Documents
  sha256 : Bytes → Bytes
  unread : Bytes → Bytes
  allows : Identity → Bool
  redirect : WebRequest → Response

def unauthorized : Response := writeError 401 "" "invalid or missing bearer token"

def tooManyRequests : Response := writeError 429 "tooMany" "rate limit exceeded"

/-- A call whose failure is logged and swallowed. -/
def tried (c : Store.Call α) : Handling (Option α) := ExceptT.mk (c.run >>= fun x => pure (.ok x.toOption))

def tokenOf (authorization : Bytes) : Handling (Option TokenRow) :=
  match parseToken (bearerToken authorization) with
  | none => return none
  | some (keyID, _) =>
    if bytes (textOf keyID) = keyID then tried (Store.getTokenByKeyID (textOf keyID)) else return none

namespace Chain

variable (s : Chain)

/-- `authenticate`, with the token as the store has it and the clock of the process. -/
def identify (r : WebRequest) : Handling (Option Identity) := do
  let tok ← tokenOf r.authorization
  let now ← (Txn.Prog.ask .now : Handling Txn.Time)
  return authenticate s.sha256 now (fun _ => tok) r

/-- `TouchToken` is best-effort: its failure does not refuse a caller who has been let in. -/
def letIn (next : Identity → Handling Response) (id : Identity) : Handling Response := do
  let _ ← tried (Store.touchToken id.keyID)
  next id

def requireToken (next : Identity → Handling Response) (r : WebRequest) : Handling Response := do
  match ← s.identify r with
  | none => return unauthorized
  | some id => letIn next id

def throttle (next : Identity → Handling Response) (id : Identity) : Handling Response :=
  if s.allows id then next id else return tooManyRequests

end Chain

/-! ### Endpoints -/

/-- A request without its body, which each endpoint reads in its own way. -/
def Incoming.request (r : Incoming) (id : Identity) (values : List (String × Bytes)) : Request :=
  ⟨textOf (pathValue values "tenantID"), textOf (pathValue values "id"), r.root, r.excludedAttributes,
    ⟨id.keyID, r.clientIP, id.tenantID⟩, .malformed, r.orders⟩

/-- The endpoints that read a body. -/
def Endpoint.reads : Endpoint → Option (Store.Resource × Method)
  | .create => some (.user, .post)
  | .replace => some (.user, .put)
  | .patch => some (.user, .patch)
  | .createGroup => some (.group, .post)
  | .replaceGroup => some (.group, .put)
  | .patchGroup => some (.group, .patch)
  | .list | .get | .deactivate | .listGroups | .getGroup | .deleteGroup => none
  | .serviceProviderConfig | .resourceTypes | .schemas => none
  | .methodNotAllowed | .unknownResource => none

namespace Chain

variable (s : Chain)

def schemas (req : Request) : Handling Response := do
  let attrs ←
    if s.handler.extended then refusedWith (fun _ => serverError) (Store.listAttributes req.tenantID)
    else pure []
  return writeJSON 200 (s.documents.schemas req.baseURL attrs)

def endpoint (e : Endpoint) (req : Request) (r : Incoming) : Handling Response :=
  match e with
  | .create => s.handler.create (req.withBody .user .post r.body)
  | .list => do return writeJSON 200 (← s.handler.list req r.query).json
  | .get => s.handler.get req
  | .replace => s.handler.replace (req.withBody .user .put r.body)
  | .patch => s.handler.patch (req.withBody .user .patch r.body)
  | .deactivate => s.handler.deactivate req
  | .createGroup => s.handler.createGroup (req.withBody .group .post r.body)
  | .listGroups => do return writeJSON 200 (← s.handler.listGroups req r.query).json
  | .getGroup => s.handler.getGroup req
  | .replaceGroup => s.handler.replaceGroup (req.withBody .group .put r.body)
  | .patchGroup => s.handler.patchGroup (req.withBody .group .patch r.body)
  | .deleteGroup => s.handler.deleteGroup req
  | .serviceProviderConfig => return writeJSON 200 (s.documents.serviceProviderConfig req.baseURL)
  | .resourceTypes => return writeJSON 200 (s.documents.resourceTypes req.baseURL)
  | .schemas => s.schemas req
  | .methodNotAllowed => return writeError 405 "" (r.web.method ++ " is not supported on this resource")
  | .unknownResource => return writeError 404 "" "unknown resource"

/-- `mux.ServeHTTP`. -/
def route (r : Incoming) (id : Identity) : Handling Response :=
  match mux s.unread r.web with
  | none => return s.redirect r.web
  | some (e, values) => s.endpoint e (r.request id values) r

end Chain

theorem endpoint_reads {s : Chain} {e : Endpoint} {resource : Store.Resource} {m : Method}
    (h : e.reads = some (resource, m)) (req : Request) (r : Incoming) :
    s.endpoint e req r = s.handler.mutate (req.withBody resource m r.body) resource m := by
  cases e <;> cases h <;> rfl

/-- The other endpoints answer alike whatever the body is. -/
theorem endpoint_ignores {s : Chain} {e : Endpoint} (h : e.reads = none) (req : Request) (r : Incoming)
    (body : Bytes) : s.endpoint e req { r with body := body } = s.endpoint e req r := by
  cases e <;> first | rfl | cases h

theorem reads_method {e : Endpoint} {resource : Store.Resource} {m : Method}
    (h : e.reads = some (resource, m)) : m ≠ .delete := by
  cases e <;> cases h <;> decide

end Scimage.Scim
