import Scimage.Store.Schema
import Scimage.Webhook.Signer

/-! Who a request is authenticated as, and where it is routed to. -/
namespace Scimage.Scim

open Store (TokenRow Uuid Time)
open Webhook (bytes bytes_inj)

abbrev Bytes := List UInt8

def slash : UInt8 := 47

def percent : UInt8 := 37

def underscore : UInt8 := 95

/-- What of a request the routes and the tokens read. `authorization` is empty without the header. -/
structure WebRequest where
  method : String
  escapedPath : Bytes
  authorization : Bytes

/-! ### Paths -/

/-- `strings.CutPrefix`. -/
def cutPrefix : Bytes → Bytes → Option Bytes
  | [], rest => some rest
  | p :: ps, b :: bs => if p = b then cutPrefix ps bs else none
  | _ :: _, [] => none

def hexByte (b : UInt8) : Option (Fin 16) := Uuid.hexValue (Char.ofNat b.toNat)

/-- `url.PathUnescape`. -/
def pathUnescape : Bytes → Option Bytes
  | [] => some []
  | b :: bs =>
    if b = percent then
      match bs with
      | x :: y :: bs =>
        match hexByte x, hexByte y with
        | some hi, some lo => (pathUnescape bs).map fun rest => UInt8.ofNat (16 * hi.val + lo.val) :: rest
        | _, _ => none
      | _ => none
    else (pathUnescape bs).map fun rest => b :: rest

def tenantIDFromPath (escapedPath : Bytes) : Bytes :=
  match cutPrefix (bytes "/scim/v2/") escapedPath with
  | none => []
  | some rest => (pathUnescape (rest.takeWhile (· ≠ slash))).getD []

/-! ### Tokens -/

/-- A letter in lower case, if it is one of ASCII. -/
def foldByte (b : UInt8) : UInt8 := if 65 ≤ b ∧ b ≤ 90 then b + 32 else b

/-- The scheme is compared without regard to case. -/
def bearerToken (authorization : Bytes) : Bytes :=
  let scheme := bytes "bearer "
  if authorization.length < scheme.length ∨ (authorization.take scheme.length).map foldByte ≠ scheme then []
  else authorization.drop scheme.length

/-- `scimage_<keyID>_<secret>`. -/
def parseToken (raw : Bytes) : Option (Bytes × Bytes) :=
  match cutPrefix (bytes "scimage_") raw with
  | none => none
  | some rest =>
    match rest.dropWhile (· ≠ underscore) with
    | [] => none
    | _ :: secret =>
      if rest.takeWhile (· ≠ underscore) = [] ∨ secret = [] then none
      else some (rest.takeWhile (· ≠ underscore), secret)

structure Identity where
  tenantID : String
  keyID : String

/-- `lookup` is what `GetTokenByKeyID` answers, and `none` where it fails. -/
def authenticate (sha256 : Bytes → Bytes) (now : Time) (lookup : Bytes → Option TokenRow)
    (r : WebRequest) : Option Identity := do
  let tenantID := tenantIDFromPath r.escapedPath
  let (keyID, secret) ← parseToken (bearerToken r.authorization)
  let tok ← lookup keyID
  if tok.revokedAt.isSome then none
  else if ∃ t ∈ tok.expiresAt, t ≤ now then none
  else if sha256 secret ≠ tok.secretHash then none
  else if bytes tok.tenantID ≠ tenantID then none
  else some ⟨tok.tenantID, tok.keyID⟩

/-! ### Routes -/

inductive Segment where
  | literal (s : String)
  | wildcard (name : String)

inductive Endpoint where
  | create | list | get | replace | patch | deactivate
  | createGroup | listGroups | getGroup | replaceGroup | patchGroup | deleteGroup
  | serviceProviderConfig | resourceTypes | schemas
  | methodNotAllowed | unknownResource
  deriving DecidableEq

structure Route where
  method : Option String
  segments : List Segment
  endpoint : Endpoint

/-- Every path of a tenant carries its id. -/
def tenantRoute (method : Option String) (rest : List Segment) (endpoint : Endpoint) : Route :=
  ⟨method, .literal "scim" :: .literal "v2" :: .wildcard "tenantID" :: rest, endpoint⟩

def usersPath : List Segment := [.literal "Users"]

def userPath : List Segment := [.literal "Users", .wildcard "id"]

def groupsPath : List Segment := [.literal "Groups"]

def groupPath : List Segment := [.literal "Groups", .wildcard "id"]

/-- The patterns with a method come before those without, which serve what is left. -/
def tenantRoutes : List Route :=
  [tenantRoute (some "POST") usersPath .create,
    tenantRoute (some "GET") usersPath .list,
    tenantRoute (some "GET") userPath .get,
    tenantRoute (some "PUT") userPath .replace,
    tenantRoute (some "PATCH") userPath .patch,
    tenantRoute (some "DELETE") userPath .deactivate,
    tenantRoute (some "POST") groupsPath .createGroup,
    tenantRoute (some "GET") groupsPath .listGroups,
    tenantRoute (some "GET") groupPath .getGroup,
    tenantRoute (some "PUT") groupPath .replaceGroup,
    tenantRoute (some "PATCH") groupPath .patchGroup,
    tenantRoute (some "DELETE") groupPath .deleteGroup,
    tenantRoute (some "GET") [.literal "ServiceProviderConfig"] .serviceProviderConfig,
    tenantRoute (some "GET") [.literal "ResourceTypes"] .resourceTypes,
    tenantRoute (some "GET") [.literal "Schemas"] .schemas,
    tenantRoute none usersPath .methodNotAllowed,
    tenantRoute none userPath .methodNotAllowed,
    tenantRoute none groupsPath .methodNotAllowed,
    tenantRoute none groupPath .methodNotAllowed]

/-! ### The mux -/

/-- The text between the slashes. -/
def splitPath : Bytes → List Bytes
  | [] => [[]]
  | b :: bs =>
    if b = slash then [] :: splitPath bs
    else
      match splitPath bs with
      | s :: ss => (b :: s) :: ss
      | [] => [[b]]

/-- Other paths are redirected to what they come to. -/
def isClean (path : Bytes) : Bool :=
  match splitPath path with
  | [] :: ss => ss.dropLast.all (· ≠ []) && ss.all fun s => s ≠ bytes "." && s ≠ bytes ".."
  | _ => false

/-- A `GET` pattern serves `HEAD` too. -/
def Route.serves (p : Route) (method : String) : Bool :=
  match p.method with
  | none => true
  | some m => m = method ∨ m = "GET" ∧ method = "HEAD"

/-- What a segment is compared and bound as; `unread` is what it is taken for when it is no escape. -/
def unescaped (unread : Bytes → Bytes) (s : Bytes) : Bytes := (pathUnescape s).getD (unread s)

/-- The values of the wildcards, when the segments match. -/
def bindPath (unread : Bytes → Bytes) : List Segment → List Bytes → Option (List (String × Bytes))
  | [], [] => some []
  | .literal l :: ps, s :: ss => if unescaped unread s = bytes l then bindPath unread ps ss else none
  | .wildcard name :: ps, s :: ss =>
    if unescaped unread s = [] then none
    else (bindPath unread ps ss).map fun values => (name, unescaped unread s) :: values
  | _, _ => none

def Route.match (unread : Bytes → Bytes) (p : Route) (r : WebRequest) : Option (List (String × Bytes)) :=
  if p.serves r.method then bindPath unread p.segments (splitPath r.escapedPath).tail else none

/-- `ServeMux`: the endpoint, and the values of its wildcards. -/
def mux (unread : Bytes → Bytes) (r : WebRequest) : Option (Endpoint × List (String × Bytes)) :=
  if isClean r.escapedPath then
    match tenantRoutes.findSome? fun p => (p.match unread r).map fun values => (p.endpoint, values) with
    | some served => some served
    | none => some (.unknownResource, [])
  else none

def pathValue (values : List (String × Bytes)) (name : String) : Bytes :=
  ((values.find? fun v => v.1 = name).map Prod.snd).getD []

/-! ### Both read the same tenant -/

variable {unread sha256 : Bytes → Bytes} {now : Time} {lookup : Bytes → Option TokenRow} {r : WebRequest}
  {values : List (String × Bytes)} {path rest : Bytes}

theorem cutPrefix_eq {ps bs : Bytes} (h : cutPrefix ps bs = some rest) : bs = ps ++ rest := by
  induction ps generalizing bs with
  | nil =>
    cases h
    rfl
  | cons p ps ih =>
    cases bs with
    | nil => cases h
    | cons b bs =>
      rw [cutPrefix] at h
      split_ifs at h with hp
      rw [hp, ih h, List.cons_append]

theorem splitPath_head (bs : Bytes) : ∃ ss, splitPath bs = bs.takeWhile (· ≠ slash) :: ss := by
  induction bs with
  | nil => exact ⟨[], rfl⟩
  | cons b bs ih =>
    obtain ⟨ss, hss⟩ := ih
    rw [splitPath, List.takeWhile_cons]
    by_cases hb : b = slash
    · exact ⟨splitPath bs, by simp [hb]⟩
    · exact ⟨ss, by simp [hb, hss]⟩

/-- The tenant's segment is the third, and the same for both. -/
theorem splitPath_tenant (h : cutPrefix (bytes "/scim/v2/") path = some rest) :
    ∃ ss, (splitPath path).tail = bytes "scim" :: bytes "v2" :: rest.takeWhile (· ≠ slash) :: ss := by
  have hprefix : bytes "/scim/v2/" = [47, 115, 99, 105, 109, 47, 118, 50, 47] := by rfl
  have hscim : bytes "scim" = [115, 99, 105, 109] := by rfl
  have hv2 : bytes "v2" = [118, 50] := by rfl
  obtain ⟨ss, hss⟩ := splitPath_head rest
  refine ⟨ss, ?_⟩
  rw [cutPrefix_eq h, hprefix, hscim, hv2]
  simp [splitPath, slash, hss]

theorem authenticate_some {id : Identity} (h : authenticate sha256 now lookup r = some id) :
    ∃ keyID tok, lookup keyID = some tok ∧ id = ⟨tok.tenantID, tok.keyID⟩ ∧
      bytes tok.tenantID = tenantIDFromPath r.escapedPath := by
  unfold authenticate at h
  simp only [Option.bind_eq_bind] at h
  obtain ⟨⟨keyID, secret⟩, -, h⟩ := Option.bind_eq_some_iff.mp h
  obtain ⟨tok, htok, h⟩ := Option.bind_eq_some_iff.mp h
  split_ifs at h with hrevoked hexpired hsecret htenant
  cases h
  exact ⟨keyID, tok, htok, rfl, not_not.mp htenant⟩

/-- A path with a tenant is one that begins in the only way that `tenantIDFromPath` knows. -/
theorem tenantIDFromPath_ne (h : tenantIDFromPath path ≠ []) :
    ∃ rest tenant, cutPrefix (bytes "/scim/v2/") path = some rest ∧
      pathUnescape (rest.takeWhile (· ≠ slash)) = some tenant ∧ tenantIDFromPath path = tenant := by
  rw [tenantIDFromPath] at h ⊢
  cases hcut : cutPrefix (bytes "/scim/v2/") path with
  | none =>
    rw [hcut] at h
    exact (h rfl).elim
  | some rest =>
    rw [hcut] at h
    dsimp only at h ⊢
    cases htenant : pathUnescape (rest.takeWhile (· ≠ slash)) with
    | none =>
      rw [htenant] at h
      exact (h rfl).elim
    | some tenant => exact ⟨rest, tenant, rfl, htenant, rfl⟩

theorem mux_tenant {e : Endpoint} (h : mux unread r = some (e, values)) (he : e ≠ .unknownResource) :
    ∃ ps, bindPath unread (.literal "scim" :: .literal "v2" :: .wildcard "tenantID" :: ps)
      (splitPath r.escapedPath).tail = some values := by
  unfold mux at h
  split_ifs at h
  cases hfound : tenantRoutes.findSome? fun p =>
      (p.match unread r).map fun values => (p.endpoint, values) with
  | none =>
    rw [hfound] at h
    cases h
    exact (he rfl).elim
  | some served =>
    rw [hfound] at h
    cases h
    obtain ⟨p, hp, hmatch⟩ := List.exists_of_findSome?_eq_some hfound
    obtain ⟨values', hvalues, heq⟩ := Option.map_eq_some_iff.mp hmatch
    cases heq
    have hshape : ∃ method ps endpoint, p = tenantRoute method ps endpoint := by
      simp only [tenantRoutes, List.mem_cons, List.not_mem_nil, or_false] at hp
      rcases hp with rfl | rfl | rfl | rfl | rfl | rfl | rfl | rfl | rfl | rfl | rfl | rfl | rfl | rfl |
        rfl | rfl | rfl | rfl | rfl <;> exact ⟨_, _, _, rfl⟩
    obtain ⟨method, ps, endpoint, rfl⟩ := hshape
    rw [Route.match] at hvalues
    split_ifs at hvalues
    exact ⟨ps, hvalues⟩

theorem bindPath_tenant {ps : List Segment} {a b s : Bytes} {ss : List Bytes}
    (h : bindPath unread (.literal "scim" :: .literal "v2" :: .wildcard "tenantID" :: ps) (a :: b :: s :: ss) =
      some values) : pathValue values "tenantID" = unescaped unread s := by
  rw [bindPath] at h
  split_ifs at h
  rw [bindPath] at h
  split_ifs at h
  rw [bindPath] at h
  split_ifs at h
  obtain ⟨values', -, rfl⟩ := Option.map_eq_some_iff.mp h
  simp [pathValue]

/-- Whoever is let in is let in to the tenant of the token, which is the one that the mux sees. -/
theorem authenticated_tenant_is_routed (unread sha256 : Bytes → Bytes) (now : Time)
    (lookup : Bytes → Option TokenRow) (hnamed : ∀ keyID tok, lookup keyID = some tok → tok.tenantID ≠ "")
    (r : WebRequest) {e : Endpoint} (hroute : mux unread r = some (e, values))
    (he : e ≠ .unknownResource) {id : Identity} (hauth : authenticate sha256 now lookup r = some id) :
    tenantIDFromPath r.escapedPath = pathValue values "tenantID" ∧
      pathValue values "tenantID" = bytes id.tenantID ∧
      ∃ keyID tok, lookup keyID = some tok ∧ id = ⟨tok.tenantID, tok.keyID⟩ := by
  obtain ⟨keyID, tok, htok, rfl, htenant⟩ := authenticate_some hauth
  have hne : tenantIDFromPath r.escapedPath ≠ [] := by
    rw [← htenant]
    intro hempty
    have hnil : bytes "" = [] := by rfl
    exact hnamed keyID tok htok (bytes_inj.mp (hempty.trans hnil.symm))
  obtain ⟨rest, tenant, hcut, hread, hfrom⟩ := tenantIDFromPath_ne hne
  obtain ⟨ss, hsegments⟩ := splitPath_tenant hcut
  obtain ⟨ps, hbind⟩ := mux_tenant hroute he
  rw [hsegments] at hbind
  have hvalue : pathValue values "tenantID" = tenant := by
    rw [bindPath_tenant hbind, unescaped, hread]
    rfl
  exact ⟨hfrom.trans hvalue.symm, by rw [hvalue, ← hfrom, htenant], keyID, tok, htok, rfl⟩

def acmeToken : TokenRow := ⟨"key", "a/b", [115], "", 0, none, none, none, none⟩

/-- A tenant with a slash in its id, and a letter of the path escaped. -/
def acmeRequest : WebRequest :=
  ⟨"GET", bytes "/scim/v2/%61%2Fb/Users/7", bytes "Bearer scimage_key_s"⟩

theorem authenticated_tenant_is_routed_acme :
    tenantIDFromPath acmeRequest.escapedPath = bytes "a/b" := by
  have hroute : mux id acmeRequest = some (.get, [("tenantID", bytes "a/b"), ("id", bytes "7")]) := by
    rfl
  have hauth : authenticate id 5 (fun k => if k = bytes "key" then some acmeToken else none) acmeRequest =
      some ⟨"a/b", "key"⟩ := by
    rfl
  have hrouted := authenticated_tenant_is_routed id id 5 _
    (fun keyID tok h => by
      split_ifs at h
      cases h
      decide) acmeRequest hroute (by decide) hauth
  exact hrouted.1.trans hrouted.2.1

end Scimage.Scim
