import Scimage.Lib.JsonDepth
import Scimage.Lib.Lanes
import Scimage.Scim.GroupPatch

/-! Extended attributes: what of a user is kept beside the columns, and the PATCH of both. -/
namespace Scimage.Scim

open Store (trimSpace)
open Relational (Table)
open Json (Value Text Map Ranking readMap)

/-! ### The registry -/

/-- From the lowered name to the name as it was registered. -/
abbrev Registry := Table String (String × String) Prod.fst

/-- The tenant's attributes as a registry. -/
def registeredAttributes (U : Unicode) (attrs : List Store.AttributeRow) : Registry :=
  attrs.foldl (fun m a => m.put (U.lower a.name, a.name)) .empty

def Registry.canonical (U : Unicode) (registered : Registry) (name : String) : Option String :=
  (registered.find? (U.lower name)).map Prod.snd

/-! ### The blob -/

def marshal (m : Map) : String := String.ofList m.json.write

/-- An object; the empty text is the NULL column. -/
def readBlob (raw : String) : Option Map :=
  if raw = "" then some .empty
  else match Json.read raw.toList with
    | some (.obj ms) => some (.of ms)
    | _ => none

def capture (U : Unicode) (registered : Registry) (ext : Map) (e : String × Value) : Map :=
  match registered.canonical U e.1 with
  | some canon => ext.put (canon, e.2)
  | none => ext

/-- The registered keys of a body, under their registered names. -/
def captureExtended (U : Unicode) (ω : Ranking) (body : Map) (registered : Registry) : String :=
  if registered.rows = [] ∨ body.rows = [] then ""
  else
    let ext := (body.range ω).foldl (capture U registered) .empty
    if ext.rows = [] then "" else marshal ext

structure ExtendedOp where
  op : String
  name : String
  value : Option Value

/-- What is missing is written as `null`. -/
def ExtendedOp.apply (blob : Map) (o : ExtendedOp) : Map :=
  if o.op = "add" ∨ o.op = "replace" then blob.put (o.name, o.value.getD .null)
  else if o.op = "remove" then blob.remove o.name
  else blob

def applyExtendedOps (existing : String) (ops : List ExtendedOp) : Option String :=
  if ops = [] then some existing
  else do
    let blob ← readBlob existing
    let blob := ops.foldl ExtendedOp.apply blob
    return if blob.rows = [] then "" else marshal blob

/-! ### Splitting a PATCH -/

/-- An operation, and the orders in which its object is gone over when it is split and when
what is left of it is applied. -/
structure Scheduled where
  op : Operation
  split : Ranking
  apply : Ranking

/-- An operation whose object is gone over in the order of its keys. -/
def Scheduled.sorted (op : Operation) : Scheduled := ⟨op, fun _ => 0, fun _ => 0⟩

def coreAttrs (U : Unicode) (registered : Registry) (attrs : Map) : Map :=
  attrs.filter fun e => (registered.canonical U e.1).isNone

def extendedAttrs (U : Unicode) (registered : Registry) (action : String)
    (attrs : List (String × Value)) : List ExtendedOp :=
  attrs.filterMap fun e => (registered.canonical U e.1).map fun canon => ⟨action, canon, some e.2⟩

/-- What is left of an object for the core, if anything is. -/
def coreObject (op : String) (ω : Ranking) (attrs : Map) : List (Operation × Ranking) :=
  if attrs.rows = [] then [] else [(⟨op, "", some attrs.json⟩, ω)]

/-- The core operations and the extended ones that one operation comes to. -/
def splitOp (U : Unicode) (registered : Registry) (s : Scheduled) :
    List (Operation × Ranking) × List ExtendedOp :=
  if trimSpace s.op.path ≠ "" then
    match registered.canonical U (trimSpace s.op.path) with
    | some canon => ([], [⟨s.op.action U, canon, s.op.value⟩])
    | none => ([(s.op, s.apply)], [])
  else if s.op.action U ≠ "add" ∧ s.op.action U ≠ "replace" then ([(s.op, s.apply)], [])
  else
    match s.op.value.bind readMap with
    | none => ([(s.op, s.apply)], [])
    | some attrs => (coreObject s.op.op s.apply (coreAttrs U registered attrs),
      extendedAttrs U registered (s.op.action U) (attrs.range s.split))

def splitExtendedOps (U : Unicode) (registered : Registry) (ops : List Scheduled) :
    List (Operation × Ranking) × List ExtendedOp :=
  if registered.rows = [] then (ops.map fun s => (s.op, s.apply), [])
  else (ops.flatMap fun s => (splitOp U registered s).1, ops.flatMap fun s => (splitOp U registered s).2)

/-! ### The rows that requests come to -/

inductive Refusal where
  | notJson
  | invalid (detail : String)
  | mutability
  | patch (e : PatchError)
  | extended

def Refusal.scimType : Refusal → String
  | .notJson => "invalidSyntax"
  | .invalid _ => "invalidValue"
  | .mutability => "mutability"
  | .patch e => if e.isUnsupportedPath then "invalidPath" else "invalidValue"
  | .extended => "invalidValue"

/-- The typed user, and the body by its keys. -/
def decodeUser (U : Unicode) (T : TimeText) (body : Value) : Except Refusal (User × Map) :=
  match readUser U T body with
  | none => .error .notJson
  | some u =>
    if validate u ≠ "" then .error (.invalid (validate u))
    else .ok (u, (readMap body).getD .empty)

def storeUserOf (U : Unicode) (ω : Ranking) (registered : Registry) (u : User) (body : Map) :
    Store.User :=
  { toStoreUser u with extendedAttributes := captureExtended U ω body registered }

def postUser (U : Unicode) (T : TimeText) (ω : Ranking) (registered : Registry) (body : Value) :
    Except Refusal Store.User :=
  match decodeUser U T body with
  | .error e => .error e
  | .ok (u, keys) => .ok (storeUserOf U ω registered u keys)

/-- The body may not name another user than the path does. -/
def putUser (U : Unicode) (T : TimeText) (ω : Ranking) (registered : Registry) (id : String)
    (body : Value) : Except Refusal Store.User :=
  match decodeUser U T body with
  | .error e => .error e
  | .ok (u, keys) =>
    if u.id ≠ "" ∧ u.id ≠ id then .error .mutability
    else .ok (storeUserOf U ω registered u keys)

/-- Only a PATCH of extended attributes alone goes without the core one. -/
def patchCore (U : Unicode) (current : User) (core : List (Operation × Ranking))
    (ext : List ExtendedOp) : Patched User :=
  if core ≠ [] ∨ ext = [] then applyPatch U current core else .ok current

/-- What is stored when the core PATCH went through. -/
def finishPatch (existing : Store.User) (patched : User) (ext : List ExtendedOp) :
    Except Refusal Store.User :=
  if validate patched ≠ "" then .error (.invalid (validate patched))
  else match applyExtendedOps existing.extendedAttributes ext with
    | none => .error .extended
    | some blob => .ok { toStoreUser patched with extendedAttributes := blob }

def patchUser (U : Unicode) (registered : Registry) (existing : Store.User) (baseURL : String)
    (ops : List Scheduled) : Except Refusal Store.User :=
  let split := splitExtendedOps U registered ops
  match patchCore U (fromStoreUser existing baseURL) split.1 split.2 with
  | .error e => .error (.patch e)
  | .ok patched => finishPatch existing patched split.2

end Scimage.Scim
