import Scimage.Lib.JsonMap
import Scimage.Scim.Mapper

/-! PATCH on a user: a list of operations folded onto the resource. -/
namespace Scimage.Scim

open Store (trimSpace)
open Json (Value Text Map Ranking readMap)

/-! ### Requests -/

/-- `value` is raw, and missing when the operation has none. -/
structure Operation where
  op : String
  path : String
  value : Option Value

structure PatchOp where
  schemas : Slice String
  operations : Slice Operation

def Operation.zero : Operation := ⟨"", "", none⟩

def PatchOp.zero : PatchOp := ⟨.nil, .nil⟩

def Operation.set (o : Operation) (key : String) (v : Value) : Option Operation :=
  if names "op" key then (readString o.op v).map fun s => { o with op := s }
  else if names "path" key then (readString o.path v).map fun s => { o with path := s }
  else if names "value" key then some { o with value := some v }
  else some o

def PatchOp.set (p : PatchOp) (key : String) (v : Value) : Option PatchOp :=
  if names "schemas" key then
    (readSlice readString "" p.schemas v).map fun s => { p with schemas := s }
  else if names "Operations" key then
    (readSlice (readStruct Operation.set) Operation.zero p.operations v).map fun s =>
      { p with operations := s }
  else some p

def readPatch : Value → Option PatchOp := readStruct PatchOp.set PatchOp.zero

/-- The operation's name as it is compared. -/
def Operation.action (U : Unicode) (o : Operation) : String := U.lower (trimSpace o.op)

/-! ### Errors -/

inductive PatchError where
  | operationsRequired
  | unsupportedOp (op : String)
  | notAnObject
  | expectedString (path : String)
  | active
  | name
  | expectedEmail (path : String)
  | unsupportedPath (path : String)
  | removeRequiresPath
  | members

/-- `errors.Is(err, errUnsupportedPath)`. -/
def PatchError.isUnsupportedPath : PatchError → Bool
  | .unsupportedPath _ => true
  | _ => false

abbrev Patched := Except PatchError

/-- `json.Unmarshal` of a raw value, which may be missing. -/
def decode (read : Value → Option α) (raw : Option Value) (e : PatchError) : Patched α :=
  match raw.bind read with
  | some a => .ok a
  | none => .error e

/-! ### Paths -/

def afterWord : List Char → List Char → Option (List Char)
  | [], cs => some cs
  | w :: ws, c :: cs => if w = c then afterWord ws cs else none
  | _ :: _, [] => none

/-- `(\[[^\]]*\])?` -/
def skipFilter : List Char → List Char
  | '[' :: cs =>
    match cs.dropWhile (· ≠ ']') with
    | _ :: rest => rest
    | [] => '[' :: cs
  | cs => cs

/-- `^emails(\[[^\]]*\])?(\.value)?$` -/
def isEmailPath (key : String) : Bool :=
  match afterWord "emails".toList key.toList with
  | some cs => skipFilter cs = [] || skipFilter cs = ".value".toList
  | none => false

/-! ### Operations -/

def assignString (raw : Option Value) (path : String) : Patched String :=
  decode (readString "") raw (.expectedString path)

/-- A bare string, one object, or an array of objects. -/
def setEmail (U : Unicode) (u : User) (raw : Option Value) (path : String) : Patched User :=
  match raw.bind (readString "") with
  | some value => .ok { u with emails := .of [⟨value, true⟩] }
  | none =>
    match (raw.bind (readEmail U .zero)).filter fun one => one.value ≠ "" with
    | some one => .ok { u with emails := .of [{ one with primary := true }] }
    | none =>
      match (raw.bind (readSlice (readEmail U) .zero .nil)).filter fun many => many.items ≠ [] with
      | some many => .ok { u with emails := .of [⟨primaryEmail many.items, true⟩] }
      | none => .error (.expectedEmail path)

def setPath (U : Unicode) (u : User) (path : String) (raw : Option Value) : Patched User :=
  let key := U.lower (trimSpace path)
  if key = "username" then do
    let v ← assignString raw path
    return { u with userName := v }
  else if key = "externalid" then do
    let v ← assignString raw path
    return { u with externalID := v }
  else if key = "active" then do
    let b ← decode (readBool U) raw .active
    return { u with active := some b }
  else if key = "name.givenname" then do
    let v ← assignString raw path
    return { u with name := some { u.name.getD .zero with givenName := v } }
  else if key = "name.familyname" then do
    let v ← assignString raw path
    return { u with name := some { u.name.getD .zero with familyName := v } }
  else if key = "name" then do
    let n ← decode (readName .zero) raw .name
    return { u with name := some n }
  else if isEmailPath key then setEmail U u raw path
  else .error (.unsupportedPath path)

/-- `add` and `replace`, which differ only for attributes of several values. A pathless
operation carries an object of attributes. -/
def applyValue (U : Unicode) (ω : Ranking) (u : User) (op : Operation) : Patched User :=
  if trimSpace op.path = "" then
    match op.value.bind readMap with
    | none => .error .notAnObject
    | some attrs => (attrs.range ω).foldlM (fun u e => setPath U u e.1 (some e.2)) u
  else setPath U u op.path op.value

def clearPath (U : Unicode) (u : User) (path : String) : Patched User :=
  let key := U.lower (trimSpace path)
  if key = "" then .error .removeRequiresPath
  else if key = "externalid" then .ok { u with externalID := "" }
  else if key = "name.givenname" then
    .ok { u with name := u.name.map fun n => { n with givenName := "" } }
  else if key = "name.familyname" then
    .ok { u with name := u.name.map fun n => { n with familyName := "" } }
  else if key = "name" then .ok { u with name := none }
  else if key = "active" then .ok { u with active := some true }
  else if isEmailPath key then .ok { u with emails := .nil }
  else .error (.unsupportedPath path)

def applyOp (U : Unicode) (u : User) (o : Operation × Ranking) : Patched User :=
  if o.1.action U = "add" ∨ o.1.action U = "replace" then applyValue U o.2 u o.1
  else if o.1.action U = "remove" then clearPath U u o.1.path
  else .error (.unsupportedOp o.1.op)

/-- Each operation comes with the order in which the runtime goes over its value. -/
def applyPatch (U : Unicode) (current : User) (ops : List (Operation × Ranking)) : Patched User :=
  if ops = [] then .error .operationsRequired
  else ops.foldlM (applyOp U) current

end Scimage.Scim
