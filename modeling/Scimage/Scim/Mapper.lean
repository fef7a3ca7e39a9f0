import Scimage.Scim.Models

/-! Between resources and rows. -/
namespace Scimage.Scim

open Store (trimSpace)

def userSchema := "urn:ietf:params:scim:schemas:core:2.0:User"
def groupSchema := "urn:ietf:params:scim:schemas:core:2.0:Group"

def nonEmpty (s : String) : Option String := if s = "" then none else some s

/-- The first address marked primary, or else the first. -/
def primaryEmail (emails : List Email) : String :=
  match emails.find? Email.primary with
  | some e => trimSpace e.value
  | none =>
    match emails with
    | e :: _ => trimSpace e.value
    | [] => ""

def toStoreUser (u : User) : Store.User where
  id := ""
  userName := trimSpace u.userName
  externalID := nonEmpty (trimSpace u.externalID)
  givenName := u.name.bind fun n => nonEmpty (trimSpace n.givenName)
  familyName := u.name.bind fun n => nonEmpty (trimSpace n.familyName)
  email := nonEmpty (primaryEmail u.emails.items)
  active := u.active.getD true
  createdAt := 0
  updatedAt := 0
  extendedAttributes := ""

def fromStoreUser (su : Store.User) (baseURL : String) : User where
  schemas := .of [userSchema]
  id := su.id
  externalID := su.externalID.getD ""
  userName := su.userName
  name :=
    if su.givenName.isSome ∨ su.familyName.isSome then
      some ⟨su.givenName.getD "", su.familyName.getD ""⟩
    else none
  emails := .of (su.email.map fun e => ⟨e, true⟩).toList
  active := some su.active
  info := some ⟨"User", su.createdAt, su.updatedAt, baseURL ++ "/Users/" ++ su.id⟩

/-- Repeated members are left to the store. -/
def toStoreGroup (g : Group) : Store.Group where
  id := ""
  externalID := nonEmpty (trimSpace g.externalID)
  displayName := trimSpace g.displayName
  members := (g.members.items.map fun m => trimSpace m.value).filter fun v => v ≠ ""
  createdAt := 0
  updatedAt := 0

def fromStoreGroup (sg : Store.Group) (baseURL : String) : Group where
  schemas := .of [groupSchema]
  id := sg.id
  externalID := sg.externalID.getD ""
  displayName := sg.displayName
  members := .of (sg.members.map fun id => ⟨id, baseURL ++ "/Users/" ++ id, ""⟩)
  info := some ⟨"Group", sg.createdAt, sg.updatedAt, baseURL ++ "/Groups/" ++ sg.id⟩

/-! ### Validation -/

def maxAttrLen : Nat := 256

def tooLong (name value : String) : Option String :=
  if maxAttrLen < value.utf8ByteSize then
    some (name ++ " exceeds " ++ toString maxAttrLen ++ " characters")
  else none

/-- Empty when the payload is acceptable. -/
def validate (u : User) : String :=
  let userName := trimSpace u.userName
  let name := u.name.getD .zero
  if userSchema ∉ u.schemas.items then "schemas must contain " ++ userSchema
  else if userName = "" then "userName is required"
  else
    ([("userName", userName), ("name.givenName", name.givenName),
      ("name.familyName", name.familyName), ("emails.value", primaryEmail u.emails.items)].findSome?
        fun f => tooLong f.1 f.2).getD ""

def validateGroup (g : Group) : String :=
  let displayName := trimSpace g.displayName
  if groupSchema ∉ g.schemas.items then "schemas must contain " ++ groupSchema
  else if displayName = "" then "displayName is required"
  else (tooLong "displayName" displayName).getD ""

end Scimage.Scim
