import Scimage.Lib.Decimal
import Scimage.Lib.Paging
import Scimage.Scim.Handler

/-! Lists: filters, page parameters and the endpoints that answer with a page. -/
namespace Scimage.Scim

open Store (trimSpace UserFilter GroupFilter)
open Json (Value)

/-! ### Filters -/

/-- `\w` -/
def isWordChar (c : Char) : Bool := c.isAlphanum || c == '_'

/-- `\s+`, which takes all the blanks that there are. -/
def blanks : List Char → Option (List Char)
  | c :: cs => if isBlank c then some (cs.dropWhile isBlank) else none
  | [] => none

/-- `"([^"]*)"\s*$` -/
def quoted : List Char → Option (List Char)
  | '"' :: cs =>
    match cs.dropWhile (· ≠ '"') with
    | _ :: rest => if rest.all isBlank then some (cs.takeWhile (· ≠ '"')) else none
    | [] => none
  | _ => none

/-- `^\s*(\w+)\s+eq\s+"([^"]*)"\s*$`, and what it captures. -/
def eqFilter (expr : String) : Option (String × String) := do
  let cs := expr.toList.dropWhile isBlank
  let word := cs.takeWhile isWordChar
  if word = [] then none
  let cs ← blanks (cs.dropWhile isWordChar)
  let cs ← match cs with
    | 'e' :: 'q' :: cs => blanks cs
    | _ => none
  let value ← quoted cs
  return (String.ofList word, String.ofList value)

def onlyEq : String := "only \"attribute eq \\\"value\\\"\" is supported"

def unsupported (attr choices : String) : String :=
  "filtering on \"" ++ attr ++ "\" is not supported; use " ++ choices

def valueRequired : String := "a filter value is required"

/-- What `parseFilter` and `parseGroupFilter` share: `none` is the filter of an empty text, and
`apply` knows the attributes by their lower-case names. -/
def parseEq {F : Type} (U : Unicode) (none : F) (apply : String → Option (String → F))
    (choices expr : String) : Except String F :=
  if trimSpace expr = "" then .ok none
  else
    match eqFilter expr with
    | .none => .error onlyEq
    | some (attr, value) =>
      match apply (U.lower attr) with
      | .none => .error (unsupported attr choices)
      | some set => if value = "" then .error valueRequired else .ok (set value)

def filterableAttributes (name : String) : Option (String → UserFilter) :=
  if name = "username" then some fun v => ⟨v, ""⟩
  else if name = "externalid" then some fun v => ⟨"", v⟩
  else none

def parseFilter (U : Unicode) (expr : String) : Except String UserFilter :=
  parseEq U ⟨"", ""⟩ filterableAttributes "userName or externalId" expr

def groupFilterableAttributes (name : String) : Option (String → GroupFilter) :=
  if name = "displayname" then some fun v => ⟨v, ""⟩
  else if name = "externalid" then some fun v => ⟨"", v⟩
  else none

def parseGroupFilter (U : Unicode) (expr : String) : Except String GroupFilter :=
  parseEq U ⟨"", ""⟩ groupFilterableAttributes "displayName or externalId" expr

/-! ### Pages -/

/-- The parameters of a list request, empty where they are missing. -/
structure ListQuery where
  filter : String
  startIndex : String
  count : String

/-- `strconv.Atoi`. -/
def atoi (s : String) : Option Int := Decimal.parse s.toList

def startIndexOf (s : String) : Int :=
  match atoi s with
  | some n => if n > 1 then n else 1
  | none => 1

def countOf (s : String) : Int :=
  match atoi s with
  | some n => max n 0
  | none => Store.maxPageSize

/-- Both are floored, not rejected. -/
def pageParams (q : ListQuery) : Int × Int := (startIndexOf q.startIndex, countOf q.count)

/-- `listOf`. -/
structure Page where
  totalResults : Nat
  itemsPerPage : Nat
  startIndex : Int
  resources : List Value

def invalidFilter (detail : String) : Response := writeError 400 "invalidFilter" detail

namespace Handler

variable (h : Handler)

def list (r : Request) (q : ListQuery) : Handling Page := do
  let filter ← ofExcept ((parseFilter h.unicode q.filter).mapError invalidFilter)
  let (startIndex, count) := pageParams q
  let (users, total) ← refusedWith (fun _ => serverError)
    (Store.listUsers r.tenantID count (startIndex - 1) filter)
  let resources := users.map (h.userResource r)
  return ⟨total, resources.length, startIndex, resources⟩

def listGroups (r : Request) (q : ListQuery) : Handling Page := do
  let filter ← ofExcept ((parseGroupFilter h.unicode q.filter).mapError invalidFilter)
  let (startIndex, count) := pageParams q
  let (groups, total) ← refusedWith (fun _ => serverError)
    (Store.listGroups r.tenantID count (startIndex - 1) filter)
  let resources := groups.map (h.groupResource r)
  return ⟨total, resources.length, startIndex, resources⟩

end Handler

end Scimage.Scim
