import Scimage.Store.Call
import Scimage.Store.Text

/-! What operators do: tokens, the attribute registry and the replay of parked deliveries. -/
namespace Scimage.Store

open Txn

/-! ### Tokens -/

/-- `tokenPrefix`. -/
def tokenPrefix := "scimage_"

def consoleTokenPrefix := "scimage_console_"

/-- `keyID` and `secret` are the two random halves. -/
def issueToken (sha256 : String → List UInt8) (keyID secret tenantID label createdBy : String)
    (expiresAt : Option Time) : Call (String × TokenRow) :=
  inTx do
    let t ← Querier.tx.exec (.insertToken
      ⟨keyID, tenantID, sha256 secret, label, 0, nullable createdBy, none, expiresAt, none⟩)
    insertAdminAudit .tx tenantID createdBy .tokenIssue keyID label
    commit
    return (tokenPrefix ++ keyID ++ "_" ++ secret, t)

def getTokenByKeyID (keyID : String) : Call TokenRow := do
  match scanRow (← Querier.pool.ask (.selectToken keyID)) with
  | .error e => if isMissingRow e then throw .notFound else throw (.db e)
  | .ok t => return t

def touchToken (keyID : String) : Call Unit := Querier.pool.exec (.touchToken keyID)

/-- When no row changed, only a token that does not exist is an error. The transaction is
still open while `getTokenByKeyID` asks the pool. -/
def revokeToken (keyID actor : String) : Call Unit :=
  inTx do
    match scanRow (← Querier.tx.ask (.revokeToken keyID)) with
    | .error e =>
      if !isMissingRow e then throw (.db e)
      let _ ← getTokenByKeyID keyID
      return
    | .ok tenantID =>
      insertAdminAudit .tx tenantID actor .tokenRevoke keyID ""
      commit

def issueConsoleToken (sha256 : String → List UInt8) (keyID secret label createdBy : String)
    (expiresAt : Option Time) : Call (String × ConsoleTokenRow) :=
  inTx do
    let t ← Querier.tx.exec (.insertConsoleToken
      ⟨keyID, sha256 secret, label, 0, nullable createdBy, none, expiresAt, none⟩)
    insertAdminAudit .tx "" createdBy .consoleTokenIssue keyID label
    commit
    return (consoleTokenPrefix ++ keyID ++ "_" ++ secret, t)

def getConsoleTokenByKeyID (keyID : String) : Call ConsoleTokenRow := do
  match scanRow (← Querier.pool.ask (.selectConsoleToken keyID)) with
  | .error e => if isMissingRow e then throw .notFound else throw (.db e)
  | .ok t => return t

def revokeConsoleToken (keyID actor : String) : Call Unit :=
  inTx do
    match scanRow (← Querier.tx.ask (.revokeConsoleToken keyID)) with
    | .error e =>
      if !isMissingRow e then throw (.db e)
      let _ ← getConsoleTokenByKeyID keyID
      return
    | .ok _ =>
      insertAdminAudit .tx "" actor .consoleTokenRevoke keyID ""
      commit

/-! ### Attributes -/

/-- `unicode.ToLower` where its result is ASCII; U+0130 and U+212A are the only other
characters that it takes there. -/
def asciiLower (c : Char) : Char :=
  if c.toNat = 0x130 then 'i'
  else if c.toNat = 0x212A then 'k'
  else c.toLower

def reservedAttributes : List String :=
  ["schemas", "id", "username", "externalid", "name", "emails", "active", "meta", "password"]

@[irreducible] def reservedAttribute (name : String) : Bool :=
  String.ofList (name.toList.map asciiLower) ∈ reservedAttributes

def registerAttribute (tenantID name typ actor : String) : Call AttributeRow :=
  let name := trimSpace name
  if reservedAttribute name then throw .reservedAttribute
  else
    let typ := if trimSpace typ = "" then "string" else typ
    inTx do
      match ← Querier.tx.ask (.insertAttribute tenantID name typ actor) with
      | .error e =>
        if isUniqueViolationOn e uniqueAttributeIndex then throw .duplicateAttribute
        else throw (.db e)
      | .ok a =>
        insertAdminAudit .tx tenantID actor .attributeRegister name typ
        commit
        return a

def unregisterAttribute (tenantID name actor : String) : Call Unit :=
  let name := trimSpace name
  inTx do
    let n ← Querier.tx.exec (.deleteAttribute tenantID name)
    if n = 0 then throw .notFound
    insertAdminAudit .tx tenantID actor .attributeUnregister name ""
    commit

def listAttributes (tenantID : String) : Call (List AttributeRow) :=
  Querier.pool.exec (.listAttributes tenantID)

/-! ### Deliveries -/

/-- The event type's text is the detail of the admin entry. -/
def EventType.text : EventType → String
  | .userCreated => "user.created"
  | .userReplaced => "user.replaced"
  | .userDeactivated => "user.deactivated"
  | .groupCreated => "group.created"
  | .groupReplaced => "group.replaced"
  | .groupDeleted => "group.deleted"

def replayDeadLetter (id : Nat) (actor : String) : Call Unit :=
  inTx do
    match scanRow (← Querier.tx.ask (.replayDelivery id)) with
    | .error e => if isMissingRow e then throw .notFound else throw (.db e)
    | .ok (tenantID, eventType) =>
      insertAdminAudit .tx tenantID actor .webhookReplay (toString id) eventType.text
      commit

end Scimage.Store
