import Scimage.Scim.Auth

/-! Who operates the console: the credential of a request, and what it is checked against. -/
namespace Scimage.Console

open Store (ConsoleTokenRow Time)
open Webhook (bytes)
open Scim (Bytes WebRequest cutPrefix foldByte underscore)

/-! ### Basic auth -/

def colon : UInt8 := 58

def equals : UInt8 := 61

/-- The standard alphabet. -/
def base64Value (b : UInt8) : Option Nat :=
  if 65 ≤ b ∧ b ≤ 90 then some (b.toNat - 65)
  else if 97 ≤ b ∧ b ≤ 122 then some (b.toNat - 71)
  else if 48 ≤ b ∧ b ≤ 57 then some (b.toNat + 4)
  else if b = 43 then some 62
  else if b = 47 then some 63
  else none

/-- Groups of four, the last one padded. -/
def base64Groups : Bytes → Option Bytes
  | [] => some []
  | a :: b :: c :: d :: rest =>
    match base64Value a, base64Value b with
    | some w, some x =>
      if c = equals ∧ d = equals ∧ rest = [] then some [UInt8.ofNat (w * 4 + x / 16)]
      else
        match base64Value c with
        | none => none
        | some y =>
          if d = equals ∧ rest = [] then
            some [UInt8.ofNat (w * 4 + x / 16), UInt8.ofNat (x * 16 + y / 4)]
          else
            match base64Value d with
            | none => none
            | some z => (base64Groups rest).map fun bs =>
              UInt8.ofNat (w * 4 + x / 16) :: UInt8.ofNat (x * 16 + y / 4) ::
                UInt8.ofNat (y * 64 + z) :: bs
    | _, _ => none
  | _ => none

/-- `base64.StdEncoding.DecodeString`: line breaks are skipped. -/
def base64Decode (s : Bytes) : Option Bytes := base64Groups (s.filter fun b => b ≠ 10 ∧ b ≠ 13)

/-- `Request.BasicAuth`: user name and password. -/
def basicAuth (authorization : Bytes) : Option (Bytes × Bytes) :=
  let scheme := bytes "basic "
  if authorization.length < scheme.length ∨ (authorization.take scheme.length).map foldByte ≠ scheme then none
  else
    match base64Decode (authorization.drop scheme.length) with
    | none => none
    | some cs =>
      match cs.dropWhile (· ≠ colon) with
      | [] => none
      | _ :: pass => some (cs.takeWhile (· ≠ colon), pass)

/-! ### White space -/

/-- The characters that `strings.TrimSpace` takes away, in UTF-8. -/
def spaces : List Bytes :=
  [[9], [10], [11], [12], [13], [32], [0xC2, 0x85], [0xC2, 0xA0], [0xE1, 0x9A, 0x80],
    [0xE2, 0x80, 0x80], [0xE2, 0x80, 0x81], [0xE2, 0x80, 0x82], [0xE2, 0x80, 0x83],
    [0xE2, 0x80, 0x84], [0xE2, 0x80, 0x85], [0xE2, 0x80, 0x86], [0xE2, 0x80, 0x87],
    [0xE2, 0x80, 0x88], [0xE2, 0x80, 0x89], [0xE2, 0x80, 0x8A], [0xE2, 0x80, 0xA8],
    [0xE2, 0x80, 0xA9], [0xE2, 0x80, 0xAF], [0xE2, 0x81, 0x9F], [0xE3, 0x80, 0x80]]

/-- Drops up to `n` of the given characters from the front. -/
def dropChars (chars : List Bytes) : Nat → Bytes → Bytes
  | 0, s => s
  | n + 1, s =>
    match chars.findSome? fun c => cutPrefix c s with
    | none => s
    | some rest => dropChars chars n rest

/-- `strings.TrimSpace`. -/
def trimBytes (s : Bytes) : Bytes :=
  let left := dropChars spaces s.length s
  (dropChars (spaces.map List.reverse) left.length left.reverse).reverse

/-! ### Credentials -/

/-- `<prefix><keyID>_<secret>`, cut at the first underscore. -/
def splitToken (pre raw : Bytes) : Option (Bytes × Bytes) :=
  match cutPrefix pre raw with
  | none => none
  | some rest =>
    match rest.dropWhile (· ≠ underscore) with
    | [] => none
    | _ :: secret =>
      if rest.takeWhile (· ≠ underscore) = [] ∨ secret = [] then none
      else some (rest.takeWhile (· ≠ underscore), secret)

theorem parseToken_eq (raw : Bytes) : Scim.parseToken raw = splitToken (bytes "scimage_") raw := rfl

def consolePrefix : String := "scimage_console_"

def parseConsoleToken (raw : Bytes) : Option (Bytes × Bytes) := splitToken (bytes consolePrefix) raw

def hasPrefix (s pre : Bytes) : Bool := (cutPrefix pre s).isSome

def consoleCredential (authorization : Bytes) : Bytes :=
  match cutPrefix (bytes "Bearer ") authorization with
  | some bearer => trimBytes bearer
  | none =>
    match basicAuth authorization with
    | none => []
    | some (user, pass) =>
      if hasPrefix pass (bytes consolePrefix) then pass
      else if hasPrefix user (bytes consolePrefix) then user
      else []

structure ConsoleIdentity where
  keyID : String
  label : String

/-- `lookup` is what `GetConsoleTokenByKeyID` answers, and `none` where it fails. -/
def authenticateConsole (sha256 : Bytes → Bytes) (now : Time)
    (lookup : Bytes → Option ConsoleTokenRow) (r : WebRequest) : Option ConsoleIdentity := do
  let (keyID, secret) ← parseConsoleToken (consoleCredential r.authorization)
  let tok ← lookup keyID
  if tok.revokedAt.isSome then none
  else if ∃ t ∈ tok.expiresAt, t ≤ now then none
  else if sha256 secret ≠ tok.secretHash then none
  else some ⟨tok.keyID, tok.label⟩

variable {sha256 : Bytes → Bytes} {now : Time} {r : WebRequest} {pre raw keyID secret s : Bytes}

theorem splitToken_eq_some (h : splitToken pre raw = some (keyID, secret)) :
    raw = pre ++ keyID ++ underscore :: secret := by
  rw [splitToken] at h
  split at h
  · cases h
  · rename_i rest hcut
    have hsplit := List.takeWhile_append_dropWhile (p := (· ≠ underscore)) (l := rest)
    split at h
    · cases h
    · rename_i b _ hdrop
      split_ifs at h
      cases h
      have hb : b = underscore := by
        have hhead := List.head?_dropWhile_not (fun b : UInt8 => decide (b ≠ underscore)) rest
        rw [hdrop] at hhead
        simpa using hhead
      rw [hdrop, hb] at hsplit
      rw [Scim.cutPrefix_eq hcut, List.append_assoc, hsplit]

/-- What a request with a credential of the console needs to be let in. -/
theorem authenticateConsole_some {lookup : Bytes → Option ConsoleTokenRow} {id : ConsoleIdentity}
    (h : authenticateConsole sha256 now lookup r = some id) : ∃ keyID secret tok,
      parseConsoleToken (consoleCredential r.authorization) = some (keyID, secret) ∧
      lookup keyID = some tok ∧ tok.revokedAt = none ∧ (∀ t ∈ tok.expiresAt, now < t) ∧
      sha256 secret = tok.secretHash := by
  simp only [authenticateConsole, Option.bind_eq_bind, Option.bind_eq_some_iff] at h
  obtain ⟨⟨keyID, secret⟩, hparse, tok, htok, h⟩ := h
  split_ifs at h with hrevoked hexpired hsecret
  refine ⟨keyID, secret, tok, hparse, htok, by simpa using hrevoked, fun t ht => ?_,
    not_not.mp hsecret⟩
  by_contra hle
  exact hexpired ⟨t, ht, Int.not_lt.mp hle⟩

end Scimage.Console
