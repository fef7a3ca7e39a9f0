import Scimage.Console.Auth
import Scimage.Console.Csrf
import Scimage.Store.Admin

/-! The credentials of the two listeners never pass for one another. -/
namespace Scimage.Console

open Store (Db Write TokenRow ConsoleTokenRow Time tokenPrefix consoleTokenPrefix)
open Webhook (bytes hexEncode)
open Scim (Bytes WebRequest Identity cutPrefix underscore authenticate parseToken bearerToken)

/-! ### What is printed -/

def keyIDBytes : Nat := 8
def secretBytes : Nat := 32

/-- What `randomHex(n)` can produce. -/
def RandomHex (n : Nat) (s : String) : Prop :=
  ∃ bs : List UInt8, bs.length = n ∧ s = String.ofList (hexEncode bs)

def plaintext (pre keyID secret : String) : String := pre ++ keyID ++ "_" ++ secret

/-- The row that `IssueToken` inserts. -/
def issuedRow (sha256 : Bytes → Bytes) (keyID secret tenantID label createdBy : String)
    (expiresAt : Option Time) : TokenRow :=
  ⟨keyID, tenantID, sha256 (bytes secret), label, 0, Store.nullable createdBy, none, expiresAt, none⟩

def issuedConsoleRow (sha256 : Bytes → Bytes) (keyID secret label createdBy : String)
    (expiresAt : Option Time) : ConsoleTokenRow :=
  ⟨keyID, sha256 (bytes secret), label, 0, Store.nullable createdBy, none, expiresAt, none⟩

theorem issueToken_eq (sha256 : Bytes → Bytes) (keyID secret tenantID label createdBy : String)
    (expiresAt : Option Time) :
    Store.issueToken (fun s => sha256 (bytes s)) keyID secret tenantID label createdBy expiresAt =
      Store.inTx (do
        let t ← Store.Querier.tx.exec
          (.insertToken (issuedRow sha256 keyID secret tenantID label createdBy expiresAt))
        Store.insertAdminAudit .tx tenantID createdBy .tokenIssue keyID label
        Store.commit
        return (plaintext tokenPrefix keyID secret, t)) :=
  rfl

theorem issueConsoleToken_eq (sha256 : Bytes → Bytes) (keyID secret label createdBy : String)
    (expiresAt : Option Time) :
    Store.issueConsoleToken (fun s => sha256 (bytes s)) keyID secret label createdBy expiresAt =
      Store.inTx (do
        let t ← Store.Querier.tx.exec
          (.insertConsoleToken (issuedConsoleRow sha256 keyID secret label createdBy expiresAt))
        Store.insertAdminAudit .tx "" createdBy .consoleTokenIssue keyID label
        Store.commit
        return (plaintext consoleTokenPrefix keyID secret, t)) :=
  rfl

/-! ### The two tables -/

/-- `TouchConsoleToken`. -/
def touchConsoleToken (keyID : String) (now : Time) (db : Db) : List Write :=
  match db.consoleTokens.find? keyID with
  | some r => [.putConsoleToken { r with lastUsedAt := some now }]
  | none => []

def applyAll (db : Db) (ws : List Write) : Db := ws.foldl Write.apply db

/-- The databases that the statements on the two tables lead to, with the plaintexts printed for
either table. A revocation may have looked at any earlier version. -/
inductive Vault (sha256 : Bytes → Bytes) : List String → List String → Db → Prop where
  | empty (db : Db) : db.tokens = .empty → db.consoleTokens = .empty → Vault sha256 [] [] db
  | elsewhere {p q : List String} {db db' : Db} : Vault sha256 p q db → db'.tokens = db.tokens →
    db'.consoleTokens = db.consoleTokens → Vault sha256 p q db'
  | issue {p q : List String} {db : Db} (keyID secret tenantID label createdBy : String)
    (expiresAt : Option Time) (now : Time) (t : TokenRow) (ws : List Write) : Vault sha256 p q db →
    RandomHex keyIDBytes keyID → RandomHex secretBytes secret →
    Store.execInsertToken (issuedRow sha256 keyID secret tenantID label createdBy expiresAt) now db =
      .ok (t, ws) →
    Vault sha256 (plaintext tokenPrefix keyID secret :: p) q (applyAll db ws)
  | touch {p q : List String} {db : Db} (keyID : String) (now : Time) (ws : List Write) :
    Vault sha256 p q db → Store.execTouchToken keyID now db = .ok ((), ws) →
    Vault sha256 p q (applyAll db ws)
  | revoke {p q : List String} {db : Db} (keyID : String) (now : Time) (snap : Db)
    (x : Option String) (ws : List Write) : Vault sha256 p q db →
    Store.execRevokeToken keyID now snap db = .ok (x, ws) → Vault sha256 p q (applyAll db ws)
  | issueConsole {p q : List String} {db : Db} (keyID secret label createdBy : String)
    (expiresAt : Option Time) (now : Time) (t : ConsoleTokenRow) (ws : List Write) :
    Vault sha256 p q db → RandomHex keyIDBytes keyID → RandomHex secretBytes secret →
    Store.execInsertConsoleToken (issuedConsoleRow sha256 keyID secret label createdBy expiresAt) now
      db = .ok (t, ws) →
    Vault sha256 p (plaintext consoleTokenPrefix keyID secret :: q) (applyAll db ws)
  | touchConsole {p q : List String} {db : Db} (keyID : String) (now : Time) :
    Vault sha256 p q db → Vault sha256 p q (applyAll db (touchConsoleToken keyID now db))
  | revokeConsole {p q : List String} {db : Db} (keyID : String) (now : Time) (snap : Db)
    (x : Option String) (ws : List Write) : Vault sha256 p q db →
    Store.execRevokeConsoleToken keyID now snap db = .ok (x, ws) → Vault sha256 p q (applyAll db ws)

/-- The key and the hash of a row whose plaintext was printed. -/
def Minted (sha256 : Bytes → Bytes) (pre : String) (printed : List String) (keyID : String)
    (secretHash : Bytes) : Prop :=
  ∃ secret, RandomHex keyIDBytes keyID ∧ RandomHex secretBytes secret ∧
    secretHash = sha256 (bytes secret) ∧ plaintext pre keyID secret ∈ printed

structure Honest (sha256 : Bytes → Bytes) (p q : List String) (db : Db) : Prop where
  tokens : ∀ r ∈ db.tokens.rows, Minted sha256 tokenPrefix p r.keyID r.secretHash
  consoleTokens : ∀ r ∈ db.consoleTokens.rows,
    Minted sha256 consoleTokenPrefix q r.keyID r.secretHash
  printed : ∀ tok ∈ p, ∃ keyID secret, RandomHex keyIDBytes keyID ∧ RandomHex secretBytes secret ∧
    tok = plaintext tokenPrefix keyID secret
  consolePrinted : ∀ tok ∈ q, ∃ keyID secret, RandomHex keyIDBytes keyID ∧
    RandomHex secretBytes secret ∧ tok = plaintext consoleTokenPrefix keyID secret

variable {sha256 : Bytes → Bytes} {p q : List String} {db : Db} {now : Time} {r : WebRequest}

theorem Minted.mono {pre keyID : String} {printed printed' : List String} {h : Bytes}
    (hm : Minted sha256 pre printed keyID h) (hsub : ∀ x ∈ printed, x ∈ printed') :
    Minted sha256 pre printed' keyID h := by
  obtain ⟨secret, hkey, hsecret, hhash, hprinted⟩ := hm
  exact ⟨secret, hkey, hsecret, hhash, hsub _ hprinted⟩

/-- A row that is written over keeps its key and its hash. -/
theorem Honest.putToken (h : Honest sha256 p q db) {row : TokenRow}
    (hrow : Minted sha256 tokenPrefix p row.keyID row.secretHash) :
    Honest sha256 p q (applyAll db [.putToken row]) where
  tokens r hr := by
    rcases Relational.Table.mem_put.mp hr with rfl | ⟨hr, -⟩
    · exact hrow
    · exact h.tokens r hr
  consoleTokens := h.consoleTokens
  printed := h.printed
  consolePrinted := h.consolePrinted

theorem Honest.putConsoleToken (h : Honest sha256 p q db) {row : ConsoleTokenRow}
    (hrow : Minted sha256 consoleTokenPrefix q row.keyID row.secretHash) :
    Honest sha256 p q (applyAll db [.putConsoleToken row]) where
  tokens := h.tokens
  consoleTokens r hr := by
    rcases Relational.Table.mem_put.mp hr with rfl | ⟨hr, -⟩
    · exact hrow
    · exact h.consoleTokens r hr
  printed := h.printed
  consolePrinted := h.consolePrinted

theorem vault_honest (h : Vault sha256 p q db) : Honest sha256 p q db := by
  induction h with
  | empty db htokens hconsole =>
    refine ⟨?_, ?_, ?_, ?_⟩
    · rw [htokens]
      intro r hr
      cases hr
    · rw [hconsole]
      intro r hr
      cases hr
    · intro tok htok
      cases htok
    · intro tok htok
      cases htok
  | elsewhere _ htokens hconsole ih =>
    refine ⟨?_, ?_, ih.printed, ih.consolePrinted⟩
    · rw [htokens]
      exact ih.tokens
    · rw [hconsole]
      exact ih.consoleTokens
  | issue keyID secret tenantID label createdBy expiresAt now t ws _ hkey hsecret hexec ih =>
    unfold Store.execInsertToken at hexec
    dsimp only at hexec
    split_ifs at hexec
    cases hexec
    have hmore : Honest sha256 (plaintext tokenPrefix keyID secret :: _) _ _ :=
      ⟨fun r hr => (ih.tokens r hr).mono fun x hx => List.mem_cons_of_mem _ hx, ih.consoleTokens,
        fun tok htok => by
          rcases List.mem_cons.mp htok with rfl | htok
          · exact ⟨keyID, secret, hkey, hsecret, rfl⟩
          · exact ih.printed tok htok, ih.consolePrinted⟩
    exact hmore.putToken ⟨secret, hkey, hsecret, rfl, List.mem_cons_self⟩
  | touch keyID now ws _ hexec ih =>
    unfold Store.execTouchToken at hexec
    split at hexec
    · rename_i row hrow
      cases hexec
      exact ih.putToken (ih.tokens row (Relational.Table.find?_mem hrow))
    · cases hexec
      exact ih
  | revoke keyID now snap x ws _ hexec ih =>
    unfold Store.execRevokeToken at hexec
    split at hexec
    · rename_i row _ hrow
      cases hexec
      have hfind := (Option.filter_eq_some_iff.mp hrow).1
      exact ih.putToken (ih.tokens row (Relational.Table.find?_mem hfind))
    · cases hexec
      exact ih
  | issueConsole keyID secret label createdBy expiresAt now t ws _ hkey hsecret hexec ih =>
    unfold Store.execInsertConsoleToken at hexec
    dsimp only at hexec
    split_ifs at hexec
    cases hexec
    have hmore : Honest sha256 _ (plaintext consoleTokenPrefix keyID secret :: _) _ :=
      ⟨ih.tokens, fun r hr => (ih.consoleTokens r hr).mono fun x hx => List.mem_cons_of_mem _ hx,
        ih.printed, fun tok htok => by
          rcases List.mem_cons.mp htok with rfl | htok
          · exact ⟨keyID, secret, hkey, hsecret, rfl⟩
          · exact ih.consolePrinted tok htok⟩
    exact hmore.putConsoleToken ⟨secret, hkey, hsecret, rfl, List.mem_cons_self⟩
  | touchConsole keyID now _ ih =>
    unfold touchConsoleToken
    split
    · rename_i row hrow
      exact ih.putConsoleToken (ih.consoleTokens row (Relational.Table.find?_mem hrow))
    · exact ih
  | revokeConsole keyID now snap x ws _ hexec ih =>
    unfold Store.execRevokeConsoleToken at hexec
    split at hexec
    · rename_i row _ hrow
      cases hexec
      have hfind := (Option.filter_eq_some_iff.mp hrow).1
      exact ih.putConsoleToken (ih.consoleTokens row (Relational.Table.find?_mem hfind))
    · cases hexec
      exact ih

/-! ### The alphabet of keys and secrets -/

/-- A digit, or a letter up to `f`. -/
def IsHex (b : UInt8) : Prop := (48 ≤ b ∧ b ≤ 57) ∨ (97 ≤ b ∧ b ≤ 102)

instance : DecidablePred IsHex := fun _ => inferInstanceAs (Decidable (_ ∨ _))

theorem hexDigit_isHex (n : Fin 16) : (Store.Uuid.hexDigit n).val.toNat < 128 ∧
    IsHex (UInt8.ofNat (Store.Uuid.hexDigit n).val.toNat) := by
  revert n
  decide

theorem isHex_of_mem {bs : List UInt8} {b : UInt8} (h : b ∈ bytes (String.ofList (hexEncode bs))) :
    IsHex b := by
  rw [Webhook.bytes_ofList] at h
  obtain ⟨c, hc, hb⟩ := List.mem_flatMap.mp h
  obtain ⟨x, -, hc⟩ := List.mem_flatMap.mp hc
  obtain ⟨n, rfl⟩ : ∃ n, c = Store.Uuid.hexDigit n := by
    simp only [Webhook.hexDigits, List.mem_cons, List.not_mem_nil, or_false] at hc
    rcases hc with rfl | rfl <;> exact ⟨_, rfl⟩
  obtain ⟨hascii, hhex⟩ := hexDigit_isHex n
  rw [String.utf8EncodeChar, if_pos (by omega), List.mem_singleton] at hb
  rw [hb]
  exact hhex

theorem length_bytes_hexEncode (bs : List UInt8) :
    (bytes (String.ofList (hexEncode bs))).length = 2 * bs.length := by
  rw [Webhook.bytes_ofList]
  induction bs with
  | nil => rfl
  | cons x bs ih =>
    have hdigit : ∀ n, (String.utf8EncodeChar (Store.Uuid.hexDigit n)).length = 1 := by
      intro n
      have hascii := (hexDigit_isHex n).1
      rw [String.utf8EncodeChar, if_pos (by omega), List.length_singleton]
    have hcons : hexEncode (x :: bs) = Webhook.hexDigits x ++ hexEncode bs := rfl
    rw [hcons, List.flatMap_append, List.length_append, ih, Webhook.hexDigits]
    simp [hdigit]
    omega

theorem randomHex_bytes {n : Nat} {s : String} (h : RandomHex n s) :
    (bytes s).length = 2 * n ∧ ∀ b ∈ bytes s, IsHex b := by
  obtain ⟨bs, rfl, rfl⟩ := h
  exact ⟨length_bytes_hexEncode bs, fun b hb => isHex_of_mem hb⟩

theorem underscore_not_hex : ¬ IsHex underscore := by decide

theorem bytes_plaintext (pre keyID secret : String) :
    bytes (plaintext pre keyID secret) = bytes pre ++ bytes keyID ++ underscore :: bytes secret := by
  have hunderscore : bytes "_" = [underscore] := by rfl
  rw [plaintext, Webhook.bytes_append, Webhook.bytes_append, Webhook.bytes_append, hunderscore,
    List.append_assoc _ [underscore]]
  rfl

theorem cutPrefix_append (pre rest : Bytes) : cutPrefix pre (pre ++ rest) = some rest := by
  induction pre with
  | nil => rfl
  | cons a pre ih => rw [List.cons_append, cutPrefix, if_pos rfl, ih]

/-- What was printed is read back. -/
theorem splitToken_plaintext (pre : String) {keyID secret : String}
    (hkey : RandomHex keyIDBytes keyID) (hsecret : RandomHex secretBytes secret) :
    splitToken (bytes pre) (bytes (plaintext pre keyID secret)) = some (bytes keyID, bytes secret) := by
  obtain ⟨hkeylen, hkeyhex⟩ := randomHex_bytes hkey
  obtain ⟨hsecretlen, -⟩ := randomHex_bytes hsecret
  have hkeep : ∀ b ∈ bytes keyID, decide (b ≠ underscore) = true := by
    intro b hb
    rw [decide_eq_true_eq]
    rintro rfl
    exact underscore_not_hex (hkeyhex _ hb)
  have hdrop : (bytes keyID ++ underscore :: bytes secret).dropWhile (· ≠ underscore) =
      underscore :: bytes secret := by
    rw [List.dropWhile_append_of_pos hkeep]
    simp
  have htake : (bytes keyID ++ underscore :: bytes secret).takeWhile (· ≠ underscore) =
      bytes keyID := by
    rw [List.takeWhile_append_of_pos hkeep]
    simp
  have hkeyne : bytes keyID ≠ [] := by
    intro hnil
    rw [hnil] at hkeylen
    cases hkeylen
  have hsecretne : bytes secret ≠ [] := by
    intro hnil
    rw [hnil] at hsecretlen
    cases hsecretlen
  rw [splitToken, bytes_plaintext, List.append_assoc, cutPrefix_append]
  dsimp only
  rw [hdrop, htake]
  exact if_neg (not_or.mpr ⟨hkeyne, hsecretne⟩)

/-- A key has no `o` where the console's prefix does. -/
theorem not_console {keyID : String} (h : RandomHex keyIDBytes keyID) (rest tail : Bytes) :
    bytes "console_" ++ tail ≠ bytes keyID ++ rest := by
  obtain ⟨hlen, hhex⟩ := randomHex_bytes h
  have hconsole : bytes "console_" = [99, 111, 110, 115, 111, 108, 101, 95] := by rfl
  rw [hconsole]
  intro heq
  match hk : bytes keyID with
  | [] => rw [hk] at hlen; cases hlen
  | [_] => rw [hk] at hlen; cases hlen
  | a :: b :: more =>
    simp only [hk, List.cons_append, List.cons.injEq] at heq
    have hb := hhex b (by rw [hk]; simp)
    rw [← heq.2.1] at hb
    exact absurd hb (by decide)

theorem bytes_consolePrefix : bytes consolePrefix = bytes tokenPrefix ++ bytes "console_" := by
  rfl

theorem cutPrefix_console {keyID : String} (hkey : RandomHex keyIDBytes keyID) (secret : String) :
    cutPrefix (bytes consolePrefix) (bytes (plaintext tokenPrefix keyID secret)) = none := by
  cases hcut : cutPrefix (bytes consolePrefix) (bytes (plaintext tokenPrefix keyID secret)) with
  | none => rfl
  | some rest =>
    have heq := Scim.cutPrefix_eq hcut
    rw [bytes_plaintext, bytes_consolePrefix, List.append_assoc, List.append_assoc,
      List.append_cancel_left_eq] at heq
    exact (not_console hkey _ _ heq.symm).elim

theorem parseConsoleToken_plaintext {keyID : String} (hkey : RandomHex keyIDBytes keyID)
    (secret : String) : parseConsoleToken (bytes (plaintext tokenPrefix keyID secret)) = none := by
  rw [parseConsoleToken, splitToken, cutPrefix_console hkey]

/-! ### White space around a credential -/

theorem dropChars_suffix (chars : List Bytes) (n : Nat) : ∀ s : Bytes, dropChars chars n s <:+ s := by
  induction n with
  | zero =>
    intro s
    exact List.suffix_refl s
  | succ n ih =>
    intro s
    rw [dropChars]
    split
    · exact List.suffix_refl s
    · rename_i rest hfind
      obtain ⟨c, -, hc⟩ := List.exists_of_findSome?_eq_some hfind
      rw [Scim.cutPrefix_eq hc]
      exact (ih rest).trans (List.suffix_append c rest)

/-- Nothing is dropped before a byte that none of the characters begins with. -/
theorem dropChars_cons {chars : List Bytes} {b : UInt8}
    (h : (chars.all fun c => c.head? != some b && !c.isEmpty) = true) (n : Nat) (s : Bytes) :
    dropChars chars n (b :: s) = b :: s := by
  cases n with
  | zero => rfl
  | succ n =>
    have hnone : (chars.findSome? fun c => cutPrefix c (b :: s)) = none := by
      rw [List.findSome?_eq_none_iff]
      intro c hc
      have hcb := List.all_eq_true.mp h c hc
      cases c with
      | nil => simp at hcb
      | cons x xs =>
        have hx : x ≠ b := by
          rintro rfl
          simp at hcb
        rw [cutPrefix, if_neg hx]
    rw [dropChars, hnone]

theorem trimBytes_prefix {b : UInt8} (h : (spaces.all fun c => c.head? != some b && !c.isEmpty) = true)
    (s : Bytes) : trimBytes (b :: s) <+: b :: s := by
  rw [trimBytes, dropChars_cons h]
  rw [← List.reverse_suffix, List.reverse_reverse]
  exact dropChars_suffix _ _ _

theorem trimBytes_eq_self {b z : UInt8} {s t : Bytes} (hs : b :: s = t ++ [z])
    (hb : (spaces.all fun c => c.head? != some b && !c.isEmpty) = true)
    (hz : ((spaces.map List.reverse).all fun c => c.head? != some z && !c.isEmpty) = true) :
    trimBytes (b :: s) = b :: s := by
  rw [trimBytes, dropChars_cons hb]
  have hreverse : (b :: s).reverse = z :: t.reverse := by rw [hs]; simp
  rw [hreverse, dropChars_cons hz, ← hreverse, List.reverse_reverse]

theorem spaces_start : (spaces.all fun c => c.head? != some 115 && !c.isEmpty) = true := by decide

theorem spaces_end {z : UInt8} (h : IsHex z) :
    ((spaces.map List.reverse).all fun c => c.head? != some z && !c.isEmpty) = true := by
  have hends : ((spaces.map List.reverse).all fun c =>
      !c.isEmpty && !(c.head?.any fun x => decide (IsHex x))) = true := by
    decide
  rw [List.all_eq_true] at hends ⊢
  intro c hc
  have hstart := hends c hc
  cases c with
  | nil => simp at hstart
  | cons x xs =>
    have hne : x ≠ z := by
      rintro rfl
      simp [h] at hstart
    simp [hne]

/-! ### Lookups -/

/-- `GetTokenByKeyID`, where the store can be reached. -/
def lookupToken (db : Db) (keyID : Bytes) : Option TokenRow :=
  db.tokens.rows.find? fun r => bytes r.keyID = keyID

def lookupConsoleToken (db : Db) (keyID : Bytes) : Option ConsoleTokenRow :=
  db.consoleTokens.rows.find? fun r => bytes r.keyID = keyID

theorem lookupToken_some {db : Db} {k : Bytes} {row : TokenRow} (h : lookupToken db k = some row) :
    row ∈ db.tokens.rows ∧ bytes row.keyID = k :=
  ⟨List.mem_of_find?_eq_some h, by simpa using List.find?_some h⟩

theorem lookupConsoleToken_some {db : Db} {k : Bytes} {row : ConsoleTokenRow}
    (h : lookupConsoleToken db k = some row) : row ∈ db.consoleTokens.rows ∧ bytes row.keyID = k :=
  ⟨List.mem_of_find?_eq_some h, by simpa using List.find?_some h⟩

/-- A credential is some way in a request. -/
inductive Presents (tok authorization : Bytes) : Prop where
  | bearer : bearerToken authorization = tok → Presents tok authorization
  | trimmed (rest : Bytes) : cutPrefix (bytes "Bearer ") authorization = some rest →
    trimBytes rest = tok → Presents tok authorization
  | password (user : Bytes) : basicAuth authorization = some (user, tok) → Presents tok authorization
  | userName (pass : Bytes) : basicAuth authorization = some (tok, pass) → Presents tok authorization

/-- No other field of Basic auth looks like a credential of the console. -/
def Alone (tok authorization : Bytes) : Prop :=
  ∀ user pass, basicAuth authorization = some (user, pass) →
    (pass = tok → hasPrefix user (bytes consolePrefix) = false) ∧
      (user = tok → hasPrefix pass (bytes consolePrefix) = false)

variable {authorization raw : Bytes} {keyID secret pre : String}

/-- Basic auth is no bearer token. -/
theorem bearerToken_of_basic {user pass : Bytes} (h : basicAuth authorization = some (user, pass)) :
    bearerToken authorization = [] ∧ cutPrefix (bytes "Bearer ") authorization = none := by
  have hbasic : bytes "basic " = [98, 97, 115, 105, 99, 32] := by rfl
  have hbearer : bytes "bearer " = [98, 101, 97, 114, 101, 114, 32] := by rfl
  have hupper : bytes "Bearer " = [66, 101, 97, 114, 101, 114, 32] := by rfl
  rw [basicAuth, hbasic] at h
  split_ifs at h with hscheme
  rw [not_or, not_not, not_lt] at hscheme
  obtain ⟨hlen, hfold⟩ := hscheme
  match authorization with
  | [] => cases hfold
  | [_] => cases congrArg List.length hfold
  | a :: b :: rest =>
    have hb : Scim.foldByte b = 97 := by
      simp only [List.length_cons, List.take_succ_cons, List.map_cons, List.cons.injEq] at hfold
      exact hfold.2.1
    have hne : b ≠ 101 := by
      rintro rfl
      exact absurd hb (by decide)
    constructor
    · rw [bearerToken, hbearer]
      refine if_pos (Or.inr fun heq => ?_)
      simp only [List.length_cons, List.take_succ_cons, List.map_cons, List.cons.injEq] at heq
      rw [hb] at heq
      exact absurd heq.2.1 (by decide)
    · rw [hupper, cutPrefix]
      split
      · rw [cutPrefix, if_neg fun heq => hne heq.symm]
      · rfl

theorem bearerToken_of_bearer {rest : Bytes}
    (h : cutPrefix (bytes "Bearer ") authorization = some rest) : bearerToken authorization = rest := by
  rw [Scim.cutPrefix_eq h]
  have hbearer : bytes "bearer " = [98, 101, 97, 114, 101, 114, 32] := by rfl
  have hupper : bytes "Bearer " = [66, 101, 97, 114, 101, 114, 32] := by rfl
  rw [bearerToken, hbearer, hupper]
  refine if_neg (not_or.mpr ⟨?_, not_not.mpr ?_⟩)
  · simp
  · rfl

/-- A bearer token that the console does not see is read in another case of the scheme. -/
theorem consoleCredential_of_bearer (h : bearerToken authorization ≠ []) :
    consoleCredential authorization = trimBytes (bearerToken authorization) ∨
      consoleCredential authorization = [] := by
  rw [consoleCredential]
  split
  · rename_i rest hcut
    rw [bearerToken_of_bearer hcut]
    exact Or.inl rfl
  · split
    · exact Or.inr rfl
    · rename_i user pass hbasic
      exact (h (bearerToken_of_basic hbasic).1).elim

/-! ### Console credentials on the SCIM listener -/

/-- No stored key is what the console's prefix leaves for a key. -/
theorem authenticate_console (hv : Vault sha256 p q db)
    (h : bytes consolePrefix <+: bearerToken r.authorization) :
    authenticate sha256 now (lookupToken db) r = none := by
  cases hauth : authenticate sha256 now (lookupToken db) r with
  | none => rfl
  | some id =>
    simp only [authenticate, Option.bind_eq_bind, Option.bind_eq_some_iff] at hauth
    obtain ⟨⟨k, s⟩, hparse, tok, htok, -⟩ := hauth
    obtain ⟨rest, hrest⟩ := h
    have hraw := splitToken_eq_some ((parseToken_eq _).symm.trans hparse)
    have hkey : bytes tok.keyID = k := (lookupToken_some htok).2
    obtain ⟨secret, hhex, -⟩ := (vault_honest hv).tokens tok (lookupToken_some htok).1
    have hprefix : bytes tokenPrefix = bytes "scimage_" := rfl
    rw [← hrest, bytes_consolePrefix, hprefix, List.append_assoc, List.append_assoc,
      List.append_cancel_left_eq, ← hkey] at hraw
    exact (not_console hhex _ _ hraw).elim

theorem consolePrefix_plaintext (keyID secret : String) :
    bytes consolePrefix <+: bytes (plaintext consoleTokenPrefix keyID secret) := by
  have hprefix : bytes consoleTokenPrefix = bytes consolePrefix := rfl
  rw [bytes_plaintext, hprefix, List.append_assoc]
  exact List.prefix_append _ _

theorem parseToken_nil : parseToken [] = none := by
  rfl

theorem authenticate_unparsed (h : parseToken (bearerToken r.authorization) = none)
    (lookup : Bytes → Option TokenRow) : authenticate sha256 now lookup r = none := by
  rw [authenticate, h]
  rfl

theorem console_refused (hv : Vault sha256 p q db) {tok : String} (htok : tok ∈ q)
    (h : Presents (bytes tok) r.authorization) : authenticate sha256 now (lookupToken db) r = none := by
  obtain ⟨keyID, secret, -, -, rfl⟩ := (vault_honest hv).consolePrinted tok htok
  have hprefix := consolePrefix_plaintext keyID secret
  cases h with
  | bearer h => exact authenticate_console hv (h ▸ hprefix)
  | trimmed rest hcut htrim =>
    have hbearer := bearerToken_of_bearer hcut
    cases hparse : cutPrefix (bytes "scimage_") rest with
    | none =>
      refine authenticate_unparsed ?_ _
      rw [hbearer, parseToken_eq, splitToken, hparse]
    | some tail =>
      -- the text begins with a letter, so only its end is trimmed
      have hrest : rest = 115 :: (bytes "cimage_" ++ tail) := Scim.cutPrefix_eq hparse
      have hkeep : trimBytes rest <+: rest := by
        rw [hrest]
        exact trimBytes_prefix spaces_start _
      rw [htrim] at hkeep
      refine authenticate_console hv ?_
      rw [hbearer]
      exact hprefix.trans hkeep
  | password user h =>
    refine authenticate_unparsed ?_ _
    rw [(bearerToken_of_basic h).1, parseToken_nil]
  | userName pass h =>
    refine authenticate_unparsed ?_ _
    rw [(bearerToken_of_basic h).1, parseToken_nil]

/-! ### SCIM credentials on the console -/

theorem parseConsoleToken_nil : parseConsoleToken [] = none := by
  rfl

theorem authenticateConsole_unparsed
    (h : parseConsoleToken (consoleCredential r.authorization) = none)
    (lookup : Bytes → Option ConsoleTokenRow) : authenticateConsole sha256 now lookup r = none := by
  rw [authenticateConsole, h]
  rfl

theorem trimBytes_plaintext (hsecret : RandomHex secretBytes secret) (keyID : String) :
    trimBytes (bytes (plaintext tokenPrefix keyID secret)) =
      bytes (plaintext tokenPrefix keyID secret) := by
  obtain ⟨hlen, hhex⟩ := randomHex_bytes hsecret
  have hne : bytes secret ≠ [] := by
    intro hnil
    rw [hnil] at hlen
    cases hlen
  have hlast := List.dropLast_concat_getLast hne
  have hz := hhex _ (List.getLast_mem hne)
  generalize (bytes secret).getLast hne = z at hlast hz
  have hstart : bytes (plaintext tokenPrefix keyID secret) =
      115 :: (bytes "cimage_" ++ bytes keyID ++ underscore :: bytes secret) := by
    rw [bytes_plaintext]
    rfl
  have hend : bytes (plaintext tokenPrefix keyID secret) =
      (bytes tokenPrefix ++ bytes keyID ++ underscore :: (bytes secret).dropLast) ++ [z] := by
    rw [bytes_plaintext, List.append_assoc _ (underscore :: _), List.cons_append, hlast]
  rw [hstart] at hend ⊢
  exact trimBytes_eq_self hend spaces_start (spaces_end hz)

theorem scim_refused (hv : Vault sha256 p q db) {tok : String} (htok : tok ∈ p)
    (h : Presents (bytes tok) r.authorization) (halone : Alone (bytes tok) r.authorization) :
    authenticateConsole sha256 now (lookupConsoleToken db) r = none := by
  obtain ⟨keyID, secret, hkey, hsecret, rfl⟩ := (vault_honest hv).printed tok htok
  have hnone := parseConsoleToken_plaintext hkey secret
  have htrim := trimBytes_plaintext hsecret keyID
  have hother : hasPrefix (bytes (plaintext tokenPrefix keyID secret)) (bytes consolePrefix) = false := by
    rw [hasPrefix, cutPrefix_console hkey]
    rfl
  refine authenticateConsole_unparsed ?_ _
  cases h with
  | bearer h =>
    have hne : bearerToken r.authorization ≠ [] := by
      rw [h, bytes_plaintext]
      simp
    rcases consoleCredential_of_bearer hne with heq | heq
    · rw [heq, h, htrim, hnone]
    · rw [heq, parseConsoleToken_nil]
  | trimmed rest hcut heq =>
    have hread : consoleCredential r.authorization = trimBytes rest := by
      rw [consoleCredential, hcut]
    rw [hread, heq, hnone]
  | password user h =>
    have huser := (halone user _ h).1 rfl
    rw [consoleCredential, (bearerToken_of_basic h).2, h]
    simp [hother, huser, parseConsoleToken_nil]
  | userName pass h =>
    have hpass := (halone _ pass h).2 rfl
    rw [consoleCredential, (bearerToken_of_basic h).2, h]
    simp [hother, hpass, parseConsoleToken_nil]

/-! ### What is accepted -/

/-- A key and a secret that are stored make up what was printed. -/
theorem minted_plaintext (hsha : Function.Injective sha256) {printed : List String} {k s hash : Bytes}
    (hparse : splitToken (bytes pre) raw = some (k, s)) (hkey : bytes keyID = k)
    (hhash : sha256 s = hash) (hm : Minted sha256 pre printed keyID hash) :
    ∃ secret, hash = sha256 (bytes secret) ∧ plaintext pre keyID secret ∈ printed ∧
      raw = bytes (plaintext pre keyID secret) := by
  obtain ⟨secret, -, -, hsecret, hprinted⟩ := hm
  refine ⟨secret, hsecret, hprinted, ?_⟩
  rw [splitToken_eq_some hparse, bytes_plaintext, hkey, hsha (hhash.trans hsecret)]

theorem authenticate_printed (hsha : Function.Injective sha256) (hv : Vault sha256 p q db)
    {id : Identity} (h : authenticate sha256 now (lookupToken db) r = some id) :
    ∃ row ∈ db.tokens.rows, row.revokedAt = none ∧ (∀ t ∈ row.expiresAt, now < t) ∧
      ∃ secret, row.secretHash = sha256 (bytes secret) ∧ plaintext tokenPrefix row.keyID secret ∈ p ∧
        bearerToken r.authorization = bytes (plaintext tokenPrefix row.keyID secret) := by
  simp only [authenticate, Option.bind_eq_bind, Option.bind_eq_some_iff] at h
  obtain ⟨⟨k, s⟩, hparse, tok, htok, h⟩ := h
  split_ifs at h with hrevoked hexpired hsecret
  obtain ⟨hmem, hkey⟩ := lookupToken_some htok
  refine ⟨tok, hmem, by simpa using hrevoked, fun t ht => ?_, ?_⟩
  · by_contra hle
    exact hexpired ⟨t, ht, Int.not_lt.mp hle⟩
  · exact minted_plaintext hsha hparse hkey (not_not.mp hsecret) ((vault_honest hv).tokens tok hmem)

theorem authenticateConsole_printed (hsha : Function.Injective sha256) (hv : Vault sha256 p q db)
    {id : ConsoleIdentity} (h : authenticateConsole sha256 now (lookupConsoleToken db) r = some id) :
    ∃ row ∈ db.consoleTokens.rows, row.revokedAt = none ∧ (∀ t ∈ row.expiresAt, now < t) ∧
      ∃ secret, row.secretHash = sha256 (bytes secret) ∧
        plaintext consoleTokenPrefix row.keyID secret ∈ q ∧
        consoleCredential r.authorization = bytes (plaintext consoleTokenPrefix row.keyID secret) := by
  obtain ⟨k, s, tok, hparse, htok, hrevoked, hlive, hsecret⟩ := authenticateConsole_some h
  obtain ⟨hmem, hkey⟩ := lookupConsoleToken_some htok
  exact ⟨tok, hmem, hrevoked, hlive,
    minted_plaintext hsha hparse hkey hsecret ((vault_honest hv).consoleTokens tok hmem)⟩

/-- Each listener reads its own tokens as they were printed and accepts nothing else. -/
theorem credentials_apart (sha256 : Bytes → Bytes) :
    (∀ keyID secret, RandomHex keyIDBytes keyID → RandomHex secretBytes secret →
      parseToken (bytes (plaintext tokenPrefix keyID secret)) = some (bytes keyID, bytes secret) ∧
      parseConsoleToken (bytes (plaintext consoleTokenPrefix keyID secret)) =
        some (bytes keyID, bytes secret) ∧
      parseConsoleToken (bytes (plaintext tokenPrefix keyID secret)) = none) ∧
      ∀ p q db, Vault sha256 p q db → ∀ (now : Time) (r : WebRequest),
        (∀ tok ∈ q, Presents (bytes tok) r.authorization →
          authenticate sha256 now (lookupToken db) r = none) ∧
        (∀ tok ∈ p, Presents (bytes tok) r.authorization → Alone (bytes tok) r.authorization →
          authenticateConsole sha256 now (lookupConsoleToken db) r = none) ∧
        (Function.Injective sha256 →
          (∀ id, authenticate sha256 now (lookupToken db) r = some id →
            ∃ row ∈ db.tokens.rows, row.revokedAt = none ∧ (∀ t ∈ row.expiresAt, now < t) ∧
              ∃ secret, row.secretHash = sha256 (bytes secret) ∧
                plaintext tokenPrefix row.keyID secret ∈ p ∧
                bearerToken r.authorization = bytes (plaintext tokenPrefix row.keyID secret)) ∧
          ∀ id, authenticateConsole sha256 now (lookupConsoleToken db) r = some id →
            ∃ row ∈ db.consoleTokens.rows, row.revokedAt = none ∧ (∀ t ∈ row.expiresAt, now < t) ∧
              ∃ secret, row.secretHash = sha256 (bytes secret) ∧
                plaintext consoleTokenPrefix row.keyID secret ∈ q ∧
                consoleCredential r.authorization =
                  bytes (plaintext consoleTokenPrefix row.keyID secret)) := by
  refine ⟨fun keyID secret hkey hsecret => ⟨?_, ?_, parseConsoleToken_plaintext hkey secret⟩, ?_⟩
  · rw [parseToken_eq]
    exact splitToken_plaintext tokenPrefix hkey hsecret
  · exact splitToken_plaintext consoleTokenPrefix hkey hsecret
  · intro p q db hv now r
    exact ⟨fun tok htok => console_refused hv htok, fun tok htok => scim_refused hv htok,
      fun hsha => ⟨fun id => authenticate_printed hsha hv, fun id => authenticateConsole_printed hsha hv⟩⟩

end Scimage.Console
