import Scimage.Lib.JsonStream
import Scimage.Lib.Utf8
import Scimage.Scim.Batch

/-! The bytes of a request's body, and what the write endpoints take for one. -/
namespace Scimage.Scim

open Json (Value First)

/-! ### Reading a body -/

def maxBodyBytes : Nat := 1048576

/-- `MaxBytesReader` and `ReadAll`, then `Unmarshal`. -/
def readAll (body : List UInt8) : Received :=
  if maxBodyBytes < body.length then .tooLarge
  else
    match Json.read (Utf8.decode 0 body) with
    | some v => .value v
    | none => .malformed

/-- The first value within what `MaxBytesReader` lets through. -/
def firstValue (body : List UInt8) : First :=
  Json.first .start (Utf8.decode 0 (body.take maxBodyBytes))

/-- `MaxBytesReader` and the streaming decoder: what comes after the value is never read. -/
def readFirst (body : List UInt8) : Received :=
  match firstValue body with
  | .value v => .value v
  | .broken => .malformed
  | .unfinished s =>
    if maxBodyBytes < body.length then .tooLarge
    else
      match s.finish with
      | some v => .value v
      | none => .malformed

/-- How each endpoint reads its body. -/
def readBody (resource : Store.Resource) (method : Method) (body : List UInt8) : Received :=
  match resource, method with
  | .user, .post | .user, .put => readAll body
  | _, _ => readFirst body

/-! ### What a handler answers -/

/-- The results of a program, whatever the database answers. -/
inductive Returns {Stmt ε α : Type} {Rows : Stmt → Type} : Txn.Prog Rows ε α → α → Prop where
  | done (a : α) : Returns (.done a) a
  | call {e : Txn.Effect Stmt} {k : e.Answer Rows ε → Txn.Prog Rows ε α} (answer : e.Answer Rows ε)
    {a : α} : Returns (k answer) a → Returns (.call e k) a

/-- The answer is always this one, and nothing is asked of the store before. -/
structure Refuses (p : Handling Response) (resp : Response) : Prop where
  answer : ∀ x, Returns p.run x → x = .error resp
  untouched : ∃ x, p.run = .done x

theorem refuses_of_eq {p : Handling Response} {resp : Response} (h : p.run = .done (.error resp)) :
    Refuses p resp := by
  refine ⟨fun x hx => ?_, _, h⟩
  rw [h] at hx
  cases hx
  rfl

/-- Whatever the database holds, it holds afterwards. -/
theorem Refuses.serve_eq {p : Handling Response} {resp : Response} (h : Refuses p resp)
    (pg : Store.Postgres) (supply : Nat → Txn.Supply Store.Env Store.DbError) (db : Store.Db) :
    serve pg supply p db = (resp, db) := by
  obtain ⟨x, hrun⟩ := h.untouched
  have hx : x = .error resp := by
    refine h.answer x ?_
    rw [hrun]
    exact .done x
  rw [serve, hrun, hx]
  rfl

theorem not_refuses_of_returns {p : Handling Response} {resp : Response} {x : Except Response Response}
    (h : Returns p.run x) (hx : x ≠ .error resp) : ¬ Refuses p resp :=
  fun hr => hx (hr.answer x h)

/-- A handler refuses for what it read of the body, or not at all. -/
theorem refuses_bind_iff {α : Type} {x : Except Response α} {k : α → Handling Response}
    {resp : Response} (hk : ∀ a, ¬ Refuses (k a) resp) :
    Refuses (ofExcept x >>= k) resp ↔ x = .error resp := by
  cases x with
  | error e =>
    have hrun : (ofExcept (.error e) >>= k : Handling Response).run = .done (.error e) := rfl
    constructor
    · intro h
      rw [Except.error.injEq]
      exact (Except.error.inj (h.answer _ (hrun ▸ .done _)))
    · intro h
      rw [Except.error.injEq] at h
      exact refuses_of_eq (h ▸ hrun)
  | ok a => exact iff_of_false (hk a) (by simp)

variable {h : Handler} {r : Request} {resource : Store.Resource} {method : Method}
  {body : List UInt8} {resp : Response}

/-- The two answers to a body that is none. -/
def BodyAnswer (resp : Response) : Prop := resp = bodyTooLarge ∨ resp = notValidJSON

theorem serverError_ne (hresp : BodyAnswer resp) : serverError ≠ resp := by
  rcases hresp with rfl | rfl
  · intro heq
    cases congrArg Response.status heq
  · intro heq
    cases congrArg Response.status heq

theorem refusal_ne {e : Refusal} (hresp : BodyAnswer resp) (he : e.scimType ≠ "invalidSyntax") :
    Refusal.response e ≠ resp := by
  rcases hresp with rfl | rfl
  · intro heq
    cases congrArg Response.status heq
  · intro heq
    have hbody := congrArg Response.body heq
    simp only [Refusal.response, notValidJSON, writeError, Body.error.injEq] at hbody
    exact he hbody.1

theorem not_refuses_failed {p : Handling Response} (hresp : BodyAnswer resp)
    (hp : Returns p.run (.error serverError)) : ¬ Refuses p resp :=
  not_refuses_of_returns hp fun heq => serverError_ne hresp (Except.error.inj heq)

/-! ### Endpoints whose body has been read -/

/-- What `createGroup` does with its group. -/
def createGroupWith (h : Handler) (r : Request) (g : Group) : Handling Response := do
  let created ← refusedWith groupError (h.store.createGroup r.tenantID (toStoreGroup g) r.caller)
  return ⟨201, r.baseURL ++ "/Groups/" ++ created.id, .resource (h.groupResource r created)⟩

def replaceGroupWith (h : Handler) (r : Request) (g : Group) : Handling Response := do
  ofExcept (sameID r g.id)
  let changed ← refusedWith groupError
    (h.store.updateGroup r.tenantID r.id (toStoreGroup g) r.caller)
  return writeJSON 200 (h.groupResource r changed.after)

def patchWith (h : Handler) (r : Request) (p : PatchOp) : Handling Response := do
  let existing ← refusedWith lookupError (Store.getUser r.tenantID r.id)
  let registry ← h.registered r
  let su ← ofExcept (h.patchedUser r registry existing p)
  let changed ← refusedWith updateError (h.store.updateUser r.tenantID r.id su r.caller)
  return writeJSON 200 (h.userResource r changed.after)

def patchGroupWith (h : Handler) (r : Request) (p : PatchOp) : Handling Response := do
  let existing ← refusedWith groupError (Store.getGroup r.tenantID r.id)
  let sg ← ofExcept (h.patchedGroup r existing p)
  let changed ← refusedWith groupError (h.store.updateGroup r.tenantID r.id sg r.caller)
  return writeJSON 200 (h.groupResource r changed.after)

theorem createGroup_eq (h : Handler) (r : Request) :
    h.createGroup r = ofExcept (h.decodedGroup r) >>= createGroupWith h r := rfl

theorem replaceGroup_eq (h : Handler) (r : Request) :
    h.replaceGroup r = ofExcept (h.decodedGroup r) >>= replaceGroupWith h r := rfl

theorem patch_eq (h : Handler) (r : Request) :
    h.patch r = ofExcept (receivedPatch r) >>= patchWith h r := rfl

theorem patchGroup_eq (h : Handler) (r : Request) :
    h.patchGroup r = ofExcept (receivedPatch r) >>= patchGroupWith h r := rfl

/-- A transaction that does not begin fails the request. -/
theorem createGroupWith_fails (g : Group) :
    Returns (createGroupWith h r g).run (.error serverError) := by
  refine Returns.call (e := .begin) (Except.error Store.DbError.lost) ?_
  exact .done _

theorem patchWith_fails (p : PatchOp) : Returns (patchWith h r p).run (.error serverError) := by
  refine Returns.call (e := .pool (Store.Stmt.selectUser r.tenantID r.id))
    (Except.error Store.DbError.lost) ?_
  exact .done _

theorem patchGroupWith_fails (p : PatchOp) :
    Returns (patchGroupWith h r p).run (.error serverError) := by
  refine Returns.call (e := .pool (Store.Stmt.selectGroup r.tenantID r.id))
    (Except.error Store.DbError.lost) ?_
  exact .done _

theorem replaceGroupWith_proceeds (hresp : BodyAnswer resp) (g : Group) :
    ¬ Refuses (replaceGroupWith h r g) resp := by
  by_cases hid : g.id ≠ "" ∧ g.id ≠ r.id
  · have hsame : sameID r g.id = .error (Refusal.response .mutability) := if_pos hid
    have hreturns : Returns (replaceGroupWith h r g).run (.error (Refusal.response .mutability)) := by
      rw [replaceGroupWith, hsame]
      exact .done _
    refine not_refuses_of_returns hreturns fun heq => ?_
    exact refusal_ne hresp (by decide) (Except.error.inj heq)
  · have hsame : sameID r g.id = .ok () := if_neg hid
    refine not_refuses_failed hresp ?_
    rw [replaceGroupWith, hsame]
    refine Returns.call (e := .begin) (Except.error Store.DbError.lost) ?_
    exact .done _

/-! ### When an endpoint refuses a body as such -/

theorem decodedGroup_error_iff (hresp : BodyAnswer resp) : h.decodedGroup r = .error resp ↔
    received r = .error resp ∨
      resp = notValidJSON ∧ ∃ v, received r = .ok v ∧ readGroup h.times v = none := by
  rw [Handler.decodedGroup]
  cases hreceived : received r with
  | error e => simp [bind, Except.bind]
  | ok v =>
    have hbind : (do
        let v ← (.ok v : Except Response Value)
        checked (decodeGroup h.times v)) = checked (decodeGroup h.times v) := rfl
    rw [hbind, decodeGroup]
    cases hread : readGroup h.times v with
    | none =>
      have hnone : checked (.error .notJson : Except Refusal Group) = .error notValidJSON := rfl
      dsimp only
      rw [hnone, Except.error.injEq]
      constructor
      · intro heq
        exact Or.inr ⟨heq.symm, v, rfl, hread⟩
      · rintro (heq | ⟨heq, -⟩)
        · cases heq
        · exact heq.symm
    | some g =>
      dsimp only
      refine iff_of_false (fun heq => ?_) ?_
      · split_ifs at heq with hvalid
        · exact refusal_ne hresp (by simp [Refusal.scimType]) (Except.error.inj heq)
        · cases heq
      · rintro (heq | ⟨-, v', heq, hnone⟩)
        · cases heq
        · cases heq
          rw [hread] at hnone
          cases hnone

theorem createGroup_refuses_iff (hresp : BodyAnswer resp) : Refuses (h.createGroup r) resp ↔
    received r = .error resp ∨
      resp = notValidJSON ∧ ∃ v, received r = .ok v ∧ readGroup h.times v = none := by
  rw [createGroup_eq, refuses_bind_iff fun g => not_refuses_failed hresp (createGroupWith_fails g)]
  exact decodedGroup_error_iff hresp

theorem replaceGroup_refuses_iff (hresp : BodyAnswer resp) : Refuses (h.replaceGroup r) resp ↔
    received r = .error resp ∨
      resp = notValidJSON ∧ ∃ v, received r = .ok v ∧ readGroup h.times v = none := by
  rw [replaceGroup_eq, refuses_bind_iff (replaceGroupWith_proceeds hresp)]
  exact decodedGroup_error_iff hresp

/-- A PATCH has one answer for everything that it cannot read. -/
theorem receivedPatch_error_iff : receivedPatch r = .error resp ↔ resp = notValidJSON ∧
    ∀ v, r.body = .value v → readPatch v = none := by
  rw [receivedPatch]
  cases hbody : r.body with
  | tooLarge => simp [eq_comm]
  | malformed => simp [eq_comm]
  | value v =>
    cases hread : readPatch v with
    | none => simp [hread, eq_comm]
    | some p => simp [hread]

theorem patch_refuses_iff (hresp : BodyAnswer resp) : Refuses (h.patch r) resp ↔
    resp = notValidJSON ∧ ∀ v, r.body = .value v → readPatch v = none := by
  rw [patch_eq, refuses_bind_iff fun p => not_refuses_failed hresp (patchWith_fails p)]
  exact receivedPatch_error_iff

theorem patchGroup_refuses_iff (hresp : BodyAnswer resp) : Refuses (h.patchGroup r) resp ↔
    resp = notValidJSON ∧ ∀ v, r.body = .value v → readPatch v = none := by
  rw [patchGroup_eq, refuses_bind_iff fun p => not_refuses_failed hresp (patchGroupWith_fails p)]
  exact receivedPatch_error_iff

/-! ### What the endpoints agree on -/

/-- One JSON value with white space around it. -/
def OneValue (body : List UInt8) : Prop := (Json.read (Utf8.decode 0 body)).isSome

def Request.withBody (r : Request) (resource : Store.Resource) (method : Method)
    (body : List UInt8) : Request :=
  { r with body := readBody resource method body }

/-- A large body is answered 413, one that is not one value 400, and nothing is done. -/
structure Agrees (h : Handler) (r : Request) (resource : Store.Resource) (method : Method)
    (body : List UInt8) : Prop where
  large : maxBodyBytes < body.length →
    Refuses (h.mutate (r.withBody resource method body) resource method) bodyTooLarge
  malformed : body.length ≤ maxBodyBytes → ¬ OneValue body →
    Refuses (h.mutate (r.withBody resource method body) resource method) notValidJSON

/-- What the endpoint needs of a body for that. -/
def Conforms (h : Handler) (resource : Store.Resource) (method : Method) (body : List UInt8) : Prop :=
  match resource, method with
  | _, .patch => body.length ≤ maxBodyBytes ∧
    (¬ OneValue body → ∀ v, firstValue body = .value v → readPatch v = none)
  | .user, _ => True
  | .group, _ => (maxBodyBytes < body.length → ∃ s, firstValue body = .unfinished s) ∧
    (body.length ≤ maxBodyBytes → ¬ OneValue body →
      ∀ v, firstValue body = .value v → readGroup h.times v = none)

theorem readAll_large (hlen : maxBodyBytes < body.length) : readAll body = .tooLarge := if_pos hlen

theorem readAll_malformed (hlen : body.length ≤ maxBodyBytes) (hone : ¬ OneValue body) :
    readAll body = .malformed := by
  have hread : Json.read (Utf8.decode 0 body) = none := by simpa [OneValue] using hone
  rw [readAll, if_neg (Nat.not_lt.mpr hlen), hread]

/-- A stream that has not ended within the limit is too large. -/
theorem readFirst_tooLarge_iff (hlen : maxBodyBytes < body.length) :
    readFirst body = .tooLarge ↔ ∃ s, firstValue body = .unfinished s := by
  rw [readFirst]
  cases firstValue body <;> simp [hlen]

/-- Below the limit a body that is not one value is malformed or starts with a value. -/
theorem readFirst_small (hlen : body.length ≤ maxBodyBytes) (hone : ¬ OneValue body) :
    readFirst body = .malformed ∧ (∀ v, firstValue body ≠ .value v) ∨
      ∃ v, firstValue body = .value v ∧ readFirst body = .value v := by
  rw [readFirst]
  cases hfirst : firstValue body with
  | value v => exact Or.inr ⟨v, rfl, rfl⟩
  | broken => exact Or.inl ⟨rfl, fun v hv => by cases hv⟩
  | unfinished s =>
    have hscan := Json.scan_of_unfinished hfirst
    rw [List.take_of_length_le hlen] at hscan
    have hfinish : s.finish = none := by
      have hread : Json.read (Utf8.decode 0 body) = none := by simpa [OneValue] using hone
      rw [Json.read, hscan] at hread
      exact hread
    dsimp only
    rw [if_neg (Nat.not_lt.mpr hlen), hfinish]
    exact Or.inl ⟨rfl, fun v hv => by cases hv⟩

theorem received_tooLarge (hbody : r.body = .tooLarge) : received r = .error bodyTooLarge := by
  rw [received, hbody]

theorem received_malformed (hbody : r.body = .malformed) : received r = .error notValidJSON := by
  rw [received, hbody]

theorem received_value {v : Value} (hbody : r.body = .value v) : received r = .ok v := by
  rw [received, hbody]

theorem bodyTooLarge_ne : bodyTooLarge ≠ notValidJSON := by
  intro heq
  cases congrArg Response.status heq

theorem received_tooLarge_iff :
    received (r.withBody resource method body) = .error bodyTooLarge ↔
      readBody resource method body = .tooLarge := by
  cases hbody : readBody resource method body with
  | tooLarge => exact iff_of_true (received_tooLarge hbody) rfl
  | malformed =>
    rw [received_malformed (r := r.withBody resource method body) hbody, Except.error.injEq]
    exact iff_of_false bodyTooLarge_ne.symm (by simp)
  | value v => simp [received_value (r := r.withBody resource method body) hbody]

/-- A user's body is read to its end before anything else is done with it. -/
theorem user_agrees (hm : method = .post ∨ method = .put) : Agrees h r .user method body := by
  have hread : (r.withBody .user method body).body = readAll body := by rcases hm with rfl | rfl <;> rfl
  have hrefuses : ∀ resp, received (r.withBody .user method body) = .error resp →
      Refuses (h.mutate (r.withBody .user method body) .user method) resp := by
    intro resp hreceived
    refine refuses_of_eq ?_
    rcases hm with rfl | rfl
    · rw [Handler.mutate, Handler.create, Handler.decodedUser, hreceived]
      rfl
    · rw [Handler.mutate, Handler.replace, Handler.decodedUser, hreceived]
      rfl
  constructor
  · intro hlen
    exact hrefuses _ (received_tooLarge (hread.trans (readAll_large hlen)))
  · intro hlen hone
    exact hrefuses _ (received_malformed (hread.trans (readAll_malformed hlen hone)))

theorem group_refuses_iff (hm : method = .post ∨ method = .put) (hresp : BodyAnswer resp) :
    Refuses (h.mutate (r.withBody .group method body) .group method) resp ↔
      received (r.withBody .group method body) = .error resp ∨
        resp = notValidJSON ∧ ∃ v, received (r.withBody .group method body) = .ok v ∧
          readGroup h.times v = none := by
  rcases hm with rfl | rfl
  · exact createGroup_refuses_iff hresp
  · exact replaceGroup_refuses_iff hresp

theorem group_large_iff (hm : method = .post ∨ method = .put) (hlen : maxBodyBytes < body.length) :
    Refuses (h.mutate (r.withBody .group method body) .group method) bodyTooLarge ↔
      ∃ s, firstValue body = .unfinished s := by
  have hread : readBody .group method body = readFirst body := by rcases hm with rfl | rfl <;> rfl
  rw [group_refuses_iff hm (Or.inl rfl), or_iff_left fun hor => bodyTooLarge_ne hor.1,
    received_tooLarge_iff, hread, readFirst_tooLarge_iff hlen]

theorem group_malformed_iff (hm : method = .post ∨ method = .put)
    (hlen : body.length ≤ maxBodyBytes) (hone : ¬ OneValue body) :
    Refuses (h.mutate (r.withBody .group method body) .group method) notValidJSON ↔
      ∀ v, firstValue body = .value v → readGroup h.times v = none := by
  have hread : (r.withBody .group method body).body = readFirst body := by
    rcases hm with rfl | rfl <;> rfl
  rw [group_refuses_iff hm (Or.inr rfl)]
  obtain ⟨hmalformed, hnone⟩ | ⟨v, hfirst, hvalue⟩ := readFirst_small hlen hone
  · exact iff_of_true (Or.inl (received_malformed (hread.trans hmalformed)))
      fun v hv => (hnone v hv).elim
  · have hreceived := received_value (hread.trans hvalue)
    rw [hreceived]
    constructor
    · rintro (heq | ⟨-, v', heq, hshape⟩) v'' hv
      · cases heq
      · cases heq
        cases hfirst.symm.trans hv
        exact hshape
    · intro hshape
      exact Or.inr ⟨rfl, v, rfl, hshape v hfirst⟩

theorem patch_mutate_iff (hresp : BodyAnswer resp) :
    Refuses (h.mutate (r.withBody resource .patch body) resource .patch) resp ↔
      resp = notValidJSON ∧ ∀ v, readFirst body = .value v → readPatch v = none := by
  cases resource with
  | user => exact patch_refuses_iff hresp
  | group => exact patchGroup_refuses_iff hresp

theorem patch_malformed_iff (hlen : body.length ≤ maxBodyBytes) (hone : ¬ OneValue body) :
    Refuses (h.mutate (r.withBody resource .patch body) resource .patch) notValidJSON ↔
      ∀ v, firstValue body = .value v → readPatch v = none := by
  rw [patch_mutate_iff (Or.inr rfl), and_iff_right rfl]
  obtain ⟨hmalformed, hnone⟩ | ⟨v, hfirst, hvalue⟩ := readFirst_small hlen hone
  · rw [hmalformed]
    exact iff_of_true (fun v hv => by cases hv) fun v hv => (hnone v hv).elim
  · rw [hfirst, hvalue]
    simp

theorem not_patch_large :
    ¬ Refuses (h.mutate (r.withBody resource .patch body) resource .patch) bodyTooLarge := by
  rw [patch_mutate_iff (Or.inl rfl)]
  exact fun hand => bodyTooLarge_ne hand.1

theorem patch_agrees_iff : Agrees h r resource .patch body ↔ body.length ≤ maxBodyBytes ∧
    (¬ OneValue body → ∀ v, firstValue body = .value v → readPatch v = none) := by
  constructor
  · intro hagrees
    have hlen : body.length ≤ maxBodyBytes :=
      Nat.not_lt.mp fun hlarge => not_patch_large (hagrees.large hlarge)
    exact ⟨hlen, fun hone => (patch_malformed_iff hlen hone).mp (hagrees.malformed hlen hone)⟩
  · rintro ⟨hlen, hshape⟩
    exact ⟨fun hlarge => absurd hlen (Nat.not_le.mpr hlarge),
      fun _ hone => (patch_malformed_iff hlen hone).mpr (hshape hone)⟩

theorem group_agrees_iff (hm : method = .post ∨ method = .put) : Agrees h r .group method body ↔
    (maxBodyBytes < body.length → ∃ s, firstValue body = .unfinished s) ∧
      (body.length ≤ maxBodyBytes → ¬ OneValue body →
        ∀ v, firstValue body = .value v → readGroup h.times v = none) := by
  constructor
  · intro hagrees
    exact ⟨fun hlen => (group_large_iff hm hlen).mp (hagrees.large hlen),
      fun hlen hone => (group_malformed_iff hm hlen hone).mp (hagrees.malformed hlen hone)⟩
  · rintro ⟨hlarge, hshape⟩
    exact ⟨fun hlen => (group_large_iff hm hlen).mpr (hlarge hlen),
      fun hlen hone => (group_malformed_iff hm hlen hone).mpr (hshape hlen hone)⟩

/-- An endpoint agrees on a body exactly when its way of reading does not stop before the end. -/
theorem bodies_agree_iff (h : Handler) (r : Request) (resource : Store.Resource) (method : Method)
    (hm : method ≠ .delete) (body : List UInt8) :
    Agrees h r resource method body ↔ Conforms h resource method body := by
  cases method with
  | delete => exact absurd rfl hm
  | patch => exact patch_agrees_iff
  | post =>
    cases resource with
    | user => exact iff_of_true (user_agrees (Or.inl rfl)) trivial
    | group => exact group_agrees_iff (Or.inl rfl)
  | put =>
    cases resource with
    | user => exact iff_of_true (user_agrees (Or.inr rfl)) trivial
    | group => exact group_agrees_iff (Or.inr rfl)

theorem bodies_agree_truncated : Agrees plainHandler missingUser .user .patch [123] := by
  refine (bodies_agree_iff plainHandler missingUser .user .patch (by decide) [123]).mpr ⟨by decide, ?_⟩
  intro _ v hv
  have hfirst : firstValue [123] = .unfinished ⟨[], .firstKey⟩ := by rfl
  rw [hfirst] at hv
  cases hv

/-- A PATCH with an empty object behind it. -/
def switchOffTail : List UInt8 :=
  "\x7b\"Operations\":[\x7b\"op\":\"replace\",\"path\":\"active\",\"value\":false\x7d]\x7d\x7b\x7d".toUTF8.data.toList

/-- Two values are taken for the first of them, and the user is changed. -/
theorem bodies_disagree :
    let r := switchOff.withBody .user .patch switchOffTail
    ¬ OneValue switchOffTail ∧ ¬ Agrees plainHandler switchOff .user .patch switchOffTail ∧
      (serve blobless paulSupply (plainHandler.mutate r .user .patch) oneAnn).1.status = 200 := by
  have hone : ¬ OneValue switchOffTail := by
    rw [OneValue]
    decide
  have hlen : switchOffTail.length ≤ maxBodyBytes := by decide
  have hfirst : firstValue switchOffTail = .value inactivePatch := by rfl
  have hread : readPatch inactivePatch ≠ none := by
    intro hnone
    cases hnone
  refine ⟨hone, fun hagrees => ?_, by rfl⟩
  exact hread ((patch_malformed_iff hlen hone).mp (hagrees.malformed hlen hone) _ hfirst)

end Scimage.Scim
