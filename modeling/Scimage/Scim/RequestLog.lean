import Scimage.Scim.Chain
import Scimage.Scim.Serve

/-! Request logging, and when the endpoints behind it do not notice. -/
namespace Scimage.Scim

open Txn Engine
open Store (engine Db Env DbError StoreError StoreWorld Postgres Resource)
open Json (Value Completes)

/-- What one entry records at most. -/
def maxLoggedBody : Nat := 2048

/-- The handler behind it gets what has been read for the entry. -/
def logRequests (on : Bool) (next : Incoming → Handling Response) (r : Incoming) : Handling Response :=
  if on then next { r with body := r.body.take maxLoggedBody } else next r

/-- `Routes`. A deadline of `withTimeout` that passes is a failure of the database. -/
def Chain.routes (s : Chain) (logging : Bool) : Incoming → Handling Response :=
  logRequests logging fun r => s.requireToken (s.throttle (s.route r)) r.web

/-! ### The value that a prefix completes -/

variable {body : Bytes}

theorem completes_of_take {n : Nat} {q rest : List Char} {v : Value}
    (hq : Utf8.decode 0 (body.take n) = q ++ rest) (h : Completes q v) :
    ∃ rest', Utf8.decode 0 body = q ++ rest' := by
  obtain ⟨p, k, t, htake, hwhole⟩ := Utf8.decode_take n body
  rcases List.append_eq_append_iff.mp (hq.symm.trans htake) with ⟨ms, hp, -⟩ | ⟨ms, hq', hms⟩
  · exact ⟨ms ++ t, by rw [hwhole, hp, List.append_assoc]⟩
  · -- the stray bytes at the end are no white space, so they complete nothing
    obtain ⟨-, hstray, -⟩ := List.replicate_eq_append_iff.mp hms
    rw [hstray] at hq'
    rw [hq'] at h
    have hnone := h.narrow (by decide)
    rw [hnone, List.replicate_zero, List.append_nil] at hq'
    exact ⟨t, by rw [hwhole, hq']⟩

/-- An endpoint takes a value that the front of its body completes. -/
theorem readBody_completes {resource : Resource} {m : Method} {v : Value}
    (h : readBody resource m body = .value v) (hv : v.isNumber = false) :
    ∃ q rest, Utf8.decode 0 body = q ++ rest ∧ Completes q v := by
  have hall : readAll body = .value v → ∃ q rest, Utf8.decode 0 body = q ++ rest ∧ Completes q v := by
    intro h
    unfold readAll at h
    split_ifs at h
    split at h
    · rename_i w hread
      cases h
      exact ⟨_, [], (List.append_nil _).symm, Json.read_completes hread hv⟩
    · cases h
  have hfirst : readFirst body = .value v → ∃ q rest, Utf8.decode 0 body = q ++ rest ∧ Completes q v := by
    intro h
    unfold readFirst at h
    split at h
    · rename_i w hvalue
      cases h
      obtain ⟨q, rest, hq, hcompletes⟩ := Json.first_completes hvalue hv
      obtain ⟨rest', hwhole⟩ := completes_of_take hq hcompletes
      exact ⟨q, rest', hwhole, hcompletes⟩
    · cases h
    · rename_i t hunfinished
      split_ifs at h
      split at h
      · rename_i w hfinish
        cases h
        have hscan := Json.scan_of_unfinished hunfinished
        rw [Json.finish_completes hfinish hv] at hscan
        obtain ⟨rest', hwhole⟩ := completes_of_take (List.append_nil _).symm hscan
        exact ⟨_, rest', hwhole, hscan⟩
      · cases h
  unfold readBody at h
  split at h
  · exact hall h
  · exact hall h
  · exact hfirst h

/-- What is read of the front of a body is what is read of the body. -/
theorem readBody_take {resource : Resource} {m : Method} {n : Nat} {v v' : Value}
    (h : readBody resource m (body.take n) = .value v) (hv : v.isNumber = false)
    (h' : readBody resource m body = .value v') (hv' : v'.isNumber = false) : v = v' := by
  obtain ⟨q, rest, hq, hcompletes⟩ := readBody_completes h hv
  obtain ⟨rest', hwhole⟩ := completes_of_take hq hcompletes
  obtain ⟨q', rest'', hq', hcompletes'⟩ := readBody_completes h' hv'
  exact hcompletes.unique hcompletes' (hwhole.symm.trans hq')

/-! ### Bodies that are refused -/

def errorOf : Except Response α → Option Response
  | .error resp => some resp
  | .ok _ => none

/-- The answer to a body that the endpoint does not decode. -/
def Handler.undecoded (h : Handler) (req : Request) : Resource → Method → Option Response
  | .user, .post | .user, .put => errorOf (h.decodedUser req)
  | .group, .post | .group, .put => errorOf (h.decodedGroup req)
  | _, .patch => errorOf (receivedPatch req)
  | _, .delete => none

/-- The endpoint reads the same of what was read for the entry as of the whole body, or refuses both alike. -/
def ReadAlike (h : Handler) (req : Request) (resource : Resource) (m : Method) (body : Bytes) : Prop :=
  readBody resource m (body.take maxLoggedBody) = readBody resource m body ∨
    ∃ resp, h.undecoded (req.withBody resource m (body.take maxLoggedBody)) resource m = some resp ∧
      h.undecoded (req.withBody resource m body) resource m = some resp

variable {h : Handler} {req : Request} {resource : Resource} {m : Method} {resp e : Response}

theorem errorOf_eq_some {x : Except Response α} : errorOf x = some resp ↔ x = .error resp := by
  cases x <;> simp [errorOf]

theorem errorOf_eq_none {x : Except Response α} : errorOf x = none ↔ ∃ a, x = .ok a := by
  cases x <;> simp [errorOf]

theorem received_error (he : received req = .error e) : e = notValidJSON ∨ e = bodyTooLarge := by
  unfold received at he
  split at he
  · cases he
  · cases he
    exact Or.inl rfl
  · cases he
    exact Or.inr rfl

theorem readStruct_number {set : α → String → Value → Option α} {old a : α} {v : Value}
    (ha : readStruct set old v = some a) : v.isNumber = false := by
  cases v with
  | num n => cases ha
  | _ => rfl

/-- What decodes the body, by endpoint. -/
theorem undecoded_cases (h : Handler) (req : Request) (resource : Resource) (hm : m ≠ .delete) :
    m ≠ .patch ∧ resource = .user ∧ h.undecoded req resource m = errorOf (h.decodedUser req) ∨
      m ≠ .patch ∧ resource = .group ∧ h.undecoded req resource m = errorOf (h.decodedGroup req) ∨
      h.undecoded req resource m = errorOf (receivedPatch req) := by
  cases m with
  | delete => exact absurd rfl hm
  | patch => cases resource <;> exact Or.inr (Or.inr rfl)
  | post =>
    cases resource with
    | user => exact Or.inl ⟨nofun, rfl, rfl⟩
    | group => exact Or.inr (Or.inl ⟨nofun, rfl, rfl⟩)
  | put =>
    cases resource with
    | user => exact Or.inl ⟨nofun, rfl, rfl⟩
    | group => exact Or.inr (Or.inl ⟨nofun, rfl, rfl⟩)

/-- What is decoded is no number. -/
theorem undecoded_eq_none (hm : m ≠ .delete) (hnone : h.undecoded req resource m = none) :
    ∃ v, req.body = .value v ∧ v.isNumber = false := by
  rcases undecoded_cases h req resource hm with ⟨-, -, heq⟩ | ⟨-, -, heq⟩ | heq
  · obtain ⟨x, hx⟩ := errorOf_eq_none.mp (heq.symm.trans hnone)
    obtain ⟨-, v, hbody, hread, -⟩ := decodedUser_ok hx
    exact ⟨v, hbody, readStruct_number hread⟩
  · obtain ⟨g, hg⟩ := errorOf_eq_none.mp (heq.symm.trans hnone)
    obtain ⟨-, v, hbody, hread⟩ := decodedGroup_ok hg
    exact ⟨v, hbody, readStruct_number hread⟩
  · obtain ⟨p, hp⟩ := errorOf_eq_none.mp (heq.symm.trans hnone)
    unfold receivedPatch at hp
    split at hp
    · rename_i v hbody
      split at hp
      · rename_i p' hread
        exact ⟨v, hbody, readStruct_number hread⟩
      · cases hp
    · cases hp
    · cases hp

/-- How a body is refused: it is too large, not JSON, or invalid. -/
def BadBody (resource : Resource) (m : Method) (e : Response) : Prop :=
  e = bodyTooLarge ∨ e = notValidJSON ∨
    m ≠ .patch ∧ ∃ d, e = Refusal.response (.invalid d) ∧ (resource = .group → d ≠ unknownMember)

/-- A body that is received is refused by what decodes it, or not at all. -/
theorem badBody_of_decoded {α : Type} {decode : Value → Except Refusal α}
    (hm : m ≠ .patch) (hdecode : ∀ v x, decode v = .error x →
      x = .notJson ∨ ∃ d, x = .invalid d ∧ (resource = .group → d ≠ unknownMember))
    (he : (received req >>= fun v => checked (decode v)) = .error e) : BadBody resource m e := by
  rcases bind_error he with hbody | ⟨v, -, hchecked⟩
  · rcases received_error hbody with rfl | rfl
    · exact Or.inr (Or.inl rfl)
    · exact Or.inl rfl
  · obtain ⟨x, hx, rfl⟩ := checked_error hchecked
    rcases hdecode v x hx with rfl | ⟨d, rfl, hd⟩
    · exact Or.inr (Or.inl rfl)
    · exact Or.inr (Or.inr ⟨hm, d, rfl, hd⟩)

theorem undecoded_eq_some (he : h.undecoded req resource m = some e) :
    BadBody resource m e := by
  by_cases hm : m = .delete
  · subst hm
    cases resource <;> cases he
  · rcases undecoded_cases h req resource hm with ⟨hpatch, rfl, heq⟩ | ⟨hpatch, -, heq⟩ | heq
    · refine badBody_of_decoded hpatch ?_ (errorOf_eq_some.mp (heq.symm.trans he))
      intro v x hx
      unfold decodeUser at hx
      split at hx
      · cases hx
        exact Or.inl rfl
      · split_ifs at hx
        cases hx
        exact Or.inr ⟨_, rfl, fun hgroup => nomatch hgroup⟩
    · refine badBody_of_decoded hpatch ?_ (errorOf_eq_some.mp (heq.symm.trans he))
      intro v x hx
      unfold decodeGroup at hx
      split at hx
      · cases hx
        exact Or.inl rfl
      · split_ifs at hx
        cases hx
        exact Or.inr ⟨_, rfl, fun _ => validateGroup_ne _⟩
    · exact Or.inr (Or.inl (receivedPatch_error_iff.mp (errorOf_eq_some.mp (heq.symm.trans he))).1)

/-! ### Answers of an endpoint that has its body -/

/-- The answers differ in their status or in their body. -/
def Apart (resp e : Response) : Prop := resp.status ≠ e.status ∨ resp.body ≠ e.body

theorem BadBody.status (he : BadBody resource m e) : e.status = 400 ∨ e.status = 413 := by
  rcases he with rfl | rfl | ⟨-, d, rfl, -⟩
  · exact Or.inr rfl
  · exact Or.inl rfl
  · exact Or.inl rfl

theorem BadBody.location (he : BadBody resource m e) : e.location = "" := by
  rcases he with rfl | rfl | ⟨-, d, rfl, -⟩ <;> rfl

theorem BadBody.apart (he : BadBody resource m e) (h400 : resp.status ≠ 400) (h413 : resp.status ≠ 413) :
    Apart resp e := by
  left
  rcases he.status with hstatus | hstatus
  · rwa [hstatus]
  · rwa [hstatus]

theorem scimType_ne {x : Refusal} (hx : x ≠ .notJson) : x.scimType ≠ "invalidSyntax" := by
  cases x with
  | notJson => exact absurd rfl hx
  | invalid d =>
    have htype : "invalidValue" ≠ "invalidSyntax" := by decide
    exact htype
  | mutability => decide
  | patch x =>
    unfold Refusal.scimType
    dsimp only
    split_ifs <;> decide
  | extended => decide

/-- Another refusal is apart when its type is, or its text. -/
theorem BadBody.apart_refusal {x : Refusal} (he : BadBody resource m e)
    (hx : x ≠ .notJson) (hvalue : m ≠ .patch → x.scimType = "invalidValue" →
      resource = .group ∧ x.detail = .text unknownMember) : Apart x.response e := by
  rcases he with rfl | rfl | ⟨hm, d, rfl, hd⟩
  · have hstatus : (400 : Nat) ≠ 413 := by decide
    exact Or.inl hstatus
  · refine Or.inr fun hbody => scimType_ne hx ?_
    injection hbody
  · refine Or.inr fun hbody => ?_
    have htype : x.scimType = "invalidValue" := by
      injection hbody
    have hdetail : x.detail = .text d := by
      injection hbody
    obtain ⟨hgroup, hunknown⟩ := hvalue hm htype
    exact hd hgroup (Detail.text.inj (hdetail.symm.trans hunknown))

theorem serverError_apart (he : BadBody resource m e) : Apart serverError e := he.apart (by decide) (by decide)

theorem createError_apart (he : BadBody resource m e) (x : StoreError) : Apart (createError x) e := by
  cases x with
  | duplicateUserName => exact he.apart (by decide) (by decide)
  | _ => exact serverError_apart he

theorem lookupError_apart (he : BadBody resource m e) (x : StoreError) : Apart (lookupError x) e := by
  cases x with
  | notFound => exact he.apart (by decide) (by decide)
  | _ => exact serverError_apart he

theorem updateError_apart (he : BadBody resource m e) (x : StoreError) : Apart (updateError x) e := by
  cases x with
  | notFound => exact he.apart (by decide) (by decide)
  | duplicateUserName => exact he.apart (by decide) (by decide)
  | _ => exact serverError_apart he

theorem groupError_apart (he : BadBody .group m e) (x : StoreError) : Apart (groupError x) e := by
  cases x with
  | groupNotFound => exact he.apart (by decide) (by decide)
  | duplicateGroupName => exact he.apart (by decide) (by decide)
  | invalidMember =>
    exact he.apart_refusal (x := .invalid unknownMember) (fun h => nomatch h) fun _ _ => ⟨rfl, rfl⟩
  | _ => exact serverError_apart he

theorem sameID_apart (he : BadBody resource m e) {id : String} (hid : sameID req id = .error resp) :
    Apart resp e := by
  unfold sameID at hid
  split_ifs at hid
  cases hid
  exact he.apart_refusal (x := .mutability) (fun h => nomatch h) fun _ htype => absurd htype (by decide)

theorem patchUser_error {registry : Registry} {existing : Store.User} {baseURL : String}
    {ops : List Scheduled} {x : Refusal}
    (hx : patchUser h.unicode registry existing baseURL ops = .error x) : x ≠ .notJson := by
  rintro rfl
  unfold patchUser at hx
  dsimp only at hx
  split at hx
  · cases hx
  · unfold finishPatch at hx
    split_ifs at hx
    · cases hx
    · split at hx <;> cases hx

theorem patchedUser_apart (he : BadBody resource .patch e) {registry : Registry} {existing : Store.User}
    {p : PatchOp} (hpatch : h.patchedUser req registry existing p = .error resp) : Apart resp e := by
  obtain ⟨x, hx, rfl⟩ := checked_error hpatch
  exact he.apart_refusal (patchUser_error hx) fun hm => absurd rfl hm

theorem patchedGroup_apart (he : BadBody resource .patch e) {existing : Store.Group} {p : PatchOp}
    (hpatch : h.patchedGroup req existing p = .error resp) : Apart resp e := by
  unfold Handler.patchedGroup at hpatch
  split at hpatch
  · cases hpatch
    exact he.apart_refusal (fun h => nomatch h) fun hm => absurd rfl hm
  · split_ifs at hpatch
    cases hpatch
    exact he.apart_refusal (fun h => nomatch h) fun hm => absurd rfl hm

theorem created_apart (he : BadBody resource m e) (location : String) (v : Value) :
    Apart ⟨201, location, .resource v⟩ e := by
  have h400 : (201 : Nat) ≠ 400 := by decide
  have h413 : (201 : Nat) ≠ 413 := by decide
  exact he.apart h400 h413

theorem writeJSON_apart (he : BadBody resource m e) (v : Value) : Apart (writeJSON 200 v) e := by
  have h400 : (200 : Nat) ≠ 400 := by decide
  have h413 : (200 : Nat) ≠ 413 := by decide
  exact he.apart h400 h413

section Answers

variable {pg : Postgres} {supply : Nat → Supply Env DbError}

/-- Whatever the request comes to, its answer is apart from `e`. -/
def Avoids (pg : Postgres) (supply : Nat → Supply Env DbError) (e : Response)
    (c : Handling Response) : Prop :=
  ∀ w, (engine pg).Leads supply c (fun resp _ => Apart resp e) (fun resp _ => Apart resp e) w

theorem avoids_return (hresp : Apart resp e) : Avoids pg supply e (return resp) := fun _ => hresp

theorem avoids_check {β : Type} {x : Except Response β} {k : β → Handling Response}
    (herror : ∀ resp, x = .error resp → Apart resp e)
    (hok : ∀ b, x = .ok b → Avoids pg supply e (k b)) :
    Avoids pg supply e (ofExcept x >>= k) := by
  intro w
  refine leads_bind.mpr (leads_ofExcept.mpr ?_)
  cases x with
  | error resp => exact herror resp rfl
  | ok b => exact hok b rfl w

/-- A check that is known to pass. -/
theorem avoids_passed {β : Type} {x : Except Response β} {k : β → Handling Response} {b : β}
    (hx : x = .ok b) (hk : Avoids pg supply e (k b)) : Avoids pg supply e (ofExcept x >>= k) :=
  fun w => leads_ofExcept_ok hx (hk w)

/-- A call of the store has an answer for each of its failures. -/
theorem avoids_call {β : Type} {c : Store.Call β} {reply : StoreError → Response}
    {k : β → Handling Response} (hreply : ∀ x, Apart (reply x) e) (hk : ∀ b, Avoids pg supply e (k b)) :
    Avoids pg supply e (refusedWith reply c >>= k) :=
  fun _ => leads_bind.mpr (leads_refusedWith.mpr (leads_any.mono (fun b w _ => hk b w) fun x _ _ => hreply x))

theorem avoids_registered {k : Registry → Handling Response} (he : BadBody resource m e)
    (hk : ∀ registry, Avoids pg supply e (k registry)) :
    Avoids pg supply e (h.registered req >>= k) := by
  intro w
  refine leads_bind.mpr (leads_registered_fails.mono (fun registry w _ => hk registry w) ?_)
  rintro _ w rfl
  exact serverError_apart he

theorem create_avoids (he : BadBody resource m e) {x : User × Json.Map} (hx : h.decodedUser req = .ok x) :
    Avoids pg supply e (h.create req) := by
  refine avoids_passed hx (avoids_registered he fun registry => ?_)
  exact avoids_call (createError_apart he) fun created => avoids_return (created_apart he _ _)

theorem replace_avoids (he : BadBody resource m e) {x : User × Json.Map} (hx : h.decodedUser req = .ok x) :
    Avoids pg supply e (h.replace req) := by
  refine avoids_passed hx (avoids_check (fun resp hid => sameID_apart he hid) fun _ _ => ?_)
  refine avoids_registered he fun registry => ?_
  exact avoids_call (updateError_apart he) fun changed => avoids_return (writeJSON_apart he _)

theorem patch_avoids (he : BadBody resource .patch e) {p : PatchOp} (hp : receivedPatch req = .ok p) :
    Avoids pg supply e (h.patch req) := by
  refine avoids_passed hp (avoids_call (lookupError_apart he) fun existing => ?_)
  refine avoids_registered he fun registry => ?_
  refine avoids_check (fun resp hpatch => patchedUser_apart he hpatch) fun su _ => ?_
  exact avoids_call (updateError_apart he) fun changed => avoids_return (writeJSON_apart he _)

theorem createGroup_avoids (he : BadBody .group m e) {g : Group} (hg : h.decodedGroup req = .ok g) :
    Avoids pg supply e (h.createGroup req) := by
  refine avoids_passed hg (avoids_call (groupError_apart he) fun created => ?_)
  exact avoids_return (created_apart he _ _)

theorem replaceGroup_avoids (he : BadBody .group m e) {g : Group} (hg : h.decodedGroup req = .ok g) :
    Avoids pg supply e (h.replaceGroup req) := by
  refine avoids_passed hg (avoids_check (fun resp hid => sameID_apart he hid) fun _ _ => ?_)
  exact avoids_call (groupError_apart he) fun changed => avoids_return (writeJSON_apart he _)

theorem patchGroup_avoids (he : BadBody .group .patch e) {p : PatchOp} (hp : receivedPatch req = .ok p) :
    Avoids pg supply e (h.patchGroup req) := by
  refine avoids_passed hp (avoids_call (groupError_apart he) fun existing => ?_)
  refine avoids_check (fun resp hpatch => patchedGroup_apart he hpatch) fun sg _ => ?_
  exact avoids_call (groupError_apart he) fun changed => avoids_return (writeJSON_apart he _)

/-- An endpoint that has decoded its body never answers like one that has not. -/
theorem mutate_avoids (hm : m ≠ .delete) (hnone : h.undecoded req resource m = none)
    (he : BadBody resource m e) : Avoids pg supply e (h.mutate req resource m) := by
  cases m with
  | delete => exact absurd rfl hm
  | post =>
    cases resource with
    | user =>
      obtain ⟨x, hx⟩ := errorOf_eq_none.mp hnone
      exact create_avoids he hx
    | group =>
      obtain ⟨g, hg⟩ := errorOf_eq_none.mp hnone
      exact createGroup_avoids he hg
  | put =>
    cases resource with
    | user =>
      obtain ⟨x, hx⟩ := errorOf_eq_none.mp hnone
      exact replace_avoids he hx
    | group =>
      obtain ⟨g, hg⟩ := errorOf_eq_none.mp hnone
      exact replaceGroup_avoids he hg
  | patch =>
    cases resource with
    | user =>
      obtain ⟨p, hp⟩ := errorOf_eq_none.mp hnone
      exact patch_avoids he hp
    | group =>
      obtain ⟨p, hp⟩ := errorOf_eq_none.mp hnone
      exact patchGroup_avoids he hp

end Answers

/-! ### Two chains -/

/-- The same status and body, and the same database afterwards. -/
structure Alike (a b : Response × Db) : Prop where
  status : a.1.status = b.1.status
  body : a.1.body = b.1.body
  db : a.2 = b.2

def ended (x : Except Response Response × StoreWorld) : Response × Db :=
  match x with
  | (.ok resp, w) => (resp, w.db)
  | (.error resp, w) => (resp, w.db)

section Routes

variable {s : Chain} {pg : Postgres} {supply : Nat → Supply Env DbError} {db : Db} {r : Incoming}
  {id : Identity} {w : StoreWorld} {on : Bool}

/-- What the endpoints find when the token has been touched. -/
def touched (pg : Postgres) (supply : Nat → Supply Env DbError) (id : Identity) (w : StoreWorld) :
    StoreWorld :=
  ((engine pg).run supply (tried (Store.touchToken id.keyID)).run w).2

/-- The body as `logRequests` hands it on. -/
def handedOn (on : Bool) (body : Bytes) : Bytes := if on then body.take maxLoggedBody else body

theorem Avoids.ended_apart {x : Handling Response} (hx : Avoids pg supply e x) (w : StoreWorld) :
    Apart (ended ((engine pg).run supply x.run w)).1 e := by
  have hleads := hx w
  unfold Leads at hleads
  revert hleads
  rcases (engine pg).run supply x.run w with ⟨resp | resp, w'⟩ <;> exact id

theorem tried_run (pg : Postgres) (supply : Nat → Supply Env DbError) (c : Store.Call α) (w : StoreWorld) :
    ∃ a, ((engine pg).run supply (tried c).run w).1 = .ok a := by
  unfold tried
  rw [ExceptT.run_mk, run_bind]
  exact ⟨_, rfl⟩

/-- A request that has been let in goes on to the limiter. -/
theorem serve_routes
    (hauth : (engine pg).run supply (s.identify r.web).run (World.start db) = (.ok (some id), w)) :
    serve pg supply (s.routes on r) db =
      ended ((engine pg).run supply (s.throttle (s.route { r with body := handedOn on r.body }) id).run
        (touched pg supply id w)) := by
  have hrun : (engine pg).run supply (s.routes on r).run (World.start db) =
      (engine pg).run supply (s.throttle (s.route { r with body := handedOn on r.body }) id).run
        (touched pg supply id w) := by
    have hroutes : s.routes on r =
        s.requireToken (s.throttle (s.route { r with body := handedOn on r.body })) r.web := by
      cases on <;> rfl
    obtain ⟨a, ha⟩ := tried_run pg supply (Store.touchToken id.keyID) w
    rw [hroutes, Chain.requireToken, ExceptT.run_bind, run_bind, hauth]
    dsimp only
    rw [Chain.letIn, ExceptT.run_bind, run_bind, ha]
    rfl
  unfold serve
  rw [hrun]
  rfl

/-- A body that is not decoded ends the request. -/
theorem mutate_undecoded (he : h.undecoded req resource m = some e) :
    h.mutate req resource m = ExceptT.mk (.done (.error e)) := by
  have hbind : ∀ {α : Type} {x : Except Response α} (k : α → Handling Response), x = .error e →
      (ofExcept x >>= k : Handling Response) = ExceptT.mk (.done (.error e)) := by
    rintro α _ k rfl
    rfl
  cases m with
  | delete => cases resource <;> cases he
  | patch => cases resource <;> exact hbind _ (errorOf_eq_some.mp he)
  | post => cases resource <;> exact hbind _ (errorOf_eq_some.mp he)
  | put => cases resource <;> exact hbind _ (errorOf_eq_some.mp he)

theorem ended_undecoded (he : h.undecoded req resource m = some e) (w : StoreWorld) :
    ended ((engine pg).run supply (h.mutate req resource m).run w) = (e, w.db) := by
  rw [mutate_undecoded he]
  rfl

/-- Bodies that are answered alike are read alike. -/
theorem readAlike_of_alike (hm : m ≠ .delete)
    (halike : Alike
      (ended ((engine pg).run supply
        (h.mutate (req.withBody resource m (body.take maxLoggedBody)) resource m).run w))
      (ended ((engine pg).run supply (h.mutate (req.withBody resource m body) resource m).run w))) :
    ReadAlike h req resource m body := by
  cases hfront : h.undecoded (req.withBody resource m (body.take maxLoggedBody)) resource m with
  | some e =>
    have hbad := undecoded_eq_some hfront
    rw [ended_undecoded hfront] at halike
    cases hwhole : h.undecoded (req.withBody resource m body) resource m with
    | some e' =>
      have hbad' := undecoded_eq_some hwhole
      rw [ended_undecoded hwhole] at halike
      have heq : e = e' := by
        cases e
        cases e'
        cases halike.status
        cases halike.body
        cases hbad.location
        cases hbad'.location
        rfl
      exact Or.inr ⟨e, hfront, heq ▸ hwhole⟩
    | none =>
      rcases (mutate_avoids hm hwhole hbad).ended_apart w with hstatus | hbody
      · exact (hstatus halike.status.symm).elim
      · exact (hbody halike.body.symm).elim
  | none =>
    cases hwhole : h.undecoded (req.withBody resource m body) resource m with
    | some e =>
      rw [ended_undecoded hwhole] at halike
      rcases (mutate_avoids hm hfront (undecoded_eq_some hwhole)).ended_apart w with hstatus | hbody
      · exact (hstatus halike.status).elim
      · exact (hbody halike.body).elim
    | none =>
      obtain ⟨v, hv, hnumber⟩ := undecoded_eq_none hm hfront
      obtain ⟨v', hv', hnumber'⟩ := undecoded_eq_none hm hwhole
      have hsame : v = v' := readBody_take hv hnumber hv' hnumber'
      exact Or.inl (hv.trans ((congrArg Received.value hsame).trans hv'.symm))

/-- Whoever reads alike does alike. -/
theorem mutate_alike (halike : ReadAlike h req resource m body) :
    h.mutate (req.withBody resource m (body.take maxLoggedBody)) resource m =
      h.mutate (req.withBody resource m body) resource m := by
  rcases halike with hread | ⟨e, hfront, hwhole⟩
  · rw [Request.withBody, hread]
    rfl
  · rw [mutate_undecoded hfront, mutate_undecoded hwhole]

theorem throttle_reads {endpoint : Endpoint} {values : List (String × Bytes)} (hallows : s.allows id = true)
    (hmux : mux s.unread r.web = some (endpoint, values)) (hreads : endpoint.reads = some (resource, m))
    (body : Bytes) : s.throttle (s.route { r with body := body }) id =
      s.handler.mutate ((r.request id values).withBody resource m body) resource m := by
  rw [Chain.throttle, if_pos hallows, Chain.route, hmux]
  exact endpoint_reads hreads _ _

/-- The logger is not noticed exactly when the limiter stops the request, no endpoint reads its body,
or the endpoint reads it alike. -/
theorem request_logging_transparent_iff (s : Chain) (pg : Postgres) (supply : Nat → Supply Env DbError)
    (db : Db) (r : Incoming) {id : Identity} {w : StoreWorld}
    (hauth : (engine pg).run supply (s.identify r.web).run (World.start db) = (.ok (some id), w)) :
    Alike (serve pg supply (s.routes true r) db) (serve pg supply (s.routes false r) db) ↔
      (s.allows id = true → ∀ endpoint values resource m, mux s.unread r.web = some (endpoint, values) →
        endpoint.reads = some (resource, m) →
          ReadAlike s.handler (r.request id values) resource m r.body) := by
  rw [serve_routes hauth, serve_routes hauth]
  constructor
  · intro halike hallows endpoint values resource m hmux hreads
    rw [throttle_reads hallows hmux hreads, throttle_reads hallows hmux hreads] at halike
    exact readAlike_of_alike (reads_method hreads) halike
  · intro hreads
    have hsame : s.throttle (s.route { r with body := handedOn true r.body }) id =
        s.throttle (s.route { r with body := handedOn false r.body }) id := by
      by_cases hallows : s.allows id = true
      · cases hmux : mux s.unread r.web with
        | none =>
          rw [Chain.throttle, Chain.throttle, if_pos hallows, if_pos hallows, Chain.route, Chain.route,
            hmux]
        | some served =>
          obtain ⟨endpoint, values⟩ := served
          cases hreading : endpoint.reads with
          | none =>
            rw [Chain.throttle, Chain.throttle, if_pos hallows, if_pos hallows, Chain.route, Chain.route,
              hmux]
            dsimp only
            exact (endpoint_ignores hreading _ r _).trans (endpoint_ignores hreading _ r _).symm
          | some x =>
            obtain ⟨resource, m⟩ := x
            rw [throttle_reads hallows hmux hreading, throttle_reads hallows hmux hreading]
            exact mutate_alike (hreads hallows endpoint values resource m hmux hreading)
      · rw [Chain.throttle, Chain.throttle, if_neg hallows, if_neg hallows]
    rw [hsame]
    exact ⟨rfl, rfl, rfl⟩

/-- Up to 2048 bytes the body is handed on as it is. -/
theorem readAlike_short (hlen : body.length ≤ maxLoggedBody) :
    ReadAlike h req resource m body := by
  rw [ReadAlike, List.take_of_length_le hlen]
  exact Or.inl rfl

end Routes

/-! ### A PATCH with blanks before it -/

def plainChain : Chain :=
  ⟨plainHandler, ⟨fun _ => .null, fun _ => .null, fun _ _ => .null⟩, id, id, fun _ => true,
    fun _ => notFound⟩

def tokenedAnn : Db :=
  { oneAnn with
    tokens := oneAnn.tokens.put ⟨"key", "tenant", Webhook.bytes "s", "", 0, none, none, none, none⟩ }

def patchAnn (body : Bytes) : Incoming :=
  ⟨⟨"PATCH", Webhook.bytes ("/scim/v2/tenant/Users/" ++ Store.someUuid.text),
    Webhook.bytes "Bearer scimage_key_s"⟩, ⟨"", "", ""⟩, "", "https://host", "", sameOrders, body⟩

def switchOffBody : Bytes :=
  Webhook.bytes "\x7b\"Operations\":[\x7b\"op\":\"replace\",\"path\":\"active\",\"value\":false\x7d]\x7d"

theorem patchAnn_identified (body : Bytes) :
    (engine blobless).run paulSupply (plainChain.identify (patchAnn body).web).run (World.start tokenedAnn) =
      (.ok (some ⟨"tenant", "key"⟩), ⟨tokenedAnn, .closed, 2⟩) := by
  rfl

theorem request_logging_transparent_short :
    Alike (serve blobless paulSupply (plainChain.routes true (patchAnn switchOffBody)) tokenedAnn)
      (serve blobless paulSupply (plainChain.routes false (patchAnn switchOffBody)) tokenedAnn) := by
  refine (request_logging_transparent_iff plainChain blobless paulSupply tokenedAnn (patchAnn switchOffBody)
    (patchAnn_identified switchOffBody)).mpr ?_
  intro _ endpoint values resource m _ _
  exact readAlike_short (by decide)

theorem decode_blanks (n : Nat) (body : Bytes) :
    Utf8.decode 0 (List.replicate n 32 ++ body) = List.replicate n ' ' ++ Utf8.decode 0 body := by
  induction n with
  | zero => rfl
  | succ n ih =>
    rw [List.replicate_succ, List.replicate_succ, List.cons_append, List.cons_append, ← ih]
    rfl

/-- White space before a value is skipped. -/
theorem first_blanks (n : Nat) (cs : List Char) :
    Json.first .start (List.replicate n ' ' ++ cs) = Json.first .start cs := by
  induction n with
  | zero => rfl
  | succ n ih =>
    rw [List.replicate_succ, List.cons_append, ← ih]
    rfl

theorem readBody_patch (body : Bytes) : readBody resource .patch body = readFirst body := by
  cases resource <;> rfl

theorem readFirst_blanks {n : Nat} (hn : n ≤ maxBodyBytes) :
    readFirst (List.replicate n 32) = .malformed := by
  have hlen : (List.replicate n (32 : UInt8)).length ≤ maxBodyBytes := by
    rw [List.length_replicate]
    exact hn
  have htext : Utf8.decode 0 (List.replicate n 32) = List.replicate n ' ' ++ [] := by
    have hblanks := decode_blanks n []
    rwa [List.append_nil] at hblanks
  have hfirst : firstValue (List.replicate n 32) = .unfinished .start := by
    rw [firstValue, List.take_of_length_le hlen, htext, first_blanks]
    rfl
  rw [readFirst, hfirst]
  dsimp only
  rw [if_neg (Nat.not_lt.mpr hlen)]
  rfl

theorem readFirst_after_blanks {n : Nat} {body : Bytes} {v : Value} (hn : n + body.length ≤ maxBodyBytes)
    (hv : Json.first .start (Utf8.decode 0 body) = .value v) :
    readFirst (List.replicate n 32 ++ body) = .value v := by
  have hlen : (List.replicate n 32 ++ body).length ≤ maxBodyBytes := by
    rw [List.length_append, List.length_replicate]
    exact hn
  have hfirst : firstValue (List.replicate n 32 ++ body) = .value v := by
    rw [firstValue, List.take_of_length_le hlen, decode_blanks, first_blanks, hv]
  rw [readFirst, hfirst]

/-- Logged, a PATCH with as many blanks before it is answered 400; otherwise the user is switched off. -/
theorem request_logging_drops_body :
    let r := patchAnn (List.replicate maxLoggedBody 32 ++ switchOffBody)
    (serve blobless paulSupply (plainChain.routes true r) tokenedAnn).1.status = 400 ∧
      (serve blobless paulSupply (plainChain.routes false r) tokenedAnn).1.status = 200 ∧
      ¬ Alike (serve blobless paulSupply (plainChain.routes true r) tokenedAnn)
        (serve blobless paulSupply (plainChain.routes false r) tokenedAnn) := by
  intro r
  have hmux : mux plainChain.unread r.web = some (.patch,
      [("tenantID", Webhook.bytes "tenant"), ("id", Webhook.bytes Store.someUuid.text)]) := by
    rfl
  have hauth := patchAnn_identified (List.replicate maxLoggedBody 32 ++ switchOffBody)
  have hfront : readBody .user .patch (handedOn true r.body) = .malformed := by
    have hhanded : handedOn true r.body = List.replicate maxLoggedBody 32 :=
      List.take_left' List.length_replicate
    rw [hhanded, readBody_patch]
    exact readFirst_blanks (by decide)
  have hwhole : readBody .user .patch (handedOn false r.body) = .value inactivePatch := by
    have hhanded : handedOn false r.body = List.replicate maxLoggedBody 32 ++ switchOffBody :=
      if_neg (by decide)
    rw [hhanded, readBody_patch]
    exact readFirst_after_blanks (by decide) (by rfl)
  have hlogged : (serve blobless paulSupply (plainChain.routes true r) tokenedAnn).1.status = 400 := by
    rw [serve_routes hauth, throttle_reads rfl hmux rfl, Request.withBody, hfront]
    rfl
  have hplain : (serve blobless paulSupply (plainChain.routes false r) tokenedAnn).1.status = 200 := by
    have hrequest : (r.request ⟨"tenant", "key"⟩ [("tenantID", Webhook.bytes "tenant"),
        ("id", Webhook.bytes Store.someUuid.text)]).withBody .user .patch (handedOn false r.body) =
          switchOff := by
      rw [Request.withBody, hwhole]
      rfl
    rw [serve_routes hauth, throttle_reads rfl hmux rfl, hrequest]
    rfl
  refine ⟨hlogged, hplain, fun halike => ?_⟩
  have hstatus := halike.status
  rw [hlogged, hplain] at hstatus
  cases hstatus

end Scimage.Scim
