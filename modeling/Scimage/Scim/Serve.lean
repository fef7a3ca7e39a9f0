import Scimage.Scim.Handler
import Scimage.Store.Quiet

/-! Where the handlers lead. -/
namespace Scimage.Scim

open Txn Engine
open Store (engine Db Write Env DbError StoreWorld Postgres AuditRecord Resource Uuid Logged Refused Noted Fails
  UserRow GroupRow scanUser scanGroup)
open Json (Value Map)

/-- The response to a request that finds the database `db`, and what it leaves. -/
def serve (pg : Postgres) (supply : Nat → Supply Env DbError)
    (c : Handling Response) (db : Db) : Response × Db :=
  match (engine pg).run supply c.run (World.start db) with
  | (.ok resp, w) => (resp, w.db)
  | (.error resp, w) => (resp, w.db)

section Rules

variable {pg : Postgres} {supply : Nat → Supply Env DbError} {w : StoreWorld} {db : Db}
  {ok : α → StoreWorld → Prop} {err : Response → StoreWorld → Prop}

theorem leads_serve {c : Handling Response} {Q : Response → Db → Prop}
    (h : (engine pg).Leads supply c (fun resp w => Q resp w.db) (fun resp w => Q resp w.db)
      (World.start db)) : Q (serve pg supply c db).1 (serve pg supply c db).2 := by
  unfold Leads at h
  unfold serve
  revert h
  rcases (engine pg).run supply c.run (World.start db) with ⟨resp | resp, w⟩ <;> exact id

theorem leads_ofExcept {x : Except Response α} :
    (engine pg).Leads supply (ofExcept x : Handling α) ok err w ↔
      match x with
      | .ok a => ok a w
      | .error resp => err resp w := by
  cases x <;> rfl

/-- A check that passes goes on with what it found. -/
theorem leads_ofExcept_ok {β : Type} {x : Except Response β} {a : β} {f : β → Handling α} (hx : x = .ok a)
    (h : (engine pg).Leads supply (f a) ok err w) :
    (engine pg).Leads supply (ofExcept x >>= f) ok err w := by
  subst hx
  exact leads_bind.mpr (leads_ofExcept.mpr h)

theorem leads_refusedWith {c : Store.Call α} {reply : Store.StoreError → Response} :
    (engine pg).Leads supply (refusedWith reply c) ok err w ↔
      (engine pg).Leads supply c ok (fun e => err (reply e)) w :=
  leads_mapError

end Rules

/-! ### Rejections -/

/-- Answers that say that the target, a name or a member stands in the way. -/
def Denies (resource : Resource) (resp : Response) : Prop :=
  resp.status = 404 ∨ resp.status = 409 ∨
    resource = .group ∧ resp = groupError .invalidMember

/-- The target that a refusal names: a creation has none. -/
def Method.target (m : Method) (id : String) : String :=
  match m with
  | .post => ""
  | .put | .patch | .delete => id

/-- What a request leaves that does not go through. -/
structure Rejected (supply : Nat → Supply Env DbError) (accepts found : Prop) (rec : AuditRecord)
    (resource : Resource) (m : Method) (id : String) (db : Db) (resp : Response) (db' : Db) :
    Prop where
  change : db' = db ∨ Refused rec resource (m.action resource) db db'
  refused : Quiet supply → ¬ accepts
  noted : Quiet supply → Denies resource resp →
    (m = .patch ∧ ¬ found ∧ db' = db) ∨
      ((m = .patch → found) ∧ Noted rec resource (m.action resource) (m.target id) db db')

/-- What the registry of a tenant is when a request asks for it. -/
def Handler.registryOf (h : Handler) (db : Db) (tenantID : String) : Registry :=
  if h.extended then registeredAttributes h.unicode (db.attributesOf tenantID) else .empty

section Handlers

variable {pg : Postgres} {supply : Nat → Supply Env DbError} {w : StoreWorld} {db : Db}
  {h : Handler} {r : Request}

theorem leads_registered {ok : Registry → StoreWorld → Prop} {err : Response → StoreWorld → Prop}
    (hw : w.Idle db) (hok : ∀ w', w'.Idle db → ok (h.registryOf db r.tenantID) w')
    (herr : ∀ w', ¬ Quiet supply → w'.Idle db → err serverError w') :
    (engine pg).Leads supply (h.registered r) ok err w := by
  unfold Handler.registered Handler.registryOf at *
  by_cases hext : h.extended
  · rw [if_pos hext]
    refine leads_bind.mpr (leads_refusedWith.mpr (Store.leads_listAttributes hw ?_ ?_))
    · intro w' hidle
      have hgoal := hok w' hidle
      rwa [if_pos hext] at hgoal
    · intro e w' hq hidle
      exact herr w' hq hidle
  · rw [if_neg hext]
    have hgoal := hok w hw
    rwa [if_neg hext] at hgoal

/-- A refusal before the store is asked. -/
theorem rejected_early {accepts found : Prop} {rec : AuditRecord} {resource : Resource} {m : Method}
    {id : String} {resp : Response} (hrefused : Quiet supply → ¬ accepts)
    (hresp : ¬ Denies resource resp) :
    Rejected supply accepts found rec resource m id db resp db :=
  ⟨Or.inl rfl, hrefused, fun _ hdeny => (hresp hdeny).elim⟩

/-- A call of the store that fails. -/
theorem rejected_fails {accepts found : Prop} {rec : AuditRecord} {resource : Resource} {m : Method}
    {id : String} {e : Store.StoreError} {resp : Response} {db' : Db}
    (hfails : Fails supply accepts rec resource (m.action resource) (m.target id) db e db')
    (hfound : m = .patch → found) (hresp : Denies resource resp → e.IsRefusal) :
    Rejected supply accepts found rec resource m id db resp db' :=
  ⟨hfails.change, hfails.refused, fun hq hdeny =>
    Or.inr ⟨hfound, hfails.noted hq (hresp hdeny)⟩⟩

theorem not_denies_of_status {resource : Resource} {resp : Response} (h404 : resp.status ≠ 404)
    (h409 : resp.status ≠ 409) (hmember : resp ≠ groupError .invalidMember) :
    ¬ Denies resource resp := by
  rintro (h | h | ⟨-, h⟩)
  · exact h404 h
  · exact h409 h
  · exact hmember h

theorem serverError_not_denies (resource : Resource) : ¬ Denies resource serverError := by
  refine not_denies_of_status ?_ ?_ ?_
  · decide
  · decide
  · intro he
    have hstatus : serverError.status = (groupError .invalidMember).status := by rw [he]
    revert hstatus
    decide

/-! Refusals of the body are no denials. -/

def unknownMember : String := "members references an unknown or foreign user"

theorem response_unknownMember {e : Refusal} (h : e.response = groupError .invalidMember) :
    e = .invalid unknownMember := by
  have hbody : Body.error e.scimType e.detail = .error "invalidValue" (.text unknownMember) :=
    congrArg Response.body h
  have hdetail : e.detail = .text unknownMember := by
    injection hbody
  cases e with
  | notJson =>
    have htext : "request body is not valid JSON" = unknownMember := Detail.text.inj hdetail
    exact absurd htext (by decide)
  | invalid d =>
    have htext : d = unknownMember := Detail.text.inj hdetail
    rw [htext]
  | mutability =>
    have htext : "id in the body does not match the request path" = unknownMember :=
      Detail.text.inj hdetail
    exact absurd htext (by decide)
  | patch e => cases hdetail
  | extended =>
    have htext : "an extended attribute value is not valid JSON" = unknownMember :=
      Detail.text.inj hdetail
    exact absurd htext (by decide)

theorem validateGroup_ne (g : Group) : validateGroup g ≠ unknownMember := by
  have hschema : "schemas must contain " ++ groupSchema ≠ unknownMember := by decide
  have hrequired : "displayName is required" ≠ unknownMember := by decide
  have hlong : "displayName" ++ " exceeds " ++ toString maxAttrLen ++ " characters" ≠ unknownMember := by
    decide
  have hempty : "" ≠ unknownMember := by decide
  rw [validateGroup]
  by_cases hs : groupSchema ∉ g.schemas.items
  · rw [if_pos hs]
    exact hschema
  · rw [if_neg hs]
    by_cases hd : Store.trimSpace g.displayName = ""
    · rw [if_pos hd]
      exact hrequired
    · rw [if_neg hd, tooLong]
      split_ifs
      · exact hlong
      · exact hempty

theorem refusal_not_denies {resource : Resource} {e : Refusal}
    (h : resource = .group → e ≠ .invalid unknownMember) : ¬ Denies resource e.response := by
  have hstatus : e.response.status = 400 := rfl
  rintro (h404 | h409 | ⟨hgroup, hresp⟩)
  · rw [hstatus] at h404
    omega
  · rw [hstatus] at h409
    omega
  · exact h hgroup (response_unknownMember hresp)

theorem received_not_denies {resource : Resource} {resp : Response} (h : received r = .error resp) :
    ¬ Denies resource resp := by
  have hmalformed : ¬ Denies resource notValidJSON :=
    refusal_not_denies (e := .notJson) (fun _ h => nomatch h)
  unfold received at h
  split at h
  · cases h
  · cases h
    exact hmalformed
  · cases h
    refine not_denies_of_status ?_ ?_ ?_
    · decide
    · decide
    · intro he
      have hstatus : bodyTooLarge.status = (groupError .invalidMember).status := by rw [he]
      revert hstatus
      decide

theorem receivedPatch_not_denies {resource : Resource} {resp : Response}
    (h : receivedPatch r = .error resp) : ¬ Denies resource resp := by
  have hmalformed : ¬ Denies resource notValidJSON :=
    refusal_not_denies (e := .notJson) (fun _ h => nomatch h)
  unfold receivedPatch at h
  split at h
  · split at h
    · cases h
    · cases h
      exact hmalformed
  · cases h
    exact hmalformed
  · cases h
    exact hmalformed

theorem bind_error {α β : Type} {x : Except Response α} {f : α → Except Response β} {resp : Response}
    (h : x >>= f = .error resp) : x = .error resp ∨ ∃ a, x = .ok a ∧ f a = .error resp := by
  cases x with
  | error e =>
    cases h
    exact Or.inl rfl
  | ok a => exact Or.inr ⟨a, rfl, h⟩

theorem checked_error {α : Type} {x : Except Refusal α} {resp : Response}
    (h : checked x = .error resp) : ∃ e, x = .error e ∧ e.response = resp := by
  cases x with
  | error e =>
    cases h
    exact ⟨e, rfl, rfl⟩
  | ok a => cases h

theorem decodedUser_not_denies {resp : Response} (h : h.decodedUser r = .error resp) :
    ¬ Denies .user resp := by
  rcases bind_error h with hbody | ⟨v, -, hdecode⟩
  · exact received_not_denies hbody
  · obtain ⟨e, -, rfl⟩ := checked_error hdecode
    exact refusal_not_denies fun hgroup => nomatch hgroup

theorem decodedGroup_not_denies {resp : Response} (h : h.decodedGroup r = .error resp) :
    ¬ Denies .group resp := by
  rcases bind_error h with hbody | ⟨v, -, hdecode⟩
  · exact received_not_denies hbody
  · obtain ⟨e, he, rfl⟩ := checked_error hdecode
    refine refusal_not_denies fun _ hmember => ?_
    subst hmember
    unfold decodeGroup at he
    split at he
    · cases he
    · split_ifs at he
      exact validateGroup_ne _ (Refusal.invalid.inj (Except.error.inj he))

theorem sameID_not_denies {resource : Resource} {id : String} {resp : Response}
    (h : sameID r id = .error resp) : ¬ Denies resource resp := by
  unfold sameID at h
  split_ifs at h
  cases h
  exact refusal_not_denies fun _ hmember => nomatch hmember

theorem patchedUser_not_denies {registry : Registry} {existing : Store.User} {p : PatchOp}
    {resp : Response} (h : h.patchedUser r registry existing p = .error resp) :
    ¬ Denies .user resp := by
  obtain ⟨e, -, rfl⟩ := checked_error h
  exact refusal_not_denies fun hgroup => nomatch hgroup

theorem patchedGroup_not_denies {existing : Store.Group} {p : PatchOp} {resp : Response}
    (h : h.patchedGroup r existing p = .error resp) : ¬ Denies .group resp := by
  unfold Handler.patchedGroup at h
  split at h
  · cases h
    exact refusal_not_denies fun _ hmember => nomatch hmember
  · split_ifs at h
    cases h
    refine refusal_not_denies fun _ hmember => ?_
    exact validateGroup_ne _ (Refusal.invalid.inj hmember)

/-! ### Users -/

theorem leads_create {ok err : Response → StoreWorld → Prop} (hw : w.Idle db)
    (hok : ∀ u keys now env created ws db' w', h.decodedUser r = .ok (u, keys) →
      Store.execInsertUser pg now env r.tenantID
        (h.userRow r (h.registryOf db r.tenantID) u keys) db = .ok (created, ws) →
      Logged ((engine pg).applyAll db ws) db' → w'.Idle db' →
      ok ⟨201, r.baseURL ++ "/Users/" ++ created.id, .resource (h.userResource r created)⟩ w')
    (herr : ∀ resp db' w', Rejected supply
      (∃ u keys, h.decodedUser r = .ok (u, keys) ∧ ∀ now env, ∃ created ws,
        Store.execInsertUser pg now env r.tenantID
          (h.userRow r (h.registryOf db r.tenantID) u keys) db = .ok (created, ws))
      True r.caller .user .post r.id db resp db' → w'.Idle db' → err resp w') :
    (engine pg).Leads supply (h.create r) ok err w := by
  refine leads_bind.mpr (leads_ofExcept.mpr ?_)
  cases hdecode : h.decodedUser r with
  | error resp =>
    refine herr resp db w (rejected_early ?_ (decodedUser_not_denies hdecode)) hw
    rintro - ⟨u, keys, hok, -⟩
    rw [hdecode] at hok
    cases hok
  | ok x =>
    obtain ⟨u, keys⟩ := x
    refine leads_bind.mpr (leads_registered hw ?_ ?_)
    · intro w₁ hidle
      refine leads_bind.mpr (leads_refusedWith.mpr (Store.leads_createUser hidle ?_ ?_))
      · intro now env created ws db' w₂ hx hlogged hidle'
        exact hok u keys now env created ws db' w₂ hdecode hx hlogged hidle'
      · intro e db' w₂ hfails hidle'
        refine herr _ db' w₂ (rejected_fails ⟨hfails.change, ?_, hfails.noted⟩ (fun hm => nomatch hm) ?_)
          hidle'
        · rintro hq ⟨u', keys', hdecode', haccepts⟩
          rw [hdecode] at hdecode'
          cases hdecode'
          exact hfails.refused hq haccepts
        · intro hdeny
          cases e with
          | duplicateUserName => trivial
          | _ => exact (serverError_not_denies _ hdeny).elim
    · intro w₁ hq hidle
      exact herr _ db w₁ (rejected_early (fun h => (hq h).elim) (serverError_not_denies _)) hidle

theorem leads_replace {ok err : Response → StoreWorld → Prop} (hw : w.Idle db)
    (hok : ∀ u keys now ch ws db' w', h.decodedUser r = .ok (u, keys) → sameID r u.id = .ok () →
      Store.execUpdateUser pg now r.tenantID r.id
        (h.userRow r (h.registryOf db r.tenantID) u keys) db db = .ok (some ch, ws) →
      Logged ((engine pg).applyAll db ws) db' → w'.Idle db' →
      ok (writeJSON 200 (h.userResource r ch.after)) w')
    (herr : ∀ resp db' w', Rejected supply
      (∃ u keys, h.decodedUser r = .ok (u, keys) ∧ sameID r u.id = .ok () ∧ ∀ now, ∃ ch ws,
        Store.execUpdateUser pg now r.tenantID r.id
          (h.userRow r (h.registryOf db r.tenantID) u keys) db db = .ok (some ch, ws))
      True r.caller .user .put r.id db resp db' → w'.Idle db' → err resp w') :
    (engine pg).Leads supply (h.replace r) ok err w := by
  refine leads_bind.mpr (leads_ofExcept.mpr ?_)
  cases hdecode : h.decodedUser r with
  | error resp =>
    refine herr resp db w (rejected_early ?_ (decodedUser_not_denies hdecode)) hw
    rintro - ⟨u, keys, hok, -⟩
    rw [hdecode] at hok
    cases hok
  | ok x =>
    obtain ⟨u, keys⟩ := x
    refine leads_bind.mpr (leads_ofExcept.mpr ?_)
    cases hid : sameID r u.id with
    | error resp =>
      refine herr resp db w (rejected_early ?_ (sameID_not_denies hid)) hw
      rintro - ⟨u', keys', hdecode', hid', -⟩
      rw [hdecode] at hdecode'
      cases hdecode'
      rw [hid] at hid'
      cases hid'
    | ok _ =>
      refine leads_bind.mpr (leads_registered hw ?_ ?_)
      · intro w₁ hidle
        refine leads_bind.mpr (leads_refusedWith.mpr (Store.leads_updateUser hidle ?_ ?_))
        · intro now ch ws db' w₂ hx hlogged hidle'
          exact hok u keys now ch ws db' w₂ hdecode hid hx hlogged hidle'
        · intro e db' w₂ hfails hidle'
          refine herr _ db' w₂ (rejected_fails ⟨hfails.change, ?_, hfails.noted⟩ (fun hm => nomatch hm) ?_)
            hidle'
          · rintro hq ⟨u', keys', hdecode', -, haccepts⟩
            rw [hdecode] at hdecode'
            cases hdecode'
            exact hfails.refused hq haccepts
          · intro hdeny
            cases e with
            | notFound | duplicateUserName => trivial
            | _ => exact (serverError_not_denies _ hdeny).elim
      · intro w₁ hq hidle
        exact herr _ db w₁ (rejected_early (fun h => (hq h).elim) (serverError_not_denies _)) hidle

theorem leads_patch {ok err : Response → StoreWorld → Prop} (hw : w.Idle db)
    (hok : ∀ p c su now ch ws db' w', receivedPatch r = .ok p → db.userAt r.tenantID r.id = some c →
      h.patchedUser r (h.registryOf db r.tenantID) (scanUser c) p = .ok su →
      Store.execUpdateUser pg now r.tenantID r.id su db db = .ok (some ch, ws) →
      Logged ((engine pg).applyAll db ws) db' → w'.Idle db' →
      ok (writeJSON 200 (h.userResource r ch.after)) w')
    (herr : ∀ resp db' w', Rejected supply
      (∃ p c su, receivedPatch r = .ok p ∧ db.userAt r.tenantID r.id = some c ∧
        h.patchedUser r (h.registryOf db r.tenantID) (scanUser c) p = .ok su ∧ ∀ now, ∃ ch ws,
          Store.execUpdateUser pg now r.tenantID r.id su db db = .ok (some ch, ws))
      (db.userAt r.tenantID r.id ≠ none) r.caller .user .patch r.id db resp db' → w'.Idle db' →
      err resp w') :
    (engine pg).Leads supply (h.patch r) ok err w := by
  refine leads_bind.mpr (leads_ofExcept.mpr ?_)
  cases hdecode : receivedPatch r with
  | error resp =>
    refine herr resp db w (rejected_early ?_ (receivedPatch_not_denies hdecode)) hw
    rintro - ⟨p, c, su, hok, -⟩
    rw [hdecode] at hok
    cases hok
  | ok p =>
    refine leads_bind.mpr (leads_refusedWith.mpr (Store.leads_getUser hw ?_ ?_))
    · intro c w₁ hfind hidle
      refine leads_bind.mpr (leads_registered hidle ?_ ?_)
      · intro w₂ hidle
        refine leads_bind.mpr (leads_ofExcept.mpr ?_)
        cases hpatch : h.patchedUser r (h.registryOf db r.tenantID) (scanUser c) p with
        | error resp =>
          refine herr resp db w₂ (rejected_early ?_ (patchedUser_not_denies hpatch)) hidle
          rintro - ⟨p', c', su, hdecode', hfind', hpatch', -⟩
          rw [hdecode] at hdecode'
          cases hdecode'
          rw [hfind] at hfind'
          cases hfind'
          rw [hpatch] at hpatch'
          cases hpatch'
        | ok su =>
          refine leads_bind.mpr (leads_refusedWith.mpr (Store.leads_updateUser hidle ?_ ?_))
          · intro now ch ws db' w₃ hx hlogged hidle'
            exact hok p c su now ch ws db' w₃ hdecode hfind hpatch hx hlogged hidle'
          · intro e db' w₃ hfails hidle'
            have hfound : db.userAt r.tenantID r.id ≠ none := by
              rw [hfind]
              exact Option.some_ne_none c
            refine herr _ db' w₃ (rejected_fails ⟨hfails.change, ?_, hfails.noted⟩ (fun _ => hfound) ?_)
              hidle'
            · rintro hq ⟨p', c', su', hdecode', hfind', hpatch', haccepts⟩
              rw [hdecode] at hdecode'
              cases hdecode'
              rw [hfind] at hfind'
              cases hfind'
              rw [hpatch] at hpatch'
              cases hpatch'
              exact hfails.refused hq haccepts
            · intro hdeny
              cases e with
              | notFound | duplicateUserName => trivial
              | _ => exact (serverError_not_denies _ hdeny).elim
      · intro w₂ hq hidle
        exact herr _ db w₂ (rejected_early (fun h => (hq h).elim) (serverError_not_denies _)) hidle
    · intro e w₁ hmissing hidle
      refine herr _ db w₁ ⟨Or.inl rfl, ?_, ?_⟩ hidle
      · rintro hq ⟨p', c', su', -, hfind', -⟩
        rw [(hmissing hq).2] at hfind'
        cases hfind'
      · intro hq _
        exact Or.inl ⟨rfl, fun hfound => hfound (hmissing hq).2, rfl⟩

theorem leads_deactivate {ok err : Response → StoreWorld → Prop} (hw : w.Idle db)
    (hok : ∀ now ch ws db' w',
      Store.execDeactivateUser pg now r.tenantID r.id db db = .ok (some ch, ws) →
      Logged ((engine pg).applyAll db ws) db' → w'.Idle db' → ok noContent w')
    (herr : ∀ resp db' w', Rejected supply
      (∀ now, ∃ ch ws, Store.execDeactivateUser pg now r.tenantID r.id db db = .ok (some ch, ws))
      True r.caller .user .delete r.id db resp db' → w'.Idle db' → err resp w') :
    (engine pg).Leads supply (h.deactivate r) ok err w := by
  refine leads_bind.mpr (leads_refusedWith.mpr (Store.leads_deactivateUser hw ?_ ?_))
  · intro now ch ws db' w' hx hlogged hidle
    exact hok now ch ws db' w' hx hlogged hidle
  · intro e db' w' hfails hidle
    refine herr _ db' w' (rejected_fails hfails (fun hm => nomatch hm) ?_) hidle
    intro hdeny
    cases e with
    | notFound => trivial
    | _ => exact (serverError_not_denies _ hdeny).elim

/-! ### Groups -/

theorem groupError_denies {e : Store.StoreError} (h : Denies .group (groupError e)) : e.IsRefusal := by
  cases e with
  | groupNotFound | duplicateGroupName | invalidMember => trivial
  | _ => exact (serverError_not_denies _ h).elim

theorem leads_createGroup {ok err : Response → StoreWorld → Prop} (hw : w.Idle db)
    (hok : ∀ g now env created ws v db' w', h.decodedGroup r = .ok g →
      Store.execInsertGroup pg now env r.tenantID (toStoreGroup g) db = .ok (created, ws) →
      Store.Exchanged pg now r.tenantID created.id (toStoreGroup g).members
        ((engine pg).applyAll db ws) v →
      Logged v db' → w'.Idle db' → ok ⟨201, r.baseURL ++ "/Groups/" ++ created.id,
        .resource (h.groupResource r { created with members := v.membersAt created.id })⟩ w')
    (herr : ∀ resp db' w', Rejected supply
      (∃ g, h.decodedGroup r = .ok g ∧ ∀ now env, ∃ created ws v,
        Store.execInsertGroup pg now env r.tenantID (toStoreGroup g) db = .ok (created, ws) ∧
        Store.Exchanged pg now r.tenantID created.id (toStoreGroup g).members
          ((engine pg).applyAll db ws) v)
      True r.caller .group .post r.id db resp db' → w'.Idle db' → err resp w') :
    (engine pg).Leads supply (h.createGroup r) ok err w := by
  refine leads_bind.mpr (leads_ofExcept.mpr ?_)
  cases hdecode : h.decodedGroup r with
  | error resp =>
    refine herr resp db w (rejected_early ?_ (decodedGroup_not_denies hdecode)) hw
    rintro - ⟨g, hok, -⟩
    rw [hdecode] at hok
    cases hok
  | ok g =>
    refine leads_bind.mpr (leads_refusedWith.mpr (Store.leads_createGroup hw ?_ ?_))
    · intro now env created ws v db' w' hx hex hlogged hidle
      exact hok g now env created ws v db' w' hdecode hx hex hlogged hidle
    · intro e db' w' hfails hidle
      refine herr _ db' w' (rejected_fails ⟨hfails.change, ?_, hfails.noted⟩ (fun hm => nomatch hm)
        groupError_denies) hidle
      rintro hq ⟨g', hdecode', haccepts⟩
      rw [hdecode] at hdecode'
      cases hdecode'
      exact hfails.refused hq haccepts

theorem leads_replaceGroup {ok err : Response → StoreWorld → Prop} (hw : w.Idle db)
    (hok : ∀ g now after ws v db' w', h.decodedGroup r = .ok g → sameID r g.id = .ok () →
      Store.execUpdateGroup pg now r.tenantID r.id (toStoreGroup g) db db = .ok (some after, ws) →
      Store.Exchanged pg now r.tenantID r.id (toStoreGroup g).members
        ((engine pg).applyAll db ws) v →
      Logged v db' → w'.Idle db' →
      ok (writeJSON 200 (h.groupResource r { after with members := v.membersAt r.id })) w')
    (herr : ∀ resp db' w', Rejected supply
      (∃ g, h.decodedGroup r = .ok g ∧ sameID r g.id = .ok () ∧ ∀ now, ∃ after ws v,
        Store.execUpdateGroup pg now r.tenantID r.id (toStoreGroup g) db db = .ok (some after, ws) ∧
        Store.Exchanged pg now r.tenantID r.id (toStoreGroup g).members
          ((engine pg).applyAll db ws) v)
      True r.caller .group .put r.id db resp db' → w'.Idle db' → err resp w') :
    (engine pg).Leads supply (h.replaceGroup r) ok err w := by
  refine leads_bind.mpr (leads_ofExcept.mpr ?_)
  cases hdecode : h.decodedGroup r with
  | error resp =>
    refine herr resp db w (rejected_early ?_ (decodedGroup_not_denies hdecode)) hw
    rintro - ⟨g, hok, -⟩
    rw [hdecode] at hok
    cases hok
  | ok g =>
    refine leads_bind.mpr (leads_ofExcept.mpr ?_)
    cases hid : sameID r g.id with
    | error resp =>
      refine herr resp db w (rejected_early ?_ (sameID_not_denies hid)) hw
      rintro - ⟨g', hdecode', hid', -⟩
      rw [hdecode] at hdecode'
      cases hdecode'
      rw [hid] at hid'
      cases hid'
    | ok _ =>
      refine leads_bind.mpr (leads_refusedWith.mpr (Store.leads_updateGroup hw ?_ ?_))
      · intro now before after ws v db' w' hx hex hlogged hidle
        exact hok g now after ws v db' w' hdecode hid hx hex hlogged hidle
      · intro e db' w' hfails hidle
        refine herr _ db' w' (rejected_fails ⟨hfails.change, ?_, hfails.noted⟩ (fun hm => nomatch hm)
          groupError_denies) hidle
        rintro hq ⟨g', hdecode', -, haccepts⟩
        rw [hdecode] at hdecode'
        cases hdecode'
        exact hfails.refused hq haccepts

theorem leads_patchGroup {ok err : Response → StoreWorld → Prop} (hw : w.Idle db)
    (hok : ∀ p c sg now after ws v db' w', receivedPatch r = .ok p →
      db.groupAt r.tenantID r.id = some c →
      h.patchedGroup r { scanGroup c with members := db.membersAt r.id } p = .ok sg →
      Store.execUpdateGroup pg now r.tenantID r.id sg db db = .ok (some after, ws) →
      Store.Exchanged pg now r.tenantID r.id sg.members ((engine pg).applyAll db ws) v →
      Logged v db' → w'.Idle db' →
      ok (writeJSON 200 (h.groupResource r { after with members := v.membersAt r.id })) w')
    (herr : ∀ resp db' w', Rejected supply
      (∃ p c sg, receivedPatch r = .ok p ∧ db.groupAt r.tenantID r.id = some c ∧
        h.patchedGroup r { scanGroup c with members := db.membersAt r.id } p = .ok sg ∧
        ∀ now, ∃ after ws v,
          Store.execUpdateGroup pg now r.tenantID r.id sg db db = .ok (some after, ws) ∧
          Store.Exchanged pg now r.tenantID r.id sg.members ((engine pg).applyAll db ws) v)
      (db.groupAt r.tenantID r.id ≠ none) r.caller .group .patch r.id db resp db' → w'.Idle db' →
      err resp w') :
    (engine pg).Leads supply (h.patchGroup r) ok err w := by
  refine leads_bind.mpr (leads_ofExcept.mpr ?_)
  cases hdecode : receivedPatch r with
  | error resp =>
    refine herr resp db w (rejected_early ?_ (receivedPatch_not_denies hdecode)) hw
    rintro - ⟨p, c, sg, hok, -⟩
    rw [hdecode] at hok
    cases hok
  | ok p =>
    refine leads_bind.mpr (leads_refusedWith.mpr (Store.leads_getGroup hw ?_ ?_))
    · intro c w₁ hfind hidle
      refine leads_bind.mpr (leads_ofExcept.mpr ?_)
      cases hpatch : h.patchedGroup r { scanGroup c with members := db.membersAt r.id } p with
      | error resp =>
        refine herr resp db w₁ (rejected_early ?_ (patchedGroup_not_denies hpatch)) hidle
        rintro - ⟨p', c', sg, hdecode', hfind', hpatch', -⟩
        rw [hdecode] at hdecode'
        cases hdecode'
        rw [hfind] at hfind'
        cases hfind'
        rw [hpatch] at hpatch'
        cases hpatch'
      | ok sg =>
        refine leads_bind.mpr (leads_refusedWith.mpr (Store.leads_updateGroup hidle ?_ ?_))
        · intro now before after ws v db' w₂ hx hex hlogged hidle'
          exact hok p c sg now after ws v db' w₂ hdecode hfind hpatch hx hex hlogged hidle'
        · intro e db' w₂ hfails hidle'
          have hfound : db.groupAt r.tenantID r.id ≠ none := by
            rw [hfind]
            exact Option.some_ne_none c
          refine herr _ db' w₂ (rejected_fails ⟨hfails.change, ?_, hfails.noted⟩ (fun _ => hfound)
            groupError_denies) hidle'
          rintro hq ⟨p', c', sg', hdecode', hfind', hpatch', haccepts⟩
          rw [hdecode] at hdecode'
          cases hdecode'
          rw [hfind] at hfind'
          cases hfind'
          rw [hpatch] at hpatch'
          cases hpatch'
          exact hfails.refused hq haccepts
    · intro e w₁ hmissing hidle
      refine herr _ db w₁ ⟨Or.inl rfl, ?_, ?_⟩ hidle
      · rintro hq ⟨p', c', sg', -, hfind', -⟩
        rw [(hmissing hq).2] at hfind'
        cases hfind'
      · intro hq _
        exact Or.inl ⟨rfl, fun hfound => hfound (hmissing hq).2, rfl⟩

theorem leads_deleteGroup {ok err : Response → StoreWorld → Prop} (hw : w.Idle db)
    (hok : ∀ c n ws db' w', db.groupAt r.tenantID r.id = some c →
      Store.execDeleteGroup r.tenantID r.id db db = .ok (n, ws) →
      Logged ((engine pg).applyAll db ws) db' → w'.Idle db' → ok noContent w')
    (herr : ∀ resp db' w', Rejected supply (db.groupAt r.tenantID r.id ≠ none) True r.caller .group
      .delete r.id db resp db' → w'.Idle db' → err resp w') :
    (engine pg).Leads supply (h.deleteGroup r) ok err w := by
  refine leads_bind.mpr (leads_refusedWith.mpr (Store.leads_deleteGroup hw ?_ ?_))
  · intro c before n ws db' w' hfind hx hlogged hidle
    exact hok c n ws db' w' hfind hx hlogged hidle
  · intro e db' w' hfails hidle
    exact herr _ db' w' (rejected_fails hfails (fun hm => nomatch hm) groupError_denies) hidle

end Handlers

end Scimage.Scim
