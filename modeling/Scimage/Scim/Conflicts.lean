import Scimage.Scim.Lookup
import Scimage.Store.Conflict

/-! Requests that a unique index stands in the way of. -/
namespace Scimage.Scim

open Txn Engine
open Store (engine Db Env DbError StoreWorld Postgres Resource Uuid Refused Clash UserRow GroupRow StoreError
  scanUser scanGroup jsonbParam)
open Json (Value quote)

/-- The name and the external id that a request would store, and the row that it would store them in,
if that exists. -/
structure Wanted where
  own : Option Uuid
  name : String
  externalID : Option String

def Wanted.ofUser (own : Option Uuid) (su : Store.User) : Wanted := ⟨own, su.userName, su.externalID⟩

def Wanted.ofGroup (own : Option Uuid) (sg : Store.Group) : Wanted := ⟨own, sg.displayName, sg.externalID⟩

/-- What a request asks the store to write that passes the checks and whose target exists. -/
inductive Wants (pg : Postgres) (h : Handler) (db : Db) (r : Request) : Resource → Method → Wanted → Prop
  | create {u : User} {keys : Json.Map} {su : Store.User} {ext : Option String}
      (hdecode : h.decodedUser r = .ok (u, keys)) (hsu : h.userRow r (h.registryOf db r.tenantID) u keys = su)
      (hext : jsonbParam pg su.extendedAttributes = .ok ext) : Wants pg h db r .user .post (.ofUser none su)
  | replace {u : User} {keys : Json.Map} {su : Store.User} {ext : Option String} {c : UserRow}
      (hdecode : h.decodedUser r = .ok (u, keys)) (hid : sameID r u.id = .ok ())
      (hc : db.userAt r.tenantID r.id = some c) (hsu : h.userRow r (h.registryOf db r.tenantID) u keys = su)
      (hext : jsonbParam pg su.extendedAttributes = .ok ext) :
      Wants pg h db r .user .put (.ofUser (some c.id) su)
  | patch {p : PatchOp} {su : Store.User} {ext : Option String} {c : UserRow}
      (hdecode : receivedPatch r = .ok p) (hc : db.userAt r.tenantID r.id = some c)
      (hpatch : h.patchedUser r (h.registryOf db r.tenantID) (scanUser c) p = .ok su)
      (hext : jsonbParam pg su.extendedAttributes = .ok ext) :
      Wants pg h db r .user .patch (.ofUser (some c.id) su)
  | createGroup {g : Group} (hdecode : h.decodedGroup r = .ok g) :
      Wants pg h db r .group .post (.ofGroup none (toStoreGroup g))
  | replaceGroup {g : Group} {c : GroupRow} (hdecode : h.decodedGroup r = .ok g)
      (hid : sameID r g.id = .ok ()) (hc : db.groupAt r.tenantID r.id = some c) :
      Wants pg h db r .group .put (.ofGroup (some c.id) (toStoreGroup g))
  | patchGroup {p : PatchOp} {sg : Store.Group} {c : GroupRow} (hdecode : receivedPatch r = .ok p)
      (hc : db.groupAt r.tenantID r.id = some c)
      (hpatch : h.patchedGroup r { scanGroup c with members := db.membersAt r.id } p = .ok sg) :
      Wants pg h db r .group .patch (.ofGroup (some c.id) sg)

/-- The unique index of the names is violated. -/
def NameClash (pg : Postgres) (db : Db) (tenantID : String) (x : Wanted) : Resource → Prop
  | .user => db.UserNameTaken pg tenantID x.own x.name
  | .group => db.GroupNameTaken pg tenantID x.own x.name

/-- The unique index of the external ids is violated. -/
def ExternalClash (db : Db) (tenantID : String) (x : Wanted) : Resource → Prop
  | .user => db.UserExternalTaken tenantID x.own x.externalID
  | .group => db.GroupExternalTaken tenantID x.own x.externalID

theorem taken_ofGroup {pg : Postgres} {db : Db} {tenantID : String} {own : Option Uuid} {sg : Store.Group}
    (h : NameClash pg db tenantID (.ofGroup own sg) .group ∨
      ExternalClash db tenantID (.ofGroup own sg) .group) :
    db.GroupNameTaken pg tenantID own sg.displayName ∨
      db.GroupExternalTaken tenantID own sg.externalID := h

/-- The answer to a conflict: 409, and a denied entry in the audit log as the only change. -/
def Conflicted (r : Request) (resource : Resource) (m : Method) (db : Db) (resp : Response) (db' : Db) :
    Prop :=
  resp.status = 409 ∧ (∃ detail, resp.body = .error "uniqueness" detail) ∧
    Refused r.caller resource (m.action resource) db db'

variable {pg : Postgres} {supply : Nat → Supply Env DbError} {db db' : Db} {h : Handler} {r : Request}
  {resource : Resource} {m : Method} {x : Wanted} {w : StoreWorld}

/-- The handlers know the sentinel of the name, and nothing else. -/
theorem conflicted_iff {named : Prop} {duplicate e : StoreError} {reply : StoreError → Response}
    {detail : String} (hclash : Clash r.caller resource (m.action resource) db named duplicate e db')
    (hreply : reply duplicate = writeError 409 "uniqueness" detail)
    (hother : ∀ x, reply (.db x) = serverError) : Conflicted r resource m db (reply e) db' ↔ named := by
  rcases hclash with ⟨hnamed, rfl, hrefused⟩ | ⟨hnamed, ⟨x, rfl⟩, -⟩
  · rw [hreply]
    exact iff_of_true ⟨rfl, ⟨.text detail, rfl⟩, hrefused⟩ hnamed
  · rw [hother]
    refine iff_of_false ?_ hnamed
    rintro ⟨hstatus, -⟩
    revert hstatus
    decide

/-- A call of the store that a unique index refuses. -/
theorem leads_clash {c : Store.Call α} {f : α → Handling Response} {named : Prop} {duplicate : StoreError}
    {action : Store.Action} {reply : StoreError → Response} {ok err : Response → StoreWorld → Prop}
    (hc : (engine pg).Leads supply c (fun _ _ => False)
      (fun e w' => Clash r.caller resource action db named duplicate e w'.db) w)
    (herr : ∀ e w', Clash r.caller resource action db named duplicate e w'.db → err (reply e) w') :
    (engine pg).Leads supply (refusedWith reply c >>= f) ok err w := by
  refine leads_bind.mpr (leads_refusedWith.mpr (hc.mono ?_ ?_))
  · intro _ _ hfalse
    exact hfalse.elim
  · exact fun e w' hclash => herr e w' hclash

theorem leads_mutate_clash {ok err : Response → StoreWorld → Prop} (hq : Quiet supply)
    (husers : ∀ n, db.users.find? (supply n).env.uuid = none)
    (hgroups : ∀ n, db.groups.find? (supply n).env.uuid = none)
    (hwants : Wants pg h db r resource m x)
    (htaken : NameClash pg db r.tenantID x resource ∨ ExternalClash db r.tenantID x resource)
    (hw : w.Idle db)
    (herr : ∀ (reply : StoreError → Response) (duplicate : StoreError) (detail : String) e (w' : StoreWorld),
      Clash r.caller resource (m.action resource) db (NameClash pg db r.tenantID x resource) duplicate e
        w'.db →
      reply duplicate = writeError 409 "uniqueness" detail → (∀ x, reply (.db x) = serverError) →
      err (reply e) w') :
    (engine pg).Leads supply (h.mutate r resource m) ok err w := by
  cases hwants with
  | create hdecode hsu hext =>
    refine leads_ofExcept_ok hdecode ?_
    refine leads_bind.mpr (leads_registered hw (fun w' hidle => ?_) fun _ hfault _ => (hfault hq).elim)
    rw [hsu]
    refine leads_clash (Store.leads_createUser_clash hq husers hext htaken hidle) ?_
    exact fun e w' hclash => herr createError _ _ e w' hclash rfl fun _ => rfl
  | replace hdecode hid hc hsu hext =>
    refine leads_ofExcept_ok hdecode ?_
    refine leads_ofExcept_ok hid ?_
    refine leads_bind.mpr (leads_registered hw (fun w' hidle => ?_) fun _ hfault _ => (hfault hq).elim)
    rw [hsu]
    refine leads_clash (Store.leads_updateUser_clash hq hc hext htaken hidle) ?_
    exact fun e w' hclash => herr updateError _ _ e w' hclash rfl fun _ => rfl
  | patch hdecode hc hpatch hext =>
    refine leads_ofExcept_ok hdecode ?_
    refine leads_bind.mpr (leads_refusedWith.mpr (Store.leads_getUser hw ?_ ?_))
    · intro c' w₁ hc' hidle
      rw [hc] at hc'
      cases hc'
      refine leads_bind.mpr (leads_registered hidle (fun w' hidle => ?_) fun _ hfault _ => (hfault hq).elim)
      refine leads_ofExcept_ok hpatch ?_
      refine leads_clash (Store.leads_updateUser_clash hq hc hext htaken hidle) ?_
      exact fun e w' hclash => herr updateError _ _ e w' hclash rfl fun _ => rfl
    · intro e w₁ hmissing _
      rw [(hmissing hq).2] at hc
      cases hc
  | createGroup hdecode =>
    refine leads_ofExcept_ok hdecode ?_
    refine leads_clash (Store.leads_createGroup_clash hq hgroups (taken_ofGroup htaken) hw) ?_
    exact fun e w' hclash => herr groupError _ _ e w' hclash rfl fun _ => rfl
  | replaceGroup hdecode hid hc =>
    refine leads_ofExcept_ok hdecode ?_
    refine leads_ofExcept_ok hid ?_
    refine leads_clash (Store.leads_updateGroup_clash hq hc (taken_ofGroup htaken) hw) ?_
    exact fun e w' hclash => herr groupError _ _ e w' hclash rfl fun _ => rfl
  | patchGroup hdecode hc hpatch =>
    refine leads_ofExcept_ok hdecode ?_
    refine leads_bind.mpr (leads_refusedWith.mpr (Store.leads_getGroup hw ?_ ?_))
    · intro c' w₁ hc' hidle
      rw [hc] at hc'
      cases hc'
      refine leads_ofExcept_ok hpatch ?_
      refine leads_clash (Store.leads_updateGroup_clash hq hc htaken hidle) ?_
      exact fun e w' hclash => herr groupError _ _ e w' hclash rfl fun _ => rfl
    · intro e w₁ hmissing _
      rw [(hmissing hq).2] at hc
      cases hc

/-- The POST of a group. -/
def postedGroup (name externalID : String) : Request :=
  requestFor "" (.obj [(quote "schemas", .arr [string groupSchema]), (quote "displayName", string name),
    (quote "externalId", string externalID)])

/-- What a group leaves that was created first. -/
def oneGroup (name externalID : String) : Db :=
  (serve Store.plainText Store.annSupply
    (plainHandler.mutate (postedGroup name externalID) .group .post) .empty).2

theorem oneGroup_reachable (name externalID : String) :
    Reachable Store.plainText .plain noTimes (oneGroup name externalID) :=
  .step .empty (.request ⟨false⟩ false (postedGroup name externalID) .group .post Store.annSupply .empty)

/-- The group that the POST asks for. -/
def namedGroup (name externalID : String) : Group :=
  ⟨.of [groupSchema], "", externalID, name, .nil, none⟩

def wantedGroup (name externalID : String) : Wanted := .ofGroup none (toStoreGroup (namedGroup name externalID))

theorem postedGroup_ops : Wants Store.plainText plainHandler (oneGroup "ops" "one") (postedGroup "ops" "two")
    .group .post (wantedGroup "ops" "two") := by
  have hdecode : plainHandler.decodedGroup (postedGroup "ops" "two") = .ok (namedGroup "ops" "two") := by rfl
  exact .createGroup hdecode

theorem postedGroup_dev : Wants Store.plainText plainHandler (oneGroup "ops" "one") (postedGroup "dev" "one")
    .group .post (wantedGroup "dev" "one") := by
  have hdecode : plainHandler.decodedGroup (postedGroup "dev" "one") = .ok (namedGroup "dev" "one") := by rfl
  exact .createGroup hdecode

theorem oneGroup_row : (oneGroup "ops" "one").groups.rows =
    [⟨"tenant", Store.someUuid, some "one", "ops", 5, 5⟩] := by rfl

end Scimage.Scim
