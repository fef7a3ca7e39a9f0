import Scimage.Scim.Agreement
import Scimage.Scim.GroupBatch

/-! What a write is answered with is what is read back. -/
namespace Scimage.Scim

open Txn Engine
open Store (engine Db Env DbError StoreWorld Postgres UserRow GroupRow Uuid scanUser scanGroup Resource)
open Json (Value)

variable {pg : Postgres} {h : Handler} {db : Db} {r : Request} {resp : Response}
  {supply : Nat → Supply Env DbError} {w : StoreWorld} {α β : Type}

def Handler.lookup (h : Handler) (r : Request) : Resource → Handling Response
  | .user => h.get r
  | .group => h.getGroup r

/-- The path of `Location` from the base on. -/
def resourcePath : Resource → String
  | .user => "/Users/"
  | .group => "/Groups/"

/-! ### Refusals show no resource -/

def Response.Bare (resp : Response) : Prop := ∀ v, resp.body ≠ .resource v

theorem bare_refusal (e : Refusal) : e.response.Bare := fun v h => by cases h

theorem bare_notValidJSON : notValidJSON.Bare := fun v h => by cases h

theorem received_bare (hr : received r = .error resp) : resp.Bare := by
  unfold received at hr
  split at hr
  · cases hr
  · cases hr
    exact bare_notValidJSON
  · cases hr
    exact fun v h => by cases h

theorem receivedPatch_bare (hr : receivedPatch r = .error resp) : resp.Bare := by
  unfold receivedPatch at hr
  split at hr
  · split at hr
    · cases hr
    · cases hr
      exact bare_notValidJSON
  all_goals
    cases hr
    exact bare_notValidJSON

theorem checked_bare {x : Except Refusal α} (hx : checked x = .error resp) : resp.Bare := by
  obtain ⟨e, -, rfl⟩ := checked_error hx
  exact bare_refusal e

theorem decodedUser_bare (hd : h.decodedUser r = .error resp) : resp.Bare := by
  rcases bind_error hd with hbody | ⟨v, -, hdecode⟩
  · exact received_bare hbody
  · exact checked_bare hdecode

theorem decodedGroup_bare (hd : h.decodedGroup r = .error resp) : resp.Bare := by
  rcases bind_error hd with hbody | ⟨v, -, hdecode⟩
  · exact received_bare hbody
  · exact checked_bare hdecode

theorem sameID_bare {id : String} (hid : sameID r id = .error resp) : resp.Bare := by
  unfold sameID at hid
  split_ifs at hid
  cases hid
  exact bare_refusal _

theorem patchedGroup_bare {existing : Store.Group} {p : PatchOp}
    (hp : h.patchedGroup r existing p = .error resp) : resp.Bare := by
  unfold Handler.patchedGroup at hp
  split at hp
  · cases hp
    exact bare_refusal _
  · split_ifs at hp
    cases hp
    exact bare_refusal _

theorem reply_bare (e : Store.StoreError) :
    (createError e).Bare ∧ (lookupError e).Bare ∧ (updateError e).Bare ∧ (groupError e).Bare := by
  refine ⟨fun v h => ?_, fun v h => ?_, fun v h => ?_, fun v h => ?_⟩ <;> cases e <;> cases h

/-- Whatever stops the handling, the answer shows no resource. -/
def Stops (pg : Postgres) (supply : Nat → Supply Env DbError) (c : Handling α) : Prop :=
  ∀ w, (engine pg).Leads supply c (fun _ _ => True) (fun resp _ => resp.Bare) w

theorem stops_bind {c : Handling α} {f : α → Handling β} (hc : Stops pg supply c)
    (hf : ∀ a, Stops pg supply (f a)) : Stops pg supply (c >>= f) :=
  fun w => leads_bind.mpr ((hc w).mono (fun a w' _ => hf a w') fun _ _ h => h)

theorem stops_ofExcept {x : Except Response α} (hx : ∀ resp, x = .error resp → resp.Bare) :
    Stops pg supply (ofExcept x : Handling α) := by
  intro w
  rw [leads_ofExcept]
  cases x with
  | error resp => exact hx resp rfl
  | ok a => trivial

theorem stops_refusedWith {c : Store.Call α} {reply : Store.StoreError → Response}
    (hreply : ∀ e, (reply e).Bare) : Stops pg supply (refusedWith reply c) :=
  fun _ => leads_refusedWith.mpr (leads_any.mono (fun _ _ _ => trivial) fun e _ _ => hreply e)

theorem stops_pure (a : α) : Stops pg supply (pure a : Handling α) := fun _ => trivial

theorem stops_registered : Stops pg supply (h.registered r) := by
  unfold Handler.registered
  split
  · exact stops_bind (stops_refusedWith fun _ v h => by cases h) fun _ => stops_pure _
  · exact stops_pure _

theorem mutate_stops (resource : Resource) (m : Method) : Stops pg supply (h.mutate r resource m) := by
  cases resource with
  | user =>
    cases m with
    | post =>
      exact stops_bind (stops_ofExcept fun _ => decodedUser_bare) fun _ => stops_bind stops_registered
        fun _ => stops_bind (stops_refusedWith fun e => (reply_bare e).1) fun _ => stops_pure _
    | put =>
      exact stops_bind (stops_ofExcept fun _ => decodedUser_bare) fun _ =>
        stops_bind (stops_ofExcept fun _ => sameID_bare) fun _ => stops_bind stops_registered
          fun _ => stops_bind (stops_refusedWith fun e => (reply_bare e).2.2.1) fun _ => stops_pure _
    | patch =>
      exact stops_bind (stops_ofExcept fun _ => receivedPatch_bare) fun _ =>
        stops_bind (stops_refusedWith fun e => (reply_bare e).2.1) fun _ => stops_bind stops_registered
          fun _ => stops_bind (stops_ofExcept fun _ => checked_bare)
            fun _ => stops_bind (stops_refusedWith fun e => (reply_bare e).2.2.1) fun _ => stops_pure _
    | delete => exact stops_bind (stops_refusedWith fun e => (reply_bare e).2.1) fun _ => stops_pure _
  | group =>
    have hreply : ∀ e, (groupError e).Bare := fun e => (reply_bare e).2.2.2
    cases m with
    | post =>
      exact stops_bind (stops_ofExcept fun _ => decodedGroup_bare) fun _ =>
        stops_bind (stops_refusedWith hreply) fun _ => stops_pure _
    | put =>
      exact stops_bind (stops_ofExcept fun _ => decodedGroup_bare) fun _ =>
        stops_bind (stops_ofExcept fun _ => sameID_bare) fun _ =>
          stops_bind (stops_refusedWith hreply) fun _ => stops_pure _
    | patch =>
      exact stops_bind (stops_ofExcept fun _ => receivedPatch_bare) fun _ =>
        stops_bind (stops_refusedWith hreply) fun _ =>
          stops_bind (stops_ofExcept fun _ => patchedGroup_bare) fun _ =>
            stops_bind (stops_refusedWith hreply) fun _ => stops_pure _
    | delete => exact stops_bind (stops_refusedWith hreply) fun _ => stops_pure _

/-! ### Answers that show one -/

/-- Where the resource of an answer is found: under the id of the request, or where `Location` says. -/
structure Located (r : Request) (resource : Resource) (resp : Response) (id : String) : Prop where
  place : resp.status = 200 ∧ id = r.id ∨
    resp.status = 201 ∧ resp.location = r.baseURL ++ resourcePath resource ++ id

/-- A GET of the resource answers with it. -/
def ReadsBack (pg : Postgres) (h : Handler) (r : Request) (resource : Resource) (resp : Response)
    (db : Db) : Prop :=
  ∀ v, resp.body = .resource v → ∃ id, Located r resource resp id ∧
    ∀ again, Quiet again →
      serve pg again (h.lookup { r with id := id } resource) db = (writeJSON 200 v, db)

theorem user_readsBack (row : UserRow) {id : String} (hrow : db.userAt r.tenantID id = some row)
    (hresp : Located r .user resp id) (hbody : resp.body = .resource (h.userResource r (scanUser row))) :
    ReadsBack pg h r .user resp db := by
  intro v hv
  cases hbody.symm.trans hv
  exact ⟨id, hresp, fun again hagain => serve_get (r := { r with id := id }) hagain hrow⟩

theorem group_readsBack (row : GroupRow) {id : String} (hrow : db.groupAt r.tenantID id = some row)
    (hresp : Located r .group resp id)
    (hbody : resp.body = .resource (h.groupResource r (db.groupWithMembers row))) :
    ReadsBack pg h r .group resp db := by
  intro v hv
  cases hbody.symm.trans hv
  exact ⟨id, hresp, fun again hagain => serve_getGroup (r := { r with id := id }) hagain hrow⟩

theorem Response.Bare.readsBack {resource : Resource} (hb : resp.Bare) :
    ReadsBack pg h r resource resp db := fun v hv => (hb v hv).elim

/-! ### The endpoints -/

variable {db' : Db} {w' : StoreWorld}

theorem userAt_written {id : String} {c row : UserRow} {ws : List Store.Write}
    (hc : db.userAt r.tenantID id = some c) (hid : row.id = c.id) (htenant : row.tenantID = c.tenantID)
    (hws : ws = [.putUser row]) (hlogged : Store.Logged ((engine pg).applyAll db ws) db') :
    db'.userAt r.tenantID id = some row := by
  obtain ⟨hparse, -, howner⟩ := Store.userAt_eq_some.mp hc
  refine Store.userAt_eq_some.mpr ⟨by rw [hparse, hid], ?_, htenant.trans howner⟩
  rw [(SameDirectory.of_logged hlogged).1, hws]
  exact (Relational.Table.find?_put _ _ _).trans (if_pos rfl)

theorem create_readsBack (hw : w.Idle db) : (engine pg).Leads supply (h.create r)
    (fun resp w => ReadsBack pg h r .user resp w.db) (fun _ _ => True) w := by
  refine leads_create hw ?_ fun _ _ _ _ _ => trivial
  rintro u keys now env created ws db' w' - hx hlogged ⟨rfl, -⟩
  obtain ⟨ext, -, -, -, rfl, rfl⟩ := Store.execInsertUser_ok hx
  refine user_readsBack (Store.insertedUser now r.tenantID env.uuid
    (h.userRow r (h.registryOf db r.tenantID) u keys) ext) ?_ ⟨Or.inr ⟨rfl, rfl⟩⟩ rfl
  refine Store.userAt_eq_some.mpr ⟨Uuid.parse_text _, ?_, rfl⟩
  rw [(SameDirectory.of_logged hlogged).1]
  exact (Relational.Table.find?_put _ _ _).trans (if_pos rfl)

theorem replace_readsBack (hw : w.Idle db) : (engine pg).Leads supply (h.replace r)
    (fun resp w => ReadsBack pg h r .user resp w.db) (fun _ _ => True) w := by
  refine leads_replace hw ?_ fun _ _ _ _ _ => trivial
  rintro u keys now ch ws db' w' - - hx hlogged ⟨rfl, -⟩
  obtain ⟨c, ext, hc, -, -, rfl, hws⟩ := Store.execUpdateUser_ok.mp hx
  exact user_readsBack (Store.replaceUser now (h.userRow r (h.registryOf db r.tenantID) u keys) ext c)
    (userAt_written hc rfl rfl hws hlogged) ⟨Or.inl ⟨rfl, rfl⟩⟩ rfl

theorem patch_readsBack (hw : w.Idle db) : (engine pg).Leads supply (h.patch r)
    (fun resp w => ReadsBack pg h r .user resp w.db) (fun _ _ => True) w := by
  refine leads_patch hw ?_ fun _ _ _ _ _ => trivial
  rintro p c su now ch ws db' w' - - - hx hlogged ⟨rfl, -⟩
  obtain ⟨c, ext, hc, -, -, rfl, hws⟩ := Store.execUpdateUser_ok.mp hx
  exact user_readsBack (Store.replaceUser now su ext c) (userAt_written hc rfl rfl hws hlogged) ⟨Or.inl ⟨rfl, rfl⟩⟩ rfl

/-- A group whose members have been exchanged is answered with them. -/
theorem exchanged_readsBack (row : GroupRow) {id : String} {ids : List String} {now : Txn.Time} {v : Db}
    (hid : Uuid.parse id = some row.id) (htenant : row.tenantID = r.tenantID)
    (hex : Store.Exchanged pg now r.tenantID id ids ((engine pg).applyAll db [.putGroup row]) v)
    (hlogged : Store.Logged v db') (hresp : Located r .group resp id)
    (hbody : resp.body =
      .resource (h.groupResource r { scanGroup row with members := v.membersAt id })) :
    ReadsBack pg h r .group resp db' := by
  obtain ⟨-, hgroups, -⟩ := Store.exchanged_frame hid hex
  obtain ⟨-, hgroups', hmembers', -⟩ := SameDirectory.of_logged hlogged
  refine group_readsBack row (Store.groupAt_eq_some.mpr ⟨hid, ?_, htenant⟩) hresp ?_
  · rw [hgroups', hgroups]
    exact (Relational.Table.find?_put _ _ _).trans (if_pos rfl)
  · have hmembers : db'.membersOf row.id = v.membersAt id := by
      rw [Store.Db.membersAt, hid, Db.membersOf, hmembers']
      rfl
    rw [hbody, Store.Db.groupWithMembers, hmembers]

theorem createGroup_readsBack (hw : w.Idle db) : (engine pg).Leads supply (h.createGroup r)
    (fun resp w => ReadsBack pg h r .group resp w.db) (fun _ _ => True) w := by
  refine leads_createGroup hw ?_ fun _ _ _ _ _ => trivial
  rintro g now env created ws v db' w' - hx hex hlogged ⟨rfl, -⟩
  obtain ⟨-, rfl, rfl⟩ := Store.execInsertGroup_ok hx
  exact exchanged_readsBack _ (Uuid.parse_text _) rfl hex hlogged ⟨Or.inr ⟨rfl, rfl⟩⟩ rfl

/-- A group row that is written over, whichever request asks for it. -/
theorem updated_readsBack {sg after : Store.Group} {ws : List Store.Write} {now : Txn.Time} {v : Db}
    (hx : Store.execUpdateGroup pg now r.tenantID r.id sg db db = .ok (some after, ws))
    (hex : Store.Exchanged pg now r.tenantID r.id sg.members ((engine pg).applyAll db ws) v)
    (hlogged : Store.Logged v db') : ReadsBack pg h r .group
      (writeJSON 200 (h.groupResource r { after with members := v.membersAt r.id })) db' := by
  obtain ⟨c, hc, -, rfl, rfl⟩ := Store.execUpdateGroup_ok.mp hx
  obtain ⟨hparse, -, htenant⟩ := Store.groupAt_eq_some.mp hc
  exact exchanged_readsBack (Store.replaceGroup now sg c) hparse htenant hex hlogged
    ⟨Or.inl ⟨rfl, rfl⟩⟩ rfl

theorem replaceGroup_readsBack (hw : w.Idle db) : (engine pg).Leads supply (h.replaceGroup r)
    (fun resp w => ReadsBack pg h r .group resp w.db) (fun _ _ => True) w := by
  refine leads_replaceGroup hw ?_ fun _ _ _ _ _ => trivial
  rintro g now after ws v db' w' - - hx hex hlogged ⟨rfl, -⟩
  exact updated_readsBack hx hex hlogged

theorem patchGroup_readsBack (hw : w.Idle db) : (engine pg).Leads supply (h.patchGroup r)
    (fun resp w => ReadsBack pg h r .group resp w.db) (fun _ _ => True) w := by
  refine leads_patchGroup hw ?_ fun _ _ _ _ _ => trivial
  rintro p c sg now after ws v db' w' - - - hx hex hlogged ⟨rfl, -⟩
  exact updated_readsBack hx hex hlogged

theorem deleted_readsBack {resource : Resource} {c : Store.Call α} {reply : Store.StoreError → Response} :
    (engine pg).Leads supply (refusedWith reply c >>= fun _ => pure noContent)
      (fun resp w => ReadsBack pg h r resource resp w.db) (fun _ _ => True) w :=
  leads_bind.mpr (leads_any.mono
    (fun _ _ _ => Response.Bare.readsBack fun v hv => by cases hv) fun _ _ _ => trivial)

theorem mutate_readsBack (hw : w.Idle db) (resource : Resource) (m : Method) :
    (engine pg).Leads supply (h.mutate r resource m)
      (fun resp w => ReadsBack pg h r resource resp w.db) (fun _ _ => True) w := by
  cases resource with
  | user =>
    cases m with
    | post => exact create_readsBack hw
    | put => exact replace_readsBack hw
    | patch => exact patch_readsBack hw
    | delete => exact deleted_readsBack
  | group =>
    cases m with
    | post => exact createGroup_readsBack hw
    | put => exact replaceGroup_readsBack hw
    | patch => exact patchGroup_readsBack hw
    | delete => exact deleted_readsBack

end Scimage.Scim
