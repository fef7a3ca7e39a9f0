import Scimage.Scim.Changes
import Scimage.Scim.Serve
import Scimage.Store.Membership

/-! What requests and operators do to the directory, one after another. -/
namespace Scimage.Scim

open Txn Engine
open Store (engine Db Write Env DbError StoreWorld Postgres Resource Uuid Logged Refused UserRow GroupRow
  AttributeRow scanUser scanGroup userConflict groupConflict)
open Json (Value Map Ranking)

/-! ### Steps -/

def SameDirectory (db db' : Db) : Prop :=
  db'.users = db.users ∧ db'.groups = db.groups ∧ db'.members = db.members ∧
    db'.attributes = db.attributes

/-- A call of the store that an operator makes. -/
def operate (pg : Postgres) (supply : Nat → Supply Env DbError) (c : Store.Call α) (db : Db) : Db :=
  ((engine pg).run supply c.run (World.start db)).2.db

/-- A request to change a resource, a change of the registry, or anything that leaves the
directory as it is. -/
inductive Moves (pg : Postgres) (U : Unicode) (T : TimeText) : Db → Db → Prop where
  | request (s : Store) (extended : Bool) (r : Request) (resource : Resource) (m : Method)
      (supply : Nat → Supply Env DbError) (db : Db) :
      Moves pg U T db (serve pg supply (Handler.mutate ⟨U, T, s, extended⟩ r resource m) db).2
  | register (tenantID name typ actor : String) (supply : Nat → Supply Env DbError) (db : Db) :
      Moves pg U T db (operate pg supply (Store.registerAttribute tenantID name typ actor) db)
  | unregister (tenantID name actor : String) (supply : Nat → Supply Env DbError) (db : Db) :
      Moves pg U T db (operate pg supply (Store.unregisterAttribute tenantID name actor) db)
  | elsewhere {db db' : Db} (h : SameDirectory db db') : Moves pg U T db db'

inductive Reachable (pg : Postgres) (U : Unicode) (T : TimeText) : Db → Prop where
  | empty : Reachable pg U T .empty
  | step {db db' : Db} : Reachable pg U T db → Moves pg U T db db' → Reachable pg U T db'

/-! ### What a step may have done -/

/-- Where the contents of a user's row come from. -/
inductive UserFrom (pg : Postgres) (U : Unicode) (db : Db) (row : UserRow) : Prop where
  /-- A POST or a PUT. -/
  | body (extended : Bool) (ω : Ranking) (u : User) (keys : Map) (hvalid : validate u = "")
      (hcols : ∀ c : Column, c.get (scanUser row) = c.get (toStoreUser u))
      (hblob : Store.jsonbParam pg (captureExtended U ω keys
        (if extended then registeredAttributes U (db.attributesOf row.tenantID) else .empty)) =
          .ok row.extendedAttributes)
  | patch (extended : Bool) (c : UserRow) (baseURL : String) (ops : List Scheduled) (su : Store.User)
      (hfind : db.users.find? row.id = some c) (htenant : c.tenantID = row.tenantID)
      (hpatch : patchUser U (if extended then registeredAttributes U (db.attributesOf row.tenantID)
        else .empty) (scanUser c) baseURL ops = .ok su)
      (hcols : ∀ c : Column, c.get (scanUser row) = c.get su)
      (hblob : Store.jsonbParam pg su.extendedAttributes = .ok row.extendedAttributes)
  | deactivated (now : Time) (c : UserRow) (hfind : db.users.find? row.id = some c)
      (hrow : row = Store.deactivated now c)

/-- Where the contents of a group's row come from. -/
def GroupFrom (row : GroupRow) (ids : List String) : Prop :=
  ∃ g : Group, validateGroup g = "" ∧ row.displayName = (toStoreGroup g).displayName ∧
    row.externalID = (toStoreGroup g).externalID ∧ ids = (toStoreGroup g).members

inductive Effect (pg : Postgres) (U : Unicode) (db db' : Db) : Prop where
  | nothing (h : SameDirectory db db')
  | user (row : UserRow) (hdb : SameDirectory { db with users := db.users.put row } db')
      (howner : ∀ c, db.users.find? row.id = some c → c.tenantID = row.tenantID)
      (hfree : userConflict pg db row = none) (hrow : UserFrom pg U db row)
  | group (row : GroupRow) (id : String) (ids : List String) (now : Time) (v : Db)
      (hid : Uuid.parse id = some row.id) (hfree : groupConflict pg db row = none)
      (hrow : GroupFrom row ids) (hex : Store.Exchanged pg now row.tenantID id ids
        { db with groups := db.groups.put row } v) (hdb : SameDirectory v db')
  | dropGroup (k : Uuid) (hdb : SameDirectory (Write.apply db (.dropGroup k)) db')
  | register (a : AttributeRow) (ha : Store.reservedAttribute a.name = false)
      (hdb : SameDirectory { db with attributes := db.attributes.put a } db')
  | unregister (k : String × String)
      (hdb : SameDirectory { db with attributes := db.attributes.remove k } db')

theorem SameDirectory.refl (db : Db) : SameDirectory db db := ⟨rfl, rfl, rfl, rfl⟩

theorem SameDirectory.trans {a b c : Db} (h : SameDirectory a b) (h' : SameDirectory b c) :
    SameDirectory a c :=
  ⟨h'.1.trans h.1, h'.2.1.trans h.2.1, h'.2.2.1.trans h.2.2.1, h'.2.2.2.trans h.2.2.2⟩

theorem SameDirectory.of_logged {db db' : Db} (h : Logged db db') : SameDirectory db db' := by
  obtain ⟨log, queue, rfl⟩ := h
  exact ⟨rfl, rfl, rfl, rfl⟩

theorem SameDirectory.of_refused {db db' : Db} {rec : Store.AuditRecord} {resource : Resource}
    {action : Store.Action} (h : db' = db ∨ Refused rec resource action db db') :
    SameDirectory db db' := by
  rcases h with rfl | ⟨now, serial, target, detail, rfl⟩
  · exact .refl _
  · exact ⟨rfl, rfl, rfl, rfl⟩

/-- What a request may have done, which is nothing to the registry. -/
def ByRequest (pg : Postgres) (U : Unicode) (db db' : Db) : Prop :=
  Effect pg U db db' ∧ db'.attributes = db.attributes

section Requests

variable {pg : Postgres} {U : Unicode} {T : TimeText} {supply : Nat → Supply Env DbError}
  {w : StoreWorld} {db : Db} {s : Store} {extended : Bool} {r : Request}

theorem effect_rejected {accepts found : Prop} {rec : Store.AuditRecord} {resource : Resource}
    {m : Method} {id : String} {resp : Response} {db' : Db} {w' : StoreWorld}
    (h : Rejected supply accepts found rec resource m id db resp db') (hidle : w'.Idle db') :
    ByRequest pg U db w'.db := by
  have hsame := SameDirectory.of_refused h.change
  rw [hidle.1]
  exact ⟨.nothing hsame, hsame.2.2.2⟩

theorem decodedUser_ok {h : Handler} {u : User} {keys : Map}
    (hok : h.decodedUser r = .ok (u, keys)) : validate u = "" ∧ ∃ v, r.body = .value v ∧
      readUser h.unicode h.times v = some u ∧ keys = (Json.readMap v).getD .empty := by
  unfold Handler.decodedUser received at hok
  cases hbody : r.body with
  | tooLarge =>
    rw [hbody] at hok
    cases hok
  | malformed =>
    rw [hbody] at hok
    cases hok
  | value v =>
    rw [hbody] at hok
    change checked (decodeUser h.unicode h.times v) = _ at hok
    unfold checked decodeUser at hok
    cases hread : readUser h.unicode h.times v with
    | none =>
      rw [hread] at hok
      cases hok
    | some u' =>
      rw [hread] at hok
      dsimp only at hok
      by_cases hvalid : validate u' = ""
      · rw [if_neg (not_not.mpr hvalid)] at hok
        cases hok
        exact ⟨hvalid, v, rfl, hread, rfl⟩
      · rw [if_pos hvalid] at hok
        cases hok

theorem decodedGroup_ok {h : Handler} {g : Group} (hok : h.decodedGroup r = .ok g) :
    validateGroup g = "" ∧ ∃ v, r.body = .value v ∧ readGroup h.times v = some g := by
  unfold Handler.decodedGroup received at hok
  cases hbody : r.body with
  | tooLarge =>
    rw [hbody] at hok
    cases hok
  | malformed =>
    rw [hbody] at hok
    cases hok
  | value v =>
    rw [hbody] at hok
    change checked (decodeGroup h.times v) = _ at hok
    unfold checked decodeGroup at hok
    cases hread : readGroup h.times v with
    | none =>
      rw [hread] at hok
      cases hok
    | some g' =>
      rw [hread] at hok
      dsimp only at hok
      by_cases hvalid : validateGroup g' = ""
      · rw [if_neg (not_not.mpr hvalid)] at hok
        cases hok
        exact ⟨hvalid, v, rfl, hread⟩
      · rw [if_pos hvalid] at hok
        cases hok

theorem checked_ok {x : Except Refusal α} {a : α} (h : checked x = .ok a) : x = .ok a := by
  cases x with
  | error e => cases h
  | ok b =>
    cases h
    rfl

theorem patchedGroup_ok {h : Handler} {existing sg : Store.Group} {p : PatchOp}
    (hok : h.patchedGroup r existing p = .ok sg) :
    ∃ g, applyGroupPatch h.unicode (fromStoreGroup existing r.baseURL)
        (applied r.orders p.operations.items) = .ok g ∧ validateGroup g = "" ∧ sg = toStoreGroup g := by
  unfold Handler.patchedGroup at hok
  split at hok
  · cases hok
  · rename_i g hg
    split_ifs at hok with hvalid
    cases hok
    exact ⟨g, hg, not_not.mp hvalid, rfl⟩

/-- A user's row is written, and the logs grow. -/
theorem effect_user {row : UserRow} {db' : Db} {w' : StoreWorld}
    (hfree : userConflict pg db row = none)
    (howner : ∀ c, db.users.find? row.id = some c → c.tenantID = row.tenantID)
    (hrow : UserFrom pg U db row)
    (hlogged : Logged ((engine pg).applyAll db [.putUser row]) db') (hidle : w'.Idle db') :
    ByRequest pg U db w'.db := by
  have hsame := SameDirectory.of_logged hlogged
  rw [hidle.1]
  exact ⟨.user row hsame howner hfree hrow, hsame.2.2.2⟩

/-- The row that is replaced is the tenant's. -/
theorem owner_of_found {c row : UserRow} (hfind : db.users.find? c.id = some c)
    (hid : row.id = c.id) (htenant : row.tenantID = c.tenantID) :
    ∀ c', db.users.find? row.id = some c' → c'.tenantID = row.tenantID := by
  intro c' hc'
  rw [hid, hfind] at hc'
  cases hc'
  exact htenant.symm

theorem get_inserted (now : Time) (tenantID : String) (k : Uuid) (su : Store.User) (ext : Option String)
    (c : Column) : c.get (scanUser (Store.insertedUser now tenantID k su ext)) = c.get su := by
  cases c <;> rfl

theorem get_replaced (now : Time) (su : Store.User) (ext : Option String) (row : UserRow) (c : Column) :
    c.get (scanUser (Store.replaceUser now su ext row)) = c.get su := by
  cases c <;> rfl

theorem create_effect (hw : w.Idle db) :
    (engine pg).Leads supply (Handler.create ⟨U, T, s, extended⟩ r)
      (fun _ w => ByRequest pg U db w.db) (fun _ w => ByRequest pg U db w.db) w := by
  refine leads_create hw ?_ fun resp db' w' => effect_rejected
  intro u keys now env created ws db' w' hdecode hx hlogged hidle
  obtain ⟨ext, hext, hfind, hfree, -, rfl⟩ := Store.execInsertUser_ok hx
  refine effect_user hfree ?_ ?_ hlogged hidle
  · intro c hc
    cases hfind.symm.trans hc
  refine .body extended r.orders.capture u keys (decodedUser_ok hdecode).1 ?_ hext
  intro c
  exact (get_inserted now r.tenantID env.uuid _ ext c).trans (get_blob c (toStoreUser u) _)

theorem replace_effect (hw : w.Idle db) :
    (engine pg).Leads supply (Handler.replace ⟨U, T, s, extended⟩ r)
      (fun _ w => ByRequest pg U db w.db) (fun _ w => ByRequest pg U db w.db) w := by
  refine leads_replace hw ?_ fun resp db' w' => effect_rejected
  intro u keys now ch ws db' w' hdecode hid hx hlogged hidle
  obtain ⟨c, ext, hc, hext, hfree, -, rfl⟩ := Store.execUpdateUser_ok.mp hx
  obtain ⟨-, hfind, htenant⟩ := Store.userAt_eq_some.mp hc
  refine effect_user hfree (owner_of_found hfind rfl rfl) ?_ hlogged hidle
  refine .body extended r.orders.capture u keys (decodedUser_ok hdecode).1 ?_ ?_
  · intro col
    exact (get_replaced now _ ext c col).trans (get_blob col (toStoreUser u) _)
  · rw [← htenant] at hext
    exact hext

theorem patch_effect (hw : w.Idle db) :
    (engine pg).Leads supply (Handler.patch ⟨U, T, s, extended⟩ r)
      (fun _ w => ByRequest pg U db w.db) (fun _ w => ByRequest pg U db w.db) w := by
  refine leads_patch hw ?_ fun resp db' w' => effect_rejected
  intro p c su now ch ws db' w' hdecode hc hpatch hx hlogged hidle
  obtain ⟨c', ext, hc', hext, hfree, -, rfl⟩ := Store.execUpdateUser_ok.mp hx
  rw [hc] at hc'
  cases hc'
  obtain ⟨-, hfind, htenant⟩ := Store.userAt_eq_some.mp hc
  refine effect_user hfree (owner_of_found hfind rfl rfl) ?_ hlogged hidle
  have hpatched := checked_ok hpatch
  rw [← htenant] at hpatched
  refine .patch extended c r.baseURL (scheduled r.orders p.operations.items) su hfind rfl hpatched ?_ hext
  exact get_replaced now su ext c

theorem deactivate_effect (hw : w.Idle db) :
    (engine pg).Leads supply (Handler.deactivate ⟨U, T, s, extended⟩ r)
      (fun _ w => ByRequest pg U db w.db) (fun _ w => ByRequest pg U db w.db) w := by
  refine leads_deactivate hw ?_ fun resp db' w' => effect_rejected
  intro now ch ws db' w' hx hlogged hidle
  obtain ⟨c, hc, hfree, rfl⟩ := Store.execDeactivateUser_ok hx
  obtain ⟨-, hfind, -⟩ := Store.userAt_eq_some.mp hc
  exact effect_user hfree (owner_of_found hfind rfl rfl) (.deactivated now c hfind rfl) hlogged hidle

/-! Groups. -/

theorem effect_group {row : GroupRow} {id : String} {ids : List String} {now : Time} {v db' : Db}
    {w' : StoreWorld} (hid : Uuid.parse id = some row.id) (hfree : groupConflict pg db row = none)
    (hrow : GroupFrom row ids) (hex : Store.Exchanged pg now row.tenantID id ids
      ((engine pg).applyAll db [.putGroup row]) v) (hlogged : Logged v db') (hidle : w'.Idle db') :
    ByRequest pg U db w'.db := by
  have hsame := SameDirectory.of_logged hlogged
  rw [hidle.1]
  exact ⟨.group row id ids now v hid hfree hrow hex hsame,
    hsame.2.2.2.trans (Store.exchanged_frame hid hex).2.2⟩

theorem replaceGroup_fields (now : Time) (sg : Store.Group) (c : GroupRow) :
    (Store.replaceGroup now sg c).id = c.id ∧ (Store.replaceGroup now sg c).tenantID = c.tenantID ∧
      (Store.replaceGroup now sg c).displayName = sg.displayName ∧
      (Store.replaceGroup now sg c).externalID = sg.externalID := ⟨rfl, rfl, rfl, rfl⟩

theorem insertedGroup_fields (now : Time) (tenantID : String) (k : Uuid) (sg : Store.Group) :
    (Store.insertedGroup now tenantID k sg).id = k ∧
      (Store.insertedGroup now tenantID k sg).displayName = sg.displayName ∧
      (Store.insertedGroup now tenantID k sg).externalID = sg.externalID := ⟨rfl, rfl, rfl⟩

theorem createGroup_effect (hw : w.Idle db) :
    (engine pg).Leads supply (Handler.createGroup ⟨U, T, s, extended⟩ r)
      (fun _ w => ByRequest pg U db w.db) (fun _ w => ByRequest pg U db w.db) w := by
  refine leads_createGroup hw ?_ fun resp db' w' => effect_rejected
  intro g now env created ws v db' w' hdecode hx hex hlogged hidle
  obtain ⟨hfree, hcreated, rfl⟩ := Store.execInsertGroup_ok hx
  rw [hcreated] at hex
  obtain ⟨-, hname, hext⟩ := insertedGroup_fields now r.tenantID env.uuid (toStoreGroup g)
  exact effect_group (Uuid.parse_text _) hfree ⟨g, (decodedGroup_ok hdecode).1, hname, hext, rfl⟩ hex
    hlogged hidle

/-- A group row that is written over, whichever request asks for it. -/
theorem effect_replaced {g : Group} {sg : Store.Group} {c : GroupRow} {now : Time} {v db' : Db}
    {w' : StoreWorld} (hsg : sg = toStoreGroup g) (hvalid : validateGroup g = "")
    (hc : db.groupAt r.tenantID r.id = some c)
    (hfree : groupConflict pg db (Store.replaceGroup now sg c) = none)
    (hex : Store.Exchanged pg now r.tenantID r.id sg.members
      ((engine pg).applyAll db [.putGroup (Store.replaceGroup now sg c)]) v)
    (hlogged : Logged v db') (hidle : w'.Idle db') : ByRequest pg U db w'.db := by
  obtain ⟨hparse, -, htenant⟩ := Store.groupAt_eq_some.mp hc
  obtain ⟨hsame, htenant', hname, hext⟩ := replaceGroup_fields now sg c
  rw [← htenant, ← htenant'] at hex
  rw [← hsame] at hparse
  refine effect_group hparse hfree ⟨g, hvalid, ?_, ?_, ?_⟩ hex hlogged hidle
  · rw [hname, hsg]
  · rw [hext, hsg]
  · rw [hsg]

theorem replaceGroup_effect (hw : w.Idle db) :
    (engine pg).Leads supply (Handler.replaceGroup ⟨U, T, s, extended⟩ r)
      (fun _ w => ByRequest pg U db w.db) (fun _ w => ByRequest pg U db w.db) w := by
  refine leads_replaceGroup hw ?_ fun resp db' w' => effect_rejected
  intro g now after ws v db' w' hdecode hid hx hex hlogged hidle
  obtain ⟨c, hc, hfree, -, rfl⟩ := Store.execUpdateGroup_ok.mp hx
  exact effect_replaced rfl (decodedGroup_ok hdecode).1 hc hfree hex hlogged hidle

theorem patchGroup_effect (hw : w.Idle db) :
    (engine pg).Leads supply (Handler.patchGroup ⟨U, T, s, extended⟩ r)
      (fun _ w => ByRequest pg U db w.db) (fun _ w => ByRequest pg U db w.db) w := by
  refine leads_patchGroup hw ?_ fun resp db' w' => effect_rejected
  intro p c sg now after ws v db' w' hdecode hc hpatch hx hex hlogged hidle
  obtain ⟨g, -, hvalid, hsg⟩ := patchedGroup_ok hpatch
  obtain ⟨c', hc', hfree, -, rfl⟩ := Store.execUpdateGroup_ok.mp hx
  exact effect_replaced hsg hvalid hc' hfree hex hlogged hidle

theorem deleteGroup_effect (hw : w.Idle db) :
    (engine pg).Leads supply (Handler.deleteGroup ⟨U, T, s, extended⟩ r)
      (fun _ w => ByRequest pg U db w.db) (fun _ w => ByRequest pg U db w.db) w := by
  refine leads_deleteGroup hw ?_ fun resp db' w' => effect_rejected
  intro c n ws db' w' hc hx hlogged hidle
  obtain ⟨hparse, -, -⟩ := Store.groupAt_eq_some.mp hc
  rw [hidle.1]
  rcases Store.deleteGroup_ok hparse hx with rfl | ⟨rfl, -⟩
  · have hsame := SameDirectory.of_logged hlogged
    exact ⟨.dropGroup c.id hsame, hsame.2.2.2⟩
  · have hsame := SameDirectory.of_logged hlogged
    exact ⟨.nothing hsame, hsame.2.2.2⟩

theorem request_byRequest (pg : Postgres) (supply : Nat → Supply Env DbError) (s : Store)
    (extended : Bool) (r : Request) (resource : Resource) (m : Method) (db : Db) :
    ByRequest pg U db (serve pg supply (Handler.mutate ⟨U, T, s, extended⟩ r resource m) db).2 := by
  refine leads_serve (Q := fun _ db' => ByRequest pg U db db') ?_
  have hw : (World.start db : StoreWorld).Idle db := ⟨rfl, rfl⟩
  cases resource with
  | user =>
    cases m with
    | post => exact create_effect hw
    | put => exact replace_effect hw
    | patch => exact patch_effect hw
    | delete => exact deactivate_effect hw
  | group =>
    cases m with
    | post => exact createGroup_effect hw
    | put => exact replaceGroup_effect hw
    | patch => exact patchGroup_effect hw
    | delete => exact deleteGroup_effect hw

theorem request_effect (pg : Postgres) (supply : Nat → Supply Env DbError) (s : Store)
    (extended : Bool) (r : Request) (resource : Resource) (m : Method) (db : Db) :
    Effect pg U db (serve pg supply (Handler.mutate ⟨U, T, s, extended⟩ r resource m) db).2 :=
  (request_byRequest pg supply s extended r resource m db).1

/-- No request changes the registry. -/
theorem request_attributes (pg : Postgres) (supply : Nat → Supply Env DbError) (s : Store)
    (extended : Bool) (r : Request) (resource : Resource) (m : Method) (db : Db) :
    (serve pg supply (Handler.mutate ⟨U, T, s, extended⟩ r resource m) db).2.attributes = db.attributes :=
  (request_byRequest (U := U) pg supply s extended r resource m db).2

end Requests

/-! ### The registry -/

section Operators

variable {pg : Postgres} {U : Unicode} {T : TimeText} {supply : Nat → Supply Env DbError}
  {w : StoreWorld} {db v : Db} {now : Time}

/-- A call that fails leaves what was there. -/
theorem unchanged_idle {P : Db → Prop} {w' w'' : StoreWorld} (h : P db) (hdb : w'.db = db)
    (hidle : w''.Idle w'.db) : P w''.db := by
  rw [hidle.1, hdb]
  exact h

/-- A transaction that has written into the registry, its entry and its end. -/
theorem leads_governed {tenantID actor targetID detail : String} {action : Store.AdminAction}
    (hw : (engine pg).Open now db v w) {P : Db → Prop} (hsame : ∀ db', SameDirectory db db' → P db')
    (hv : ∀ db', SameDirectory v db' → P db') :
    (engine pg).Leads supply (Store.insertAdminAudit .tx tenantID actor action targetID detail)
      (fun _ => (engine pg).Leads supply Store.commit
        (fun _ w' => ∀ w'' : StoreWorld, w''.Idle w'.db → P w''.db)
        (fun _ w' => ∀ w'' : StoreWorld, w''.Idle w'.db → P w''.db))
      (fun _ w' => ∀ w'' : StoreWorld, w''.Idle w'.db → P w''.db) w := by
  have hfail : ∀ (w' w'' : StoreWorld), w'.db = db → w''.Idle w'.db → P w''.db :=
    fun _ _ hdb hidle => unchanged_idle (hsame db (.refl db)) hdb hidle
  refine Store.leads_exec hw ?_ ?_
  · intro env _ ws w₁ hx hopen
    change Store.execInsertAdminAudit now env tenantID actor action targetID detail = _ at hx
    cases hx
    refine Store.leads_commit_tx hopen ?_ ?_
    · intro w₂ hidle w₃ hidle'
      rw [hidle'.1, hidle.1]
      exact hv _ ⟨rfl, rfl, rfl, rfl⟩
    · intro _ w₂ _ hdb w₃ hidle
      exact hfail w₂ w₃ hdb hidle
  · intro _ w₁ _ hdb w₂ hidle
    exact hfail w₁ w₂ hdb hidle

theorem leads_guarded {p : Prop} [Decidable p] {e : Store.StoreError} {c : Store.Call α}
    {ok : α → StoreWorld → Prop} {err : Store.StoreError → StoreWorld → Prop} (hthrow : p → err e w)
    (hgo : ¬ p → (engine pg).Leads supply c ok err w) :
    (engine pg).Leads supply (if p then throw e else c) ok err w := by
  by_cases hp : p
  · rw [if_pos hp, leads_throw]
    exact hthrow hp
  · rw [if_neg hp]
    exact hgo hp

/-- A name that is registered is trimmed, is not reserved and was not there in this spelling. -/
theorem leads_register {tenantID name typ actor : String} {P : Db → Prop} (hw : w.Idle db)
    (hnothing : ∀ db', SameDirectory db db' → P db')
    (hput : ∀ (a : AttributeRow) db', a.tenantID = tenantID → a.name = Store.trimSpace name →
      Store.reservedAttribute a.name = false →
      SameDirectory { db with attributes := db.attributes.put a } db' → P db') :
    (engine pg).Leads supply (Store.registerAttribute tenantID name typ actor)
      (fun _ w => P w.db) (fun _ w => P w.db) w := by
  have hfail : ∀ (w' w'' : StoreWorld), w'.db = db → w''.Idle w'.db → P w''.db :=
    fun _ _ hdb hidle => unchanged_idle (hnothing db (.refl db)) hdb hidle
  refine leads_guarded ?_ ?_
  · intro _
    rw [hw.1]
    exact hnothing db (.refl db)
  intro hres
  generalize (if Store.trimSpace typ = "" then "string" else typ) = typ'
  refine Store.leads_inTx hw ?_ ?_
  · intro now w' hopen
    refine leads_bind.mpr (leads_tx hopen ?_ ?_)
    · intro env row ws w'' hx hopen'
      change Store.execInsertAttribute tenantID (Store.trimSpace name) typ' actor now db = _ at hx
      unfold Store.execInsertAttribute at hx
      dsimp only at hx
      split at hx
      · cases hx
      · cases hx
        refine leads_bind.mpr ?_
        refine (leads_governed hopen' hnothing fun db' =>
          hput _ db' rfl rfl (Bool.eq_false_of_not_eq_true hres)).mono ?_ fun _ _ h => h
        exact fun _ _ h => leads_bind.mpr h
    · intro e w'' _ hdb
      dsimp only
      by_cases he : Store.isUniqueViolationOn e Store.uniqueAttributeIndex
      · rw [if_pos he]
        intro w₁ hidle
        exact hfail w'' w₁ hdb hidle
      · rw [if_neg he]
        intro w₁ hidle
        exact hfail w'' w₁ hdb hidle
  · intro e w' _ hidle
    exact hfail w w' hw.1 (hw.1 ▸ hidle)

theorem register_effect {tenantID name typ actor : String} (hw : w.Idle db) :
    (engine pg).Leads supply (Store.registerAttribute tenantID name typ actor)
      (fun _ w => Effect pg U db w.db) (fun _ w => Effect pg U db w.db) w :=
  leads_register (P := fun db' => Effect pg U db db') hw (fun _ h => .nothing h)
    fun a _ _ _ ha h => .register a ha h

/-- A name goes from the registry, or nothing changes. -/
theorem leads_unregister {tenantID name actor : String} {P : Db → Prop} (hw : w.Idle db)
    (hnothing : ∀ db', SameDirectory db db' → P db')
    (hremove : ∀ (k : String × String) db',
      SameDirectory { db with attributes := db.attributes.remove k } db' → P db') :
    (engine pg).Leads supply (Store.unregisterAttribute tenantID name actor)
      (fun _ w => P w.db) (fun _ w => P w.db) w := by
  have hfail : ∀ (w' w'' : StoreWorld), w'.db = db → w''.Idle w'.db → P w''.db :=
    fun _ _ hdb hidle => unchanged_idle (hnothing db (.refl db)) hdb hidle
  refine Store.leads_inTx hw ?_ ?_
  · intro now w' hopen
    refine leads_bind.mpr (Store.leads_exec hopen ?_ ?_)
    · intro env n ws w'' hx hopen'
      change Store.execDeleteAttribute tenantID (Store.trimSpace name) db db = _ at hx
      unfold Store.execDeleteAttribute at hx
      split at hx
      · cases hx
        have hone : ¬ (1 : Nat) = 0 := by decide
        rw [if_neg hone]
        exact leads_bind.mpr (leads_governed hopen' hnothing fun db' => hremove _ db')
      · cases hx
        rw [if_pos rfl]
        intro w₁ hidle
        exact hfail w'' w₁ hopen'.1 hidle
    · intro _ w₁ _ hdb w₂ hidle
      exact hfail w₁ w₂ hdb hidle
  · intro e w' _ hidle
    exact hfail w w' hw.1 (hw.1 ▸ hidle)

theorem unregister_effect {tenantID name actor : String} (hw : w.Idle db) :
    (engine pg).Leads supply (Store.unregisterAttribute tenantID name actor)
      (fun _ w => Effect pg U db w.db) (fun _ w => Effect pg U db w.db) w :=
  leads_unregister (P := fun db' => Effect pg U db db') hw (fun _ h => .nothing h)
    fun k _ h => .unregister k h

theorem leads_operate {c : Store.Call α} {P : Db → Prop}
    (h : (engine pg).Leads supply c (fun _ w => P w.db) (fun _ w => P w.db) (World.start db)) :
    P (operate pg supply c db) := by
  unfold Leads at h
  unfold operate
  revert h
  rcases (engine pg).run supply c.run (World.start db) with ⟨e | a, w⟩ <;> exact id

/-- Whatever a step is, it has one of six effects. -/
theorem moves_effect {db' : Db} (h : Moves pg U T db db') : Effect pg U db db' := by
  cases h with
  | request s extended r resource m supply => exact request_effect pg supply s extended r resource m db
  | register tenantID name typ actor supply =>
    exact leads_operate (P := fun db' => Effect pg U db db') (register_effect ⟨rfl, rfl⟩)
  | unregister tenantID name actor supply =>
    exact leads_operate (P := fun db' => Effect pg U db db') (unregister_effect ⟨rfl, rfl⟩)
  | elsewhere h => exact .nothing h

end Operators

/-! ### What holds of every stored user -/

/-- PostgreSQL reads the `jsonb` that it has written. -/
def Rereads (pg : Postgres) : Prop := ∀ raw j, pg.jsonb raw = some j → j ≠ "" ∧ (pg.jsonb j).isSome

/-- The columns passed `validate` when they were written, and the blob is one that PostgreSQL wrote. -/
structure UserKept (pg : Postgres) (row : UserRow) : Prop where
  validated : Validated (scanUser row)
  blob : ∀ j, row.extendedAttributes = some j → ∃ raw, pg.jsonb raw = some j

/-- Every user is kept, the indexes hold and no reserved name is registered. -/
structure DirectoryKept (pg : Postgres) (db : Db) : Prop where
  users : ∀ row ∈ db.users.rows, UserKept pg row
  distinct : Store.DistinctUsers pg db
  attributes : ∀ a ∈ db.attributes.rows, Store.reservedAttribute a.name = false

theorem jsonbParam_some {pg : Postgres} {raw j : String}
    (h : Store.jsonbParam pg raw = .ok (some j)) : pg.jsonb raw = some j := by
  rw [Store.jsonbParam] at h
  by_cases hraw : raw = ""
  · rw [if_pos hraw] at h
    cases h
  · rw [if_neg hraw] at h
    split at h
    · rename_i hj
      cases h
      exact hj
    · cases h

/-- Every row that a step writes is kept. -/
theorem UserFrom.kept {pg : Postgres} {U : Unicode} {db : Db} {row : UserRow}
    (h : UserFrom pg U db row) (hkept : ∀ c ∈ db.users.rows, UserKept pg c) : UserKept pg row := by
  cases h with
  | body extended ω u keys hvalid hcols hblob =>
    refine ⟨⟨u, hvalid, hcols⟩, ?_⟩
    intro j hj
    rw [hj] at hblob
    exact ⟨_, jsonbParam_some hblob⟩
  | patch extended c baseURL ops su hfind htenant hpatch hcols hblob =>
    refine ⟨(patchUser_validated hpatch).congr hcols, ?_⟩
    intro j hj
    rw [hj] at hblob
    exact ⟨_, jsonbParam_some hblob⟩
  | deactivated now c hfind hrow =>
    have hc := hkept c (Relational.Table.find?_mem hfind)
    subst hrow
    refine ⟨hc.validated.inactive rfl ?_, hc.blob⟩
    intro col hcol
    cases col with
    | active => exact (hcol rfl).elim
    | _ => rfl

theorem DirectoryKept.congr {pg : Postgres} {db db' : Db} (h : DirectoryKept pg db)
    (husers : db'.users = db.users) (hattributes : db'.attributes = db.attributes) :
    DirectoryKept pg db' := by
  refine ⟨?_, h.distinct.congr husers, ?_⟩
  · rw [husers]
    exact h.users
  · rw [hattributes]
    exact h.attributes

theorem effect_kept {pg : Postgres} {U : Unicode} {db db' : Db} (hkept : DirectoryKept pg db)
    (h : Effect pg U db db') : DirectoryKept pg db' := by
  cases h with
  | nothing h => exact hkept.congr h.1 h.2.2.2
  | user row hdb howner hfree hrow =>
    refine ⟨?_, hkept.distinct.put hfree hdb.1, ?_⟩
    · intro c hc
      rw [hdb.1] at hc
      rcases Relational.Table.mem_put.mp hc with rfl | ⟨hc, -⟩
      · exact hrow.kept hkept.users
      · exact hkept.users c hc
    · rw [hdb.2.2.2]
      exact hkept.attributes
  | group row id ids now v hid hfree hrow hex hdb =>
    obtain ⟨husers, -, hattributes⟩ := Store.exchanged_frame hid hex
    exact hkept.congr (hdb.1.trans husers) (hdb.2.2.2.trans hattributes)
  | dropGroup k hdb => exact hkept.congr hdb.1 hdb.2.2.2
  | register a ha hdb =>
    refine ⟨?_, hkept.distinct.congr hdb.1, ?_⟩
    · rw [hdb.1]
      exact hkept.users
    · intro b hb
      rw [hdb.2.2.2] at hb
      have hfind := Relational.Table.find?_of_mem hb
      rw [Relational.Table.find?_put] at hfind
      split_ifs at hfind
      · cases hfind
        exact ha
      · exact hkept.attributes b (Relational.Table.find?_mem hfind)
  | unregister k hdb =>
    refine ⟨?_, hkept.distinct.congr hdb.1, ?_⟩
    · rw [hdb.1]
      exact hkept.users
    · intro b hb
      rw [hdb.2.2.2] at hb
      exact hkept.attributes b (List.mem_of_mem_filter hb)

/-- What holds of the directory in every run. -/
theorem reachable_kept {pg : Postgres} {U : Unicode} {T : TimeText} {db : Db}
    (h : Reachable pg U T db) : DirectoryKept pg db := by
  induction h with
  | empty => exact ⟨fun _ h => absurd h List.not_mem_nil, fun _ h => absurd h List.not_mem_nil,
      fun _ h => absurd h List.not_mem_nil⟩
  | step _ hmove ih => exact effect_kept ih (moves_effect hmove)

end Scimage.Scim
