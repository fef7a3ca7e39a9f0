import Scimage.Scim.Batch
import Scimage.Scim.Spelling

/-! Two PATCHes of a group, and both of them at once. -/
namespace Scimage.Scim

open Txn Engine
open Store (engine Db Env DbError StoreWorld Postgres GroupRow Uuid trimSpace trimSpace_trimSpace
  dedupeNonEmpty parseIDs parseIDs_ok Exchanged newcomers)
open Json (Value Ranking quote)

variable {U : Unicode} {P : Uuid → Prop} {g g' : Group} {ks : List Uuid}

/-! ### Two PATCHes and one -/

theorem Twin.validate (ht : Twin P g g') : validateGroup g = validateGroup g' := by
  simp only [validateGroup, ht.name, ht.schemas]

theorem Twin.stored (ht : Twin P g g') : (toStoreGroup g).displayName = (toStoreGroup g').displayName ∧
    (toStoreGroup g).externalID = (toStoreGroup g').externalID := by
  simp only [toStoreGroup, ht.name, ht.external, and_self]

theorem valid_schemas (h : validateGroup g = "") : groupSchema ∈ g.schemas.items := by
  by_contra hnot
  rw [validateGroup, if_pos hnot] at h
  exact absurd (congrArg String.length h) (by decide)

theorem fromStoreGroup_ids (sg : Store.Group) (base : String) : (fromStoreGroup sg base).ids = sg.members := by
  change (sg.members.map _).map Member.value = sg.members
  rw [List.map_map]
  exact List.map_id _

/-- The condition: no id that the second list names spells the UUID of an id that the first list gives
in another spelling. -/
def Separate (U : Unicode) (A B : List (Operation × Ranking)) : Prop :=
  ∀ w ∈ named U B, ¬ Loose (Respelt (given U A)) w

/-- Both lists on a group, and the second on what was stored after the first. -/
theorem applyGroupPatch_batch {A B : List (Operation × Ranking)} {sg between : Store.Group}
    {base₁ base₂ : String} {g₁ g₂ : Group} {ks₁ ks₂ : List Uuid} (hsep : Separate U A B)
    (hA : applyGroupPatch U (fromStoreGroup sg base₁) A = .ok g₁)
    (hB : applyGroupPatch U (fromStoreGroup between base₂) B = .ok g₂) (hvalid₁ : validateGroup g₁ = "")
    (hsg : ∀ s ∈ sg.members, ∃ k : Uuid, s = k.text) (hks₁ : Comes g₁.ids ks₁) (hks₂ : Comes g₂.ids ks₂)
    (hname : between.displayName = (toStoreGroup g₁).displayName)
    (hext : between.externalID = (toStoreGroup g₁).externalID)
    (hmembers : ∀ s, s ∈ between.members ↔ ∃ k ∈ ks₁, Uuid.text k = s) (base : String) :
    ∃ g, applyGroupPatch U (fromStoreGroup sg base) (A ++ B) = .ok g ∧
      validateGroup g = validateGroup g₂ ∧
      (toStoreGroup g).displayName = (toStoreGroup g₂).displayName ∧
      (toStoreGroup g).externalID = (toStoreGroup g₂).externalID ∧ Comes g.ids ks₂ := by
  rw [applyGroupPatch] at hA hB
  split_ifs at hA with hnoA
  split_ifs at hB with hnoB
  -- the first list does the same in the batch
  have hstart : Twin Never (fromStoreGroup sg base) (fromStoreGroup sg base₁) := by
    refine ⟨Iff.rfl, rfl, rfl, ?_⟩
    rw [fromStoreGroup_ids, fromStoreGroup_ids]
    exact Spelt.refl fun s _ => never_loose s
  obtain ⟨m, hm, Q, -, htm⟩ := applyOps_twin hstart (fun v _ => never_loose v) hA
  -- what it leaves differs from what was stored of it in spelling only
  have hstored : Twin (Respelt (given U A)) m (fromStoreGroup between base₂) := by
    refine ⟨iff_of_true (htm.schemas.mpr (valid_schemas hvalid₁)) List.mem_cons_self, ?_, ?_, ?_⟩
    · change _ = trimSpace between.displayName
      rw [hname, htm.name]
      exact (trimSpace_trimSpace _).symm
    · change _ = nonEmpty (trimSpace (between.externalID.getD ""))
      rw [hext, toStoreGroup, htm.external, trimSpace_nonEmpty_getD]
    · rw [fromStoreGroup_ids]
      refine spelt_stored (fun s hs => ?_) (htm.ids.comes hks₁) hmembers
      refine (applyOps_ids hm hs).imp_left fun h => hsg s ?_
      rw [← fromStoreGroup_ids sg base]
      exact h.1
  obtain ⟨g, hg, R, -, ht⟩ := applyOps_twin hstored hsep hB
  have hAB : A ++ B ≠ [] := by simp [hnoA]
  refine ⟨g, ?_, ht.validate, ht.stored.1, ht.stored.2, ht.ids.comes hks₂⟩
  rw [applyGroupPatch, if_neg hAB, List.foldlM_append, hm]
  exact hg

/-! ### Requests -/

section Requests

open Store (scanGroup groupConflict Logged)

variable {pg : Postgres} {T : TimeText} {supply : Nat → Supply Env DbError} {w : StoreWorld}
  {db db' : Db} {h : Handler} {r : Request}

theorem groupError_status (e : Store.StoreError) : (groupError e).status ≠ 200 := by
  cases e with
  | groupNotFound => decide
  | duplicateGroupName => decide
  | invalidMember => decide
  | _ => exact serverError_status

theorem patchedGroup_status {c : Store.Group} {p : PatchOp} {resp : Response}
    (herr : h.patchedGroup r c p = .error resp) : resp.status ≠ 200 := by
  rw [Handler.patchedGroup] at herr
  cases hg : applyGroupPatch h.unicode (fromStoreGroup c r.baseURL)
      (applied r.orders p.operations.items) with
  | error e =>
    rw [hg] at herr
    cases herr
    exact refusal_status _
  | ok g =>
    rw [hg] at herr
    dsimp only at herr
    split_ifs at herr
    cases herr
    exact refusal_status _

/-- Whatever stops a PATCH of a group, it is not answered 200. -/
theorem leads_patchGroup_stopped :
    (engine pg).Leads supply (h.patchGroup r) (fun _ _ => True) (fun resp _ => resp.status ≠ 200) w := by
  refine leads_bind.mpr (leads_ofExcept.mpr ?_)
  cases hdecode : receivedPatch r with
  | error resp => exact receivedPatch_status hdecode
  | ok p =>
    refine leads_bind.mpr (leads_refusedWith.mpr (leads_any.mono ?_ fun e _ _ => groupError_status e))
    intro existing w₁ _
    refine leads_bind.mpr (leads_ofExcept.mpr ?_)
    cases hpatch : h.patchedGroup r existing p with
    | error resp => exact patchedGroup_status hpatch
    | ok sg =>
      exact leads_bind.mpr (leads_refusedWith.mpr (leads_any.mono (fun _ _ _ => trivial)
        fun e _ _ => groupError_status e))

theorem membersAt_text {id s : String} (hs : s ∈ db.membersAt id) : ∃ k : Uuid, s = k.text := by
  rw [Db.membersAt] at hs
  cases hk : Uuid.parse id with
  | none =>
    rw [hk] at hs
    cases hs
  | some k =>
    rw [hk] at hs
    obtain ⟨m, -, -, rfl⟩ := Store.mem_membersOf.mp hs
    exact ⟨m.userID, rfl⟩

/-- Both databases hold the group, with the same name, external id and members. -/
def SameGroup (tenantID id : String) (db db' : Db) : Prop :=
  ∃ two one, db.groupAt tenantID id = some two ∧ db'.groupAt tenantID id = some one ∧
    two.displayName = one.displayName ∧ two.externalID = one.externalID ∧
    ∀ i, i ∈ db.membersAt id ↔ i ∈ db'.membersAt id

/-- A PATCH of a group that went through. -/
structure GroupPatchDone (pg : Postgres) (h : Handler) (r : Request) (db : Db) (p : PatchOp)
    (c : GroupRow) (g : Group) (row : GroupRow) (ks : List Uuid) (db' : Db) : Prop where
  received : receivedPatch r = .ok p
  found : db.groupAt r.tenantID r.id = some c
  patched : applyGroupPatch h.unicode (fromStoreGroup { scanGroup c with members := db.membersAt r.id }
    r.baseURL) (applied r.orders p.operations.items) = .ok g
  valid : validateGroup g = ""
  id : row.id = c.id
  tenant : row.tenantID = c.tenantID
  name : row.displayName = (toStoreGroup g).displayName
  external : row.externalID = (toStoreGroup g).externalID
  free : groupConflict pg db row = none
  ids : Comes g.ids ks
  users : ∀ k ∈ ks, ∃ u ∈ db.users.rows, u.tenantID = r.tenantID ∧ u.id = k
  groups : db'.groups = db.groups.put row
  sameUsers : db'.users = db.users
  members : ∀ i, i ∈ db'.membersAt r.id ↔ ∃ k ∈ ks, Uuid.text k = i

theorem groupPatchDone_of_update {p : PatchOp} {c : GroupRow} {sg : Store.Group} {now : Store.Time}
    {after : Store.Group} {ws : List Store.Write} {v : Db} (hp : receivedPatch r = .ok p)
    (hc : db.groupAt r.tenantID r.id = some c)
    (hpatch : h.patchedGroup r { scanGroup c with members := db.membersAt r.id } p = .ok sg)
    (hx : Store.execUpdateGroup pg now r.tenantID r.id sg db db = .ok (some after, ws))
    (hex : Exchanged pg now r.tenantID r.id sg.members ((engine pg).applyAll db ws) v)
    (hlogged : Logged v db') : ∃ p c g row ks, GroupPatchDone pg h r db p c g row ks db' := by
  obtain ⟨g, hg, hvalid, rfl⟩ := patchedGroup_ok hpatch
  obtain ⟨c', hc', hfree, -, rfl⟩ := Store.execUpdateGroup_ok.mp hx
  cases hc.symm.trans hc'
  obtain ⟨hk, -, -⟩ := Store.groupAt_eq_some.mp hc
  obtain ⟨husers, hgroups, -⟩ := Store.exchanged_frame hk hex
  obtain ⟨ks, hks, hcount, -⟩ := Store.exchanged_rows hk hex
  have hlen : ks.length = (dedupeNonEmpty (toStoreGroup g).members).length := by
    have hmap := congrArg List.length (parseIDs_ok.mp hks)
    rw [List.length_map, List.length_map] at hmap
    exact hmap.symm
  obtain ⟨hperm, hmembers⟩ := Store.exchanged_members hk hex hks hlen
  have hnodup : ks.Nodup := hperm.nodup_iff.mp Store.newcomers_nodup
  obtain ⟨husers', hgroups', hmembers', -⟩ := SameDirectory.of_logged hlogged
  obtain ⟨hid, htenant, hname, hext⟩ := replaceGroup_fields now (toStoreGroup g) c
  generalize Store.replaceGroup now (toStoreGroup g) c = row at *
  refine ⟨p, c, g, row, ks, hp, hc, hg, hvalid, hid, htenant, hname, hext, hfree, ?_, ?_, ?_, ?_, ?_⟩
  · rw [toStoreGroup_texts] at hks
    exact comes_of_parseIDs hks hnodup
  · intro k hk'
    obtain ⟨m, hm, rfl⟩ := List.mem_map.mp (hperm.mem_iff.mpr hk')
    obtain ⟨u, hu, rfl⟩ := List.mem_map.mp hm
    obtain ⟨hu, hp⟩ := List.mem_filter.mp hu
    rw [decide_eq_true_eq] at hp
    exact ⟨u, hu, hp.1, rfl⟩
  · rw [hgroups', hgroups]
    rfl
  · rw [husers', husers]
    rfl
  · intro i
    rw [Db.membersAt, hk, Option.map_some, Option.getD_some, Db.membersOf, hmembers', ← Db.membersOf]
    exact hmembers i

theorem groupPatch_done (hs : (serve pg supply (h.mutate r .group .patch) db).1.status = 200) :
    ∃ p c g row ks, GroupPatchDone pg h r db p c g row ks
      (serve pg supply (h.mutate r .group .patch) db).2 := by
  have hw : (World.start db : StoreWorld).Idle db := ⟨rfl, rfl⟩
  refine leads_serve (Q := fun resp db' => resp.status = 200 →
    ∃ p c g row ks, GroupPatchDone pg h r db p c g row ks db') ?_ hs
  change (engine pg).Leads supply (h.patchGroup r) _ _ _
  have hpatch : (engine pg).Leads supply (h.patchGroup r)
      (fun _ w => ∃ p c g row ks, GroupPatchDone pg h r db p c g row ks w.db) (fun _ _ => True)
      (World.start db) := by
    refine leads_patchGroup hw ?_ fun _ _ _ _ _ => trivial
    rintro p c sg now after ws v db' w' hp hc hpatch hx hex hlogged ⟨rfl, -⟩
    exact groupPatchDone_of_update hp hc hpatch hx hex hlogged
  refine (hpatch.and leads_patchGroup_stopped).mono ?_ ?_
  · exact fun _ _ hdone _ => hdone.1
  · exact fun _ _ hstopped hstatus => (hstopped.2 hstatus).elim

/-- Users of the tenant join a group that is written. -/
theorem exists_exchanged_put {ids : List String} {id tenantID : String} {ks : List Uuid} {row : GroupRow}
    (now : Store.Time) (hk : Uuid.parse id = some row.id)
    (hks : parseIDs (dedupeNonEmpty ids) = .ok ks) (hnodup : ks.Nodup)
    (husers : ∀ k ∈ ks, ∃ u ∈ db.users.rows, u.tenantID = tenantID ∧ u.id = k) :
    ∃ v, Exchanged pg now tenantID id ids ((engine pg).applyAll db [.putGroup row]) v := by
  have hgroup : (((engine pg).applyAll db [.putGroup row]).groups.find? row.id).isSome := by
    change ((db.groups.put row).find? row.id).isSome
    rw [Relational.Table.find?_put, if_pos rfl]
    rfl
  have hjoined : ∀ k, k ∈ (newcomers ((engine pg).applyAll db [.putGroup row]) now row.id tenantID ks).map
      Store.MemberRow.userID ↔ k ∈ ks := by
    intro k
    constructor
    · intro hk'
      obtain ⟨m, hm, rfl⟩ := List.mem_map.mp hk'
      obtain ⟨u, hu, rfl⟩ := List.mem_map.mp hm
      have hu := (List.mem_filter.mp hu).2
      rw [decide_eq_true_eq] at hu
      exact hu.2
    · intro hk'
      obtain ⟨u, hu, htenant, rfl⟩ := husers k hk'
      refine List.mem_map.mpr ⟨_, List.mem_map_of_mem (List.mem_filter.mpr ⟨hu, ?_⟩), rfl⟩
      rw [decide_eq_true_eq]
      exact ⟨htenant, hk'⟩
  have hlen := ((List.perm_ext_iff_of_nodup Store.newcomers_nodup hnodup).mpr hjoined).length_eq
  have hmap := congrArg List.length (parseIDs_ok.mp hks)
  rw [List.length_map] at hlen
  rw [List.length_map, List.length_map] at hmap
  exact Store.exists_exchanged hk hgroup hks (hlen.trans hmap.symm)

theorem groupPatch_goes_through (hq : Quiet supply) {p : PatchOp} {c : GroupRow} {g : Group}
    {ks : List Uuid} (hp : receivedPatch r = .ok p) (hc : db.groupAt r.tenantID r.id = some c)
    (hg : applyGroupPatch h.unicode (fromStoreGroup { scanGroup c with members := db.membersAt r.id }
      r.baseURL) (applied r.orders p.operations.items) = .ok g) (hvalid : validateGroup g = "")
    (hfree : ∀ now, groupConflict pg db (Store.replaceGroup now (toStoreGroup g) c) = none)
    (hids : Comes g.ids ks) (husers : ∀ k ∈ ks, ∃ u ∈ db.users.rows, u.tenantID = r.tenantID ∧ u.id = k) :
    (serve pg supply (h.mutate r .group .patch) db).1.status = 200 := by
  have hw : (World.start db : StoreWorld).Idle db := ⟨rfl, rfl⟩
  obtain ⟨hk, -, -⟩ := Store.groupAt_eq_some.mp hc
  have hpatch : h.patchedGroup r { scanGroup c with members := db.membersAt r.id } p =
      .ok (toStoreGroup g) := by
    rw [Handler.patchedGroup, hg]
    dsimp only
    rw [if_neg (not_not.mpr hvalid)]
  obtain ⟨ks', hks', hnodup, hsame⟩ := hids.parseIDs
  rw [← toStoreGroup_texts] at hks'
  generalize toStoreGroup g = sg at *
  refine leads_serve (Q := fun resp _ => resp.status = 200) ?_
  change (engine pg).Leads supply (h.patchGroup r) _ _ _
  refine leads_patchGroup hw (fun _ _ _ _ _ _ _ _ _ _ _ _ _ _ _ _ => rfl) ?_
  intro resp db' w' hrejected _
  refine (hrejected.refused hq ⟨p, c, sg, hp, hc, hpatch, fun now => ?_⟩).elim
  have hrow : Uuid.parse r.id = some (Store.replaceGroup now sg c).id := hk
  obtain ⟨v, hv⟩ : ∃ v, Exchanged pg now r.tenantID r.id sg.members _ v :=
    exists_exchanged_put now hrow hks' hnodup fun k hk' => husers k ((hsame k).mp hk')
  exact ⟨_, _, v, Store.execUpdateGroup_ok.mpr ⟨c, hc, hfree now, rfl, rfl⟩, hv⟩

theorem groupAt_put {c row : GroupRow} {id tenantID : String} (hc : db.groupAt tenantID id = some c)
    (hid : row.id = c.id) (htenant : row.tenantID = c.tenantID) (hdb : db'.groups = db.groups.put row) :
    db'.groupAt tenantID id = some row := by
  obtain ⟨hparse, -, howner⟩ := Store.groupAt_eq_some.mp hc
  refine Store.groupAt_eq_some.mpr ⟨by rw [hparse, hid], ?_, htenant.trans howner⟩
  rw [hdb, Relational.Table.find?_put, if_pos rfl]

variable {a b t : Request} {first second whole : Nat → Supply Env DbError}

/-- Both operations on the row of the group, and the second on what the first has stored. -/
theorem groupPatchDone_batch {p q pq : PatchOp} {c c₁ row₁ row₂ : GroupRow} {g₁ g₂ : Group}
    {ks₁ ks₂ : List Uuid} {db₁ db₂ : Db} (hids : a.tenantID = t.tenantID ∧ a.id = t.id)
    (hids' : b.tenantID = t.tenantID ∧ b.id = t.id)
    (hops : applied t.orders pq.operations.items =
      applied a.orders p.operations.items ++ applied b.orders q.operations.items)
    (hsep : Separate h.unicode (applied a.orders p.operations.items) (applied b.orders q.operations.items))
    (hA : GroupPatchDone pg h a db p c g₁ row₁ ks₁ db₁)
    (hB : GroupPatchDone pg h b db₁ q c₁ g₂ row₂ ks₂ db₂) :
    db.groupAt t.tenantID t.id = some c ∧ c₁ = row₁ ∧
      ∃ g, applyGroupPatch h.unicode (fromStoreGroup { scanGroup c with members := db.membersAt t.id }
          t.baseURL) (applied t.orders pq.operations.items) = .ok g ∧
        validateGroup g = validateGroup g₂ ∧
        (toStoreGroup g).displayName = (toStoreGroup g₂).displayName ∧
        (toStoreGroup g).externalID = (toStoreGroup g₂).externalID ∧ Comes g.ids ks₂ := by
  have hc : db.groupAt t.tenantID t.id = some c := by
    rw [← hids.1, ← hids.2]
    exact hA.found
  have hfound := hB.found
  rw [hids'.1, hids'.2, groupAt_put hc hA.id hA.tenant hA.groups] at hfound
  cases hfound
  have hpatchedA := hA.patched
  have hpatchedB := hB.patched
  have hmembers := hA.members
  rw [hids.2] at hpatchedA hmembers
  rw [hids'.2] at hpatchedB
  rw [hops]
  exact ⟨hc, rfl, applyGroupPatch_batch hsep hpatchedA hpatchedB hA.valid
    (fun s hs => membersAt_text hs) hA.ids hB.ids hA.name hA.external hmembers t.baseURL⟩

end Requests

/-! ### Another spelling -/

/-- Ann's id without hyphens. -/
def bareAnn : String := "00010001000100010001000100010001"

def withStaff : Db :=
  { Db.empty with
    users := Db.empty.users.put (Store.insertedUser 5 "tenant" Store.someUuid (Store.newUser "ann") none)
    groups := Db.empty.groups.put ⟨"tenant", paulUuid, none, "staff", 6, 6⟩ }

def patchingStaff (ops : List Value) : Request :=
  requestFor paulUuid.text (.obj [(quote "Operations", .arr ops)])

def joining (id : String) : Value :=
  .obj [(quote "op", string "add"), (quote "path", string "members"), (quote "value", string id)]

def leaving (id : String) : Value :=
  .obj [(quote "op", string "remove"), (quote "path", string (filterPath id))]

def join : Request := patchingStaff [joining bareAnn]

def leave : Request := patchingStaff [leaving Store.someUuid.text]

def joinAndLeave : Request := patchingStaff [joining bareAnn, leaving Store.someUuid.text]

def afterJoin : Db := (serve Store.plainText paulSupply (plainHandler.mutate join .group .patch) withStaff).2

def joinText : Request := patchingStaff [joining Store.someUuid.text]

def joinTextAndLeave : Request := patchingStaff [joining Store.someUuid.text, leaving Store.someUuid.text]

end Scimage.Scim
