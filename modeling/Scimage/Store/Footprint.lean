import Scimage.Store.Execution

/-! What a committed mutation wrote, and how it changed the directory. -/
namespace Scimage.Store

open Txn Engine

def Write.directory : Write → Prop
  | .putUser _ | .putGroup _ | .dropGroup _ | .putMember _ | .dropMember _ => True
  | _ => False

/-- A delivery announces the change that an audit entry records. -/
structure Announces (tenantID : String) (now : Time) (t : Target) (entry : AuditRow)
    (d : DeliveryRow) : Prop where
  target : d.target = some t
  tenant : d.tenantID = tenantID
  before : d.payload.before = entry.before
  after : d.payload.after = entry.after
  deactivated : ∀ b a, entry.before = some (.user b) → entry.after = some (.user a) →
    b.active = true → a.active = false → d.eventType = .userDeactivated
  deleted : d.eventType = .groupDeleted ↔ entry.after = none
  occurredAt : entry.after ≠ none → d.payload.occurredAt = now

/-- What a committed mutation wrote: rows of one user or group, one audit entry and, with
change events on, one delivery. -/
structure Wrote (pg : Postgres) (s : Store) (m : Mutation) (now : Time) (ws : List Write)
    (t : Target) (dir : List Write) (entry : AuditRow) (queue : List DeliveryRow) : Prop where
  writes_eq : ws = dir ++ .addAudit entry :: queue.map .addDelivery
  directory : ∀ w ∈ dir, w.directory
  apart : ∀ u : Target, u ≠ t → u.key ∉ (engine pg).keysOf dir
  written : dir ≠ [] → t.key ∈ (engine pg).keysOf dir
  result : entry.result = .success
  target : entry.target = some t
  tenant : entry.tenantID = m.caller.tenantID
  deleted : entry.action = .delete ↔ entry.after = none
  created : entry.action = .create ↔ entry.before = none
  queue_length : queue.length = if s.changeEvents then 1 else 0
  announced : ∀ d ∈ queue, Announces m.tenantID now t entry d

/-- When a statement waits for the row `κ`, no other transaction committed it between the first
snapshot of the statement's transaction and the moment the statement acts. -/
def Undisturbed (pg : Postgres) (κ : Key) : Engine.Condition Stmt.Rows Write Env :=
  fun log prior x => x.stmt.row = some κ →
    ∀ c ∈ log.drop (Engine.firstSnap prior x.snap), κ ∉ (engine pg).keysOf c.writes

def Stmt.insertsGroup : Stmt → Bool
  | .insertGroup .. => true
  | _ => false

/-- `gen_random_uuid()` gives a new group an id that no committed transaction has written. -/
def FreshID (pg : Postgres) (κ : Key) : Engine.Condition Stmt.Rows Write Env :=
  fun log _ x => x.stmt.insertsGroup = true → .group x.env.uuid = κ →
    ∀ c ∈ log, κ ∉ (engine pg).keysOf c.writes

instance (pg : Postgres) (κ : Key) (log : List (Commit Stmt.Rows Write Env)) (prior : History)
    (x : Turn Stmt Env) : Decidable (Undisturbed pg κ log prior x) :=
  inferInstanceAs (Decidable (_ → ∀ c ∈ _, _))

instance (pg : Postgres) (κ : Key) (log : List (Commit Stmt.Rows Write Env)) (prior : History)
    (x : Turn Stmt Env) : Decidable (FreshID pg κ log prior x) :=
  inferInstanceAs (Decidable (_ → _ → ∀ c ∈ _, _))

/-- A committed mutation and the versions around it. -/
structure Footprint (pg : Postgres) (s : Store) (m : Mutation) (db : Db)
    (R : Engine.Condition Stmt.Rows Write Env) (log : List (Commit Stmt.Rows Write Env))
    (now : Time) (hist : History) (t : Target) (dir : List Write) (entry : AuditRow)
    (queue : List DeliveryRow) : Prop
    extends Wrote pg s m now (writesOf hist) t dir entry queue where
  after : dir ≠ [] → ((engine pg).view ((engine pg).current db log) hist).image t = entry.after
  /-- A mutation that wrote no row deleted a group that had gone since it was read. -/
  missed : dir = [] → entry.after = none ∧ ∃ k n₁ n₂, t = .group k ∧ n₁ ≤ n₂ ∧
    n₂ ≤ log.length ∧ ((engine pg).dbAt db log n₁).groupOf m.tenantID k ≠ none ∧
    ((engine pg).dbAt db log n₂).groupOf m.tenantID k = none
  chained : (∀ l b x, R l b x → Undisturbed pg t.key l b x) →
    dir ≠ [] ∧ entry.before = ((engine pg).current db log).image t
  /-- Only a creation gives a group to a tenant. -/
  kept : ∀ k, t = .group k → entry.before = none ∨
    ((engine pg).view ((engine pg).current db log) hist).owner k = none ∨
    ((engine pg).view ((engine pg).current db log) hist).owner k =
      ((engine pg).current db log).owner k
  fresh : ∀ k, t = .group k → entry.before = none → (∀ l b x, R l b x → FreshID pg t.key l b x) →
    ∀ c ∈ log, t.key ∉ (engine pg).keysOf c.writes

section Footprints

variable {pg : Postgres} {s : Store} {m : Mutation} {db : Db}
  {R : Engine.Condition Stmt.Rows Write Env} {log : List (Commit Stmt.Rows Write Env)}
  {now : Time} {hist : History} {id tenantID : String} {k : Uuid} {rec : AuditRecord}

theorem records_keys (entry : AuditRow) (queue : List DeliveryRow) (κ : Key) :
    κ ∉ (engine pg).keysOf (.addAudit entry :: queue.map .addDelivery) := by
  simp [Engine.keysOf, engine, Write.keys]

/-- The event of a mutation says what its audit entry says. -/
structure Fits (now : Time) (resource : Resource) (action : Action) (before after : Option Image)
    (eventType : EventType) (payload : Payload) : Prop where
  delete : action = .delete ↔ after = none
  create : action = .create ↔ before = none
  resource_eq : eventType.resource = resource
  deactivated : ∀ b a, before = some (.user b) → after = some (.user a) →
    b.active = true → a.active = false → eventType = .userDeactivated
  deleted : eventType = .groupDeleted ↔ after = none
  occurredAt : after ≠ none → payload.occurredAt = now
  before_eq : payload.before = before
  after_eq : payload.after = after

theorem recorded_wrote (m : Mutation) (dir : List Write) {rest prior : History}
    {resource : Resource} {action : Action} {before after : Option Image} {eventType : EventType} {payload : Payload}
    (hk : Uuid.parse id = some k) (hfits : Fits now resource action before after eventType payload)
    (hs : (engine pg).Sound db R log now prior rest)
    (hm : rest.map Record.entry =
      s.recorded m.caller m.tenantID resource action id before after eventType payload)
    (hdir : ∀ w ∈ dir, w.directory)
    (hapart : ∀ u, u ≠ Target.of resource k → u.key ∉ (engine pg).keysOf dir)
    (hwritten : dir ≠ [] → (Target.of resource k).key ∈ (engine pg).keysOf dir) :
    ∃ entry queue, Wrote pg s m now (dir ++ writesOf rest) (Target.of resource k) dir entry queue ∧
      entry.before = before ∧ entry.after = after := by
  obtain ⟨i, j, hrec⟩ := recorded_writes hk hs hm
  refine ⟨_, _, ⟨by rw [hrec], hdir, hapart, hwritten, rfl, rfl, rfl, hfits.delete, hfits.create,
    by split <;> rfl, ?_⟩, rfl, rfl⟩
  intro d hd
  split at hd
  · obtain rfl := List.mem_singleton.mp hd
    refine ⟨?_, rfl, hfits.before_eq, hfits.after_eq, hfits.deactivated, hfits.deleted,
      hfits.occurredAt⟩
    simp [DeliveryRow.target, newDelivery, hfits.resource_eq]
  · simp at hd

/-- The audit entry and the delivery leave the directory as it is. -/
theorem Wrote.view_image {t : Target} {dir : List Write} {entry : AuditRow}
    {queue : List DeliveryRow} (hw : Wrote pg s m now (writesOf hist) t dir entry queue) (d : Db)
    (u : Target) : ((engine pg).view d hist).image u = ((engine pg).applyAll d dir).image u := by
  rw [Engine.view, hw.writes_eq, Engine.applyAll_append]
  exact image_other (records_keys entry queue _)

theorem Wrote.view_group {t : Target} {dir : List Write} {entry : AuditRow}
    {queue : List DeliveryRow} (hw : Wrote pg s m now (writesOf hist) t dir entry queue) (d : Db)
    (k : Uuid) : ((engine pg).view d hist).groups.find? k =
      ((engine pg).applyAll d dir).groups.find? k := by
  rw [Engine.view, hw.writes_eq, Engine.applyAll_append]
  exact (group_other (records_keys entry queue _)).1

theorem Wrote.view_owner {t : Target} {dir : List Write} {entry : AuditRow}
    {queue : List DeliveryRow} (hw : Wrote pg s m now (writesOf hist) t dir entry queue) (d : Db)
    (k : Uuid) : ((engine pg).view d hist).owner k = ((engine pg).applyAll d dir).owner k := by
  rw [Db.owner, hw.view_group, Db.owner]

theorem putUser_apart {r : UserRow} (u : Target) (hu : u ≠ .user r.id) :
    u.key ∉ (engine pg).keysOf [.putUser r] := by
  cases u <;> simp_all [Engine.keysOf, engine, Write.keys, Target.key]

theorem putUser_image (d : Db) (r : UserRow) :
    ((engine pg).applyAll d [.putUser r]).image (.user r.id) = some (.user (scanUser r)) := by
  simp [engine, Write.apply]

theorem putUser_key (r : UserRow) : .user r.id ∈ (engine pg).keysOf [.putUser r] := by
  simp [Engine.keysOf, engine, Write.keys]

theorem createUser_footprint {u created : User}
    (hm : hist.map Record.entry = createUserHistory s tenantID u rec created)
    (hs : (engine pg).Sound db R log now [] hist) : ∃ t dir entry queue,
      Footprint pg s (.createUser tenantID u rec) db R log now hist t dir entry queue := by
  obtain ⟨ws, env, snap, pos, rest, rfl, hrest⟩ := map_entry_eq_cons.mp hm
  obtain ⟨hins, hs⟩ := hs
  obtain ⟨r, rfl, hws, hid, hnow, hnew⟩ := insertUser_ok hins.ran
  have hfits : Fits now .user .create none (some (.user (scanUser r))) .userCreated
      (.user ⟨.userCreated, (scanUser r).updatedAt, (scanUser r).id, none, scanUser r⟩) := by
    constructor <;> simp [EventType.resource, Payload.before, Payload.after, Payload.occurredAt,
      hnow]
  obtain ⟨entry, queue, hw, hb, ha⟩ := recorded_wrote (.createUser tenantID u rec)
    [.putUser r] (Uuid.parse_text r.id) hfits hs hrest (by simp [Write.directory])
    putUser_apart fun _ => putUser_key r
  subst hws
  refine ⟨.user r.id, [.putUser r], entry, queue, hw, ?_, by simp, ?_, by simp, by simp⟩
  · intro _
    exact (hw.view_image _ _).trans ((putUser_image _ _).trans ha.symm)
  · intro _
    refine ⟨by simp, ?_⟩
    have hq : ∀ c ∈ log.drop pos, .user r.id ∉ (engine pg).keysOf c.writes :=
      fun c hc => hins.held c hc (putUser_key r)
    rw [hb, image_user, ← user_dbAt hq]
    simpa [hid] using hnew

/-- What `UpdateUser` and `DeactivateUser` have in common: a statement that changes the newest
version of a user and returns the one its snapshot shows as well. -/
theorem changeUser_footprint (m : Mutation) (set : UserRow → UserRow) {stmt : Stmt}
    {action : Action} {eventType : EventType} {ch : Change} {ws : List Write} {env : Env} {snap pos : Nat}
    {rest : History} {rows : stmt.Rows}
    (hrow : stmt.row = some (.user k)) (hk : Uuid.parse id = some k)
    (hset : ∀ c, (set c).id = c.id ∧ (set c).updatedAt = now)
    (haction : action ≠ .create ∧ action ≠ .delete) (hevent : eventType.resource = .user)
    (hdeactivated : ch.before.active = true → ch.after.active = false →
      eventType = .userDeactivated)
    (hran : execChangeUser pg m.tenantID k set ((engine pg).dbAt db log snap)
      ((engine pg).dbAt db log pos) = .ok (some ch, ws))
    (hrest : rest.map Record.entry =
      changeHistory s m.tenantID id m.caller action eventType ch)
    (hs : (engine pg).Sound db R log now [] (⟨stmt, rows, ws, env, snap, pos⟩ :: rest)) :
    ∃ t dir entry queue, Footprint pg s m db R log now (⟨stmt, rows, ws, env, snap, pos⟩ :: rest)
      t dir entry queue := by
  obtain ⟨hstep, hs⟩ := hs
  obtain ⟨b, c, hb, hc, rfl, rfl⟩ := changeUser_ok hran
  obtain ⟨hfind, _⟩ := userOf_eq_some.mp hc
  obtain rfl : (set c).id = k := ((hset c).1).trans (Relational.Table.find?_key hfind)
  have hfits : Fits now .user action (some (.user (scanUser b)))
      (some (.user (scanUser (set c)))) eventType
      (.user ⟨eventType, (scanUser (set c)).updatedAt, id, some (scanUser b),
        scanUser (set c)⟩) := by
    refine ⟨by simp [haction.2], by simp [haction.1], hevent, ?_, ?_, ?_, rfl, rfl⟩
    · rintro _ _ ⟨⟩ ⟨⟩ hbefore hafter
      exact hdeactivated hbefore hafter
    · cases eventType <;> simp_all [EventType.resource]
    · simp [Payload.occurredAt, (hset c).2]
  obtain ⟨entry, queue, hw, hbefore, hafter⟩ := recorded_wrote m
    [.putUser (set c)] hk hfits hs hrest (by simp [Write.directory]) putUser_apart
    fun _ => putUser_key _
  refine ⟨.user (set c).id, [.putUser (set c)], entry, queue, hw, ?_, by simp, ?_, by simp, by simp⟩
  · intro _
    exact (hw.view_image _ _).trans ((putUser_image _ _).trans hafter.symm)
  · intro hR
    refine ⟨by simp, ?_⟩
    -- Nobody committed the row since the snapshot: not before the statement acted, because it
    -- was undisturbed, and not after, because it held the row.
    have hq : ∀ x ∈ log.drop snap, .user (set c).id ∉ (engine pg).keysOf x.writes :=
      drop_of_take hstep.snap_le (hR _ _ _ hstep.cond hrow)
        fun x hx => hstep.held x hx (putUser_key _)
    rw [hbefore, image_user, ← user_dbAt hq]
    simp [(userOf_eq_some.mp hb).1]

theorem updateUser_footprint {u : User} {ch : Change}
    (hm : hist.map Record.entry = updateUserHistory s tenantID id u rec ch)
    (hs : (engine pg).Sound db R log now [] hist) : ∃ t dir entry queue,
      Footprint pg s (.updateUser tenantID id u rec) db R log now hist t dir entry queue := by
  obtain ⟨ws, env, snap, pos, rest, rfl, hrest⟩ := map_entry_eq_cons.mp hm
  have hran : execUpdateUser pg now tenantID id u _ _ = _ := hs.1.ran
  unfold execUpdateUser at hran
  split at hran
  · rename_i k ext hk _
    refine changeUser_footprint (.updateUser tenantID id u rec) (replaceUser now u ext)
      ?_ (parse_of_parseID hk) (fun c => ⟨rfl, rfl⟩) (by simp) ?_ ?_ hran hrest hs
    · simp [Stmt.row, parse_of_parseID hk]
    · simp only [changeEventType]
      split <;> rfl
    · intro hb ha
      simp [changeEventType, hb, ha]
  · simp at hran
  · simp at hran

theorem deactivateUser_footprint {ch : Change}
    (hm : hist.map Record.entry = deactivateUserHistory s tenantID id rec ch)
    (hs : (engine pg).Sound db R log now [] hist) : ∃ t dir entry queue,
      Footprint pg s (.deactivateUser tenantID id rec) db R log now hist t dir entry queue := by
  obtain ⟨ws, env, snap, pos, rest, rfl, hrest⟩ := map_entry_eq_cons.mp hm
  have hran : execDeactivateUser pg now tenantID id _ _ = _ := hs.1.ran
  unfold execDeactivateUser at hran
  split at hran
  · simp at hran
  · rename_i k hk
    refine changeUser_footprint (.deactivateUser tenantID id rec) (deactivated now)
      ?_ (parse_of_parseID hk) (fun c => ⟨rfl, rfl⟩) (by simp) rfl (fun _ _ => rfl) hran hrest hs
    simp [Stmt.row, parse_of_parseID hk]

/-! #### Groups -/

/-- A write of a group's row or of its members. -/
def Write.ofGroup (k : Uuid) : Write → Prop
  | .putGroup r => r.id = k
  | .dropGroup g => g = k
  | .putMember m | .dropMember m => m.groupID = k
  | _ => False

theorem Write.memberOf.ofGroup {w : Write} (h : w.memberOf k) : w.ofGroup k := by
  cases w <;> first | exact h | exact h.elim

theorem Write.ofGroup.directory {w : Write} (h : w.ofGroup k) : w.directory := by
  cases w <;> first | exact trivial | exact h.elim

theorem ofGroup_apart {ws : List Write} (h : ∀ w ∈ ws, w.ofGroup k) (u : Target)
    (hu : u ≠ .group k) : u.key ∉ (engine pg).keysOf ws := by
  intro hmem
  obtain ⟨w, hw, hkey⟩ := List.mem_flatMap.mp hmem
  have hof := h w hw
  cases w <;> cases u <;> simp_all [Write.ofGroup, engine, Write.keys, Target.key]

theorem memberOf_groups {ws : List Write} (h : ∀ w ∈ ws, w.memberOf k) (d : Db) :
    ((engine pg).applyAll d ws).groups = d.groups := by
  induction ws generalizing d with
  | nil => rfl
  | cons w ws ih =>
    rw [Engine.applyAll_cons, ih fun x hx => h x (List.mem_cons_of_mem _ hx)]
    have hw := h w List.mem_cons_self
    cases w <;> first | rfl | exact hw.elim

theorem putGroup_key (r : GroupRow) (ws : List Write) :
    .group r.id ∈ (engine pg).keysOf (.putGroup r :: ws) := by
  simp [Engine.keysOf, engine, Write.keys]

theorem putGroup_row {r : GroupRow} {seg : List Write} (hseg : ∀ w ∈ seg, w.memberOf r.id)
    (d : Db) : ((engine pg).applyAll d (.putGroup r :: seg)).groups.find? r.id = some r := by
  rw [Engine.applyAll_cons, memberOf_groups hseg]
  simp [engine, Write.apply]

/-- What a transaction that writes a group's row and members reads back of the members is what
it leaves when it commits. -/
theorem putGroup_image (prior : History) {r : GroupRow} {seg : List Write} {pos : Nat}
    (hprior : writesOf prior = .putGroup r :: seg) (hseg : ∀ w ∈ seg, w.memberOf r.id)
    (hq : ∀ c ∈ log.drop pos, .group r.id ∉ (engine pg).keysOf c.writes) :
    ((engine pg).applyAll ((engine pg).current db log) (.putGroup r :: seg)).image (.group r.id) =
      some (.group { scanGroup r with
        members := ((engine pg).view ((engine pg).dbAt db log pos) prior).membersOf r.id }) := by
  rw [(group_view _ hq prior).2, Engine.view, hprior]
  simp only [Db.image, Db.groupImage, putGroup_row hseg, Option.map_some]

/-- What `CreateGroup` and `UpdateGroup` have in common: a row is put, its members are
replaced and read back, and what was read is recorded. -/
theorem putGroup_wrote (m : Mutation) (front : History) {r : GroupRow} {rep rest : History}
    {main : Record Stmt.Rows Write Env} {members memberIDs : List String} {ws : List Write}
    {env : Env} {snap pos n : Nat} {action : Action} {before : Option Image}
    {eventType : EventType} {payload : Payload}
    (hk : Uuid.parse id = some r.id) (hfront : writesOf front = [])
    (hmain : main.writes = [.putGroup r])
    (hrep : rep.map Record.entry = replacedHistory m.tenantID id memberIDs n)
    (hrest : rest.map Record.entry = s.recorded m.caller m.tenantID .group action id before
      (some (.group { scanGroup r with members })) eventType payload)
    (hfits : Fits now .group action before (some (.group { scanGroup r with members })) eventType
      payload)
    (hs : (engine pg).Sound db R log now [] (front ++ [main] ++ rep ++
      [⟨.selectMembers id, members, ws, env, snap, pos⟩] ++ rest)) :
    ∃ dir entry queue, Wrote pg s m now (writesOf (front ++ [main] ++ rep ++
        [⟨.selectMembers id, members, ws, env, snap, pos⟩] ++ rest)) (.group r.id) dir entry queue ∧
      entry.before = before ∧ dir ≠ [] ∧
      ((engine pg).view ((engine pg).current db log) (front ++ [main] ++ rep ++
        [⟨.selectMembers id, members, ws, env, snap, pos⟩] ++ rest)).groups.find? r.id = some r ∧
      ((engine pg).view ((engine pg).current db log) (front ++ [main] ++ rep ++
        [⟨.selectMembers id, members, ws, env, snap, pos⟩] ++ rest)).image (.group r.id) =
          entry.after := by
  obtain ⟨hs, hsrest⟩ := sound_append.mp hs
  obtain ⟨hs, hssel, _⟩ := sound_append.mp hs
  obtain ⟨hs, hsrep⟩ := sound_append.mp hs
  obtain ⟨_, hsmain, _⟩ := sound_append.mp hs
  have hseg := replaced_writes hk hsrep hrep
  obtain ⟨hmembers, hws⟩ : members = _ ∧ ws = [] := selectMembers_ok hk hssel.ran
  have hdir : ∀ w ∈ .putGroup r :: writesOf rep, w.ofGroup r.id := by
    intro w hw
    rcases List.mem_cons.mp hw with rfl | hw
    · rfl
    · exact (hseg w hw).ofGroup
  obtain ⟨entry, queue, hw, hbefore, hafter⟩ := recorded_wrote m
    (.putGroup r :: writesOf rep) hk hfits hsrest hrest (fun w hw => (hdir w hw).directory)
    (ofGroup_apart hdir) fun _ => putGroup_key r _
  have hwrites : writesOf (front ++ [main] ++ rep ++
      [⟨.selectMembers id, members, ws, env, snap, pos⟩] ++ rest) =
      (.putGroup r :: writesOf rep) ++ writesOf rest := by
    simp [hfront, hmain, hws]
  rw [← hwrites] at hw
  refine ⟨_, entry, queue, hw, hbefore, by simp, (hw.view_group _ _).trans (putGroup_row hseg _),
    (hw.view_image _ _).trans ?_⟩
  rw [hafter, hmembers]
  refine putGroup_image ([] ++ (front ++ [main] ++ rep)) (by simp [hfront, hmain]) hseg ?_
  -- The group's row is held from the moment it is put.
  intro c hc
  have hle : main.pos ≤ pos := Nat.le_trans (hssel.after main (by simp)) hssel.snap_le
  exact hsmain.held c (List.drop_subset_drop_left _ hle hc)
    (by rw [hmain]; exact putGroup_key r [])

theorem createGroup_footprint {g created : Group} {n : Nat} {members : List String}
    (hm : hist.map Record.entry = createGroupHistory s tenantID g rec created n members)
    (hs : (engine pg).Sound db R log now [] hist) : ∃ t dir entry queue,
      Footprint pg s (.createGroup tenantID g rec) db R log now hist t dir entry queue := by
  obtain ⟨h, rest, rfl, hm, hrest⟩ := List.map_eq_append_iff.mp hm
  obtain ⟨h, sel, rfl, hm, hsel⟩ := List.map_eq_append_iff.mp hm
  obtain ⟨h, rep, rfl, hm, hrep⟩ := List.map_eq_append_iff.mp hm
  obtain ⟨ws, env, snap, pos, rfl⟩ := map_entry_eq_singleton.mp hm
  obtain ⟨ws', env', snap', pos', rfl⟩ := map_entry_eq_singleton.mp hsel
  have hins := (sound_append.mp (sound_append.mp (sound_append.mp hs).1).1).1.1
  obtain ⟨r, rfl, hws, hid, _, hnow, hnew⟩ := insertGroup_ok hins.ran
  have hfits : Fits now .group .create none (some (.group { scanGroup r with members }))
      .groupCreated (.group ⟨.groupCreated, (scanGroup r).updatedAt, (scanGroup r).id, none,
        some { scanGroup r with members }⟩) := by
    constructor <;> simp [EventType.resource, Payload.before, Payload.after, Payload.occurredAt,
      hnow]
  obtain ⟨dir, entry, queue, hw, hbefore, hne, _, hafter⟩ := putGroup_wrote
    (.createGroup tenantID g rec) [] (Uuid.parse_text r.id) rfl hws hrep hrest hfits hs
  have hq : ∀ c ∈ log.drop pos, .group r.id ∉ (engine pg).keysOf c.writes :=
    fun c hc => hins.held c hc (hws ▸ putGroup_key r [])
  refine ⟨.group r.id, dir, entry, queue, hw, fun _ => hafter, fun h => (hne h).elim, fun _ =>
    ⟨hne, ?_⟩, fun _ _ => Or.inl hbefore, ?_⟩
  · have hfind := (group_view db hq []).1
    simp only [Engine.view_nil] at hfind hnew
    rw [← hid, hfind] at hnew
    rw [hbefore]
    simp [Db.image, Db.groupImage, hnew]
  · intro k _ _ hR
    have hfresh := hR _ _ _ hins.cond rfl (congrArg Key.group hid.symm)
    exact drop_of_take (n := pos) (Nat.zero_le _) hfresh hq

/-- The image that `getGroupTx` reads with two statements, when nobody commits the group from
its first snapshot on. -/
theorem getGroupTx_image {g : Group} {r : GroupRow} {p₁ p₂ q : Nat}
    (hr : ((engine pg).dbAt db log p₁).groupOf tenantID k = some r) (hg : g = scanGroup r)
    (hq : ∀ c ∈ log.drop q, .group k ∉ (engine pg).keysOf c.writes) (h₁ : q ≤ p₁) (h₂ : q ≤ p₂) :
    some (.group { g with members := ((engine pg).dbAt db log p₂).membersOf k }) =
      ((engine pg).current db log).image (.group k) := by
  have hfind := (group_view db
    (fun c hc => hq c (List.drop_subset_drop_left _ h₁ hc)) []).1
  have hmembers := (group_view db
    (fun c hc => hq c (List.drop_subset_drop_left _ h₂ hc)) []).2
  simp only [Engine.view_nil] at hfind hmembers
  rw [(groupOf_eq_some.mp hr).1] at hfind
  subst hg
  simp [Db.image, Db.groupImage, ← hfind, hmembers]

theorem updateGroup_footprint {g before after : Group} {n : Nat} {members newMembers : List String}
    (hm : hist.map Record.entry =
      updateGroupHistory s tenantID id g rec before members after n newMembers)
    (hs : (engine pg).Sound db R log now [] hist) : ∃ t dir entry queue,
      Footprint pg s (.updateGroup tenantID id g rec) db R log now hist t dir entry queue := by
  obtain ⟨h, rest, rfl, hm, hrest⟩ := List.map_eq_append_iff.mp hm
  obtain ⟨h, sel, rfl, hm, hsel⟩ := List.map_eq_append_iff.mp hm
  obtain ⟨h, rep, rfl, hm, hrep⟩ := List.map_eq_append_iff.mp hm
  obtain ⟨ws₁, env₁, snap₁, pos₁, h, rfl, hm₁⟩ := map_entry_eq_cons.mp hm
  obtain ⟨ws₂, env₂, snap₂, pos₂, h, rfl, hm₂⟩ := map_entry_eq_cons.mp hm₁
  obtain ⟨ws₃, env₃, snap₃, pos₃, rfl⟩ := map_entry_eq_singleton.mp hm₂
  obtain ⟨ws', env', snap', pos', rfl⟩ := map_entry_eq_singleton.mp hsel
  obtain ⟨hs₁, hs₂, hs₃, _⟩ := (sound_append.mp (sound_append.mp (sound_append.mp hs).1).1).1
  obtain ⟨k, r₁, hk, hr₁, hbefore, hws₁⟩ := selectGroup_ok hs₁.ran
  obtain ⟨hmembers, hws₂⟩ := selectMembers_ok hk hs₂.ran
  obtain ⟨c, r, rfl, hws₃, rfl, hc, ht, hnow⟩ := updateGroup_ok hk hs₃.ran
  have hfits : Fits now .group .replace (some (.group { before with members }))
      (some (.group { scanGroup r with members := newMembers })) .groupReplaced
      (.group ⟨.groupReplaced, (scanGroup r).updatedAt, id, some { before with members },
        some { scanGroup r with members := newMembers }⟩) := by
    constructor <;> simp [EventType.resource, Payload.before, Payload.after, Payload.occurredAt,
      hnow]
  dsimp only at hws₁ hws₂ hws₃
  obtain ⟨dir, entry, queue, hw, hb, hne, hrow, hafter⟩ := putGroup_wrote
    (.updateGroup tenantID id g rec)
    [⟨.selectGroup tenantID id, some before, ws₁, env₁, snap₁, pos₁⟩,
      ⟨.selectMembers id, members, ws₂, env₂, snap₂, pos₂⟩] hk (by simp [hws₁, hws₂]) hws₃ hrep hrest hfits hs
  have hput : ∀ c ∈ log.drop pos₃, .group r.id ∉ (engine pg).keysOf c.writes :=
    fun c hc => hs₃.held c hc (by rw [hws₃]; exact putGroup_key r [])
  refine ⟨.group r.id, dir, entry, queue, hw, fun _ => hafter, fun h => (hne h).elim, fun hR =>
    ⟨hne, hb.trans ?_⟩, ?_, by simp [hb]⟩
  · have hle : snap₁ ≤ pos₃ := Nat.le_trans (Nat.le_trans hs₁.snap_le (hs₃.after _ (by simp)))
      hs₃.snap_le
    have hq : ∀ c ∈ log.drop snap₁, .group r.id ∉ (engine pg).keysOf c.writes :=
      drop_of_take hle (hR _ _ _ hs₃.cond (by simp [Record.turn, Stmt.row, hk, Target.key])) hput
    simp only [Engine.view, hws₁] at hr₁ hmembers
    rw [hmembers]
    exact getGroupTx_image hr₁ hbefore hq hs₁.snap_le
      (Nat.le_trans hs₁.snap_le (Nat.le_trans (hs₂.after _ (by simp)) hs₂.snap_le))
  · rintro k ⟨⟩
    have hcur := (groupOf_eq_some.mp hc).1
    simp only [Engine.view, writesOf_append, writesOf_cons, writesOf_nil, hws₁, hws₂,
      List.append_nil, Engine.applyAll_nil] at hcur
    have hfind := (group_view db hput []).1
    simp only [Engine.view_nil, hcur] at hfind
    refine Or.inr (Or.inr ((congrArg (Option.map GroupRow.tenantID) hrow).trans ?_))
    rw [Db.owner, ← hfind, Option.map_some, Option.map_some, ht]

theorem dropGroup_image (d : Db) :
    ((engine pg).applyAll d [.dropGroup k]).image (.group k) = none := by
  simp [engine, Write.apply, Db.image, Db.groupImage]

theorem dropGroup_key : .group k ∈ (engine pg).keysOf [.dropGroup k] := by
  simp [Engine.keysOf, engine, Write.keys]

theorem deleteGroup_footprint {before : Group} {n : Nat} {members : List String} {clock : Time}
    (hm : hist.map Record.entry = deleteGroupHistory s tenantID id rec before members n clock)
    (hs : (engine pg).Sound db R log now [] hist) : ∃ t dir entry queue,
      Footprint pg s (.deleteGroup tenantID id rec) db R log now hist t dir entry queue := by
  obtain ⟨ws₁, env₁, snap₁, pos₁, h, rfl, hm₁⟩ := map_entry_eq_cons.mp hm
  obtain ⟨ws₂, env₂, snap₂, pos₂, h, rfl, hm₂⟩ := map_entry_eq_cons.mp hm₁
  obtain ⟨ws₃, env₃, snap₃, pos₃, rest, rfl, hrest⟩ := map_entry_eq_cons.mp hm₂
  obtain ⟨hs₁, hs₂, hs₃, hsrest⟩ := hs
  obtain ⟨k, r₁, hk, hr₁, hbefore, hws₁⟩ := selectGroup_ok hs₁.ran
  obtain ⟨hmembers, hws₂⟩ := selectMembers_ok hk hs₂.ran
  have hfits : Fits now .group .delete (some (.group { before with members })) none
      .groupDeleted (.group ⟨.groupDeleted, clock, id, some { before with members }, none⟩) := by
    constructor <;> simp [EventType.resource, Payload.before, Payload.after]
  have hran := deleteGroup_ok hk hs₃.ran
  dsimp only at hws₁ hws₂ hran
  subst hws₁ hws₂
  simp only [Engine.view, writesOf_cons, writesOf_nil, List.nil_append,
    List.append_nil, Engine.applyAll_nil] at hr₁ hmembers hran
  have h₁₃ : pos₁ ≤ snap₃ := hs₃.after _ (.head _)
  have h₃ : snap₃ ≤ pos₃ := hs₃.snap_le
  have hdir : ∀ w ∈ ws₃, w.ofGroup k := by
    rcases hran with rfl | ⟨rfl, _⟩
    · intro w hw
      obtain rfl := List.mem_singleton.mp hw
      rfl
    · simp
  obtain ⟨entry, queue, hw, hb, ha⟩ := recorded_wrote (.deleteGroup tenantID id rec)
    ws₃ hk hfits hsrest hrest (fun w hw => (hdir w hw).directory) (ofGroup_apart hdir)
    fun hne => hran.resolve_right (fun h => hne h.1) ▸ dropGroup_key
  refine ⟨.group k, ws₃, entry, queue, hw, ?_, ?_, ?_, ?_, by simp [hb]⟩
  · intro hne
    obtain rfl := hran.resolve_right fun h => hne h.1
    exact (hw.view_image _ _).trans ((dropGroup_image _).trans ha.symm)
  · rintro rfl
    refine ⟨ha, k, pos₁, ?_⟩
    rcases hran with hran | ⟨_, hsnap | hcur⟩
    · simp at hran
    · exact ⟨snap₃, rfl, h₁₃, Nat.le_trans h₃ hs₃.pos_le, by simp [hr₁, Mutation.tenantID], hsnap⟩
    · exact ⟨pos₃, rfl, Nat.le_trans h₁₃ h₃, hs₃.pos_le, by simp [hr₁, Mutation.tenantID], hcur⟩
  · intro hR
    have hundisturbed := hR _ _ _ hs₃.cond (by simp [Record.turn, Stmt.row, hk, Target.key])
    have h₁ : snap₁ ≤ pos₁ := hs₁.snap_le
    -- The group that was read first is still there when it is deleted.
    have hthere : ∀ p, pos₁ ≤ p → p ≤ pos₃ →
        ((engine pg).dbAt db log p).groupOf tenantID k = some r₁ := by
      intro p hp hp₃
      obtain ⟨hfind, ht⟩ := groupOf_eq_some.mp hr₁
      refine groupOf_eq_some.mpr ⟨?_, ht⟩
      rw [← hfind]
      exact (group_dbAt_take hp fun c hc => hundisturbed c (drop_take_subset h₁ hp₃ hc)).symm
    have hws : ws₃ = [.dropGroup k] := by
      refine hran.resolve_right ?_
      rintro ⟨_, hsnap | hcur⟩
      · simp [hthere snap₃ h₁₃ h₃] at hsnap
      · simp [hthere pos₃ (Nat.le_trans h₁₃ h₃) (Nat.le_refl _)] at hcur
    subst hws
    refine ⟨by simp, hb.trans ?_⟩
    have hq : ∀ c ∈ log.drop snap₁, .group k ∉ (engine pg).keysOf c.writes :=
      drop_of_take (Nat.le_trans h₁ (Nat.le_trans h₁₃ h₃)) hundisturbed
        fun c hc => hs₃.held c hc dropGroup_key
    rw [hmembers]
    exact getGroupTx_image hr₁ hbefore hq h₁
      (Nat.le_trans h₁ (Nat.le_trans (hs₂.after _ (.head _)) hs₂.snap_le))
  · rintro g ⟨⟩
    refine Or.inr ?_
    rw [hw.view_owner]
    rcases hran with rfl | ⟨rfl, _⟩
    · exact Or.inl (by simp [Db.owner, engine, Write.apply])
    · exact Or.inr rfl

/-- Every committed mutation leaves a footprint. -/
theorem history_footprint (hm : m.History s (hist.map Record.entry))
    (hs : (engine pg).Sound db R log now [] hist) :
    ∃ t dir entry queue, Footprint pg s m db R log now hist t dir entry queue := by
  generalize hes : hist.map Record.entry = es at hm
  cases hm with
  | createUser created => exact createUser_footprint hes hs
  | updateUser ch => exact updateUser_footprint hes hs
  | deactivateUser ch => exact deactivateUser_footprint hes hs
  | createGroup created n members => exact createGroup_footprint hes hs
  | updateGroup before members after n newMembers => exact updateGroup_footprint hes hs
  | deleteGroup before members n clock => exact deleteGroup_footprint hes hs

end Footprints

end Scimage.Store
