import Scimage.Scim.Server

/-! The outbox follows the audit trail, whatever is served side by side. -/
namespace Scimage.Scim

open Txn Engine
open Store (Mutation Db Write Env Postgres Stmt engine AuditRow DeliveryRow AdminStep)

variable {pg : Postgres} {s : Store} {R : Condition Stmt.Rows Write Env}
  {log : List (Commit Stmt.Rows Write Env)} {ws : List Write}

/-! ### What the server writes to the outbox -/

/-- Nothing has been sent yet. -/
def Pending (db : Db) : Prop := ∀ d ∈ db.deliveries, d.status = .pending

theorem exec_delivery {t : Stmt} {now : Txn.Time} {env : Env} {snap cur : Db} {rows : t.Rows}
    (h : Store.exec pg now env t snap cur = .ok (rows, ws)) {d : DeliveryRow}
    (hd : .addDelivery d ∈ ws ∨ .putDelivery d ∈ ws) : d.status = .pending := by
  cases t with
  | insertDelivery tenantID eventType targetID payload =>
    simp only [Store.exec, Store.execInsertDelivery] at h
    split at h
    · cases h
    · cases h
      rcases hd with hd | hd
      · obtain rfl := Write.addDelivery.inj (List.mem_singleton.mp hd)
        rfl
      · cases List.mem_singleton.mp hd
  | replayDelivery id =>
    simp only [Store.exec, Store.execReplayDelivery] at h
    split at h
    · cases h
      rcases hd with hd | hd
      · cases List.mem_singleton.mp hd
      · obtain rfl := Write.putDelivery.inj (List.mem_singleton.mp hd)
        rfl
    · cases h
      rcases hd with hd | hd <;> cases hd
  | _ =>
    rcases hd with hd | hd
    all_goals exact (Bool.false_ne_true (Store.exec_mayWrite h _ hd)).elim

theorem pending_applyAll {db : Db} (hdb : Pending db)
    (hws : ∀ d, .addDelivery d ∈ ws ∨ .putDelivery d ∈ ws → d.status = .pending) :
    Pending ((engine pg).applyAll db ws) := by
  induction ws generalizing db with
  | nil => exact hdb
  | cons w ws ih =>
    rw [Engine.applyAll_cons]
    refine ih ?_ fun d hd => hws d (hd.imp (List.mem_cons_of_mem _) (List.mem_cons_of_mem _))
    cases w with
    | addDelivery x =>
      intro d hd
      rcases List.mem_append.mp hd with hd | hd
      · exact hdb d hd
      · obtain rfl := List.mem_singleton.mp hd
        exact hws d (Or.inl List.mem_cons_self)
    | putDelivery x =>
      intro d hd
      obtain ⟨y, hy, rfl⟩ := List.mem_map.mp hd
      split
      · exact hws x (Or.inr List.mem_cons_self)
      · exact hdb y hy
    | _ => exact hdb

theorem history_pending (h : ServerLog pg s R log) : Pending ((engine pg).current .empty log) := by
  induction h with
  | nil => exact fun d hd => (List.not_mem_nil hd).elim
  | @tx log c h hc hs ih =>
    rw [Engine.current_snoc, Commit.writes]
    refine pending_applyAll ih fun d hd => ?_
    have hwritten : ∃ r ∈ c.hist, .addDelivery d ∈ r.writes ∨ .putDelivery d ∈ r.writes := by
      rcases hd with hd | hd
      all_goals obtain ⟨r, hr, hw⟩ := List.mem_flatMap.mp hd
      · exact ⟨r, hr, Or.inl hw⟩
      · exact ⟨r, hr, Or.inr hw⟩
    obtain ⟨r, hr, hw⟩ := hwritten
    obtain ⟨snap, cur, hran⟩ := hs.ran_of_mem hr
    exact exec_delivery hran hw
  | @pool log now r h hd hx ih =>
    rw [Engine.current_snoc, Commit.writes, writesOf_cons, writesOf_nil, List.append_nil]
    exact pending_applyAll ih fun d => exec_delivery hx

/-! ### Entry by entry -/

/-- A delivery that announces what an entry records, to the tenant that the entry names. -/
structure AnnouncedBy (a : AuditRow) (d : DeliveryRow) : Prop where
  target : ∃ t, a.target = some t ∧ d.target = some t
  tenant : a.tenantID ≠ "" → d.tenantID = a.tenantID
  before : d.payload.before = a.before
  after : d.payload.after = a.after
  deleted : d.eventType = .groupDeleted ↔ a.action = .delete
  deactivated : ∀ b x, a.before = some (.user b) → a.after = some (.user x) →
    b.active = true → x.active = false → d.eventType = .userDeactivated

/-- The logs that a commit keeps as they are. -/
structure SameLogs (d d' : Db) : Prop where
  successes : d'.successes = d.successes
  deliveries : d'.deliveries = d.deliveries

theorem same_of_auditLog {d d' : Db} (ha : d'.auditLog = d.auditLog)
    (hd : d'.deliveries = d.deliveries) : SameLogs d d' :=
  ⟨by rw [Db.successes, ha, Db.successes], hd⟩

variable (pg) in
/-- An operator finds no parked delivery to replay. -/
theorem operated_sameLogs (db : Db) {d : Db} (hd : Pending d) (h : AdminStep d ws) :
    SameLogs db ((engine pg).applyAll db ws) := by
  cases h with
  | replayDeadLetter id x now a hx ha =>
    have hmem : x ∈ d.deliveries := List.mem_of_find?_eq_some hx
    cases (hd x hmem).symm.trans (Store.dead_id hx).2
  | _ => exact same_of_auditLog rfl rfl

theorem looked_sameLogs {t : Stmt} {now : Txn.Time} {env : Env} {d : Db} {rows : t.Rows}
    (ht : Looked t ∨ Store.Denied t) (h : Store.exec pg now env t d d = .ok (rows, ws)) :
    SameLogs d ((engine pg).applyAll d ws) := by
  rcases ht with ht | ht
  · have hws : ∀ w ∈ ws, ∃ r, w = .putToken r := by
      intro w hw
      have hmay := Store.exec_mayWrite h w hw
      cases t <;> first
        | exact ht.elim
        | (cases w <;> first | exact ⟨_, rfl⟩ | exact (Bool.false_ne_true hmay).elim)
    clear h
    induction ws generalizing d with
    | nil => exact ⟨rfl, rfl⟩
    | cons w ws ih =>
      obtain ⟨r, rfl⟩ := hws w List.mem_cons_self
      obtain ⟨ha, hd⟩ := ih (d := (engine pg).apply d (.putToken r))
        fun x hx => hws x (List.mem_cons_of_mem _ hx)
      exact ⟨ha, hd⟩
  · have hdenial := Store.denied_denial ht h
    exact ⟨hdenial.successes, hdenial.deliveries⟩

theorem history_announced (h : ServerLog pg ⟨true⟩ R log) :
    List.Forall₂ AnnouncedBy ((engine pg).current .empty log).successes
      ((engine pg).current .empty log).deliveries := by
  induction h with
  | nil => exact .nil
  | @tx log c h hc hs ih =>
    rcases hc with ⟨m, hown, hm⟩ | ho
    · obtain ⟨t, dir, entry, queue, hf⟩ := Store.history_footprint hm hs
      obtain ⟨d, rfl⟩ := List.length_eq_one_iff.mp hf.queue_length
      have hd := hf.announced d List.mem_cons_self
      rw [Engine.current_commit, hf.toWrote.successes, (hf.logs _).2]
      have hlast : AnnouncedBy entry d :=
        ⟨⟨t, hf.target, hd.target⟩, fun hne => by rw [hd.tenant, hf.tenant, hown (hf.tenant ▸ hne)],
          hd.before, hd.after, hd.deleted.trans hf.deleted.symm, hd.deactivated⟩
      exact List.rel_append ih (.cons hlast .nil)
    · obtain ⟨pos, hop, -⟩ := Store.operated_step ho hs
      have hpending := history_pending (h.of_prefix (log.take_prefix pos))
      rw [Engine.current_take] at hpending
      rw [Engine.current_snoc, Commit.writes]
      have hsame := operated_sameLogs pg ((engine pg).current .empty log) hpending hop
      rw [hsame.successes, hsame.deliveries]
      exact ih
  | @pool log now r h hd hx ih =>
    rw [Engine.current_snoc, Commit.writes, writesOf_cons, writesOf_nil, List.append_nil]
    have hsame := looked_sameLogs hd hx
    rw [hsame.successes, hsame.deliveries]
    exact ih

/-- The commits of a server with change events on. -/
theorem reach_announcing {ι : Type} [DecidableEq ι] [Fintype ι] {chain : Chain}
    {sha256 : String → List UInt8} {works : ι → Work} {st : Server ι}
    (hevents : chain.handler.store.changeEvents = true)
    (h : (engine pg).Reach .empty (serverProgs chain sha256 works) (fun _ _ => True) st) :
    ServerLog pg ⟨true⟩ (fun _ _ _ => True) st.log := by
  have hall : (engine pg).Reach .empty (serverProgs chain sha256 works)
      ((engine pg).Meets fun _ _ _ => True) st :=
    h.mono fun _ e _ => by cases e <;> simp [Meets]
  have hlog := reach_served hall
  have hstore : chain.handler.store = ⟨true⟩ := by
    cases hs : chain.handler.store with
    | mk events =>
      obtain rfl : events = true := by rwa [hs] at hevents
      rfl
  rwa [hstore] at hlog

/-- With change events on, in every state that requests and operators' calls reach side by side, the
deliveries are those of the successful audit entries, one for each and in their order. -/
theorem served_changes_announced {ι : Type} [DecidableEq ι] [Fintype ι] {chain : Chain}
    {sha256 : String → List UInt8} {works : ι → Work} {st : Server ι}
    (hevents : chain.handler.store.changeEvents = true)
    (h : (engine pg).Reach .empty (serverProgs chain sha256 works) (fun _ _ => True) st) :
    List.Forall₂ AnnouncedBy (st.db pg).successes (st.db pg).deliveries :=
  history_announced (reach_announcing hevents h)

def announcingChain : Chain := { plainChain with handler := { plainHandler with store := ⟨true⟩ } }

theorem announcing_run : ∃ st : Server Store.Client,
    (engine Store.plainText).steps .empty (fun _ _ => True)
      (.start (serverProgs announcingChain Webhook.bytes staffWorks))
      (workSteps .first 5 ++ workSteps .second 4 ++ workSteps .third 3 ++ workSteps .second 4 ++
        workSteps .third 9) = some st ∧
    (st.db Store.plainText).deliveries.length = 2 :=
  Option.map_eq_some_iff.mp rfl

/-- The user's request alone. -/
theorem announcing_user : ∃ st : Server Store.Client,
    (engine Store.plainText).steps .empty (fun _ _ => True)
      (.start (serverProgs announcingChain Webhook.bytes staffWorks))
      (workSteps .first 5 ++ workSteps .second 8) = some st ∧
    ((st.db Store.plainText).deliveries.map fun d => d.targetID.isSome,
      (st.db Store.plainText).successes.length) = ([true], 1) :=
  Option.map_eq_some_iff.mp rfl

theorem served_changes_announced_staff : ∃ st : Server Store.Client,
    (st.db Store.plainText).deliveries.length = 2 ∧
      List.Forall₂ AnnouncedBy (st.db Store.plainText).successes (st.db Store.plainText).deliveries := by
  obtain ⟨st, hst, hlength⟩ := announcing_run
  exact ⟨st, hlength, served_changes_announced rfl (reach_steps .start hst)⟩

end Scimage.Scim
